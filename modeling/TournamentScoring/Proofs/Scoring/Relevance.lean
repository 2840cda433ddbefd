import TournamentScoring.Proofs.Scoring.Breakdown

/-!
# What an evaluation looks at

An evaluation looks up values under the ids of parts, groups under the ids of
parts with a bonus, and counts under the ids of rules, where a count that is left
out is zero.  Of everything else in an input only the keys of penalties matter,
because a key that belongs to no rule is an error.  Two inputs that agree on this
much have one result.
-/

namespace TournamentScoring

/-- A profile has no use for what these inputs differ in: entries that it does
not ask for, and counts that are zero or left out. -/
structure Profile.Equates (profile : Profile) (input other : ScoreInput) :
    Prop where
  value_eq : ∀ part ∈ profile.parts,
    input.values.get? part.id = other.values.get? part.id
  group_eq : ∀ part ∈ profile.parts, part.cooperativeBonus.isSome = true →
    input.cooperative.get? part.id = other.cooperative.get? part.id
  count_eq : ∀ rule ∈ profile.penalties,
    (input.penalties.get? rule.id).getD 0 = (other.penalties.get? rule.id).getD 0
  unknown_iff : ∀ id, id ∉ profile.penalties.map PenaltyRule.id →
    (id ∈ input.penalties.keys ↔ id ∈ other.penalties.keys)

namespace Profile.Equates

variable {profile : Profile} {input other another : ScoreInput}

theorem refl (profile : Profile) (input : ScoreInput) :
    profile.Equates input input :=
  ⟨fun _ _ => rfl, fun _ _ _ => rfl, fun _ _ => rfl, fun _ _ => Iff.rfl⟩

theorem trans (hfirst : profile.Equates input other)
    (hsecond : profile.Equates other another) : profile.Equates input another where
  value_eq part hpart :=
    (hfirst.value_eq part hpart).trans (hsecond.value_eq part hpart)
  group_eq part hpart hbonus :=
    (hfirst.group_eq part hpart hbonus).trans (hsecond.group_eq part hpart hbonus)
  count_eq rule hrule :=
    (hfirst.count_eq rule hrule).trans (hsecond.count_eq rule hrule)
  unknown_iff id hid := (hfirst.unknown_iff id hid).trans (hsecond.unknown_iff id hid)

/-! ## Neutral entries -/

/-- A value under no part's id is new or replaced. -/
theorem insert_value (profile : Profile) (input : ScoreInput) {id : String}
    (raw : RawValue) (hid : id ∉ profile.parts.map Part.id) :
    profile.Equates input { input with values := input.values.insert id raw } := by
  refine { refl profile input with value_eq := fun part hpart => ?_ }
  have hne : part.id ≠ id := fun heq => hid (List.mem_map.mpr ⟨part, hpart, heq⟩)
  rw [KeyedTable.get?_insert, if_neg hne]

/-- A group under no id of a part with a bonus is new or replaced. -/
theorem insert_group (profile : Profile) (input : ScoreInput) {id : String}
    (group : List RawValue)
    (hid : ∀ part ∈ profile.parts, part.cooperativeBonus.isSome = true → part.id ≠ id) :
    profile.Equates input
      { input with cooperative := input.cooperative.insert id group } := by
  refine { refl profile input with group_eq := fun part hpart hbonus => ?_ }
  rw [KeyedTable.get?_insert, if_neg (hid part hpart hbonus)]

/-- The count zero is given for a rule that had no count. -/
theorem insert_zero (profile : Profile) (input : ScoreInput) {id : String}
    (hid : id ∈ profile.penalties.map PenaltyRule.id)
    (hcount : (input.penalties.get? id).getD 0 = 0) :
    profile.Equates input
      { input with penalties := input.penalties.insert id 0 } := by
  refine { refl profile input with
    count_eq := fun rule _ => ?_, unknown_iff := fun key hkey => ?_ }
  · rw [KeyedTable.get?_insert]
    split
    · rename_i heq
      rw [heq, hcount]
      rfl
    · rfl
  · have hne : key ≠ id := fun heq => hkey (heq ▸ hid)
    rw [KeyedTable.mem_keys_insert, or_iff_right hne]

/-! ## Parts -/

theorem ownPoints_eq (hequates : profile.Equates input other) {part : Part}
    (hpart : part ∈ profile.parts) : part.ownPoints input = part.ownPoints other := by
  rw [Part.ownPoints, Part.ownPoints, hequates.value_eq part hpart]

theorem bonusPoints_eq (hequates : profile.Equates input other) {part : Part}
    (hpart : part ∈ profile.parts) :
    part.bonusPoints input = part.bonusPoints other := by
  rw [Part.bonusPoints, Part.bonusPoints]
  cases hbonus : part.cooperativeBonus with
  | none => rfl
  | some bonus =>
    have hgroup : part.group input = part.group other := by
      rw [Part.group, Part.group,
        hequates.group_eq part hpart (by rw [hbonus, Option.isSome_some])]
    simp only [hgroup]

theorem missingErrors_eq (hequates : profile.Equates input other) {part : Part}
    (hpart : part ∈ profile.parts) :
    part.missingErrors input = part.missingErrors other := by
  simp only [Part.missingErrors, KeyedTable.mem_keys_iff_isSome,
    hequates.value_eq part hpart]

/-- The group and the own value of a part are refused alike. -/
theorem faults_eq (hequates : profile.Equates input other) {part : Part}
    (hpart : part ∈ profile.parts) :
    part.groupErrors input ++ part.valueErrors input =
      part.groupErrors other ++ part.valueErrors other := by
  rw [← errorsOf_bonusPoints, ← errorsOf_bonusPoints, valueErrors_eq, valueErrors_eq,
    hequates.bonusPoints_eq hpart, hequates.ownPoints_eq hpart]

theorem entry?_eq (hequates : profile.Equates input other) {part : Part}
    (hpart : part ∈ profile.parts) : part.entry? input = part.entry? other := by
  rw [Part.entry?, Part.entry?, hequates.bonusPoints_eq hpart,
    hequates.ownPoints_eq hpart]

theorem filterMap_entry?_eq (hequates : profile.Equates input other) :
    profile.parts.filterMap (fun part => part.entry? input) =
      profile.parts.filterMap fun part => part.entry? other :=
  List.filterMap_congr fun _ hpart => hequates.entry?_eq hpart

/-! ## Penalties -/

theorem lines_eq (hequates : profile.Equates input other) :
    profile.penalties.map (fun rule => rule.line input.penalties) =
      profile.penalties.map fun rule => rule.line other.penalties := by
  refine List.map_congr_left fun rule hrule => ?_
  rw [PenaltyRule.line, PenaltyRule.line, hequates.count_eq rule hrule]

/-- The keys that belong to no rule come out alike, and in one order, because
both tables list their keys in increasing order. -/
theorem flatMap_occurrenceErrors_eq (hequates : profile.Equates input other) :
    input.penalties.keys.flatMap (occurrenceErrors profile.penalties) =
      other.penalties.keys.flatMap (occurrenceErrors profile.penalties) := by
  have hkeys : input.penalties.keys.filter
        (fun id => !profile.penalties.any fun rule => rule.id == id) =
      other.penalties.keys.filter
        fun id => !profile.penalties.any fun rule => rule.id == id := by
    refine KeyedTable.eq_of_pairwise_of_mem_iff (fun _ _ => String.lt_asymm)
      (input.penalties.pairwise_keys.filter _)
      (other.penalties.pairwise_keys.filter _) fun id => ?_
    rw [List.mem_filter, List.mem_filter]
    refine and_congr_left fun hunknown => hequates.unknown_iff id fun hid => ?_
    obtain ⟨rule, hrule, heq⟩ := List.mem_map.mp hid
    have hany : (profile.penalties.any fun rule => rule.id == id) = true :=
      List.any_eq_true.mpr ⟨rule, hrule, beq_iff_eq.mpr heq⟩
    rw [hany] at hunknown
    cases hunknown
  rw [← unknownPenalties_eq, ← unknownPenalties_eq, unknownPenalties,
    unknownPenalties, hkeys]

/-! ## The outcome -/

theorem inputErrors_eq (hequates : profile.Equates input other) :
    profile.inputErrors input = profile.inputErrors other := by
  rw [Profile.inputErrors, Profile.inputErrors, hequates.flatMap_occurrenceErrors_eq,
    List.flatMap_congr fun _ hpart => hequates.missingErrors_eq hpart,
    List.flatMap_congr fun _ hpart => hequates.faults_eq hpart]

theorem symbols_eq (hequates : profile.Equates input other) :
    profile.symbols input = profile.symbols other := by
  rw [Profile.symbols, Profile.symbols, hequates.filterMap_entry?_eq,
    hequates.lines_eq]

theorem breakdown_eq (hequates : profile.Equates input other) (formulaValue : Float) :
    profile.breakdown input formulaValue = profile.breakdown other formulaValue := by
  rw [Profile.breakdown, Profile.breakdown, hequates.filterMap_entry?_eq,
    hequates.lines_eq]

end Profile.Equates

/-- What a profile does not ask for has no influence on the result, be it a score
with its breakdown or a failure with its errors. -/
theorem scoreMatch_ignores_neutral_entries {profile : Profile}
    {input other : ScoreInput} (hequates : profile.Equates input other)
    (settings : EngineSettings) :
    profile.scoreMatch input settings = profile.scoreMatch other settings := by
  by_cases herrors : profile.inputErrors input = []
  · have hothers : profile.inputErrors other = [] :=
      hequates.inputErrors_eq.symm.trans herrors
    rw [scoreMatch_of_inputErrors_eq_nil _ _ _ herrors,
      scoreMatch_of_inputErrors_eq_nil _ _ _ hothers, hequates.symbols_eq]
    simp only [hequates.breakdown_eq]
  · have hothers : profile.inputErrors other ≠ [] := fun hnil =>
      herrors (hequates.inputErrors_eq.trans hnil)
    rw [scoreMatch_of_inputErrors_ne_nil _ _ _ herrors,
      scoreMatch_of_inputErrors_ne_nil _ _ _ hothers, hequates.inputErrors_eq]

/-- The pair without a penalty. -/
def quietInput : ScoreInput where
  values := pairInput.values
  penalties := KeyedTable.empty
  cooperative := pairInput.cooperative

/-- The same, with a misspelt part among the values and among the groups, and with
a rule that was not called. -/
def noisyInput : ScoreInput where
  values := quietInput.values.insert "atuo" (.flag true)
  penalties := quietInput.penalties.insert "foul" 0
  cooperative := quietInput.cooperative.insert "atuo" []

theorem sharedIdProfile_ignores_noise :
    sharedIdProfile.Equates quietInput noisyInput ∧
      sharedIdProfile.scoreMatch quietInput centSettings =
        sharedIdProfile.scoreMatch noisyInput centSettings ∧
      ∃ result, sharedIdProfile.scoreMatch noisyInput centSettings = .ok result := by
  have hequates : sharedIdProfile.Equates quietInput noisyInput := by
    have hvalue := Profile.Equates.insert_value sharedIdProfile quietInput
      (.flag true) (show "atuo" ∉ sharedIdProfile.parts.map Part.id by decide)
    have hcount := Profile.Equates.insert_zero sharedIdProfile
      { quietInput with values := quietInput.values.insert "atuo" (.flag true) }
      (show "foul" ∈ sharedIdProfile.penalties.map PenaltyRule.id by decide) rfl
    have hgroup := Profile.Equates.insert_group sharedIdProfile
      { noisyInput with cooperative := quietInput.cooperative } []
      (show ∀ part ∈ sharedIdProfile.parts,
        part.cooperativeBonus.isSome = true → part.id ≠ "atuo" by decide)
    exact (hvalue.trans hcount).trans hgroup
  have herrors : sharedIdProfile.inputErrors noisyInput = [] := by
    rfl
  have hvalue : evaluateFormula sharedIdProfile.totalFormula
      (sharedIdProfile.symbols noisyInput) centSettings = .ok 22.0 := by
    decide +kernel
  refine ⟨hequates, scoreMatch_ignores_neutral_entries hequates centSettings, ?_⟩
  rw [scoreMatch_of_inputErrors_eq_nil _ _ _ herrors, hvalue]
  exact ⟨_, rfl⟩

end TournamentScoring
