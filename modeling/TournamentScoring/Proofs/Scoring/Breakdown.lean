import TournamentScoring.Proofs.Scoring.FinalScore

/-!
# What a breakdown says

A score comes with a breakdown that is complete: every part has its entry and
every rule its line, in their order.  Nothing else is needed to compute the score
again, because the names of the formula can be looked up in the breakdown alone.
A bonus in the breakdown is one that every value of the group has earned.
-/

namespace TournamentScoring

/-- What the entry of a part must say for an input. -/
structure Part.Earns (part : Part) (input : ScoreInput) (entry : PartScore) :
    Prop where
  id_eq : entry.id = part.id
  label_eq : entry.label = part.label
  points_eq : ∃ raw, input.values.get? part.id = some raw ∧
    part.score raw = .ok entry.points
  no_bonus : part.cooperativeBonus = none → entry.bonus = 0.0
  bonus_eq : ∀ bonus, part.cooperativeBonus = some bonus →
    bonus.resolve part (part.group input) = .ok entry.bonus
  scope_isSome_iff : entry.bonusScope.isSome = true ↔ 0.0 < entry.bonus
  scope_eq : ∀ scope, entry.bonusScope = some scope →
    ∃ bonus, part.cooperativeBonus = some bonus ∧ scope = bonus.appliesTo

/-- What a name stands for by the breakdown alone.  The penalty totals take their
names before any part, and of several parts with one id the last one counts. -/
def ScoreBreakdown.meaning (breakdown : ScoreBreakdown) (name : String) :
    Option Float :=
  if name = netPenaltiesName then some breakdown.penaltyTotals.net
  else if name = opponentPenaltiesName then
    some breakdown.penaltyTotals.opponentTotal
  else if name = selfPenaltiesName then some breakdown.penaltyTotals.selfTotal
  else (breakdown.parts.reverse.find? fun entry => entry.id == name).map
    PartScore.total

/-! ## One entry -/

theorem ownPoints_eq_some_ok {part : Part} {input : ScoreInput} {points : Float}
    (hpoints : part.ownPoints input = some (.ok points)) :
    ∃ raw, input.values.get? part.id = some raw ∧
      part.score raw = .ok points := by
  rw [Part.ownPoints, Option.map_eq_some_iff] at hpoints
  exact hpoints

theorem earns_scored {part : Part} {input : ScoreInput} {points bonus : Float}
    (hpoints : part.ownPoints input = some (.ok points))
    (hbonus : part.bonusPoints input = .ok bonus) :
    part.Earns input (part.scored points bonus) := by
  have hnone : part.cooperativeBonus = none → bonus = 0.0 := by
    intro hpart
    rw [Part.bonusPoints, hpart] at hbonus
    exact (Except.ok.inj hbonus).symm
  have hsome : ∀ found, part.cooperativeBonus = some found →
      found.resolve part (part.group input) = .ok bonus := by
    intro found hpart
    rwa [Part.bonusPoints, hpart] at hbonus
  refine ⟨rfl, rfl, ownPoints_eq_some_ok hpoints, hnone, hsome, ?_, ?_⟩
  · by_cases hpositive : 0.0 < bonus
    · cases hpart : part.cooperativeBonus with
      | none =>
        rw [hnone hpart] at hpositive
        exact absurd hpositive (by decide)
      | some found => simp [Part.scored, hpositive, hpart]
    · simp [Part.scored, hpositive]
  · intro scope hscope
    rw [Part.scored] at hscope
    dsimp only at hscope
    split at hscope
    · obtain ⟨found, hpart, heq⟩ := Option.map_eq_some_iff.mp hscope
      exact ⟨found, hpart, heq.symm⟩
    · cases hscope

/-! ## All entries -/

/-- Where every part has an entry, the entries stand beside the parts. -/
theorem forall₂_filterMap_entry? {input : ScoreInput} {parts : List Part}
    (hentry : ∀ part ∈ parts, ∃ entry, part.entry? input = some entry ∧
      part.Earns input entry) :
    List.Forall₂ (fun part entry => part.Earns input entry) parts
      (parts.filterMap fun part => part.entry? input) := by
  induction parts with
  | nil => exact List.Forall₂.nil
  | cons part rest ih =>
    obtain ⟨entry, hpart, hearns⟩ := hentry part List.mem_cons_self
    rw [List.filterMap_cons, hpart]
    exact List.Forall₂.cons hearns
      (ih fun other hother => hentry other (List.mem_cons_of_mem _ hother))

theorem forall₂_earns_breakdown {profile : Profile} {input : ScoreInput}
    (herrors : profile.inputErrors input = []) (formulaValue : Float) :
    List.Forall₂ (fun part entry => part.Earns input entry) profile.parts
      (profile.breakdown input formulaValue).parts := by
  refine forall₂_filterMap_entry? fun part hpart => ?_
  obtain ⟨points, bonus, hpoints, hbonus, hentry⟩ := entry?_eq_some herrors hpart
  exact ⟨_, hentry, earns_scored hpoints hbonus⟩

/-! ## The names of the formula -/

theorem lookup_map_total (entries : List PartScore) (name : String) :
    (entries.map fun entry => (entry.id, entry.total)).lookup name =
      (entries.find? fun entry => entry.id == name).map PartScore.total := by
  induction entries with
  | nil => rfl
  | cons entry rest ih =>
    rw [List.map_cons, KeyedTable.lookup_cons_eq_ite, List.find?_cons, ih]
    by_cases heq : name = entry.id
    · simp [heq]
    · have hbeq : (entry.id == name) = false := beq_eq_false_iff_ne.mpr
        fun h => heq h.symm
      rw [if_neg heq, hbeq]

/-- The table of the formula says what the breakdown says. -/
theorem get?_symbolTable (breakdown : ScoreBreakdown) (name : String) :
    (symbolTable breakdown.parts breakdown.penaltyTotals).get? name =
      breakdown.meaning name := by
  -- Of two entries with one name the later one counts, so the search runs from
  -- the end: through the penalty totals first, then through the parts.
  rw [symbolTable, KeyedTable.get?_ofList, List.reverse_append,
    ← List.map_reverse]
  simp only [List.reverse_cons, List.reverse_nil, List.nil_append,
    List.cons_append, KeyedTable.lookup_cons_eq_ite, lookup_map_total]
  rfl

/-- Any table that says what the breakdown says gives the formula its value. -/
theorem evaluate_of_meaning {source : String} {breakdown : ScoreBreakdown}
    {settings : EngineSettings} {value : Float}
    (hvalue : evaluateFormula source
      (symbolTable breakdown.parts breakdown.penaltyTotals) settings = .ok value)
    {table : Formula.SymbolTable}
    (htable : ∀ name, table.get? name = breakdown.meaning name) :
    Formula.evaluate source table = .ok value := by
  obtain ⟨expression, hcompile, hevaluate, -⟩ := evaluateFormula_eq_ok hvalue
  rw [Formula.evaluate, hcompile]
  calc
    expression.evaluate table =
        expression.evaluate
          (symbolTable breakdown.parts breakdown.penaltyTotals) := by
      refine Formula.Expression.evaluate_congr fun name _ => ?_
      rw [htable, get?_symbolTable]
    _ = .ok value := hevaluate

/-- A breakdown has one entry per part and one line per rule.  A table of what it
says gives the formula its value again, and the score is that value or its
rounding. -/
theorem scoreMatch_breakdown_recomputes {profile : Profile} {input : ScoreInput}
    {settings : EngineSettings} {result : MatchScore}
    (hresult : profile.scoreMatch input settings = .ok result) :
    List.Forall₂ (fun part entry => part.Earns input entry) profile.parts
        result.breakdown.parts ∧
      result.breakdown.penalties =
        profile.penalties.map (fun rule => rule.line input.penalties) ∧
      (∃ table : Formula.SymbolTable,
        ∀ name, table.get? name = result.breakdown.meaning name) ∧
      (∀ table : Formula.SymbolTable,
        (∀ name, table.get? name = result.breakdown.meaning name) →
          Formula.evaluate profile.totalFormula table =
            .ok result.breakdown.formulaValue) ∧
      (settings.scoreDecimals = none →
        result.score = result.breakdown.formulaValue) ∧
      ∀ decimals, settings.scoreDecimals = some decimals →
        result.score =
          Decimal.roundTo result.breakdown.formulaValue decimals := by
  obtain ⟨formulaValue, herrors, hvalue, rfl⟩ := scoreMatch_eq_ok hresult
  refine ⟨forall₂_earns_breakdown herrors formulaValue, rfl,
    ⟨profile.symbols input,
      get?_symbolTable (profile.breakdown input formulaValue)⟩, ?_, ?_, ?_⟩
  · intro table htable
    exact evaluate_of_meaning hvalue htable
  · intro hdecimals
    simp only [finalScore, hdecimals]
    rfl
  · intro decimals hdecimals
    simp only [finalScore, hdecimals]
    rfl

/-- Two parts share an id, and the second one has a bonus for pairs. -/
def sharedIdProfile : Profile where
  version := 1
  parts :=
    [⟨"auto", "Auto", none, none, .number 5.0 (some 10)⟩,
      ⟨"auto", "Again", none, some ⟨2, 10, .perTeam, none⟩, .number 1.0 none⟩]
  penalties := [⟨"foul", "Foul", none, 5, .opponent, .subtract⟩]
  totalFormula := "auto + NET_PENALTIES / 4"
  notes := none

def pairInput : ScoreInput where
  values := KeyedTable.empty.insert "auto" (.number 12.0)
  penalties := KeyedTable.empty.insert "foul" 2
  cooperative := KeyedTable.empty.insert "auto" [.number 12.0, .number 1.0]

theorem sharedIdProfile_recomputes :
    ∃ result,
      sharedIdProfile.scoreMatch pairInput centSettings = .ok result ∧
        result.breakdown.parts.map PartScore.total = [50.0, 22.0] ∧
        (∃ table : Formula.SymbolTable, table.get? "auto" = some 22.0 ∧
          Formula.evaluate sharedIdProfile.totalFormula table = .ok 19.5) ∧
        result.score = Decimal.roundTo 19.5 2 := by
  have herrors : sharedIdProfile.inputErrors pairInput = [] := by
    rfl
  have hvalue : evaluateFormula sharedIdProfile.totalFormula
      (sharedIdProfile.symbols pairInput) centSettings = .ok 19.5 := by
    decide +kernel
  have hresult : sharedIdProfile.scoreMatch pairInput centSettings =
      .ok ⟨Decimal.roundTo 19.5 2, sharedIdProfile.breakdown pairInput 19.5⟩ := by
    rw [scoreMatch_of_inputErrors_eq_nil _ _ _ herrors, hvalue]
    rfl
  obtain ⟨-, -, ⟨table, htable⟩, hevaluate, -, hscore⟩ :=
    scoreMatch_breakdown_recomputes hresult
  refine ⟨_, hresult, by decide +kernel, ⟨table, ?_, hevaluate table htable⟩,
    hscore 2 rfl⟩
  rw [htable]
  decide +kernel

/-! ## Who earned a bonus -/

/-- A granted bonus is the bonus of the part, and its group is complete and has
achieved the part. -/
theorem Part.Earns.group_achieved {part : Part} {input : ScoreInput}
    {entry : PartScore} (hearns : part.Earns input entry)
    (hbonus : 0.0 < entry.bonus) :
    ∃ bonus, part.cooperativeBonus = some bonus ∧
      (part.group input).length = bonus.requiredTeamCount.toNat ∧
      ∀ raw ∈ part.group input, part.isAchieved raw = .ok true := by
  cases hpart : part.cooperativeBonus with
  | none =>
    rw [hearns.no_bonus hpart] at hbonus
    exact absurd hbonus (by decide)
  | some bonus =>
    obtain ⟨hlength, -, hall⟩ :=
      CooperativeBonus.resolve_eq_ok (hearns.bonus_eq bonus hpart)
    refine ⟨bonus, rfl, hlength, ?_⟩
    rcases hall with ⟨hachieved, -⟩ | ⟨-, hnothing⟩
    · exact hachieved
    · rw [hnothing] at hbonus
      exact absurd hbonus (by decide)

/-- The group alone decides about the bonus of a part. -/
theorem Part.Earns.bonus_eq_of_group_eq {part : Part} {input otherInput : ScoreInput}
    {entry otherEntry : PartScore} (hearns : part.Earns input entry)
    (hother : part.Earns otherInput otherEntry)
    (hgroup : part.group otherInput = part.group input) :
    otherEntry.bonus = entry.bonus := by
  cases hpart : part.cooperativeBonus with
  | none => rw [hearns.no_bonus hpart, hother.no_bonus hpart]
  | some bonus =>
    have hresolved := hother.bonus_eq bonus hpart
    rw [hgroup, hearns.bonus_eq bonus hpart] at hresolved
    exact (Except.ok.inj hresolved).symm

theorem earns_of_mem_zip {profile : Profile} {input : ScoreInput}
    {settings : EngineSettings} {result : MatchScore}
    (hresult : profile.scoreMatch input settings = .ok result)
    {part : Part} {entry : PartScore}
    (hentry : (part, entry) ∈ profile.parts.zip result.breakdown.parts) :
    part.Earns input entry := by
  obtain ⟨formulaValue, herrors, -, rfl⟩ := scoreMatch_eq_ok hresult
  exact (List.forall₂_iff_zip.mp (forall₂_earns_breakdown herrors formulaValue)).2 hentry

/-- A bonus is credited only if the group has the required size and every value
in it is an achievement.  The own value is judged apart from the group, so it is
known to be an achievement where it stands in the group; otherwise it does not matter,
as any input with this group has the same bonus. -/
theorem scoreMatch_bonus_earned_by_group {profile : Profile} {input : ScoreInput}
    {settings : EngineSettings} {result : MatchScore}
    (hresult : profile.scoreMatch input settings = .ok result)
    {part : Part} {entry : PartScore}
    (hentry : (part, entry) ∈ profile.parts.zip result.breakdown.parts)
    (hbonus : 0.0 < entry.bonus) :
    ∃ bonus own, part.cooperativeBonus = some bonus ∧
      (part.group input).length = bonus.requiredTeamCount.toNat ∧
      (∀ raw ∈ part.group input, part.isAchieved raw = .ok true) ∧
      input.values.get? part.id = some own ∧
      (own ∈ part.group input → part.isAchieved own = .ok true) ∧
      ∀ (otherInput : ScoreInput) (otherResult : MatchScore) (otherEntry : PartScore),
        profile.scoreMatch otherInput settings = .ok otherResult →
        (part, otherEntry) ∈ profile.parts.zip otherResult.breakdown.parts →
        part.group otherInput = part.group input →
        otherEntry.bonus = entry.bonus := by
  have hearns := earns_of_mem_zip hresult hentry
  obtain ⟨bonus, hpart, hlength, hachieved⟩ := hearns.group_achieved hbonus
  obtain ⟨own, hown, -⟩ := hearns.points_eq
  refine ⟨bonus, own, hpart, hlength, hachieved, hown, hachieved own, ?_⟩
  intro otherInput otherResult otherEntry hother hotherEntry hgroup
  exact hearns.bonus_eq_of_group_eq (earns_of_mem_zip hother hotherEntry) hgroup

/-- A flag with a bonus for pairs. -/
def climbPart : Part where
  id := "climb"
  label := "Climb"
  description := none
  cooperativeBonus := some ⟨2, 10, .perTeam, none⟩
  kind := .boolean 20.0

def climbProfile : Profile where
  version := 1
  parts := [climbPart]
  penalties := []
  totalFormula := "climb"
  notes := none

/-- The own flag, and the flags of a group that climbed. -/
def climbInput (own : Bool) : ScoreInput where
  values := KeyedTable.empty.insert "climb" (.flag own)
  penalties := KeyedTable.empty
  cooperative := KeyedTable.empty.insert "climb" [.flag true, .flag true]

def climbEntry (own : Bool) : PartScore where
  id := "climb"
  label := "Climb"
  points := if own then 20.0 else 0.0
  bonus := 10.0
  bonusScope := some .perTeam

/-- The group earns the bonus whatever the own flag says. -/
theorem scoreMatch_climbProfile (own : Bool) :
    ∃ result, climbProfile.scoreMatch (climbInput own) EngineSettings.default =
        .ok result ∧
      (climbPart, climbEntry own) ∈
        climbProfile.parts.zip result.breakdown.parts := by
  have herrors : climbProfile.inputErrors (climbInput own) = [] := by
    cases own with
    | false => rfl
    | true => rfl
  have hvalue : evaluateFormula climbProfile.totalFormula
      (climbProfile.symbols (climbInput own)) EngineSettings.default =
        .ok (if own then 30.0 else 10.0) := by
    cases own with
    | false => decide +kernel
    | true => decide +kernel
  have hparts : (climbProfile.breakdown (climbInput own)
      (if own then 30.0 else 10.0)).parts = [climbEntry own] := by
    cases own with
    | false => decide +kernel
    | true => decide +kernel
  have hresult := scoreMatch_of_inputErrors_eq_nil climbProfile
    (climbInput own) EngineSettings.default herrors
  rw [hvalue] at hresult
  refine ⟨_, hresult, ?_⟩
  rw [hparts]
  exact List.mem_singleton_self _

/-- A side that climbed with its partner has the bonus, and its own flag, which
stands in the group, is an achievement.  It would have the bonus of this group without. -/
theorem climbProfile_bonus_earned :
    ∃ result,
      climbProfile.scoreMatch (climbInput true) EngineSettings.default =
          .ok result ∧
        (climbPart, climbEntry true) ∈
          climbProfile.parts.zip result.breakdown.parts ∧
        0.0 < (climbEntry true).bonus ∧
        RawValue.flag true ∈ climbPart.group (climbInput true) ∧
        climbPart.isAchieved (.flag true) = .ok true ∧
        (climbEntry false).bonus = (climbEntry true).bonus := by
  obtain ⟨result, hresult, hentry⟩ := scoreMatch_climbProfile true
  obtain ⟨_, hotherResult, hotherEntry⟩ := scoreMatch_climbProfile false
  have hpositive : 0.0 < (climbEntry true).bonus := by
    decide +kernel
  have hgroup : RawValue.flag true ∈ climbPart.group (climbInput true) :=
    List.mem_cons_self
  obtain ⟨-, own, -, -, -, hown, hachieved, hindependent⟩ :=
    scoreMatch_bonus_earned_by_group hresult hentry hpositive
  obtain rfl : RawValue.flag true = own := Option.some.inj hown
  have hbonus := hindependent _ _ _ hotherResult hotherEntry rfl
  exact ⟨result, hresult, hentry, hpositive, hgroup, hachieved hgroup, hbonus⟩

/-- A side that did not climb itself gets the bonus of a group that did. -/
theorem bonus_credited_without_own_achievement :
    ¬∀ (profile : Profile) (input : ScoreInput) (settings : EngineSettings)
        (result : MatchScore) (part : Part) (entry : PartScore),
      profile.structureIssues = [] →
        profile.scoreMatch input settings = .ok result →
        (part, entry) ∈ profile.parts.zip result.breakdown.parts →
        0.0 < entry.bonus →
        ∃ own, input.values.get? part.id = some own ∧
          part.isAchieved own = .ok true := by
  intro hclaim
  obtain ⟨result, hresult, hentry⟩ := scoreMatch_climbProfile false
  obtain ⟨own, hown, hachieved⟩ := hclaim climbProfile (climbInput false)
    EngineSettings.default result climbPart (climbEntry false)
    (by decide +kernel) hresult hentry (by decide +kernel)
  obtain rfl : RawValue.flag false = own := Option.some.inj hown
  cases hachieved

end TournamentScoring
