import TournamentScoring.Proofs.Document.RawValues
import TournamentScoring.Proofs.Scoring.Groups
import TournamentScoring.Proofs.Scoring.InputErrors
import TournamentScoring.Proofs.Scoring.Judgements

/-!
# Values of the wrong kind

A raw value of the wrong kind does not make a document unreadable, and it does not score
either: each of them is an error of its part, wherever the part judges it.
-/

namespace TournamentScoring

open Document

/-! ## What a part does not take -/

/-- A number part takes counts and a boolean part takes flags. -/
def PartKind.takes : PartKind → RawValue → Bool
  | number _ _, .number _ => true
  | boolean _, .flag _ => true
  | _, _ => false

namespace Part

/-- The values that a part judges: those of its group, if it has a bonus, and its own. -/
def judgedValues (part : Part) (input : ScoreInput) : List RawValue :=
  (if part.cooperativeBonus.isSome then part.group input else []) ++
    (input.values.get? part.id).toList

def wrongValues (part : Part) (raws : List RawValue) : List RawValue :=
  raws.filter fun raw => !part.kind.takes raw

/-- The error that says that a value has the wrong kind. -/
def wrongKindError (part : Part) (raw : RawValue) : ScoringError :=
  .invalidPartValue part.id (.wrongKind part.kind raw)

end Part

def ValueFault.isWrongKind : ValueFault → Bool
  | wrongKind _ _ => true
  | _ => false

def ScoringError.isWrongKind : ScoringError → Bool
  | invalidPartValue _ fault => fault.isWrongKind
  | _ => false

/-! ## One value -/

section Judged

variable {α : Type} {part : Part} {raw : RawValue} {verdict : α}

theorem PartKind.fault?_of_not_takes {kind : PartKind} (htakes : kind.takes raw = false) :
    kind.fault? raw = some (.wrongKind kind raw) := by
  cases kind with
  | number pointsPerUnit maxValue =>
    cases raw with
    | number count => cases htakes
    | flag value | other value => rfl
  | boolean truePoints =>
    cases raw with
    | flag value => cases htakes
    | number value | other value => rfl

theorem PartKind.isWrongKind_of_takes {kind : PartKind} (htakes : kind.takes raw = true)
    {fault : ValueFault} (hfault : kind.fault? raw = some fault) :
    fault.isWrongKind = false := by
  cases kind with
  | number pointsPerUnit maxValue =>
    cases raw with
    | number count =>
      rw [fault?] at hfault
      split at hfault
      · cases hfault
      · cases hfault
        rfl
    | flag value | other value => cases htakes
  | boolean truePoints =>
    cases raw with
    | flag value => cases hfault
    | number value | other value => cases htakes

theorem PartKind.isWrongKind_of_overflow {kind : PartKind} {fault : ValueFault}
    (hfault : kind.overflow? raw = some fault) : fault.isWrongKind = false := by
  cases raw with
  | number count =>
    rw [overflow?] at hfault
    split at hfault
    · cases hfault
    · cases hfault
      rfl
  | flag value | other value => cases hfault

theorem refusal?_judge {found? : Option ValueFault} :
    refusal? (part.judge found? verdict) = found?.map (.invalidPartValue part.id) := by
  cases found? <;> rfl

/-- A judgement that looks for a wrong kind first refuses a value for its kind exactly if the
part does not take it. -/
theorem filter_refusal_judge {more? : Option ValueFault}
    (hmore : ∀ fault, more? = some fault → fault.isWrongKind = false) :
    (refusal? (part.judge ((part.kind.fault? raw).or more?) verdict)).toList.filter
        ScoringError.isWrongKind =
      (part.wrongValues [raw]).map part.wrongKindError := by
  rw [refusal?_judge, Part.wrongValues]
  cases htakes : part.kind.takes raw with
  | false =>
    rw [PartKind.fault?_of_not_takes htakes]
    simp [htakes, Part.wrongKindError, ScoringError.isWrongKind, ValueFault.isWrongKind]
  | true =>
    have hfound : ∀ fault, (part.kind.fault? raw).or more? = some fault →
        fault.isWrongKind = false := by
      intro fault hfault
      rcases Option.or_eq_some_iff.mp hfault with hown | ⟨-, hother⟩
      · exact PartKind.isWrongKind_of_takes htakes hown
      · exact hmore fault hother
    cases hfault : (part.kind.fault? raw).or more? with
    | none => simp [htakes]
    | some fault => simp [htakes, ScoringError.isWrongKind, hfound fault hfault]

theorem filter_refusal_isAchieved (part : Part) (raw : RawValue) :
    (refusal? (part.isAchieved raw)).toList.filter ScoringError.isWrongKind =
      (part.wrongValues [raw]).map part.wrongKindError := by
  have hor : (part.kind.fault? raw).or none = part.kind.fault? raw := Option.or_none
  rw [Part.isAchieved_eq, ← hor]
  exact filter_refusal_judge nofun

theorem filter_refusal_score (part : Part) (raw : RawValue) :
    (refusal? (part.score raw)).toList.filter ScoringError.isWrongKind =
      (part.wrongValues [raw]).map part.wrongKindError := by
  rw [Part.score_eq]
  exact filter_refusal_judge fun fault hfault => PartKind.isWrongKind_of_overflow hfault

end Judged

/-! ## All values of a part -/

section Parts

variable {part : Part} {input : ScoreInput}

theorem Part.wrongValues_append (part : Part) (raws others : List RawValue) :
    part.wrongValues (raws ++ others) = part.wrongValues raws ++ part.wrongValues others :=
  List.filter_append raws others

theorem filter_refusals (part : Part) (group : List RawValue) :
    (part.refusals group).filter ScoringError.isWrongKind =
      (part.wrongValues group).map part.wrongKindError := by
  induction group with
  | nil => rfl
  | cons raw rest ih =>
    have hcons : part.refusals (raw :: rest) =
        (refusal? (part.isAchieved raw)).toList ++ part.refusals rest := by
      rw [Part.refusals, List.filterMap_cons]
      cases refusal? (part.isAchieved raw) <;> rfl
    rw [hcons, List.filter_append, filter_refusal_isAchieved, ih, ← List.map_append,
      ← Part.wrongValues_append]
    rfl

theorem filter_sizeErrors (bonus : CooperativeBonus) (group : List RawValue) :
    (bonus.sizeErrors part group).filter ScoringError.isWrongKind = [] := by
  rw [CooperativeBonus.sizeErrors]
  split <;> rfl

/-- A group that is granted something has no errors either. -/
theorem errorsOf_resolve (bonus : CooperativeBonus) (part : Part) (group : List RawValue) :
    errorsOf (bonus.resolve part group) =
      bonus.sizeErrors part group ++ part.refusals group := by
  cases hresolve : bonus.resolve part group with
  | error causes => exact (CooperativeBonus.errors_of_resolve hresolve).1
  | ok points =>
    obtain ⟨hlength, hvalid, -⟩ := CooperativeBonus.resolve_eq_ok hresolve
    have hnone : part.refusals group = [] := List.filterMap_eq_nil_iff.mpr hvalid
    rw [CooperativeBonus.sizeErrors_eq_nil_iff.mpr hlength, hnone]
    rfl

theorem filter_groupErrors (part : Part) (input : ScoreInput) :
    (part.groupErrors input).filter ScoringError.isWrongKind =
      (part.wrongValues (if part.cooperativeBonus.isSome then part.group input else [])).map
        part.wrongKindError := by
  rw [Part.groupErrors]
  cases part.cooperativeBonus with
  | none => rfl
  | some bonus =>
    dsimp only
    rw [errorsOf_resolve, List.filter_append, filter_sizeErrors, List.nil_append,
      filter_refusals]
    rfl

theorem filter_valueErrors (part : Part) (input : ScoreInput) :
    (part.valueErrors input).filter ScoringError.isWrongKind =
      (part.wrongValues (input.values.get? part.id).toList).map part.wrongKindError := by
  rw [Part.valueErrors]
  cases input.values.get? part.id with
  | none => rfl
  | some raw =>
    have hscore := filter_refusal_score part raw
    dsimp only
    rw [Option.toList_some, ← hscore]
    cases part.score raw <;> rfl

end Parts

/-! ## The whole input -/

section Inputs

variable {profile : Profile} {input : ScoreInput}

/-- Of all errors of an input, those about a wrong kind are one for each value of a wrong
kind, part by part. -/
theorem filter_inputErrors (profile : Profile) (input : ScoreInput) :
    (profile.inputErrors input).filter ScoringError.isWrongKind =
      profile.parts.flatMap fun part =>
        (part.wrongValues (part.judgedValues input)).map part.wrongKindError := by
  have hmissing : (profile.parts.flatMap fun part =>
      (part.missingErrors input).filter ScoringError.isWrongKind) = [] := by
    apply List.flatMap_eq_nil_iff.mpr
    intro part _
    rw [Part.missingErrors]
    split <;> rfl
  have hunknown : (input.penalties.keys.flatMap fun id =>
      (occurrenceErrors profile.penalties id).filter ScoringError.isWrongKind) = [] := by
    apply List.flatMap_eq_nil_iff.mpr
    intro id _
    rw [occurrenceErrors]
    split <;> rfl
  have hpart : ∀ part : Part,
      (part.groupErrors input ++ part.valueErrors input).filter ScoringError.isWrongKind =
        (part.wrongValues (part.judgedValues input)).map part.wrongKindError := by
    intro part
    rw [List.filter_append, filter_groupErrors, filter_valueErrors, ← List.map_append,
      ← Part.wrongValues_append]
    rfl
  rw [Profile.inputErrors, List.filter_append, List.filter_append, List.filter_flatMap,
    List.filter_flatMap, List.filter_flatMap, hmissing, hunknown, List.nil_append,
    List.append_nil]
  simp only [hpart]

/-- An input with a value of a wrong kind has no score, and each such value is reported. -/
theorem exists_failure_of_wrongValues (settings : EngineSettings) {part : Part}
    (hpart : part ∈ profile.parts)
    (hwrong : part.wrongValues (part.judgedValues input) ≠ []) :
    ∃ failure, profile.scoreMatch input settings = .error failure ∧
      failure.errors.filter ScoringError.isWrongKind =
        profile.parts.flatMap fun part =>
          (part.wrongValues (part.judgedValues input)).map part.wrongKindError := by
  have hfilter := filter_inputErrors profile input
  have herrors : profile.inputErrors input ≠ [] := by
    intro hnone
    rw [hnone, List.filter_nil] at hfilter
    have hpartNone := List.flatMap_eq_nil_iff.mp hfilter.symm part hpart
    exact hwrong (List.map_eq_nil_iff.mp hpartNone)
  exact ⟨_, scoreMatch_of_inputErrors_ne_nil profile input settings herrors, hfilter⟩

end Inputs

/-- A document with the tables of an input is read whatever its raw values are: flags and
numbers as such, and everything else is kept.  A value of a wrong kind that a part judges, as
its own or in the group of its bonus, leaves the side without a score, and the errors of this
kind are one for each such value, with the id of the part and the value. -/
theorem wrong_kinds_are_read_and_refused :
    (∀ members : List (String × Json), (Json.object members).Distinct →
      Json.HasInputTables members →
        ScoreInput.decoder.Yields (.object members) (ScoreInput.IsReadFrom members)) ∧
    ∀ (profile : Profile) (input : ScoreInput) (settings : EngineSettings),
      (∃ part ∈ profile.parts, part.wrongValues (part.judgedValues input) ≠ []) →
        ∃ failure, profile.scoreMatch input settings = .error failure ∧
          failure.errors.filter ScoringError.isWrongKind =
            profile.parts.flatMap fun part =>
              (part.wrongValues (part.judgedValues input)).map part.wrongKindError := by
  constructor
  · intro members hdistinct htables
    apply Decoder.yields_of_hasRoom
    intro dialect hroom
    exact ScoreInput.exists_decoder_eq_ok hdistinct htables hroom
  · rintro profile input settings ⟨part, hpart, hwrong⟩
    exact exists_failure_of_wrongValues settings hpart hwrong

/-- A text where a count must stand, an array where a flag must stand, and a group in which a
team has no value. -/
def wrongMembers : List (String × Json) :=
  [("values", .object [("climb", .array [.boolean true]), ("auto", .text "3")]),
    ("season", .integer 2025), ("penalties", .object [("foul", .integer 2)]),
    ("cooperative", .object [("climb", .array [.null, .boolean true])])]

def wrongInput : ScoreInput where
  values := (KeyedTable.empty.insert "auto" (.other (.text "3"))).insert "climb"
    (.other (.array [.boolean true]))
  penalties := KeyedTable.empty.insert "foul" 2
  cooperative := KeyedTable.empty.insert "climb" [.other .null, .flag true]

theorem wrongMembers_are_read_and_refused :
    ScoreInput.decoder.ofJson (.object wrongMembers) = .ok wrongInput ∧
      ScoreInput.IsReadFrom wrongMembers wrongInput ∧
      ∃ failure, pairProfile.scoreMatch wrongInput EngineSettings.default = .error failure ∧
        failure.errors.filter ScoringError.isWrongKind =
          [.invalidPartValue "auto" (.wrongKind (.number 5.0 none) (.other (.text "3"))),
            .invalidPartValue "climb" (.wrongKind (.boolean 20.0) (.other .null)),
            .invalidPartValue "climb"
              (.wrongKind (.boolean 20.0) (.other (.array [.boolean true])))] := by
  have hdecoder : ScoreInput.decoder.ofJson (.object wrongMembers) = .ok wrongInput := by rfl
  have hdistinct : (Json.object wrongMembers).Distinct := by
    simp [wrongMembers, Json.Distinct, Json.DistinctItems, Json.DistinctMembers]
  have htables : Json.HasInputTables wrongMembers := by
    constructor
    case values =>
      intro value hvalue
      cases Option.some.inj hvalue
      exact ⟨_, rfl, fun _ _ => trivial⟩
    case penalties =>
      intro value hvalue
      cases Option.some.inj hvalue
      exact ⟨_, rfl, List.forall_mem_singleton.mpr ⟨2, rfl⟩⟩
    case cooperative =>
      intro value hvalue
      cases Option.some.inj hvalue
      exact ⟨_, rfl, List.forall_mem_singleton.mpr ⟨_, rfl⟩⟩
  obtain ⟨input, hinput, hread⟩ :=
    (wrong_kinds_are_read_and_refused.1 wrongMembers hdistinct htables).ofJson
  obtain rfl : input = wrongInput := Except.ok.inj (hinput.symm.trans hdecoder)
  exact ⟨hdecoder, hread, wrong_kinds_are_read_and_refused.2 pairProfile wrongInput
    EngineSettings.default ⟨_, List.mem_cons_self, List.cons_ne_nil _ _⟩⟩

end TournamentScoring
