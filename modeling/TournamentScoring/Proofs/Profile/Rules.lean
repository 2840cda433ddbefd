import TournamentScoring.Profile.Validation
import TournamentScoring.Proofs.Binary64.Identity
import TournamentScoring.Proofs.Text.Runs

/-!
# The rules for the structure of a profile

What breaks a rule, at which place of a profile.  The rules are told apart from the check:
each by what it asks of an id, of points or of a bonus, and of the declarations before.  A
profile is well formed where no rule is broken.
-/

namespace TournamentScoring

open TournamentScoring.Text

/-! ## Places -/

/-- What is checked of one declaration, in the order of the document. -/
inductive Aspect
  | identifier
  | repetition
  | points
  | teamCount
  | bonusPoints
deriving DecidableEq

def Aspect.rank : Aspect → ℕ
  | identifier => 0
  | repetition => 1
  | points => 2
  | teamCount => 3
  | bonusPoints => 4

instance : LT Aspect := ⟨fun earlier later => earlier.rank < later.rank⟩

theorem Aspect.lt_iff {earlier later : Aspect} : earlier < later ↔ earlier.rank < later.rank :=
  Iff.rfl

/-- Where a rule is broken. -/
inductive Profile.Place
  | version
  | parts
  | part (index : ℕ) (aspect : Aspect)
  | penalty (index : ℕ) (aspect : Aspect)
deriving DecidableEq

/-- Places are ordered as in the document: the version, the parts one after the other, the
penalties one after the other. -/
def Profile.Place.position : Profile.Place → List ℕ
  | version => [0]
  | parts => [1]
  | part index aspect => [2, index, aspect.rank]
  | penalty index aspect => [3, index, aspect.rank]

instance : LT Profile.Place := ⟨fun earlier later => earlier.position < later.position⟩

theorem Profile.Place.lt_iff {earlier later : Profile.Place} :
    earlier < later ↔ earlier.position < later.position :=
  Iff.rfl

/-! ## What breaks a rule -/

/-- Points are a finite number that is not negative. -/
def IsPoints (points : Float) : Prop :=
  points.isFinite = true ∧ 0 ≤ Binary64.value points

/-- The points per unit, or for the flag, are points. -/
def PartKind.IsPriced : PartKind → Prop
  | number pointsPerUnit _ => IsPoints pointsPerUnit
  | boolean truePoints => IsPoints truePoints

/-- A bonus is for two or four teams and is worth a point at least. -/
def CooperativeBonus.IsDue (bonus : CooperativeBonus) : Prop :=
  (bonus.requiredTeamCount = 2 ∨ bonus.requiredTeamCount = 4) ∧ 1 ≤ bonus.bonusPoints

/-- An id follows the pattern of names and is none of the reserved ones. -/
def IsFreeName (id : String) : Prop :=
  IsName id ∧ id ∉ penaltyNames

/-- What is wrong with a declared id, behind declarations of the same kind with the ids
given. -/
inductive IdBreaks (declaration : Declaration) (earlier : List String) (id : String) :
    Aspect → Issue → Prop
  | notAnIdentifier (hname : ¬IsName id) :
    IdBreaks declaration earlier id .identifier (.notAnIdentifier declaration id)
  | reservedName (hreserved : id ∈ penaltyNames) :
    IdBreaks declaration earlier id .identifier (.reservedName declaration id)
  | duplicateId (hearlier : id ∈ earlier) :
    IdBreaks declaration earlier id .repetition (.duplicateId declaration id)

/-- What is wrong with the points of a part. -/
inductive PartKind.Breaks (part : String) : PartKind → Aspect → Issue → Prop
  | pointsPerUnit {points : Float} {maxValue : Option UInt32} (hpoints : ¬IsPoints points) :
    Breaks part (.number points maxValue) .points (.badPointsPerUnit part)
  | truePoints {points : Float} (hpoints : ¬IsPoints points) :
    Breaks part (.boolean points) .points (.badTruePoints part)

/-- What is wrong with the bonus of a part. -/
inductive CooperativeBonus.Breaks (bonus : CooperativeBonus) (part : String) :
    Aspect → Issue → Prop
  | teamCount (hcount : bonus.requiredTeamCount ≠ 2 ∧ bonus.requiredTeamCount ≠ 4) :
    Breaks bonus part .teamCount (.badTeamCount part bonus.requiredTeamCount)
  | bonusPoints (hpoints : bonus.bonusPoints < 1) :
    Breaks bonus part .bonusPoints (.noBonusPoints part)

/-- What is wrong with a part behind parts with the ids given. -/
inductive Part.Breaks (part : Part) (earlier : List String) : Aspect → Issue → Prop
  | id {aspect : Aspect} {issue : Issue}
      (hid : IdBreaks .part earlier part.id aspect issue) : Breaks part earlier aspect issue
  | kind {aspect : Aspect} {issue : Issue} (hkind : part.kind.Breaks part.id aspect issue) :
    Breaks part earlier aspect issue
  | bonus {bonus : CooperativeBonus} {aspect : Aspect} {issue : Issue}
      (hsome : part.cooperativeBonus = some bonus)
      (hbonus : bonus.Breaks part.id aspect issue) : Breaks part earlier aspect issue

def PenaltyRule.Breaks (rule : PenaltyRule) (earlier : List String) :
    Aspect → Issue → Prop :=
  IdBreaks .penalty earlier rule.id

namespace Profile

/-- What is wrong with the structure of a profile.  A declaration is told by the number of
declarations before it. -/
inductive Breaks (profile : Profile) : Place → Issue → Prop
  | version (hversion : profile.version < 1) : Breaks profile .version .versionZero
  | parts (hparts : profile.parts = []) : Breaks profile .parts .noParts
  | part {before after : List Part} {part : Part} {aspect : Aspect} {issue : Issue}
      (hparts : profile.parts = before ++ part :: after)
      (hpart : part.Breaks (before.map Part.id) aspect issue) :
    Breaks profile (.part before.length aspect) issue
  | penalty {before after : List PenaltyRule} {rule : PenaltyRule} {aspect : Aspect}
      {issue : Issue} (hpenalties : profile.penalties = before ++ rule :: after)
      (hrule : rule.Breaks (before.map PenaltyRule.id) aspect issue) :
    Breaks profile (.penalty before.length aspect) issue

/-- A profile whose structure is valid. -/
structure IsWellFormed (profile : Profile) : Prop where
  version : 1 ≤ profile.version
  parts : profile.parts ≠ []
  partIds : (profile.parts.map Part.id).Nodup
  penaltyIds : (profile.penalties.map PenaltyRule.id).Nodup
  names : ∀ id ∈ profile.parts.map Part.id ++ profile.penalties.map PenaltyRule.id,
    IsFreeName id
  points : ∀ part ∈ profile.parts, part.kind.IsPriced
  bonuses : ∀ part ∈ profile.parts, ∀ bonus, part.cooperativeBonus = some bonus → bonus.IsDue

end Profile

/-! ## Keeping the rules -/

section Keeping

variable {declaration : Declaration} {earlier : List String} {id part : String}

theorem IdBreaks.keeps_iff :
    (∀ aspect issue, ¬IdBreaks declaration earlier id aspect issue) ↔
      IsFreeName id ∧ id ∉ earlier := by
  constructor
  · intro hkeeps
    refine ⟨⟨by_contra fun hname => hkeeps _ _ (.notAnIdentifier hname), ?_⟩, ?_⟩
    · exact fun hreserved => hkeeps _ _ (.reservedName hreserved)
    · exact fun hearlier => hkeeps _ _ (.duplicateId hearlier)
  · rintro ⟨⟨hname, hfree⟩, hnew⟩ aspect issue (hnot | hreserved | hearlier)
    · exact hnot hname
    · exact hfree hreserved
    · exact hnew hearlier

theorem PartKind.keeps_iff {kind : PartKind} :
    (∀ aspect issue, ¬kind.Breaks part aspect issue) ↔ kind.IsPriced := by
  constructor
  · intro hkeeps
    by_contra hpoints
    cases kind with
    | number => exact hkeeps _ _ (.pointsPerUnit hpoints)
    | boolean => exact hkeeps _ _ (.truePoints hpoints)
  · rintro hpriced aspect issue (hpoints | hpoints)
    · exact hpoints hpriced
    · exact hpoints hpriced

theorem CooperativeBonus.keeps_iff {bonus : CooperativeBonus} :
    (∀ aspect issue, ¬bonus.Breaks part aspect issue) ↔ bonus.IsDue := by
  constructor
  · intro hkeeps
    refine ⟨by_contra fun hcount => ?_, UInt32.not_lt.mp fun hpoints => ?_⟩
    · exact hkeeps _ _ (.teamCount (not_or.mp hcount))
    · exact hkeeps _ _ (.bonusPoints hpoints)
  · rintro ⟨hcount, hpoints⟩ aspect issue (hother | hnone)
    · exact not_or.mpr hother hcount
    · exact UInt32.not_lt.mpr hpoints hnone

theorem Part.keeps_iff {part : Part} :
    (∀ aspect issue, ¬part.Breaks earlier aspect issue) ↔
      (IsFreeName part.id ∧ part.id ∉ earlier) ∧
        part.kind.IsPriced ∧ ∀ bonus, part.cooperativeBonus = some bonus → bonus.IsDue := by
  constructor
  · intro hkeeps
    refine ⟨IdBreaks.keeps_iff.mp fun aspect issue hid => hkeeps aspect issue (.id hid),
      PartKind.keeps_iff.mp fun aspect issue hkind => hkeeps aspect issue (.kind hkind),
      fun bonus hsome => CooperativeBonus.keeps_iff.mp fun aspect issue hbonus =>
        hkeeps aspect issue (.bonus hsome hbonus)⟩
  · rintro ⟨hid, hkind, hbonus⟩ aspect issue (hbroken | hbroken | ⟨hsome, hbroken⟩)
    · exact IdBreaks.keeps_iff.mpr hid aspect issue hbroken
    · exact PartKind.keeps_iff.mpr hkind aspect issue hbroken
    · exact CooperativeBonus.keeps_iff.mpr (hbonus _ hsome) aspect issue hbroken

end Keeping

/-- Names are distinct where none repeats an earlier one. -/
theorem nodup_map_iff {Entry : Type*} {name : Entry → String} {entries : List Entry} :
    (entries.map name).Nodup ↔
      ∀ before entry after, entries = before ++ entry :: after →
        name entry ∉ before.map name := by
  constructor
  · rintro hnodup before entry after rfl hmem
    rw [List.map_append, List.map_cons, List.nodup_append] at hnodup
    exact hnodup.2.2 _ hmem _ List.mem_cons_self rfl
  · intro hfresh
    induction entries using List.reverseRecOn with
    | nil => exact .nil
    | append_singleton entries last ih =>
      rw [List.map_append, List.map_singleton, List.nodup_append]
      refine ⟨ih ?_, List.nodup_singleton _, ?_⟩
      · rintro before entry after rfl
        refine hfresh before entry (after ++ [last]) ?_
        rw [List.append_assoc, List.cons_append]
      · intro id hid other hother heq
        rw [List.mem_singleton] at hother
        exact hfresh entries last [] rfl (hother ▸ heq ▸ hid)

namespace Profile

variable {profile : Profile}

theorem isWellFormed_of_keeps (hkeeps : ∀ place issue, ¬profile.Breaks place issue) :
    profile.IsWellFormed := by
  have hpart : ∀ before part after, profile.parts = before ++ part :: after →
      (IsFreeName part.id ∧ part.id ∉ before.map Part.id) ∧
        part.kind.IsPriced ∧ ∀ bonus, part.cooperativeBonus = some bonus → bonus.IsDue :=
    fun before part after hparts => Part.keeps_iff.mp fun aspect issue hbroken =>
      hkeeps _ _ (.part hparts hbroken)
  have hrule : ∀ before rule after, profile.penalties = before ++ rule :: after →
      IsFreeName rule.id ∧ rule.id ∉ before.map PenaltyRule.id :=
    fun before rule after hpenalties => IdBreaks.keeps_iff.mp fun aspect issue hbroken =>
      hkeeps _ _ (.penalty hpenalties hbroken)
  refine ⟨UInt32.not_lt.mp fun hversion => hkeeps _ _ (.version hversion),
    fun hparts => hkeeps _ _ (.parts hparts), ?_, ?_, ?_, ?_, ?_⟩
  · exact nodup_map_iff.mpr fun before part after hparts => (hpart before part after hparts).1.2
  · exact nodup_map_iff.mpr fun before rule after hrules => (hrule before rule after hrules).2
  · intro id hid
    rcases List.mem_append.mp hid with hid | hid
    · obtain ⟨part, hmem, rfl⟩ := List.mem_map.mp hid
      obtain ⟨before, after, hparts⟩ := List.append_of_mem hmem
      exact (hpart before part after hparts).1.1
    · obtain ⟨rule, hmem, rfl⟩ := List.mem_map.mp hid
      obtain ⟨before, after, hpenalties⟩ := List.append_of_mem hmem
      exact (hrule before rule after hpenalties).1
  · intro part hmem
    obtain ⟨before, after, hparts⟩ := List.append_of_mem hmem
    exact (hpart before part after hparts).2.1
  · intro part hmem
    obtain ⟨before, after, hparts⟩ := List.append_of_mem hmem
    exact (hpart before part after hparts).2.2

theorem IsWellFormed.keeps (hformed : profile.IsWellFormed) (place : Place) (issue : Issue) :
    ¬profile.Breaks place issue := by
  rintro (hversion | hempty | ⟨hparts, hpart⟩ | ⟨hpenalties, hrule⟩)
  · exact UInt32.not_lt.mpr hformed.version hversion
  · exact hformed.parts hempty
  · rename_i before after part aspect
    have hmem : part ∈ profile.parts := by simp [hparts]
    refine Part.keeps_iff.mpr ⟨⟨hformed.names part.id ?_, ?_⟩, hformed.points part hmem,
      hformed.bonuses part hmem⟩ aspect issue hpart
    · exact List.mem_append_left _ (List.mem_map_of_mem hmem)
    · exact nodup_map_iff.mp hformed.partIds before part after hparts
  · rename_i before after rule aspect
    have hmem : rule ∈ profile.penalties := by simp [hpenalties]
    refine IdBreaks.keeps_iff.mpr ⟨hformed.names rule.id ?_, ?_⟩ aspect issue hrule
    · exact List.mem_append_right _ (List.mem_map_of_mem hmem)
    · exact nodup_map_iff.mp hformed.penaltyIds before rule after hpenalties

/-- A profile is well formed where nothing is broken. -/
theorem isWellFormed_iff :
    profile.IsWellFormed ↔ ∀ place issue, ¬profile.Breaks place issue :=
  ⟨IsWellFormed.keeps, isWellFormed_of_keeps⟩

end Profile

end TournamentScoring
