import TournamentScoring.Proofs.Profile.FormulaCheck
import TournamentScoring.Proofs.Profile.Rules

/-!
# Violations of the structure of a profile

The check lists what is broken at each place, place by place in the order of the document:
it reports nothing else, nothing twice, and no violation keeps another from being found.
-/

namespace TournamentScoring

open TournamentScoring.Text

/-! ## Listings -/

/-- The issues are those of the sites where something is broken, one for each such site,
in the order of the sites. -/
def ListsInOrder {Site : Type*} [LT Site] (issues : List Issue)
    (breaks : Site → Issue → Prop) : Prop :=
  ∃ found : List (Site × Issue), found.map Prod.snd = issues ∧
    found.Pairwise (fun earlier later => earlier.1 < later.1) ∧
    ∀ site issue, (site, issue) ∈ found ↔ breaks site issue

namespace ListsInOrder

variable {Site : Type*} [LT Site] {issues others : List Issue}
  {breaks breaks' : Site → Issue → Prop}

theorem congr (hlists : ListsInOrder issues breaks)
    (hbreaks : ∀ site issue, breaks site issue ↔ breaks' site issue) :
    ListsInOrder issues breaks' := by
  obtain ⟨found, hissues, hordered, hfound⟩ := hlists
  refine ⟨found, hissues, hordered, fun site issue => ?_⟩
  exact (hfound site issue).trans (hbreaks site issue)

theorem nil (hbreaks : ∀ site issue, ¬breaks site issue) : ListsInOrder [] breaks :=
  ⟨[], rfl, .nil, fun site issue => iff_of_false List.not_mem_nil (hbreaks site issue)⟩

theorem singleton (site : Site) {issue : Issue}
    (hbreaks : ∀ other found, breaks other found ↔ other = site ∧ found = issue) :
    ListsInOrder [issue] breaks := by
  refine ⟨[(site, issue)], rfl, List.pairwise_singleton _ _, fun other found => ?_⟩
  rw [List.mem_singleton, Prod.mk.injEq, hbreaks]

/-- A rule of one site is broken or kept. -/
theorem ite {rule : Prop} [Decidable rule] (site : Site) {issue : Issue}
    (hbreaks : ∀ other found, breaks other found ↔ rule ∧ other = site ∧ found = issue) :
    ListsInOrder (if rule then [issue] else []) breaks := by
  split
  · rename_i hrule
    exact singleton site fun other found =>
      (hbreaks other found).trans (and_iff_right hrule)
  · rename_i hrule
    exact nil fun other found hbroken => hrule ((hbreaks other found).mp hbroken).1

/-- What is broken first is listed first. -/
theorem append (hfirst : ListsInOrder issues breaks) (hsecond : ListsInOrder others breaks')
    (hbefore : ∀ {earlier later issue other}, breaks earlier issue → breaks' later other →
      earlier < later) :
    ListsInOrder (issues ++ others) fun site issue => breaks site issue ∨ breaks' site issue := by
  obtain ⟨found, hissues, hordered, hfound⟩ := hfirst
  obtain ⟨found', hothers, hordered', hfound'⟩ := hsecond
  refine ⟨found ++ found', ?_, List.pairwise_append.mpr ⟨hordered, hordered', ?_⟩, ?_⟩
  · rw [List.map_append, hissues, hothers]
  · rintro ⟨earlier, issue⟩ hearlier ⟨later, other⟩ hlater
    exact hbefore ((hfound earlier issue).mp hearlier) ((hfound' later other).mp hlater)
  · intro site issue
    rw [List.mem_append, hfound, hfound']

/-- The sites may be told as parts of something wider. -/
theorem map {Wide : Type*} [LT Wide] {embed : Site → Wide}
    (hlists : ListsInOrder issues breaks)
    (hembed : ∀ {earlier later}, earlier < later → embed earlier < embed later) :
    ListsInOrder issues fun wide issue => ∃ site, wide = embed site ∧ breaks site issue := by
  obtain ⟨found, hissues, hordered, hfound⟩ := hlists
  refine ⟨found.map (Prod.map embed id), ?_, ?_, ?_⟩
  · rw [List.map_map, ← hissues]
    rfl
  · exact List.pairwise_map.mpr (hordered.imp hembed)
  · intro wide issue
    simp only [List.mem_map, Prod.exists, hfound]
    constructor
    · rintro ⟨site, other, hbroken, heq⟩
      cases heq
      exact ⟨site, rfl, hbroken⟩
    · rintro ⟨site, rfl, hbroken⟩
      exact ⟨site, issue, hbroken, rfl⟩

/-- Nothing is listed where nothing is broken. -/
theorem eq_nil_iff (hlists : ListsInOrder issues breaks) :
    issues = [] ↔ ∀ site issue, ¬breaks site issue := by
  obtain ⟨found, rfl, -, hfound⟩ := hlists
  rw [List.map_eq_nil_iff, List.eq_nil_iff_forall_not_mem, Prod.forall]
  simp only [hfound]

end ListsInOrder

/-! ## The issues of one declaration -/

theorem isPointValue_iff {points : Float} : isPointValue points = true ↔ IsPoints points := by
  rw [isPointValue, IsPoints, Bool.and_eq_true, Bool.not_eq_true']
  refine and_congr_right fun hfinite => ?_
  rw [decide_eq_false_iff_not, Binary64.lt_zero_iff hfinite, not_lt]

/-- A reserved name is a name, so that an id breaks one of the two rules at most. -/
theorem isIdentifier_of_mem_penaltyNames {id : String} (hreserved : id ∈ penaltyNames) :
    isIdentifier id = true := by
  have hnames : ∀ name ∈ penaltyNames, isIdentifier name = true := by decide
  exact hnames id hreserved

section Declarations

variable {declaration : Declaration} {earlier seen : List String} {id part : String}

theorem listsInOrder_idIssues (earlier : List String) :
    ListsInOrder (idIssues declaration id) fun aspect issue =>
      aspect = .identifier ∧ IdBreaks declaration earlier id aspect issue := by
  rw [idIssues]
  split
  · rename_i hname
    have hnot : ¬isIdentifier id = true := by simpa using hname
    refine .singleton .identifier fun aspect issue => ?_
    constructor
    · rintro ⟨rfl, hbroken⟩
      cases hbroken with
      | notAnIdentifier => exact ⟨rfl, rfl⟩
      | reservedName hreserved => exact absurd (isIdentifier_of_mem_penaltyNames hreserved) hnot
    · rintro ⟨rfl, rfl⟩
      exact ⟨rfl, .notAnIdentifier (isIdentifier_iff.not.mp hnot)⟩
  · rename_i hname
    have hidentifier : isIdentifier id = true := by simpa using hname
    refine .ite .identifier fun aspect issue => ?_
    rw [List.contains_iff_mem]
    constructor
    · rintro ⟨rfl, hbroken⟩
      cases hbroken with
      | notAnIdentifier hnot => exact absurd (isIdentifier_iff.mp hidentifier) hnot
      | reservedName hreserved => exact ⟨hreserved, rfl, rfl⟩
    · rintro ⟨hreserved, rfl, rfl⟩
      exact ⟨rfl, .reservedName hreserved⟩

theorem listsInOrder_repetitionIssues (hseen : id ∈ seen ↔ id ∈ earlier) :
    ListsInOrder (repetitionIssues declaration seen id) fun aspect issue =>
      aspect = .repetition ∧ IdBreaks declaration earlier id aspect issue := by
  rw [repetitionIssues]
  refine .ite .repetition fun aspect issue => ?_
  rw [List.contains_iff_mem, hseen]
  constructor
  · rintro ⟨rfl, hbroken⟩
    cases hbroken with
    | duplicateId hearlier => exact ⟨hearlier, rfl, rfl⟩
  · rintro ⟨hearlier, rfl, rfl⟩
    exact ⟨rfl, .duplicateId hearlier⟩

/-- The two rules for an id are checked one after the other. -/
theorem listsInOrder_declaration (hseen : id ∈ seen ↔ id ∈ earlier) :
    ListsInOrder (idIssues declaration id ++ repetitionIssues declaration seen id)
      (IdBreaks declaration earlier id) := by
  refine ((listsInOrder_idIssues earlier).append (listsInOrder_repetitionIssues hseen) ?_).congr
    fun aspect issue => ?_
  · rintro _ _ _ _ ⟨rfl, -⟩ ⟨rfl, -⟩
    exact Nat.zero_lt_one
  · rw [← or_and_right, and_iff_right_iff_imp]
    intro hbroken
    cases hbroken with
    | notAnIdentifier | reservedName => exact .inl rfl
    | duplicateId => exact .inr rfl

theorem listsInOrder_points {points : Float} {issue : Issue} {breaks : Aspect → Issue → Prop}
    (hbreaks : ∀ aspect found,
      breaks aspect found ↔ ¬IsPoints points ∧ aspect = .points ∧ found = issue) :
    ListsInOrder (if isPointValue points then [] else [issue]) breaks := by
  rw [← ite_not]
  refine .ite .points fun aspect found => ?_
  rw [isPointValue_iff]
  exact hbreaks aspect found

theorem PartKind.listsInOrder_issues (kind : PartKind) :
    ListsInOrder (kind.issues part) (kind.Breaks part) := by
  cases kind with
  | number points maxValue =>
    refine listsInOrder_points fun aspect issue => ⟨?_, ?_⟩
    · intro hbroken
      cases hbroken with
      | pointsPerUnit hpoints => exact ⟨hpoints, rfl, rfl⟩
    · rintro ⟨hpoints, rfl, rfl⟩
      exact .pointsPerUnit hpoints
  | boolean points =>
    refine listsInOrder_points fun aspect issue => ⟨?_, ?_⟩
    · intro hbroken
      cases hbroken with
      | truePoints hpoints => exact ⟨hpoints, rfl, rfl⟩
    · rintro ⟨hpoints, rfl, rfl⟩
      exact .truePoints hpoints

theorem lt_one_iff_eq_zero {n : UInt32} : n < 1 ↔ n = 0 := by
  rw [UInt32.lt_iff_toNat_lt, ← UInt32.toNat_inj]
  exact Nat.lt_one_iff

theorem CooperativeBonus.listsInOrder_issues (bonus : CooperativeBonus) :
    ListsInOrder (bonus.issues part) (bonus.Breaks part) := by
  rw [CooperativeBonus.issues, ← ite_not]
  refine (ListsInOrder.append (.ite .teamCount fun _ _ => Iff.rfl)
    (.ite .bonusPoints fun _ _ => Iff.rfl) ?_).congr fun aspect issue => ?_
  · rintro _ _ _ _ ⟨-, rfl, -⟩ ⟨-, rfl, -⟩
    exact Nat.lt_succ_self 3
  · rw [not_or, ← lt_one_iff_eq_zero]
    constructor
    · rintro (⟨hcount, rfl, rfl⟩ | ⟨hpoints, rfl, rfl⟩)
      · exact .teamCount hcount
      · exact .bonusPoints hpoints
    · rintro (hcount | hpoints)
      · exact .inl ⟨hcount, rfl, rfl⟩
      · exact .inr ⟨hpoints, rfl, rfl⟩

section Ranks

variable {aspect : Aspect} {issue : Issue}

theorem IdBreaks.rank_le (hbroken : IdBreaks declaration earlier id aspect issue) :
    aspect.rank ≤ 1 := by
  cases hbroken <;> decide

theorem PartKind.Breaks.rank_eq {kind : PartKind} (hbroken : kind.Breaks part aspect issue) :
    aspect.rank = 2 := by
  cases hbroken <;> rfl

theorem CooperativeBonus.Breaks.le_rank {bonus : CooperativeBonus}
    (hbroken : bonus.Breaks part aspect issue) : 3 ≤ aspect.rank := by
  cases hbroken <;> decide

end Ranks

theorem Part.issues_eq (part : Part) (seen : List String) :
    part.issues seen =
      idIssues .part part.id ++ repetitionIssues .part seen part.id ++
        part.kind.issues part.id ++
        part.cooperativeBonus.elim [] fun bonus => bonus.issues part.id := by
  rw [Part.issues]
  cases part.cooperativeBonus <;> rfl

/-- Every rule for a part is checked, whatever the others gave. -/
theorem Part.listsInOrder_issues (part : Part) (hseen : part.id ∈ seen ↔ part.id ∈ earlier) :
    ListsInOrder (part.issues seen) (part.Breaks earlier) := by
  have hbonus : ListsInOrder
      (part.cooperativeBonus.elim [] fun bonus => bonus.issues part.id)
      fun aspect issue => ∃ bonus, part.cooperativeBonus = some bonus ∧
        bonus.Breaks part.id aspect issue := by
    cases part.cooperativeBonus with
    | none =>
      refine .nil ?_
      rintro aspect issue ⟨bonus, hnone, -⟩
      cases hnone
    | some bonus => exact bonus.listsInOrder_issues.congr fun aspect issue => by simp
  rw [Part.issues_eq]
  refine (((listsInOrder_declaration hseen).append part.kind.listsInOrder_issues ?_).append
    hbonus ?_).congr fun aspect issue => ?_
  · intro first second _ _ hid hkind
    have hle : first.rank ≤ 1 := hid.rank_le
    have heq : second.rank = 2 := hkind.rank_eq
    exact Aspect.lt_iff.mpr (by omega)
  · rintro first second _ _ hfirst ⟨bonus, -, hbonus⟩
    have hle : first.rank ≤ 2 := hfirst.elim (fun hid => hid.rank_le.trans one_le_two)
      fun hkind => hkind.rank_eq.le
    exact Aspect.lt_iff.mpr (hle.trans_lt hbonus.le_rank)
  · constructor
    · rintro ((hid | hkind) | ⟨bonus, hsome, hbonus⟩)
      · exact .id hid
      · exact .kind hkind
      · exact .bonus hsome hbonus
    · rintro (hid | hkind | ⟨hsome, hbonus⟩)
      · exact .inl (.inl hid)
      · exact .inl (.inr hkind)
      · exact .inr ⟨_, hsome, hbonus⟩

end Declarations

theorem PenaltyRule.listsInOrder_issues {seen earlier : List String} (rule : PenaltyRule)
    (hseen : rule.id ∈ seen ↔ rule.id ∈ earlier) :
    ListsInOrder (rule.issues seen) (rule.Breaks earlier) :=
  listsInOrder_declaration hseen

/-! ## The issues of all declarations -/

section Along

variable {Entry : Type*} {check : Entry → List String → List Issue}
  {breaks : Entry → List String → Aspect → Issue → Prop} {name : Entry → String}
  {Site : Type*} {place : ℕ → Aspect → Site}

/-- Declarations are checked one after the other, each against the ids before it. -/
def issuesAlong (check : Entry → List String → List Issue) (name : Entry → String)
    (seen : List String) : List Entry → List Issue
  | [] => []
  | entry :: entries =>
    check entry seen ++ issuesAlong check name (name entry :: seen) entries

theorem partIssues_eq (seen : List String) (parts : List Part) :
    partIssues seen parts = issuesAlong Part.issues Part.id seen parts := by
  induction parts generalizing seen with
  | nil => rfl
  | cons part parts ih => rw [partIssues, issuesAlong, ih]

theorem penaltyIssues_eq (seen : List String) (rules : List PenaltyRule) :
    penaltyIssues seen rules = issuesAlong PenaltyRule.issues PenaltyRule.id seen rules := by
  induction rules generalizing seen with
  | nil => rfl
  | cons rule rules ih => rw [penaltyIssues, issuesAlong, ih]

/-- What is wrong with one of the declarations that follow the given ones. -/
def BreaksAlong (breaks : Entry → List String → Aspect → Issue → Prop)
    (name : Entry → String) (place : ℕ → Aspect → Site) (before entries : List Entry)
    (site : Site) (issue : Issue) : Prop :=
  ∃ middle entry after aspect, entries = middle ++ entry :: after ∧
    site = place (before ++ middle).length aspect ∧
    breaks entry ((before ++ middle).map name) aspect issue

theorem breaksAlong_cons {before entries : List Entry} {first : Entry} {site : Site}
    {issue : Issue} :
    BreaksAlong breaks name place before (first :: entries) site issue ↔
      (∃ aspect, site = place before.length aspect ∧
        breaks first (before.map name) aspect issue) ∨
      BreaksAlong breaks name place (before ++ [first]) entries site issue := by
  constructor
  · rintro ⟨middle, entry, after, aspect, hentries, rfl, hbroken⟩
    cases middle with
    | nil =>
      cases hentries
      rw [List.append_nil] at hbroken ⊢
      exact .inl ⟨aspect, rfl, hbroken⟩
    | cons head middle =>
      cases hentries
      refine .inr ⟨middle, entry, after, aspect, rfl, ?_, ?_⟩
      · rw [List.append_assoc, List.singleton_append]
      · rwa [List.append_assoc, List.singleton_append]
  · rintro (⟨aspect, rfl, hbroken⟩ | ⟨middle, entry, after, aspect, rfl, rfl, hbroken⟩)
    · refine ⟨[], first, entries, aspect, rfl, ?_, ?_⟩
      · rw [List.append_nil]
      · rwa [List.append_nil]
    · refine ⟨first :: middle, entry, after, aspect, rfl, ?_, ?_⟩
      · rw [List.append_assoc, List.singleton_append]
      · rwa [List.append_assoc, List.singleton_append] at hbroken

/-- What is listed for each declaration is listed for all of them.  The induction carries
the declarations that were passed: the ids seen are theirs. -/
theorem listsInOrder_issuesAlong [LT Site]
    (hcheck : ∀ entry {seen earlier}, (∀ id, id ∈ seen ↔ id ∈ earlier) →
      ListsInOrder (check entry seen) (breaks entry earlier))
    (hsame : ∀ index {first second : Aspect}, first < second →
      place index first < place index second)
    (hnext : ∀ {index next} (first second : Aspect), index < next →
      place index first < place next second)
    {before entries : List Entry} {seen : List String}
    (hseen : ∀ id, id ∈ seen ↔ id ∈ before.map name) :
    ListsInOrder (issuesAlong check name seen entries)
      (BreaksAlong breaks name place before entries) := by
  induction entries generalizing before seen with
  | nil =>
    refine .nil ?_
    rintro site issue ⟨middle, entry, after, aspect, hentries, -⟩
    cases middle <;> cases hentries
  | cons first entries ih =>
    have hrest : ∀ id, id ∈ name first :: seen ↔ id ∈ (before ++ [first]).map name := by
      intro id
      rw [List.map_append, List.mem_append, List.mem_cons, hseen, or_comm, List.map_singleton,
        List.mem_singleton]
    refine (((hcheck first hseen).map (hsame before.length)).append (ih hrest) ?_).congr
      fun site issue => breaksAlong_cons.symm
    rintro _ _ _ _ ⟨aspect, rfl, -⟩ ⟨middle, entry, after, other, -, rfl, -⟩
    refine hnext aspect other ?_
    rw [List.length_append, List.length_append, List.length_singleton]
    omega

end Along

/-! ## The issues of a profile -/

namespace Profile.Place

variable {index next : ℕ} {first second : Aspect}

/-- Within a section the declarations are in order, and what is checked of each. -/
theorem entry_lt_entry {number : ℕ} :
    [number, index, first.rank] < [number, next, second.rank] ↔
      index < next ∨ index = next ∧ first < second := by
  simp [Aspect.lt_iff, List.cons_lt_cons_iff]

/-- The sections of a document come one after the other. -/
theorem lt_of_head_lt {earlier later : Place} {number other : ℕ} {rest rest' : List ℕ}
    (hearlier : earlier.position = number :: rest) (hlater : later.position = other :: rest')
    (hlt : number < other) : earlier < later := by
  rw [lt_iff, hearlier, hlater]
  exact List.cons_lt_cons_iff.mpr (.inl hlt)

end Profile.Place

namespace Profile

theorem listsInOrder_structureIssues (profile : Profile) :
    ListsInOrder profile.structureIssues profile.Breaks := by
  have hparts : ListsInOrder (partIssues [] profile.parts)
      (BreaksAlong Part.Breaks Part.id Place.part [] profile.parts) := by
    rw [partIssues_eq]
    refine listsInOrder_issuesAlong (fun part _ _ hseen => part.listsInOrder_issues (hseen _))
      ?_ ?_ fun id => Iff.rfl
    · exact fun index _ _ hlt => Place.lt_iff.mpr (Place.entry_lt_entry.mpr (.inr ⟨rfl, hlt⟩))
    · exact fun _ _ hlt => Place.lt_iff.mpr (Place.entry_lt_entry.mpr (.inl hlt))
  have hpenalties : ListsInOrder (penaltyIssues [] profile.penalties)
      (BreaksAlong PenaltyRule.Breaks PenaltyRule.id Place.penalty [] profile.penalties) := by
    rw [penaltyIssues_eq]
    refine listsInOrder_issuesAlong (fun rule _ _ hseen => rule.listsInOrder_issues (hseen _))
      ?_ ?_ fun id => Iff.rfl
    · exact fun index _ _ hlt => Place.lt_iff.mpr (Place.entry_lt_entry.mpr (.inr ⟨rfl, hlt⟩))
    · exact fun _ _ hlt => Place.lt_iff.mpr (Place.entry_lt_entry.mpr (.inl hlt))
  rw [structureIssues]
  refine ((((ListsInOrder.ite .version fun _ _ => Iff.rfl).append
    (.ite .parts fun _ _ => Iff.rfl) ?_).append hparts ?_).append hpenalties ?_).congr ?_
  · rintro _ _ _ _ ⟨-, rfl, -⟩ ⟨-, rfl, -⟩
    exact Place.lt_of_head_lt rfl rfl Nat.zero_lt_one
  · rintro _ _ _ _ (⟨-, rfl, -⟩ | ⟨-, rfl, -⟩) ⟨_, _, _, _, -, rfl, -⟩
    · exact Place.lt_of_head_lt rfl rfl Nat.zero_lt_two
    · exact Place.lt_of_head_lt rfl rfl Nat.one_lt_two
  · rintro _ _ _ _ ((⟨-, rfl, -⟩ | ⟨-, rfl, -⟩) | ⟨_, _, _, _, -, rfl, -⟩)
      ⟨_, _, _, _, -, rfl, -⟩ <;> exact Place.lt_of_head_lt rfl rfl (by decide)
  · intro place issue
    rw [List.isEmpty_iff, ← lt_one_iff_eq_zero]
    constructor
    · rintro (((⟨hversion, rfl, rfl⟩ | ⟨hempty, rfl, rfl⟩) |
        ⟨before, part, after, aspect, hparts, rfl, hpart⟩) |
        ⟨before, rule, after, aspect, hpenalties, rfl, hrule⟩)
      · exact .version hversion
      · exact .parts hempty
      · exact .part hparts hpart
      · exact .penalty hpenalties hrule
    · rintro (hversion | hempty | ⟨hparts, hpart⟩ | ⟨hpenalties, hrule⟩)
      · exact .inl (.inl (.inl ⟨hversion, rfl, rfl⟩))
      · exact .inl (.inl (.inr ⟨hempty, rfl, rfl⟩))
      · exact .inl (.inr ⟨_, _, _, _, hparts, rfl, hpart⟩)
      · exact .inr ⟨_, _, _, _, hpenalties, rfl, hrule⟩

/-- The profiles that pass the check are the well formed ones. -/
theorem structureIssues_eq_nil_iff {profile : Profile} :
    profile.structureIssues = [] ↔ profile.IsWellFormed :=
  profile.listsInOrder_structureIssues.eq_nil_iff.trans isWellFormed_iff.symm

/-- The ids of the parts of a valid profile are identifiers. -/
theorem isIdentifier_id {profile : Profile} (hvalid : profile.structureIssues = [])
    {part : Part} (hpart : part ∈ profile.parts) : isIdentifier part.id = true := by
  have hid : part.id ∈
      profile.parts.map Part.id ++ profile.penalties.map PenaltyRule.id :=
    List.mem_append_left _ (List.mem_map_of_mem hpart)
  exact isIdentifier_iff.mpr ((structureIssues_eq_nil_iff.mp hvalid).names part.id hid).1

/-- The check of the structure is exact and complete.  It passes the profiles that are well
formed and no others; of another profile it lists each violation once, in the order of the
document.  The check of a whole profile adds what is wrong with the formula. -/
theorem structure_check_is_exact_and_complete (profile : Profile) (limit : ℕ) :
    (profile.structureIssues = [] ↔ profile.IsWellFormed) ∧
      ListsInOrder profile.structureIssues profile.Breaks ∧
      profile.issues limit = profile.structureIssues ++ profile.formulaIssues limit ∧
      (∀ issue ∈ profile.structureIssues, issue.concernsFormula = false) ∧
      ∀ issue ∈ profile.formulaIssues limit, issue.concernsFormula = true := by
  refine ⟨structureIssues_eq_nil_iff, profile.listsInOrder_structureIssues, rfl, ?_, ?_⟩
  · intro issue hissue
    exact Bool.eq_false_iff.mpr
      (List.filter_eq_nil_iff.mp (filter_structureIssues profile) issue hissue)
  · intro issue hissue
    exact concernsFormula_of_mem_formulaIssues hissue

/-- Seven violations, five of them of one part. -/
example :
    structureIssues
      { version := 0
        parts :=
          [{ id := "2nd", label := "Second", description := none, cooperativeBonus := none,
             kind := .boolean 5.0 },
           { id := "2nd", label := "Second", description := none,
             cooperativeBonus := some ⟨3, 0, .allTeams, none⟩, kind := .number (-1.0) none }]
        penalties := []
        totalFormula := "1"
        notes := none } =
      [.versionZero, .notAnIdentifier .part "2nd", .notAnIdentifier .part "2nd",
        .duplicateId .part "2nd", .badPointsPerUnit "2nd", .badTeamCount "2nd" 3,
        .noBonusPoints "2nd"] := by
  decide

end Profile

end TournamentScoring
