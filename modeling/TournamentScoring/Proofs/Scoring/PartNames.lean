import TournamentScoring.Proofs.Formula.Lexing
import TournamentScoring.Proofs.Profile.FormulaCheck
import TournamentScoring.Proofs.Scoring.FiniteFigures

/-!
# Ids in formulas

The check of a profile and the formulas agree on what a name is.  So each declared part can
be mentioned, and a formula that only mentions one part is worth what that part earns.
-/

namespace TournamentScoring

open TournamentScoring.Text

/-! ## One name as a formula -/

namespace Formula

section Names

variable {text name : String} {characters : List Char} {tokens : List Token}

/-- The names that stand in a text are identifiers. -/
theorem Lexes.isIdentifier_of_mem (hlexes : Lexes characters tokens)
    (hname : .identifier name ∈ tokens) : isIdentifier name = true := by
  induction hlexes with
  | nil => cases hname
  | blank hblank hrest ih => exact ih hname
  | lexeme lexeme hlongest hafter hfinite hrest ih =>
    rcases List.mem_cons.mp hname with htoken | hmem
    · cases lexeme with
      | symbol character token hsymbol =>
        obtain rfl : .identifier name = token := htoken
        simp [Token.punctuation] at hsymbol
      | name first rest hfirst hrest =>
        cases htoken
        rw [isIdentifier, String.toList_ofList, Bool.and_eq_true, List.all_eq_true]
        exact ⟨hfirst, hrest⟩
      | number literal => cases htoken
    · exact ih hmem

theorem lexes_of_isIdentifier (hname : isIdentifier text = true) :
    Lexes text.toList [.identifier text] := by
  rw [isIdentifier] at hname
  split at hname
  · cases hname
  · next first rest htext =>
    rw [Bool.and_eq_true, List.all_eq_true] at hname
    have hends : (Lexeme.name first rest hname.1 hname.2).Ends [] := stops_nil
    have hlexes := Lexes.lexeme _ hends.isLongest trivial trivial .nil
    rwa [Lexeme.spelling, Lexeme.token, List.append_nil, ← htext, String.ofList_toList]
      at hlexes

/-- A text is an identifier exactly if it is read as this one name. -/
theorem isIdentifier_iff_tokenize :
    isIdentifier text = true ↔ tokenize text = .ok [.identifier text] := by
  rw [tokenize_eq_ok_iff]
  constructor
  · exact lexes_of_isIdentifier
  · intro hlexes
    exact hlexes.isIdentifier_of_mem List.mem_cons_self

theorem compile_of_isIdentifier (hname : isIdentifier text = true) :
    compile text = .ok (.symbol text) := by
  rw [compile, isIdentifier_iff_tokenize.mp hname]
  rfl

end Names

end Formula

/-! ## What an id stands for -/

section Ids

variable {breakdown : ScoreBreakdown} {entry : PartScore}

/-- An id that no other entry has, and that is not reserved, stands for its total. -/
theorem ScoreBreakdown.meaning_of_mem (hids : (breakdown.parts.map PartScore.id).Nodup)
    (hentry : entry ∈ breakdown.parts) (hfree : entry.id ∉ penaltyNames) :
    breakdown.meaning entry.id = some entry.total := by
  have hfound : (breakdown.parts.reverse.find? fun other => other.id == entry.id) =
      some entry := by
    cases hfind : breakdown.parts.reverse.find? fun other => other.id == entry.id with
    | none =>
      have hnone := List.find?_eq_none.mp hfind entry (List.mem_reverse.mpr hentry)
      exact absurd (beq_self_eq_true entry.id) hnone
    | some other =>
      have hother := List.mem_reverse.mp (List.mem_of_find?_eq_some hfind)
      have hsame : other.id = entry.id := by simpa using List.find?_some hfind
      rw [List.inj_on_of_nodup_map hids hother hentry hsame]
  have hreserved : entry.id ≠ selfPenaltiesName ∧ entry.id ≠ opponentPenaltiesName ∧
      entry.id ≠ netPenaltiesName := by
    simpa [penaltyNames] using hfree
  rw [meaning, if_neg hreserved.2.2, if_neg hreserved.2.1, if_neg hreserved.1, hfound,
    Option.map_some]

end Ids

section Formulas

variable {profile : Profile} {part : Part}

/-- A formula that is the id of a part passes the check. -/
theorem issues_eq_nil_of_id (hvalid : profile.structureIssues = [])
    (hpart : part ∈ profile.parts) (hformula : profile.totalFormula = part.id) {limit : ℕ}
    (hlength : part.id.length ≤ limit) : profile.issues limit = [] := by
  have hcompile := Formula.compile_of_isIdentifier (Profile.isIdentifier_id hvalid hpart)
  have hblank : ¬isBlankText part.id = true := by
    intro hblank
    rw [Formula.compile_of_isBlankText hblank] at hcompile
    cases hcompile
  have hknown : part.id ∈ profile.formulaSymbols :=
    List.mem_append_left _ (List.mem_map_of_mem hpart)
  have hsymbols : (Formula.Expression.symbol part.id).symbols = [part.id] := rfl
  rw [Profile.issues, hvalid, List.nil_append, Profile.formulaIssues, hformula,
    if_neg hblank, if_neg (not_lt.mpr hlength), hcompile]
  simp [hsymbols, hknown]

variable {input : ScoreInput} {settings : EngineSettings}

/-- Such a formula is worth what the breakdown says of the part. -/
theorem evaluateFormula_id (hvalid : profile.structureIssues = [])
    (hpart : part ∈ profile.parts) (hlength : part.id.length ≤ settings.maxFormulaLength)
    {symbols : Formula.SymbolTable} {value : Float} (hsymbol : symbols.get? part.id = some value)
    (hfinite : value.isFinite = true) :
    evaluateFormula part.id symbols settings = .ok value := by
  have hcompile := Formula.compile_of_isIdentifier (Profile.isIdentifier_id hvalid hpart)
  rw [evaluateFormula_of_compile_eq_ok (not_lt.mpr hlength) hcompile,
    Formula.Expression.evaluate, hsymbol]
  exact if_pos hfinite

/-- For an input without errors the symbol of a part is the total of its entry. -/
theorem exists_entry_of_mem (hvalid : profile.structureIssues = [])
    (herrors : profile.inputErrors input = []) (hpart : part ∈ profile.parts)
    (formulaValue : Float) :
    ∃ entry ∈ (profile.breakdown input formulaValue).parts, part.Earns input entry ∧
      (profile.symbols input).get? part.id = some entry.total := by
  have hformed := Profile.structureIssues_eq_nil_iff.mp hvalid
  obtain ⟨points, bonus, hpoints, hbonus, hscored⟩ := entry?_eq_some herrors hpart
  have hentry : part.scored points bonus ∈ (profile.breakdown input formulaValue).parts :=
    List.mem_filterMap.mpr ⟨part, hpart, hscored⟩
  have hids : ((profile.breakdown input formulaValue).parts.map PartScore.id).Nodup :=
    (map_id_entries herrors).symm ▸ hformed.partIds
  have hfree := hformed.names part.id (List.mem_append_left _ (List.mem_map_of_mem hpart))
  have hmeaning := ScoreBreakdown.meaning_of_mem hids hentry hfree.2
  refine ⟨_, hentry, earns_scored hpoints hbonus, ?_⟩
  exact (get?_symbolTable (profile.breakdown input formulaValue) part.id).trans hmeaning

end Formulas

/-- Identifiers are exactly the texts that a formula holds as one name.  So the id of a part of
a well-formed profile is a formula that passes the check, if the limit admits its length, and
for every input without errors it is worth the points and the bonus of the part. -/
theorem ids_are_names_of_formulas :
    (∀ text, isIdentifier text = true ↔ Formula.tokenize text = .ok [.identifier text]) ∧
    ∀ (profile : Profile) (part : Part) (settings : EngineSettings),
      profile.structureIssues = [] → part ∈ profile.parts →
      profile.totalFormula = part.id → part.id.length ≤ settings.maxFormulaLength →
      Formula.compile part.id = .ok (.symbol part.id) ∧
        profile.issues settings.maxFormulaLength = [] ∧
        ∀ input, profile.inputErrors input = [] →
          ∃ result, profile.scoreMatch input settings = .ok result ∧
            ∃ entry ∈ result.breakdown.parts, part.Earns input entry ∧
              result.breakdown.formulaValue = entry.points + entry.bonus := by
  constructor
  · intro text
    exact Formula.isIdentifier_iff_tokenize
  · intro profile part settings hvalid hpart hformula hlength
    have hname := Profile.isIdentifier_id hvalid hpart
    refine ⟨Formula.compile_of_isIdentifier hname,
      issues_eq_nil_of_id hvalid hpart hformula hlength, ?_⟩
    intro input herrors
    have hpriced := (Profile.structureIssues_eq_nil_iff.mp hvalid).points part hpart
    obtain ⟨entry, hentry, hearns, hsymbol⟩ := exists_entry_of_mem hvalid herrors hpart 0.0
    have hvalue := evaluateFormula_id hvalid hpart hlength hsymbol
      (hearns.isPoints_total hpriced).1
    have hresult := scoreMatch_of_inputErrors_eq_nil profile input settings herrors
    rw [hformula, hvalue] at hresult
    exact ⟨_, hresult, entry, hentry, hearns, rfl⟩

/-- A name with a blank before it is no identifier, though it is read as one name.  The flag
and its bonus are worth 30 points together. -/
theorem climb_is_formula :
    isIdentifier " climb" = false ∧ Formula.tokenize " climb" = .ok [.identifier "climb"] ∧
      Formula.tokenize "climb" = .ok [.identifier "climb"] ∧
      climbProfile.structureIssues = [] ∧ climbPart ∈ climbProfile.parts ∧
      climbProfile.inputErrors (climbInput true) = [] ∧
      ∃ result, climbProfile.scoreMatch (climbInput true) EngineSettings.default = .ok result ∧
        result.breakdown.formulaValue = 20.0 + 10.0 := by
  have hblank : Formula.tokenize " climb" = .ok [.identifier "climb"] := by cbv
  have hvalid : climbProfile.structureIssues = [] := by decide +kernel
  have hpart : climbPart ∈ climbProfile.parts := List.mem_singleton_self _
  have herrors : climbProfile.inputErrors (climbInput true) = [] := by rfl
  obtain ⟨hnames, hformulas⟩ := ids_are_names_of_formulas
  obtain ⟨-, -, hscores⟩ := hformulas climbProfile climbPart EngineSettings.default hvalid hpart
    rfl (by decide)
  obtain ⟨result, hresult, entry, -, hearns, hvalue⟩ := hscores (climbInput true) herrors
  refine ⟨?_, hblank, (hnames "climb").mp (by decide), hvalid, hpart, herrors, result,
    hresult, ?_⟩
  · rw [Bool.eq_false_iff]
    intro hname
    have hsame := ((hnames " climb").mp hname).symm.trans hblank
    simp at hsame
  · obtain ⟨raw, hraw, hpoints⟩ := hearns.points_eq
    obtain rfl : RawValue.flag true = raw := Option.some.inj hraw
    have hbonus : Except.ok 10.0 = Except.ok entry.bonus := hearns.bonus_eq _ rfl
    rw [hvalue, ← Except.ok.inj hpoints, ← Except.ok.inj hbonus]
    rfl

end TournamentScoring
