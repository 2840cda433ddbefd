import TournamentScoring.Proofs.Formula.Parsing
import TournamentScoring.Proofs.Text.Lines

/-!
# Messages about formulas

Whatever a formula is, the message about its fault is one line.  A line break is a
blank character, so the lexer never refuses it, and a token never contains it.
-/

namespace TournamentScoring.Formula

open TournamentScoring.Text

/-- A token whose name, if it has one, is one line. -/
def Token.IsOneLine : Token → Prop
  | identifier name => Text.IsOneLine name
  | _ => True

theorem Token.isOneLine_describe {token : Token} (htoken : token.IsOneLine) :
    Text.IsOneLine token.describe := by
  cases token with
  | number value =>
    have hword : Text.IsOneLine "number " := by decide
    exact hword.append (Decimal.Style.isOneLine_write _ value)
  | identifier name =>
    have hword : Text.IsOneLine "identifier '" := by decide
    have hquote : Text.IsOneLine "'" := by decide
    exact (hword.append htoken).append hquote
  | plus => decide
  | minus => decide
  | star => decide
  | slash => decide
  | openParen => decide
  | closeParen => decide

/-! ## The lexer -/

/-- An outcome of the lexer without any line break. -/
def IsOneLineOutcome : Except Malformation (List Token) → Prop
  | .ok tokens => ∀ token ∈ tokens, token.IsOneLine
  | .error cause => Text.IsOneLine cause.message

theorem IsOneLineOutcome.map_cons {outcome : Except Malformation (List Token)}
    (houtcome : IsOneLineOutcome outcome) {token : Token}
    (htoken : token.IsOneLine) :
    IsOneLineOutcome (outcome.map fun tokens => token :: tokens) := by
  cases outcome with
  | ok tokens => exact List.forall_mem_cons.mpr ⟨htoken, houtcome⟩
  | error cause => exact houtcome

theorem not_mem_takeWhile {p : Char → Bool} (hbreak : p '\n' = false)
    (characters : List Char) : '\n' ∉ characters.takeWhile p := by
  intro hmem
  have hp := List.all_eq_true.mp List.all_takeWhile _ hmem
  rw [hbreak] at hp
  cases hp

theorem Numeral.not_mem_spelling_scan (characters : List Char) :
    '\n' ∉ (Numeral.scan characters).spelling := by
  have hdigits := not_mem_takeWhile (p := Char.isDigit) (by decide)
  rw [Numeral.scan]
  split
  · simp [Numeral.spelling, hdigits]
  · simp [Numeral.spelling, hdigits]

theorem Malformation.isOneLine_invalidNumber {literal : List Char}
    (hliteral : '\n' ∉ literal) (position : Nat) :
    Text.IsOneLine (invalidNumber (String.ofList literal) position).message := by
  have hstart : Text.IsOneLine "invalid numeric literal '" := by decide
  have hplace : Text.IsOneLine "' at position " := by decide
  exact ((hstart.append (isOneLine_ofList.mpr hliteral)).append hplace).append
    (isOneLine_toString_nat position)

theorem Malformation.isOneLine_nameAfterDigits (position : Nat) :
    Text.IsOneLine (nameAfterDigits position).message := by
  have hstart : Text.IsOneLine
      "identifier cannot start with a digit at position " := by decide
  exact hstart.append (isOneLine_toString_nat position)

theorem Malformation.isOneLine_unexpectedCharacter {character : Char}
    (hblank : ¬isBlank character = true) (position : Nat) :
    Text.IsOneLine (unexpectedCharacter character position).message := by
  have hbreak : character ≠ '\n' := by
    rintro rfl
    exact hblank (by decide)
  have hstart : Text.IsOneLine "unexpected character '" := by decide
  have hplace : Text.IsOneLine "' at position " := by decide
  exact ((hstart.append (isOneLine_toString_char hbreak)).append hplace).append
    (isOneLine_toString_nat position)

theorem Numeral.isOneLine_of_read_scan {characters : List Char} {position : Nat}
    {cause : Malformation}
    (hread : (Numeral.scan characters).read position = .error cause) :
    Text.IsOneLine cause.message := by
  have hspelling := Malformation.isOneLine_invalidNumber
    (Numeral.not_mem_spelling_scan characters) position
  rw [read] at hread
  split at hread
  · obtain rfl := Except.error.inj hread
    exact hspelling
  · split at hread
    · obtain rfl := Except.error.inj hread
      exact Malformation.isOneLine_nameAfterDigits position
    · split at hread
      · obtain rfl := Except.error.inj hread
        exact hspelling
      · cases hread

theorem Token.isOneLine_of_ofSymbol? {character : Char} {token : Token}
    (hsymbol : Token.ofSymbol? character = some token) : token.IsOneLine := by
  unfold ofSymbol? at hsymbol
  split at hsymbol
  all_goals cases hsymbol
  all_goals trivial

/-- What the lexer says is one line, whether it fails or not. -/
theorem isOneLineOutcome_tokensFrom (position : Nat) (characters : List Char) :
    IsOneLineOutcome (tokensFrom position characters) := by
  fun_induction tokensFrom position characters with
  | case1 position => exact List.forall_mem_nil _
  | case2 position head rest hblank ih => exact ih
  | case3 position head rest hblank token hsymbol ih =>
    exact ih.map_cons (Token.isOneLine_of_ofSymbol? hsymbol)
  | case4 position head rest hblank hsymbol hnumber numeral cause hread =>
    exact Numeral.isOneLine_of_read_scan hread
  | case5 position head rest hblank hsymbol hnumber numeral value hread ih =>
    exact ih.map_cons trivial
  | case6 position head rest hblank hsymbol hnumber hname name ih =>
    refine ih.map_cons (isOneLine_ofList.mpr ?_)
    rw [List.mem_cons, not_or]
    refine ⟨?_, not_mem_takeWhile (by decide) rest⟩
    -- The first character is not blank, as a line break is.
    rintro rfl
    exact hblank (by decide)
  | case7 position head rest hblank hsymbol hnumber hname =>
    exact Malformation.isOneLine_unexpectedCharacter hblank position

/-! ## The parser -/

theorem Malformation.isOneLine_expectedOperand {found : Token}
    (hfound : found.IsOneLine) :
    Text.IsOneLine (expectedOperand found).message := by
  have hstart : Text.IsOneLine
      "expected a number, identifier or '(' but found " := by decide
  exact hstart.append (Token.isOneLine_describe hfound)

theorem Malformation.isOneLine_expectedClose {found : Token}
    (hfound : found.IsOneLine) :
    Text.IsOneLine (expectedClose found).message := by
  have hstart : Text.IsOneLine "expected ')' but found " := by decide
  exact hstart.append (Token.isOneLine_describe hfound)

theorem Malformation.isOneLine_trailing {found : Token}
    (hfound : found.IsOneLine) : Text.IsOneLine (trailing found).message := by
  have hstart : Text.IsOneLine "unexpected " := by decide
  have hend : Text.IsOneLine " after end of expression" := by decide
  exact (hstart.append (Token.isOneLine_describe hfound)).append hend

theorem Malformation.isOneLine_nestsTooDeep :
    Text.IsOneLine nestsTooDeep.message := by
  have hstart : Text.IsOneLine "formula nests deeper than " := by decide
  have hend : Text.IsOneLine " levels" := by decide
  exact (hstart.append (isOneLine_toString_nat nestingLimit)).append hend

namespace Progress

/-- A token that is refused is refused by its own name or for its depth. -/
theorem isOneLine_of_read {progress : Progress} {token : Token}
    {cause : Malformation} (htoken : token.IsOneLine)
    (hread : progress.read token = .error cause) :
    Text.IsOneLine cause.message := by
  cases progress with
  | awaiting level outer =>
    rw [read] at hread
    unfold readOperand at hread
    split at hread
    · cases hread
    · cases hread
    · split at hread
      · cases hread
      · obtain rfl := Except.error.inj hread
        exact Malformation.isOneLine_nestsTooDeep
    · split at hread
      · cases hread
      · obtain rfl := Except.error.inj hread
        exact Malformation.isOneLine_nestsTooDeep
    · obtain rfl := Except.error.inj hread
      exact Malformation.isOneLine_expectedOperand htoken
  | complete sum product outer =>
    rw [read] at hread
    unfold readOperator at hread
    split at hread
    · cases hread
    · cases hread
    · cases hread
    · cases hread
    · cases hread
    · obtain rfl := Except.error.inj hread
      exact Malformation.isOneLine_trailing htoken
    · obtain rfl := Except.error.inj hread
      exact Malformation.isOneLine_expectedClose htoken

theorem isOneLine_of_readAll {progress : Progress} {tokens : List Token}
    {cause : Malformation} (htokens : ∀ token ∈ tokens, token.IsOneLine)
    (hread : progress.readAll tokens = .error cause) :
    Text.IsOneLine cause.message := by
  induction tokens generalizing progress with
  | nil => cases hread
  | cons token rest ih =>
    obtain ⟨htoken, hrest⟩ := List.forall_mem_cons.mp htokens
    rw [readAll] at hread
    split at hread
    · rename_i found hfound
      obtain rfl := Except.error.inj hread
      exact isOneLine_of_read htoken hfound
    · exact ih hrest hread

theorem isOneLine_of_finish {progress : Progress} {cause : Malformation}
    (hfinish : progress.finish = .error cause) :
    Text.IsOneLine cause.message := by
  unfold finish at hfinish
  split at hfinish
  · obtain rfl := Except.error.inj hfinish
    decide
  · cases hfinish
  · obtain rfl := Except.error.inj hfinish
    decide

end Progress

theorem isOneLine_of_parse {tokens : List Token} {cause : Malformation}
    (htokens : ∀ token ∈ tokens, token.IsOneLine)
    (hparse : parse tokens = .error cause) : Text.IsOneLine cause.message := by
  rw [parse] at hparse
  split at hparse
  · obtain rfl := Except.error.inj hparse
    decide
  · split at hparse
    · rename_i found hfound
      obtain rfl := Except.error.inj hparse
      exact Progress.isOneLine_of_readAll htokens hfound
    · exact Progress.isOneLine_of_finish hparse

/-! ## Formulas -/

theorem isOneLine_of_compile_eq_error {source : String} {cause : Malformation}
    (hcompile : compile source = .error cause) :
    Text.IsOneLine cause.message := by
  have houtcome := isOneLineOutcome_tokensFrom 0 source.toList
  rw [compile, tokenize] at hcompile
  split at hcompile
  · rename_i found hfound
    obtain rfl := Except.error.inj hcompile
    rw [hfound] at houtcome
    exact houtcome
  · rename_i tokens htokens
    rw [htokens] at houtcome
    exact isOneLine_of_parse houtcome hcompile

theorem isOneLine_of_mem_names {source : String} {expression : Expression}
    (hcompile : compile source = .ok expression) {name : String}
    (hname : name ∈ expression.names) : Text.IsOneLine name := by
  have houtcome := isOneLineOutcome_tokensFrom 0 source.toList
  rw [compile, tokenize] at hcompile
  split at hcompile
  · cases hcompile
  · rename_i tokens htokens
    rw [htokens] at houtcome
    exact houtcome _ ((identifier_mem_iff_of_parse hcompile).mpr hname)

end TournamentScoring.Formula
