import TournamentScoring.Decimal.Reading
import TournamentScoring.Formula.Error
import TournamentScoring.Text.Blank
import TournamentScoring.Text.Identifier

/-!
# From characters to tokens

A formula is read from the left, always taking the longest word.  Blank
characters separate words and are skipped.  A number has digits before or after
its point, and digits must follow a point; it may not run into a name, so that
`2x` is refused and not read as two words.
-/

namespace TournamentScoring.Formula

open TournamentScoring.Text

/-- The text of a number, cut at its point, and what follows it. -/
structure Numeral where
  whole : List Char
  hasPoint : Bool
  fraction : List Char
  rest : List Char

namespace Numeral

/-- The longest run of digits, point and digits. -/
def scan (characters : List Char) : Numeral :=
  match characters.dropWhile Char.isDigit with
  | '.' :: after =>
    ⟨characters.takeWhile Char.isDigit, true, after.takeWhile Char.isDigit,
      after.dropWhile Char.isDigit⟩
  | rest => ⟨characters.takeWhile Char.isDigit, false, [], rest⟩

def spelling (numeral : Numeral) : List Char :=
  numeral.whole ++ (if numeral.hasPoint then ['.'] else []) ++ numeral.fraction

/-- A number needs a digit, and a point needs digits after it. -/
def isComplete (numeral : Numeral) : Bool :=
  if numeral.hasPoint then !numeral.fraction.isEmpty else !numeral.whole.isEmpty

def value (numeral : Numeral) : Float :=
  Decimal.ofDigits numeral.whole numeral.fraction 0

/-- The value of a numeral that starts at `position`, `read_number` of the
lexer. -/
def read (numeral : Numeral) (position : Nat) : Except Malformation Float :=
  if !numeral.isComplete then
    .error (.invalidNumber (String.ofList numeral.spelling) position)
  else if numeral.rest.head?.any isNameStart then
    .error (.nameAfterDigits position)
  else if !numeral.value.isFinite then
    .error (.invalidNumber (String.ofList numeral.spelling) position)
  else
    .ok numeral.value

/-- A numeral takes at least its first character. -/
theorem length_rest_scan_lt {head : Char} {rest : List Char}
    (hhead : head.isDigit || head == '.') :
    (scan (head :: rest)).rest.length < (head :: rest).length := by
  have hdrop : ∀ {character : Char} {after : List Char},
      (head :: rest).dropWhile Char.isDigit = character :: after →
      after.length ≤ rest.length := by
    intro character after heq
    have hle := (List.dropWhile_sublist (l := head :: rest) Char.isDigit).length_le
    rw [heq] at hle
    simpa using hle
  unfold scan
  split
  · rename_i after heq
    have hle := (List.dropWhile_sublist (l := after) Char.isDigit).length_le
    have := hdrop heq
    simp only [List.length_cons]
    omega
  · rename_i hnot
    simp only [List.length_cons]
    by_cases hdigit : head.isDigit
    · rw [List.dropWhile_cons_of_pos hdigit]
      exact Nat.lt_succ_of_le (List.dropWhile_sublist _).length_le
    · have hpoint : head = '.' := by simpa [hdigit] using hhead
      exact absurd (by simp [hpoint]) (hnot rest)

end Numeral

/-- The tokens of the characters from `position` on. -/
def tokensFrom (position : Nat) : List Char → Except Malformation (List Token)
  | [] => .ok []
  | head :: rest =>
    if isBlank head then tokensFrom (position + 1) rest
    else
      match Token.ofSymbol? head with
      | some token =>
        (tokensFrom (position + 1) rest).map fun tokens => token :: tokens
      | none =>
        if _hnumber : head.isDigit || head == '.' then
          let numeral := Numeral.scan (head :: rest)
          match numeral.read position with
          | .error cause => .error cause
          | .ok value =>
            (tokensFrom (position + numeral.spelling.length) numeral.rest).map
              fun tokens => Token.number value :: tokens
        else if isNameStart head then
          let name := head :: rest.takeWhile isNameRest
          (tokensFrom (position + name.length) (rest.dropWhile isNameRest)).map
            fun tokens => Token.identifier (String.ofList name) :: tokens
        else
          .error (.unexpectedCharacter head position)
termination_by characters => characters.length
decreasing_by
  · simp
  · simp
  · exact Numeral.length_rest_scan_lt _hnumber
  · exact Nat.lt_succ_of_le (List.dropWhile_sublist _).length_le

/-- Splits a formula into its tokens, `tokenize` of the lexer. -/
def tokenize (source : String) : Except Malformation (List Token) :=
  tokensFrom 0 source.toList

end TournamentScoring.Formula
