import Mathlib.Tactic.SplitIfs
import TournamentScoring.Json.Lexeme
import TournamentScoring.Json.Printer

/-!
# Texts are read back

Every character is escaped in a way that reading undoes, so a quoted text is read
as itself, whatever its characters are.
-/

namespace TournamentScoring.Json

open TournamentScoring.Document

/-- What has been read, its characters in reverse, when no escape is open and
nothing was wrong. -/
def TextSoFar.fine (characters : List Char) : TextSoFar where
  characters := characters
  leading := none
  problem := none

/-! ## One character -/

variable (characters rest : List Char)

theorem readText_unescaped {character : Char} (hquote : character ≠ '"')
    (hslash : character ≠ '\\') (hcontrol : ¬character.toNat < 0x20) :
    readText (.fine characters) (character :: rest) =
      readText (.fine (character :: characters)) rest := by
  rw [readText, if_neg hcontrol]
  · rfl
  all_goals
    intros
    contradiction

theorem readText_escaped {character plain : Char} (hunit : character ≠ 'u')
    (hplain : escaped? character = some plain) :
    readText (.fine characters) ('\\' :: character :: rest) =
      readText (.fine (plain :: characters)) rest := by
  rw [readText]
  · simp only [hplain]
    rfl
  all_goals
    intros
    contradiction

theorem readText_numbered {first second third fourth : Char} {unit : Nat}
    (hunit : unit < 0xD800)
    (hnumber : Text.hexNumber? [first, second, third, fourth] = some unit) :
    readText (.fine characters)
        ('\\' :: 'u' :: first :: second :: third :: fourth :: rest) =
      readText (.fine (Char.ofNat unit :: characters)) rest := by
  have hpush : (TextSoFar.fine characters).pushUnit unit =
      .fine (Char.ofNat unit :: characters) := by
    simp only [TextSoFar.pushUnit, TextSoFar.fine]
    rw [if_neg (by omega), if_neg (by omega)]
    rfl
  rw [readText]
  simp only [hnumber, hpush]

theorem readText_closed :
    readText (.fine characters) ('"' :: rest) =
      .closed (.ok (String.ofList characters.reverse)) rest := by
  rw [readText]
  rfl

/-- The control characters are written with four digits. -/
theorem hexNumber_hexText :
    ∀ unit < 0x20, Text.hexNumber? (Text.hexText 4 unit) = some unit := by
  decide

/-- The three ways to write a character: its short escape, its number, itself. -/
theorem escape_cases (character : Char) :
    (∃ code, code ≠ 'u' ∧ escaped? code = some character ∧
        escape character = ['\\', code]) ∨
      (character.toNat < 0x20 ∧
        escape character = ['\\', 'u'] ++ Text.hexText 4 character.toNat) ∨
      (character ≠ '"' ∧ character ≠ '\\' ∧ ¬character.toNat < 0x20 ∧
        escape character = [character]) := by
  unfold escape
  split_ifs with hquote hslash hline hreturn htab hback hfeed hcontrol
  case pos => exact .inl ⟨'"', by decide, congrArg some hquote.symm, rfl⟩
  case pos => exact .inl ⟨'\\', by decide, congrArg some hslash.symm, rfl⟩
  case pos => exact .inl ⟨'n', by decide, congrArg some hline.symm, rfl⟩
  case pos => exact .inl ⟨'r', by decide, congrArg some hreturn.symm, rfl⟩
  case pos => exact .inl ⟨'t', by decide, congrArg some htab.symm, rfl⟩
  case pos => exact .inl ⟨'b', by decide, congrArg some hback.symm, rfl⟩
  case pos => exact .inl ⟨'f', by decide, congrArg some hfeed.symm, rfl⟩
  case pos => exact .inr (.inl ⟨hcontrol, rfl⟩)
  case neg => exact .inr (.inr ⟨hquote, hslash, hcontrol, rfl⟩)

/-- The escape of a character is read as the character. -/
theorem readText_escape (character : Char) :
    readText (.fine characters) (escape character ++ rest) =
      readText (.fine (character :: characters)) rest := by
  obtain ⟨code, hunit, hplain, hescape⟩ | ⟨hcontrol, hescape⟩ |
    ⟨hquote, hslash, hcontrol, hescape⟩ := escape_cases character
  · rw [hescape]
    exact readText_escaped characters rest hunit hplain
  · have hnumber := hexNumber_hexText character.toNat hcontrol
    have hread := readText_numbered characters rest
      (Nat.lt_of_lt_of_le hcontrol (by decide)) hnumber
    rw [Char.ofNat_toNat] at hread
    rw [hescape]
    exact hread
  · rw [hescape]
    exact readText_unescaped characters rest hquote hslash hcontrol

/-! ## Whole texts -/

theorem readText_flatMap_escape (text : List Char) :
    readText (.fine characters) (text.flatMap escape ++ '"' :: rest) =
      .closed (.ok (String.ofList (characters.reverse ++ text))) rest := by
  induction text generalizing characters with
  | nil =>
    rw [List.flatMap_nil, List.nil_append, List.append_nil]
    exact readText_closed characters rest
  | cons character text ih =>
    rw [List.flatMap_cons, List.append_assoc, readText_escape, ih,
      List.reverse_cons, List.append_assoc, List.singleton_append]

/-- What follows the opening quote of a text is read as the text. -/
theorem readText_quoted (text : String) :
    readText .start (text.toList.flatMap escape ++ '"' :: rest) =
      .closed (.ok text) rest := by
  have hread := readText_flatMap_escape [] rest text.toList
  rw [List.reverse_nil, List.nil_append, String.ofList_toList] at hread
  exact hread

theorem scalarStep_quoted (text : String) :
    scalarStep (quoted text ++ rest) = (.text text, some rest) := by
  rw [quoted, List.cons_append, List.append_assoc, List.singleton_append, scalarStep,
    textStep, readText_quoted]

end TournamentScoring.Json
