import TournamentScoring.Proofs.Formula.Lexing

/-!
# Where a formula is malformed

A blank character separates words and joins none, so the text in front of it and the text
behind it are read on their own: the tokens of the two are put together, and positions
behind it count from the start of the whole.  An error names the position of the first
character that no word can be made of; the text in front of it is accepted.
-/

namespace TournamentScoring.Formula

open TournamentScoring.Text

/-! ## Positions in messages -/

namespace Malformation

/-- The position that a message reports. -/
def position? : Malformation → Option Nat
  | invalidNumber _ position => some position
  | nameAfterDigits position => some position
  | unexpectedCharacter _ position => some position
  | _ => none

/-- The same fault further on in a text. -/
def shift (distance : Nat) : Malformation → Malformation
  | invalidNumber literal position => invalidNumber literal (position + distance)
  | nameAfterDigits position => nameAfterDigits (position + distance)
  | unexpectedCharacter character position =>
    unexpectedCharacter character (position + distance)
  | other => other

/-- A message ends with the position that it reports. -/
theorem exists_message_shift {cause : Malformation} {position : Nat}
    (hposition : cause.position? = some position) :
    ∃ what, ∀ distance, (cause.shift distance).message =
      what ++ " at position " ++ toString (position + distance) := by
  have hquoted : ∀ start inner number : String,
      start ++ inner ++ "' at position " ++ number =
        start ++ inner ++ "'" ++ " at position " ++ number := by
    intro start inner number
    have hquote : "' at position " = "'" ++ " at position " := by decide
    rw [hquote, ← String.append_assoc]
  cases cause with
  | invalidNumber literal found =>
    obtain rfl : found = position := Option.some.inj hposition
    exact ⟨"invalid numeric literal '" ++ literal ++ "'", fun distance =>
      hquoted "invalid numeric literal '" literal (toString (found + distance))⟩
  | nameAfterDigits found =>
    obtain rfl : found = position := Option.some.inj hposition
    have hstart : "identifier cannot start with a digit at position " =
        "identifier cannot start with a digit" ++ " at position " := by decide
    exact ⟨"identifier cannot start with a digit", fun distance =>
      congrArg (· ++ toString (found + distance)) hstart⟩
  | unexpectedCharacter character found =>
    obtain rfl : found = position := Option.some.inj hposition
    exact ⟨"unexpected character '" ++ toString character ++ "'", fun distance =>
      hquoted "unexpected character '" (toString character) (toString (found + distance))⟩
  | _ => cases hposition

theorem shift_zero (cause : Malformation) : cause.shift 0 = cause := by
  cases cause <;> rfl

end Malformation

/-- A fault is reported where it is found. -/
theorem Refused.position?_eq {text : List Char} {fault : Nat → Malformation}
    (hrefused : Refused text fault) (position : Nat) :
    (fault position).position? = some position := by
  cases hrefused <;> rfl

theorem Refused.shift_eq {text : List Char} {fault : Nat → Malformation}
    (hrefused : Refused text fault) (position distance : Nat) :
    (fault position).shift distance = fault (position + distance) := by
  cases hrefused <;> rfl

theorem Refused.exists_eq_cons {text : List Char} {fault : Nat → Malformation}
    (hrefused : Refused text fault) :
    ∃ first rest, text = first :: rest ∧ ¬isBlank first = true := by
  cases hrefused with
  | character hblank hfirst => exact ⟨_, _, rfl, hblank⟩
  | point hdigits hafter =>
    obtain ⟨first, rest, htext, hfirst⟩ := exists_pointed_eq_cons hdigits _
    exact ⟨first, rest, htext, Kind.not_isBlank_of_starts hfirst⟩
  | joined literal hcontinued hname =>
    obtain ⟨first, rest, hspelling, hfirst⟩ := literal.exists_spelling_eq_cons
    exact ⟨first, _, by rw [hspelling]; rfl, Kind.not_isBlank_of_starts hfirst⟩
  | infinite literal hends hinfinite =>
    obtain ⟨first, rest, hspelling, hfirst⟩ := literal.exists_spelling_eq_cons
    exact ⟨first, _, by rw [hspelling]; rfl, Kind.not_isBlank_of_starts hfirst⟩

/-! ## Moving a text -/

/-- Where a text stands changes nothing but the position of its error. -/
theorem tokensFrom_add (position distance : Nat) (text : List Char) :
    tokensFrom (position + distance) text =
      (tokensFrom position text).mapError (Malformation.shift distance) := by
  induction text using words_induction generalizing position with
  | nil => rw [tokensFrom, tokensFrom]; rfl
  | blank first rest hblank ih =>
    rw [tokensFrom, tokensFrom, if_pos hblank, if_pos hblank, ← ih, Nat.add_right_comm]
  | lexeme lexeme after hends hfinite ih =>
    rw [tokensFrom_lexeme hends hfinite, tokensFrom_lexeme hends hfinite,
      Nat.add_right_comm, ih]
    cases tokensFrom (position + lexeme.spelling.length) after <;> rfl
  | refused text fault hrefused =>
    rw [hrefused.tokensFrom_eq, hrefused.tokensFrom_eq, ← hrefused.shift_eq]
    rfl

/-! ## Cutting at a blank character -/

section Blank

variable {blank : Char} (hblank : isBlank blank = true)
include hblank

theorem Lexeme.isJoinedBy_of_isBlank (lexeme : Lexeme) :
    lexeme.isJoinedBy blank = false := by
  have hpoint : (blank == '.') = false := by
    refine beq_eq_false_iff_ne.mpr ?_
    rintro rfl
    exact absurd hblank (by decide)
  rcases lexeme with _ | _ | literal
  · rfl
  · exact isNameRest_of_isBlank hblank
  · cases literal <;> simp only [isJoinedBy, Literal.isContinuedBy, hpoint, Bool.or_false,
      isNameStart_of_isBlank hblank, isDigit_of_isBlank hblank]

theorem Lexeme.Ends.append_blank {lexeme : Lexeme} {after : List Char}
    (hends : lexeme.Ends after) (rest : List Char) :
    lexeme.Ends (after ++ blank :: rest) :=
  hends.append_cons (isJoinedBy_of_isBlank hblank lexeme)

theorem Refused.append_blank {text : List Char} {fault : Nat → Malformation}
    (hrefused : Refused text fault) (rest : List Char) :
    Refused (text ++ blank :: rest) fault := by
  have hcontinued : ∀ literal : Literal, literal.isContinuedBy blank = false := fun literal =>
    (Bool.or_eq_false_iff.mp (Lexeme.isJoinedBy_of_isBlank hblank (.number literal))).2
  cases hrefused with
  | character hfirst hstarts => exact .character hfirst hstarts
  | point hdigits hafter =>
    rw [List.append_assoc, List.cons_append]
    exact .point hdigits (hafter.append_cons (isDigit_of_isBlank hblank))
  | joined literal hliteral hname =>
    rw [List.append_assoc]
    exact .joined literal (hliteral.append_cons (hcontinued literal)) (mt Stops.of_append hname)
  | infinite literal hends hinfinite =>
    rw [List.append_assoc]
    exact .infinite literal (hends.append_blank hblank rest) hinfinite

/-- The text behind a blank character is read as if it stood alone, further on. -/
theorem tokensFrom_append_blank (position : Nat) (text rest : List Char) :
    tokensFrom position (text ++ blank :: rest) =
      match tokensFrom position text with
      | .error cause => .error cause
      | .ok tokens => (tokensFrom (position + text.length + 1) rest).map (tokens ++ ·) := by
  induction text using words_induction generalizing position with
  | nil =>
    rw [List.nil_append, tokensFrom, tokensFrom, if_pos hblank]
    cases tokensFrom (position + 1) rest <;> rfl
  | blank first others hfirst ih =>
    rw [List.cons_append, tokensFrom, if_pos hfirst, tokensFrom, if_pos hfirst, ih,
      List.length_cons, Nat.add_right_comm position, Nat.add_assoc position]
  | lexeme lexeme after hends hfinite ih =>
    rw [List.append_assoc, tokensFrom_lexeme (hends.append_blank hblank rest) hfinite,
      tokensFrom_lexeme hends hfinite, ih, List.length_append, ← Nat.add_assoc position]
    cases tokensFrom (position + lexeme.spelling.length) after with
    | error cause => rfl
    | ok tokens =>
      cases tokensFrom (position + lexeme.spelling.length + after.length + 1) rest <;> rfl
  | refused text fault hrefused =>
    rw [(hrefused.append_blank hblank rest).tokensFrom_eq, hrefused.tokensFrom_eq]

end Blank

/-! ## In front of an error -/

theorem Lexeme.Ends.of_append {lexeme : Lexeme} {after rest : List Char}
    (hends : lexeme.Ends (after ++ rest)) : lexeme.Ends after :=
  Stops.of_append hends

/-- An error names the position of a character that is not blank.  The text in front of
this character is accepted: its last word ends there as it does in the whole text. -/
theorem exists_prefix_of_tokensFrom_eq_error {position : Nat} {text : List Char}
    {cause : Malformation} (herror : tokensFrom position text = .error cause) :
    ∃ before refused after, text = before ++ refused :: after ∧
      ¬isBlank refused = true ∧ cause.position? = some (position + before.length) ∧
      ∃ tokens, tokensFrom position before = .ok tokens := by
  induction text using words_induction generalizing position with
  | nil => rw [tokensFrom] at herror; cases herror
  | blank first rest hblank ih =>
    rw [tokensFrom, if_pos hblank] at herror
    obtain ⟨before, refused, after, rfl, hrefused, hposition, tokens, htokens⟩ := ih herror
    refine ⟨first :: before, refused, after, rfl, hrefused, ?_, tokens, ?_⟩
    · rw [hposition, List.length_cons, Nat.add_right_comm, Nat.add_assoc]
    · rw [tokensFrom, if_pos hblank, htokens]
  | lexeme lexeme rest hends hfinite ih =>
    rw [tokensFrom_lexeme hends hfinite] at herror
    cases hrest : tokensFrom (position + lexeme.spelling.length) rest with
    | ok tokens => rw [hrest] at herror; cases herror
    | error found =>
      rw [hrest] at herror
      obtain rfl : found = cause := Except.error.inj herror
      obtain ⟨before, refused, after, rfl, hrefused, hposition, tokens, htokens⟩ := ih hrest
      refine ⟨lexeme.spelling ++ before, refused, after, by rw [List.append_assoc], hrefused,
        ?_, lexeme.token :: tokens, ?_⟩
      · rw [hposition, List.length_append, Nat.add_assoc]
      · rw [tokensFrom_lexeme hends.of_append hfinite, htokens]
        rfl
  | refused text fault hrefused =>
    obtain ⟨first, rest, rfl, hfirst⟩ := hrefused.exists_eq_cons
    rw [hrefused.tokensFrom_eq] at herror
    obtain rfl : fault position = cause := Except.error.inj herror
    exact ⟨[], first, rest, rfl, hfirst, hrefused.position?_eq position, [],
      by rw [tokensFrom]⟩

/-! ## Formulas -/

theorem tokenize_append_blank {first second : String} {blank : Char}
    (hblank : isBlank blank = true) :
    tokenize (first ++ String.singleton blank ++ second) =
      match tokenize first with
      | .error cause => .error cause
      | .ok tokens =>
        ((tokenize second).mapError (Malformation.shift (first.length + 1))).map
          (tokens ++ ·) := by
  have htext : (first ++ String.singleton blank ++ second).toList =
      first.toList ++ blank :: second.toList := by
    simp
  have hsecond := tokensFrom_add 0 (first.length + 1) second.toList
  rw [Nat.zero_add] at hsecond
  rw [tokenize, htext, tokensFrom_append_blank hblank, String.length_toList, Nat.zero_add,
    hsecond]
  rfl

theorem exists_position_of_tokenize_eq_error {source : String} {cause : Malformation}
    (herror : tokenize source = .error cause) :
    ∃ position, cause.position? = some position ∧ position < source.length ∧
      (∃ refused, source.toList[position]? = some refused ∧ isBlank refused = false) ∧
      ∃ tokens, tokenize (String.ofList (source.toList.take position)) = .ok tokens := by
  obtain ⟨before, refused, after, htext, hrefused, hposition, tokens, htokens⟩ :=
    exists_prefix_of_tokensFrom_eq_error herror
  rw [Nat.zero_add] at hposition
  refine ⟨before.length, hposition, ?_, ⟨refused, ?_, Bool.eq_false_iff.mpr hrefused⟩,
    tokens, ?_⟩
  · rw [← String.length_toList, htext, List.length_append, List.length_cons]
    omega
  · rw [htext, List.getElem?_append_right (Nat.le_refl _), Nat.sub_self]
    rfl
  · rw [tokenize, String.toList_ofList, htext, List.take_left]
    exact htokens

/-- A blank character cuts the reading of a formula in two.  A failure in front of it is
that of the front alone; else the tokens of both parts follow each other, or the back
fails as it does alone, with its position counted from the start of the whole.  A failure
reports, at the end of its message, the position of a character that is not blank, and
the text in front of this character has tokens. -/
theorem tokenize_is_cut_at_blanks :
    (∀ (first second : String) (blank : Char), isBlank blank = true →
      (∀ cause, tokenize first = .error cause →
        tokenize (first ++ String.singleton blank ++ second) = .error cause) ∧
      ∀ tokens, tokenize first = .ok tokens →
        (∀ others, tokenize second = .ok others →
          tokenize (first ++ String.singleton blank ++ second) = .ok (tokens ++ others)) ∧
        ∀ cause, tokenize second = .error cause →
          tokenize (first ++ String.singleton blank ++ second) =
            .error (cause.shift (first.length + 1))) ∧
    ∀ (source : String) (cause : Malformation), tokenize source = .error cause →
      ∃ position, cause.position? = some position ∧
        (∃ what, cause.message = what ++ " at position " ++ toString position ∧
          ∀ distance, (cause.shift distance).message =
            what ++ " at position " ++ toString (position + distance)) ∧
        position < source.length ∧
        (∃ refused, source.toList[position]? = some refused ∧ isBlank refused = false) ∧
        ∃ tokens, tokenize (String.ofList (source.toList.take position)) = .ok tokens := by
  refine ⟨fun first second blank hblank => ?_, fun source cause herror => ?_⟩
  · rw [tokenize_append_blank hblank]
    refine ⟨fun cause hfirst => by rw [hfirst], fun tokens hfirst => ?_⟩
    rw [hfirst]
    exact ⟨fun others hsecond => by rw [hsecond]; rfl,
      fun cause hsecond => by rw [hsecond]; rfl⟩
  · obtain ⟨position, hposition, hrest⟩ := exists_position_of_tokenize_eq_error herror
    obtain ⟨what, hmessage⟩ := Malformation.exists_message_shift hposition
    have hwhole := hmessage 0
    rw [Malformation.shift_zero] at hwhole
    exact ⟨position, hposition, ⟨what, hwhole, hmessage⟩, hrest⟩

def emSpace : Char := Char.ofNat 0x2003

/-- An em space counts as one character, although its encoding takes three bytes. -/
theorem digits_before_a_name_behind_an_em_space :
    isBlank emSpace = true ∧
      tokenize "x" = .ok [.identifier "x"] ∧
      tokenize "3y" = .error (.nameAfterDigits 0) ∧
      tokenize ("x" ++ String.singleton emSpace ++ "x") =
        .ok [.identifier "x", .identifier "x"] ∧
      tokenize ("x" ++ String.singleton emSpace ++ "3y") = .error (.nameAfterDigits 2) ∧
      tokenize ("3y" ++ String.singleton emSpace ++ "x") = .error (.nameAfterDigits 0) ∧
      ∃ position, (Malformation.nameAfterDigits 2).position? = some position ∧
        position < ("x" ++ String.singleton emSpace ++ "3y").length := by
  have hblank : isBlank emSpace = true := by decide
  have hname : tokenize "x" = .ok [.identifier "x"] := by cbv
  have hdigits : tokenize "3y" = .error (.nameAfterDigits 0) := by cbv
  obtain ⟨hcut, hposition⟩ := tokenize_is_cut_at_blanks
  obtain ⟨hboth, hback⟩ := (hcut "x" "x" emSpace hblank).2 _ hname
  have hshifted := ((hcut "x" "3y" emSpace hblank).2 _ hname).2 _ hdigits
  obtain ⟨position, hreported, -, hbound, -⟩ := hposition _ _ hshifted
  exact ⟨hblank, hname, hdigits, hboth _ hname, hshifted,
    (hcut "3y" "x" emSpace hblank).1 _ hdigits, position, hreported, hbound⟩

end TournamentScoring.Formula
