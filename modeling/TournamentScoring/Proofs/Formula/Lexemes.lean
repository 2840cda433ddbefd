import TournamentScoring.Formula.Token
import TournamentScoring.Proofs.Decimal.Digits
import TournamentScoring.Proofs.Decimal.Reading
import TournamentScoring.Proofs.Text.Runs

/-!
# The words of a formula

A formula is a row of blank characters and lexemes, each the longest that stands at its
place.  The first character of a lexeme tells its kind, and whether the lexeme ends where
it does is seen from the one character behind it.
-/

namespace TournamentScoring.Formula

open TournamentScoring.Text

/-! ## Lexemes -/

/-- The text of a number: digits, or a point with digits behind it and perhaps before. -/
inductive Literal
  | whole (digits : List Char) (hdigits : ∀ digit ∈ digits, digit.isDigit = true)
      (hne : digits ≠ [])
  | pointed (digits fraction : List Char)
      (hdigits : ∀ digit ∈ digits, digit.isDigit = true)
      (hfraction : ∀ digit ∈ fraction, digit.isDigit = true) (hne : fraction ≠ [])

namespace Literal

def spelling : Literal → List Char
  | whole digits _ _ => digits
  | pointed digits fraction _ _ _ => digits ++ '.' :: fraction

/-- The number that the digits write. -/
def exact : Literal → ℚ
  | whole digits _ _ => Nat.ofDigitChars 10 digits 0
  | pointed digits fraction _ _ _ =>
    Nat.ofDigitChars 10 (digits ++ fraction) 0 / 10 ^ fraction.length

def value : Literal → Float
  | whole digits _ _ => Decimal.ofDigits digits [] 0
  | pointed digits fraction _ _ _ => Decimal.ofDigits digits fraction 0

/-- The characters that would make the literal go on. -/
def isContinuedBy : Literal → Char → Bool
  | whole _ _ _, character => character.isDigit || character == '.'
  | pointed _ _ _ _ _, character => character.isDigit

/-- The value of a literal is the nearest float to what it writes. -/
theorem rounds_value (literal : Literal) :
    Binary64.Rounds literal.exact literal.value.toModel.unpack := by
  have hzero : (10 : ℚ) ^ ((0 : ℤ) - ((0 : ℕ) : ℤ)) = 1 := rfl
  cases literal with
  | whole digits hdigits hne =>
    have hrounds := Decimal.rounds_ofDigits digits [] 0
    rwa [Decimal.Scientific.value, List.append_nil, Decimal.digitsValue_eq, List.length_nil,
      hzero, mul_one] at hrounds
  | pointed digits fraction hdigits hfraction hne =>
    have hrounds := Decimal.rounds_ofDigits digits fraction 0
    rwa [Decimal.Scientific.value, Decimal.digitsValue_eq, zero_sub, zpow_neg, zpow_natCast,
      ← div_eq_mul_inv] at hrounds

end Literal

/-- The tokens that are spelled with one character. -/
def Token.punctuation : List (Char × Token) :=
  [('+', plus), ('-', minus), ('*', star), ('/', slash), ('(', openParen),
    (')', closeParen)]

/-- A word of a formula. -/
inductive Lexeme
  | symbol (character : Char) (token : Token)
      (hsymbol : (character, token) ∈ Token.punctuation)
  | name (first : Char) (rest : List Char) (hfirst : isNameStart first = true)
      (hrest : ∀ character ∈ rest, isNameRest character = true)
  | number (literal : Literal)

namespace Lexeme

def spelling : Lexeme → List Char
  | symbol character _ _ => [character]
  | name first rest _ _ => first :: rest
  | number literal => literal.spelling

def token : Lexeme → Token
  | symbol _ token _ => token
  | name first rest _ _ => .identifier (String.ofList (first :: rest))
  | number literal => .number literal.value

/-- No number is out of the range of floats. -/
def IsFinite : Lexeme → Prop
  | number literal => literal.value.isFinite = true
  | _ => True

/-- No longer lexeme stands at the start of the text. -/
def IsLongest (lexeme : Lexeme) (after : List Char) : Prop :=
  ∀ other : Lexeme, other.spelling <+: lexeme.spelling ++ after →
    other.spelling.length ≤ lexeme.spelling.length

/-- A number does not run into a name, or into a point that has no digit behind it. -/
def MayPrecede : Lexeme → List Char → Prop
  | number _, after =>
    Stops isNameStart after ∧ ∀ rest, after = '.' :: rest → ¬Stops Char.isDigit rest
  | _, _ => True

end Lexeme

/-- A text of blank characters and lexemes, with the tokens of the lexemes.  Each lexeme
is the longest at its place. -/
inductive Lexes : List Char → List Token → Prop
  | nil : Lexes [] []
  | blank {character : Char} {rest : List Char} {tokens : List Token}
      (hblank : isBlank character = true) (hrest : Lexes rest tokens) :
      Lexes (character :: rest) tokens
  | lexeme (lexeme : Lexeme) {after : List Char} {tokens : List Token}
      (hlongest : lexeme.IsLongest after) (hafter : lexeme.MayPrecede after)
      (hfinite : lexeme.IsFinite) (hrest : Lexes after tokens) :
      Lexes (lexeme.spelling ++ after) (lexeme.token :: tokens)

/-! ## What lexemes start with -/

theorem Token.ofSymbol?_eq_some_iff {character : Char} {token : Token} :
    Token.ofSymbol? character = some token ↔ (character, token) ∈ punctuation := by
  constructor
  · intro hsymbol
    unfold ofSymbol? at hsymbol
    split at hsymbol <;> cases hsymbol <;> decide
  · intro hmem
    simp only [punctuation, List.mem_cons, Prod.mk.injEq, List.not_mem_nil, or_false] at hmem
    rcases hmem with ⟨rfl, rfl⟩ | ⟨rfl, rfl⟩ | ⟨rfl, rfl⟩ | ⟨rfl, rfl⟩ | ⟨rfl, rfl⟩ |
      ⟨rfl, rfl⟩ <;> rfl

/-- The kinds of lexemes.  The first character of a lexeme tells its kind. -/
inductive Kind
  | symbol
  | number
  | name
deriving DecidableEq

namespace Kind

/-- The characters that a lexeme of a kind can start with. -/
def starts : Kind → Char → Bool
  | symbol, character => (Token.ofSymbol? character).isSome
  | number, character => character.isDigit || character == '.'
  | name, character => isNameStart character

variable {kind other : Kind} {character : Char}

theorem starts_symbol_iff :
    symbol.starts character = true ↔
      ∃ token, (character, token) ∈ Token.punctuation := by
  simp only [starts, Option.isSome_iff_exists, Token.ofSymbol?_eq_some_iff]

theorem not_isBlank_of_starts (hstarts : kind.starts character = true) :
    ¬isBlank character = true := by
  intro hblank
  cases kind with
  | symbol =>
    obtain ⟨token, hmem⟩ := starts_symbol_iff.mp hstarts
    have hall : ∀ entry ∈ Token.punctuation, ¬isBlank entry.1 = true := by decide
    exact hall _ hmem hblank
  | number =>
    rcases Bool.or_eq_true_iff.mp hstarts with hdigit | hpoint
    · exact absurd hdigit (Bool.eq_false_iff.mp (isDigit_of_isBlank hblank))
    · rw [beq_iff_eq.mp hpoint] at hblank
      exact absurd hblank (by decide)
  | name => exact absurd hstarts (Bool.eq_false_iff.mp (isNameStart_of_isBlank hblank))

theorem not_starts_symbol (hstarts : kind.starts character = true)
    (hkind : kind ≠ symbol) : ¬symbol.starts character = true := by
  intro hsymbol
  obtain ⟨token, hmem⟩ := starts_symbol_iff.mp hsymbol
  have hall : ∀ entry ∈ Token.punctuation,
      number.starts entry.1 = false ∧ name.starts entry.1 = false := by
    decide
  obtain ⟨hnumber, hname⟩ := hall _ hmem
  cases kind with
  | symbol => exact hkind rfl
  | number => exact absurd hstarts (Bool.not_eq_true _ ▸ hnumber)
  | name => exact absurd hstarts (Bool.not_eq_true _ ▸ hname)

theorem not_starts_number_of_starts_name (hname : name.starts character = true) :
    ¬number.starts character = true := by
  intro hnumber
  rcases Bool.or_eq_true_iff.mp hnumber with hdigit | hpoint
  · exact not_isNameStart_of_isDigit hdigit hname
  · rw [beq_iff_eq.mp hpoint] at hname
    exact absurd hname (by decide)

/-- No character starts lexemes of two kinds. -/
theorem starts_unique (hkind : kind.starts character = true)
    (hother : other.starts character = true) : kind = other := by
  cases kind <;> cases other
  case symbol.symbol | number.number | name.name => rfl
  case symbol.number | symbol.name =>
    exact absurd hkind (not_starts_symbol hother (by decide))
  case number.symbol | name.symbol =>
    exact absurd hother (not_starts_symbol hkind (by decide))
  case number.name => exact absurd hkind (not_starts_number_of_starts_name hother)
  case name.number => exact absurd hother (not_starts_number_of_starts_name hkind)

end Kind

def Lexeme.kind : Lexeme → Kind
  | symbol _ _ _ => .symbol
  | name _ _ _ _ => .name
  | number _ => .number

theorem Kind.starts_number_of_isDigit {first : Char} (hdigit : first.isDigit = true) :
    number.starts first = true :=
  Bool.or_eq_true_iff.mpr (.inl hdigit)

theorem exists_pointed_eq_cons {digits : List Char}
    (hdigits : ∀ digit ∈ digits, digit.isDigit = true) (after : List Char) :
    ∃ first rest, digits ++ '.' :: after = first :: rest ∧
      Kind.number.starts first = true := by
  cases digits with
  | nil => exact ⟨'.', after, rfl, by decide⟩
  | cons first rest =>
    have hfirst := Kind.starts_number_of_isDigit (hdigits first List.mem_cons_self)
    exact ⟨first, rest ++ '.' :: after, rfl, hfirst⟩

theorem Literal.exists_spelling_eq_cons (literal : Literal) :
    ∃ first rest, literal.spelling = first :: rest ∧
      Kind.number.starts first = true := by
  cases literal with
  | whole digits hdigits hne =>
    obtain ⟨first, rest, rfl⟩ := List.exists_cons_of_ne_nil hne
    have hfirst := Kind.starts_number_of_isDigit (hdigits first List.mem_cons_self)
    exact ⟨first, rest, rfl, hfirst⟩
  | pointed digits fraction hdigits hfraction hne =>
    exact exists_pointed_eq_cons hdigits fraction

theorem Lexeme.exists_spelling_eq_cons (lexeme : Lexeme) :
    ∃ first rest, lexeme.spelling = first :: rest ∧
      lexeme.kind.starts first = true := by
  cases lexeme with
  | symbol character token hsymbol =>
    exact ⟨character, [], rfl, Kind.starts_symbol_iff.mpr ⟨token, hsymbol⟩⟩
  | name first rest hfirst hrest => exact ⟨first, rest, rfl, hfirst⟩
  | number literal => exact literal.exists_spelling_eq_cons

/-! ## Where lexemes end -/

/-- The characters that cannot stand directly behind a lexeme.  They make it go on, or
they are what a number may not run into. -/
def Lexeme.isJoinedBy : Lexeme → Char → Bool
  | symbol _ _ _, _ => false
  | name _ _ _ _, character => isNameRest character
  | number literal, character => isNameStart character || literal.isContinuedBy character

/-- A lexeme that the next character sets apart from the rest of the text. -/
def Lexeme.Ends (lexeme : Lexeme) (after : List Char) : Prop :=
  Stops lexeme.isJoinedBy after

theorem Lexeme.ends_number_iff {literal : Literal} {after : List Char} :
    (number literal).Ends after ↔
      Stops isNameStart after ∧ Stops literal.isContinuedBy after := by
  simp only [Ends, Stops, isJoinedBy, Bool.or_eq_false_iff, forall_and]

/-- The first part of a number is the run of digits before its point. -/
theorem Literal.digits_inj {digits others after otherAfter : List Char}
    (hdigits : ∀ digit ∈ digits, digit.isDigit = true)
    (hothers : ∀ digit ∈ others, digit.isDigit = true)
    (heq : digits ++ '.' :: after = others ++ '.' :: otherAfter) :
    digits = others ∧ after = otherAfter := by
  have hpoint : ∀ {rest}, Stops Char.isDigit ('.' :: rest) := stops_cons.mpr (by decide)
  have htake := congrArg (List.takeWhile Char.isDigit) heq
  rw [takeWhile_run hdigits hpoint, takeWhile_run hothers hpoint] at htake
  rw [htake] at heq
  exact ⟨htake, (List.cons.inj (List.append_cancel_left heq)).2⟩

theorem Literal.isContinuedBy_of_spelling_eq {literal other : Literal} {next : Char}
    {more : List Char} (hspelling : other.spelling = literal.spelling ++ next :: more) :
    literal.isContinuedBy next = true := by
  cases literal with
  | whole digits hdigits hne =>
    have hnext : next ∈ other.spelling := by simp [hspelling]
    refine Bool.or_eq_true_iff.mpr ?_
    cases other with
    | whole digits hdigits hne => exact .inl (hdigits next hnext)
    | pointed digits fraction hdigits hfraction hne =>
      rcases List.mem_append.mp hnext with hmem | hmem
      · exact .inl (hdigits next hmem)
      · rcases List.mem_cons.mp hmem with hpoint | hmem
        · exact .inr (beq_iff_eq.mpr hpoint)
        · exact .inl (hfraction next hmem)
  | pointed digits fraction hdigits hfraction hne =>
    cases other with
    | whole others hothers hne =>
      have hpoint : '.' ∈ others := by
        rw [spelling] at hspelling
        simp [hspelling, spelling]
      exact absurd (hothers '.' hpoint) (by decide)
    | pointed others otherFraction hothers hotherFraction hne =>
      rw [spelling, spelling, List.append_assoc] at hspelling
      obtain ⟨-, rfl⟩ := digits_inj hothers hdigits hspelling
      exact hotherFraction next (by simp)

/-- A lexeme that another one starts with goes on as its kind goes on. -/
theorem Lexeme.isJoinedBy_of_spelling_eq {lexeme other : Lexeme} {next : Char}
    {more : List Char} (hspelling : other.spelling = lexeme.spelling ++ next :: more) :
    lexeme.isJoinedBy next = true := by
  have hkind : other.kind = lexeme.kind := by
    obtain ⟨first, rest, hlexeme, hstarts⟩ := lexeme.exists_spelling_eq_cons
    obtain ⟨otherFirst, otherRest, hother, hotherStarts⟩ := other.exists_spelling_eq_cons
    rw [hother, hlexeme, List.cons_append, List.cons.injEq] at hspelling
    rw [hspelling.1] at hotherStarts
    exact Kind.starts_unique hotherStarts hstarts
  cases lexeme with
  | symbol character token hsymbol =>
    cases other with
    | symbol => cases hspelling
    | name => cases hkind
    | number => cases hkind
  | name first rest hfirst hrest =>
    cases other with
    | symbol => cases hkind
    | number => cases hkind
    | name otherFirst otherRest _ hotherRest =>
      obtain ⟨-, rfl⟩ := List.cons.inj hspelling
      exact hotherRest next (by simp)
  | number literal =>
    cases other with
    | symbol => cases hkind
    | name => cases hkind
    | number otherLiteral =>
      exact Bool.or_eq_true_iff.mpr (.inr (Literal.isContinuedBy_of_spelling_eq hspelling))

/-- A lexeme that ends is the longest one. -/
theorem Lexeme.Ends.isLongest {lexeme : Lexeme} {after : List Char}
    (hends : lexeme.Ends after) : lexeme.IsLongest after := by
  rintro other ⟨beyond, htext⟩
  rcases List.append_eq_append_iff.mp htext with ⟨rest, hspelling, -⟩ |
    ⟨more, hspelling, rfl⟩
  · rw [hspelling, List.length_append]
    exact Nat.le_add_right _ _
  · cases more with
    | nil => rw [hspelling, List.append_nil]
    | cons next more =>
      have hjoined := isJoinedBy_of_spelling_eq hspelling
      rw [stops_cons.mp hends] at hjoined
      cases hjoined

/-- No lexeme is longer than a longest one by what follows it. -/
theorem Lexeme.IsLongest.spelling_ne {lexeme : Lexeme} {more rest : List Char}
    (hlongest : lexeme.IsLongest (more ++ rest)) (hmore : more ≠ []) (other : Lexeme) :
    other.spelling ≠ lexeme.spelling ++ more := by
  intro hspelling
  have hprefix : other.spelling <+: lexeme.spelling ++ (more ++ rest) := by
    rw [hspelling, ← List.append_assoc]
    exact List.prefix_append _ _
  have hlength := hlongest other hprefix
  have hpos := List.length_pos_iff.mpr hmore
  rw [hspelling, List.length_append] at hlength
  omega

/-- A number that goes on has a longer number in its place, unless it goes on with a point
that has no digit behind it. -/
theorem Literal.not_isContinuedBy {literal : Literal} {next : Char} {rest : List Char}
    (hlongest : (Lexeme.number literal).IsLongest (next :: rest))
    (hpoint : next = '.' → ¬Stops Char.isDigit rest) :
    ¬literal.isContinuedBy next = true := by
  intro hcontinued
  have hone : ∀ longer : Literal, longer.spelling ≠ literal.spelling ++ [next] := by
    have hlongest : (Lexeme.number literal).IsLongest ([next] ++ rest) := hlongest
    exact fun longer => hlongest.spelling_ne (List.cons_ne_nil _ _) (.number longer)
  have hsnoc : ∀ {digits : List Char}, (∀ digit ∈ digits, digit.isDigit = true) →
      next.isDigit = true → ∀ digit ∈ digits ++ [next], digit.isDigit = true :=
    fun hdigits hnext =>
      List.forall_mem_append.mpr ⟨hdigits, List.forall_mem_singleton.mpr hnext⟩
  cases literal with
  | whole digits hdigits hne =>
    rcases Bool.or_eq_true_iff.mp hcontinued with hdigit | hnext
    · exact hone (.whole (digits ++ [next]) (hsnoc hdigits hdigit) (by simp)) rfl
    · obtain rfl : next = '.' := beq_iff_eq.mp hnext
      cases rest with
      | nil => exact hpoint rfl stops_nil
      | cons digit rest =>
        rw [stops_cons, Bool.not_eq_false] at hpoint
        have hlongest : (Lexeme.number _).IsLongest (['.', digit] ++ rest) := hlongest
        have hdigit : ∀ character ∈ [digit], character.isDigit = true :=
          List.forall_mem_singleton.mpr (hpoint rfl)
        exact hlongest.spelling_ne (by simp)
          (.number (.pointed digits [digit] hdigits hdigit (by simp))) rfl
  | pointed digits fraction hdigits hfraction hne =>
    refine hone
      (.pointed digits (fraction ++ [next]) hdigits (hsnoc hfraction hcontinued) (by simp)) ?_
    simp [spelling]

/-- Where a number does not run into something, the longest lexeme ends. -/
theorem Lexeme.ends_of_isLongest {lexeme : Lexeme} {after : List Char}
    (hlongest : lexeme.IsLongest after) (hafter : lexeme.MayPrecede after) :
    lexeme.Ends after := by
  cases after with
  | nil => exact stops_nil
  | cons next rest =>
    refine stops_cons.mpr ?_
    cases lexeme with
    | symbol character token hsymbol => rfl
    | name first others hfirst hothers =>
      by_contra hnext
      rw [Bool.not_eq_false] at hnext
      have hall := List.forall_mem_append.mpr ⟨hothers, List.forall_mem_singleton.mpr hnext⟩
      have hlongest : (name first others hfirst hothers).IsLongest ([next] ++ rest) := hlongest
      exact hlongest.spelling_ne (by simp) (.name first (others ++ [next]) hfirst hall) rfl
    | number literal =>
      refine Bool.or_eq_false_iff.mpr ⟨stops_cons.mp hafter.1, ?_⟩
      refine Bool.eq_false_iff.mpr (Literal.not_isContinuedBy hlongest ?_)
      rintro rfl
      exact hafter.2 rest rfl

end TournamentScoring.Formula
