import TournamentScoring.Toml.Basic
import TournamentScoring.Toml.Text

/-!
# Dates and times

A moment is a date, a time, or both with an optional distance from universal
time.  The date must exist in the calendar, and a minute may have a leap second.
`spelling` writes a moment in standard form: `T` between date and time, `Z` for
universal time, and at most nine decimals of a second without trailing zeros.
A text of its own spells a moment just as a literal does.
-/

namespace TournamentScoring.Toml

structure Date where
  year : Nat
  month : Nat
  day : Nat
deriving DecidableEq

structure Time where
  hour : Nat
  minute : Nat
  second : Nat
  /-- At most nine decimals of the second. -/
  decimals : List Char
deriving DecidableEq

/-- The distance from universal time. -/
inductive Offset
  | universal
  | minutes (negative : Bool) (count : Nat)
deriving DecidableEq

def isLeapYear (year : Nat) : Bool :=
  year % 4 == 0 && (year % 100 != 0 || year % 400 == 0)

def daysInMonth (year month : Nat) : Nat :=
  if month = 2 then if isLeapYear year then 29 else 28
  else if month = 4 ∨ month = 6 ∨ month = 9 ∨ month = 11 then 30
  else 31

/-- A number of exactly `count` digits. -/
def fixedDigits (count : Nat) (characters : List Char) : Reading Nat :=
  let digits := characters.take count
  if digits.length = count && digits.all Char.isDigit then
    some (digits.foldl (fun value digit =>
      value * 10 + (digit.toNat - '0'.toNat)) 0, characters.drop count)
  else none

/-- A number of two digits within bounds. -/
def boundedPair (low high : Nat) (characters : List Char) : Reading Nat :=
  match fixedDigits 2 characters with
  | some (value, rest) =>
    if low ≤ value ∧ value ≤ high then some (value, rest) else none
  | none => none

def expect (character : Char) : List Char → Option (List Char)
  | head :: rest => if head = character then some rest else none
  | [] => none

def readDate (characters : List Char) : Option (Date × List Char) := do
  let (year, rest) ← fixedDigits 4 characters
  let rest ← expect '-' rest
  let (month, rest) ← boundedPair 1 12 rest
  let rest ← expect '-' rest
  let (day, rest) ← boundedPair 1 31 rest
  if day ≤ daysInMonth year month then some (⟨year, month, day⟩, rest) else none

/-- The decimals of a second, if a point stands here. -/
def secondDecimals : List Char → Reading (List Char)
  | '.' :: rest =>
    let digits := rest.takeWhile Char.isDigit
    if digits.isEmpty then none
    else some (digits.take 9, rest.dropWhile Char.isDigit)
  | rest => some ([], rest)

def readTime (characters : List Char) : Option (Time × List Char) := do
  let (hour, rest) ← boundedPair 0 23 characters
  let rest ← expect ':' rest
  let (minute, rest) ← boundedPair 0 59 rest
  let rest ← expect ':' rest
  let (second, rest) ← boundedPair 0 60 rest
  match secondDecimals rest with
  | some (decimals, rest) => some (⟨hour, minute, second, decimals⟩, rest)
  | none => some (⟨hour, minute, second, []⟩, rest)

def signedOffset (negative : Bool) (characters : List Char) :
    Option (Offset × List Char) := do
  let (hours, rest) ← boundedPair 0 23 characters
  let rest ← expect ':' rest
  let (minutes, rest) ← boundedPair 0 59 rest
  return (.minutes negative (hours * 60 + minutes), rest)

/-- The offset that stands here: none if there is no offset, and no reading if
there is half of one. -/
def readOffset : List Char → Reading (Option Offset)
  | 'Z' :: rest => some (some .universal, rest)
  | 'z' :: rest => some (some .universal, rest)
  | '+' :: rest => (signedOffset false rest).map fun found =>
    (some found.1, found.2)
  | '-' :: rest => (signedOffset true rest).map fun found =>
    (some found.1, found.2)
  | rest => some (none, rest)

/-- A number with leading zeros. -/
def padded (width value : Nat) : String :=
  let digits := toString value
  String.ofList (List.replicate (width - digits.length) '0') ++ digits

def Date.spelling (date : Date) : String :=
  s!"{padded 4 date.year}-{padded 2 date.month}-{padded 2 date.day}"

/-- The decimals without trailing zeros, after a point unless all are zero. -/
def decimalSpelling (decimals : List Char) : String :=
  match (decimals.reverse.dropWhile (· == '0')).reverse with
  | [] => ""
  | digits => "." ++ String.ofList digits

def Time.spelling (time : Time) : String :=
  s!"{padded 2 time.hour}:{padded 2 time.minute}:{padded 2 time.second}" ++
    decimalSpelling time.decimals

def Offset.spelling : Offset → String
  | universal => "Z"
  | minutes negative count =>
    let sign := if negative && count != 0 then "-" else "+"
    s!"{sign}{padded 2 (count / 60)}:{padded 2 (count % 60)}"

/-- Whether a time may follow a date here. -/
def isTimeMark (character : Char) : Bool :=
  character == 'T' || character == 't' || character == ' '

/-- A date with what follows it: a time, and then perhaps an offset. -/
def dateTime (date : Date) (rest : List Char) : Reading Toml :=
  let dateOnly := some (.moment date.spelling, rest)
  match rest with
  | mark :: afterMark =>
    if isTimeMark mark then
      match readTime afterMark with
      | none => dateOnly
      | some (time, rest) =>
        match readOffset rest with
        | none => none
        | some (none, rest) =>
          some (.moment (date.spelling ++ "T" ++ time.spelling), rest)
        | some (some offset, rest) =>
          some (.moment (date.spelling ++ "T" ++ time.spelling ++
            offset.spelling), rest)
    else dateOnly
  | [] => dateOnly

/-- Reads a moment, if one stands here. -/
def readMoment (characters : List Char) : Reading Toml :=
  match readDate characters with
  | some (date, rest) => dateTime date rest
  | none =>
    (readTime characters).map fun found => (.moment found.1.spelling, found.2)

/-- The moment that a whole text spells. -/
def momentOfText? (text : String) : Option Toml :=
  match readMoment text.toList with
  | some (value, []) => some value
  | _ => none

end TournamentScoring.Toml
