import TournamentScoring.Text.Hexadecimal

/-!
# SHA-256

The message is closed with a one bit, zeros and its length in bits, and cut into
blocks of sixteen words.  Each block mixes the eight words of the state in
sixty-four rounds.  The schedule is a window of the next sixteen words, which
moves by one word per round.
-/

namespace TournamentScoring.Sha256

structure State where
  a : UInt32
  b : UInt32
  c : UInt32
  d : UInt32
  e : UInt32
  f : UInt32
  g : UInt32
  h : UInt32
deriving DecidableEq

/-- The first bits of the fractional parts of the square roots of the first eight
primes. -/
def initial : State where
  a := 0x6a09e667
  b := 0xbb67ae85
  c := 0x3c6ef372
  d := 0xa54ff53a
  e := 0x510e527f
  f := 0x9b05688c
  g := 0x1f83d9ab
  h := 0x5be0cd19

/-- The first bits of the fractional parts of the cube roots of the first
sixty-four primes. -/
def roundConstants : List UInt32 :=
  [0x428a2f98, 0x71374491, 0xb5c0fbcf, 0xe9b5dba5, 0x3956c25b, 0x59f111f1,
    0x923f82a4, 0xab1c5ed5, 0xd807aa98, 0x12835b01, 0x243185be, 0x550c7dc3,
    0x72be5d74, 0x80deb1fe, 0x9bdc06a7, 0xc19bf174, 0xe49b69c1, 0xefbe4786,
    0x0fc19dc6, 0x240ca1cc, 0x2de92c6f, 0x4a7484aa, 0x5cb0a9dc, 0x76f988da,
    0x983e5152, 0xa831c66d, 0xb00327c8, 0xbf597fc7, 0xc6e00bf3, 0xd5a79147,
    0x06ca6351, 0x14292967, 0x27b70a85, 0x2e1b2138, 0x4d2c6dfc, 0x53380d13,
    0x650a7354, 0x766a0abb, 0x81c2c92e, 0x92722c85, 0xa2bfe8a1, 0xa81a664b,
    0xc24b8b70, 0xc76c51a3, 0xd192e819, 0xd6990624, 0xf40e3585, 0x106aa070,
    0x19a4c116, 0x1e376c08, 0x2748774c, 0x34b0bcb5, 0x391c0cb3, 0x4ed8aa4a,
    0x5b9cca4f, 0x682e6ff3, 0x748f82ee, 0x78a5636f, 0x84c87814, 0x8cc70208,
    0x90befffa, 0xa4506ceb, 0xbef9a3f7, 0xc67178f2]

def rotateRight (word count : UInt32) : UInt32 :=
  (word >>> count) ||| (word <<< (32 - count))

/-- The word that follows a window of sixteen words. -/
def nextWord (window : List UInt32) : UInt32 :=
  let second := window.getD 1 0
  let fifteenth := window.getD 14 0
  let early := rotateRight second 7 ^^^ rotateRight second 18 ^^^ (second >>> 3)
  let late :=
    rotateRight fifteenth 17 ^^^ rotateRight fifteenth 19 ^^^ (fifteenth >>> 10)
  window.getD 0 0 + early + window.getD 9 0 + late

def round (state : State) (constant word : UInt32) : State :=
  let choice := (state.e &&& state.f) ^^^ ((~~~state.e) &&& state.g)
  let majority :=
    (state.a &&& state.b) ^^^ (state.a &&& state.c) ^^^ (state.b &&& state.c)
  let mixedE :=
    rotateRight state.e 6 ^^^ rotateRight state.e 11 ^^^ rotateRight state.e 25
  let mixedA :=
    rotateRight state.a 2 ^^^ rotateRight state.a 13 ^^^ rotateRight state.a 22
  let first := state.h + mixedE + choice + constant + word
  { a := first + mixedA + majority
    b := state.a
    c := state.b
    d := state.c
    e := state.d + first
    f := state.e
    g := state.f
    h := state.g }

def rounds (state : State) (window : List UInt32) : List UInt32 → State
  | [] => state
  | constant :: constants =>
    rounds (round state constant (window.getD 0 0))
      (window.drop 1 ++ [nextWord window]) constants

/-- Mixes one block of sixteen words into the state. -/
def compress (state : State) (block : List UInt32) : State :=
  let mixed := rounds state block roundConstants
  { a := state.a + mixed.a
    b := state.b + mixed.b
    c := state.c + mixed.c
    d := state.d + mixed.d
    e := state.e + mixed.e
    f := state.f + mixed.f
    g := state.g + mixed.g
    h := state.h + mixed.h }

/-- A number as bytes, the highest first. -/
def bigEndian : Nat → Nat → List UInt8
  | 0, _ => []
  | count + 1, value => UInt8.ofNat (value / Nat.pow 256 count) :: bigEndian count value

/-- The message with its closing bits; its length is a multiple of 64 bytes. -/
def padded (message : List UInt8) : List UInt8 :=
  message ++ 0x80 :: (List.replicate ((119 - message.length % 64) % 64) 0 ++
    bigEndian 8 (message.length * 8))

/-- Groups bytes into words, the highest byte first. -/
def words : List UInt8 → List UInt32
  | first :: second :: third :: fourth :: rest =>
    ((first.toUInt32 <<< 24) ||| (second.toUInt32 <<< 16) |||
      (third.toUInt32 <<< 8) ||| fourth.toUInt32) :: words rest
  | _ => []

/-- Mixes all blocks of sixteen words into the state. -/
def absorb : Nat → State → List UInt32 → State
  | 0, state, _ => state
  | blocks + 1, state, message =>
    absorb blocks (compress state (message.take 16)) (message.drop 16)

def finalState (message : List UInt8) : State :=
  let message := words (padded message)
  absorb (message.length / 16) initial message

/-- The digest of a message as 64 hexadecimal digits, `sha256_hex`. -/
def digest (message : List UInt8) : String :=
  let state := finalState message
  String.ofList
    ([state.a, state.b, state.c, state.d, state.e, state.f, state.g,
      state.h].flatMap fun word => Text.hexText 8 word.toNat)

end TournamentScoring.Sha256
