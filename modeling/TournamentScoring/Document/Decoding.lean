import TournamentScoring.Document.Source
import TournamentScoring.KeyedTable

/-!
# Decoding documents

A decoder walks a `Source` from the left and stops at the first problem.  The
formats differ in a few choices, which a `Dialect` holds.  A record is an object
with known fields, each at most once, or an array of its fields in their order;
a missing field is found at the end.
-/

namespace TournamentScoring.Document

/-- The choices in which the formats differ. -/
structure Dialect where
  /-- How deep arrays and objects may still nest where they are kept. -/
  room : Option Nat
  /-- Whether a record in array form may have items after its last field. -/
  allowsSurplus : Bool
  /-- Whether a variant in object form has an empty array or object for its
  content.  Otherwise the content is null. -/
  emptyContent : Bool
  /-- Whether the kind of a part may be given by its number. -/
  kindByNumber : Bool

/-- A JSON text keeps at most 127 nested arrays and objects. -/
def Dialect.jsonText : Dialect where
  room := some 127
  allowsSurplus := false
  emptyContent := false
  kindByNumber := true

/-- A JSON value in memory may nest to any depth. -/
def Dialect.jsonValue : Dialect where
  room := none
  allowsSurplus := false
  emptyContent := false
  kindByNumber := true

def Dialect.toml : Dialect where
  room := none
  allowsSurplus := true
  emptyContent := true
  kindByNumber := false

/-- The room inside an array or object. -/
def innerRoom : Option Nat → Except ReadError (Option Nat)
  | none => .ok none
  | some 0 => .error .illFormed
  | some (room + 1) => .ok (some room)

/-- The dialect inside an array or object. -/
def Dialect.enter (dialect : Dialect) : Except ReadError Dialect :=
  (innerRoom dialect.room).map fun room => { dialect with room := room }

/-- The end of an array or object, once everything in it has been read. -/
def atEnd {α : Type} (ending : Option ReadError) (value : α) :
    Except ReadError α :=
  match ending with
  | none => .ok value
  | some cause => .error cause

/-- The key of a member that is kept. -/
def Label.key : Label → Except ReadError String
  | name key => .ok key
  | unfit cause => .error cause
  | stop kept _ => .error kept

/-! ## Keeping values -/

namespace Source

mutual

/-- The value of a source that is kept whole.  The last of several members with
one key wins, and keys come out in increasing order. -/
def keep (room : Option Nat) : Source → Except ReadError Json
  | null => .ok .null
  | boolean value => .ok (.boolean value)
  | integer value => .ok (.integer value)
  | float value => .ok (.float value)
  | text value => .ok (.text value)
  | unfit cause => .error cause
  | stop kept _ _ => .error kept
  | array items ending => do
    let inner ← innerRoom room
    let values ← keepItems inner items
    atEnd ending (.array values)
  | object members ending => do
    let inner ← innerRoom room
    let entries ← keepMembers inner [] members
    atEnd ending (.object entries)

def keepItems (room : Option Nat) : List Source → Except ReadError (List Json)
  | [] => .ok []
  | item :: items => do
    let value ← keep room item
    let values ← keepItems room items
    return value :: values

def keepMembers (room : Option Nat) (entries : List (String × Json)) :
    List (Label × Source) → Except ReadError (List (String × Json))
  | [] => .ok entries
  | (label, source) :: members => do
    let key ← label.key
    let value ← keep room source
    keepMembers room (insertEntry key value entries) members

end

end Source

/-! ## Decoders -/

abbrev Decoder (α : Type) := Dialect → Source → Except ReadError α

namespace Decoder

def text : Decoder String := fun _ source =>
  match source with
  | .text value => .ok value
  | other => .error other.refusal

/-- A whole number from zero to below the bound. -/
def natural (bound : Nat) : Decoder Nat := fun _ source =>
  match source with
  | .integer value =>
    if 0 ≤ value ∧ value < bound then .ok value.toNat else .error .mismatch
  | other => .error other.refusal

def word32 : Decoder UInt32 := fun dialect source =>
  (natural UInt32.size dialect source).map UInt32.ofNat

def word8 : Decoder UInt8 := fun dialect source =>
  (natural UInt8.size dialect source).map UInt8.ofNat

/-- Null stands for a value that is absent. -/
def optional {α : Type} (decoder : Decoder α) : Decoder (Option α) :=
  fun dialect source =>
    match source with
    | .null => .ok none
    | source => (decoder dialect source).map some

/-- Any value, kept whole. -/
def whole : Decoder Json := fun dialect source =>
  source.keep dialect.room

def items {α : Type} (decoder : Decoder α) (dialect : Dialect) :
    List Source → Except ReadError (List α)
  | [] => .ok []
  | item :: rest => do
    let value ← decoder dialect item
    let values ← items decoder dialect rest
    return value :: values

def list {α : Type} (decoder : Decoder α) : Decoder (List α) :=
  fun dialect source =>
    match source with
    | .array sources ending => do
      let inner ← dialect.enter
      let values ← items decoder inner sources
      atEnd ending values
    | other => .error other.refusal

def entries {α : Type} (decoder : Decoder α) (dialect : Dialect)
    (sofar : KeyedTable α) :
    List (Label × Source) → Except ReadError (KeyedTable α)
  | [] => .ok sofar
  | (label, source) :: members => do
    let key ← label.key
    let value ← decoder dialect source
    entries decoder dialect (sofar.insert key value) members

/-- An object with any keys; the last member with a key wins. -/
def table {α : Type} (decoder : Decoder α) : Decoder (KeyedTable α) :=
  fun dialect source =>
    match source with
    | .object members ending => do
      let inner ← dialect.enter
      let values ← entries decoder inner .empty members
      atEnd ending values
    | other => .error other.refusal

/-- The content of a variant in object form says nothing. -/
def emptyContent : Decoder Unit := fun dialect source =>
  if dialect.emptyContent then
    match source with
    | .array [] none => .ok ()
    | .object [] none => .ok ()
    | other => .error other.refusal
  else
    match source with
    | .null => .ok ()
    | other => .error other.refusal

def named {α : Type} (ofName : String → Option α) (name : String) :
    Except ReadError α :=
  match ofName name with
  | some value => .ok value
  | none => .error .mismatch

/-- One of several names, as an enumeration without fields is derived: a text,
or an object with the name for its only key.  Any other value has no place where
a variant must stand. -/
def variant {α : Type} (ofName : String → Option α) : Decoder α :=
  fun dialect source =>
    match source with
    | .text name => named ofName name
    | .object members ending => do
      let inner ← dialect.enter
      match members with
      | [] => .error (ending.getD .illFormed)
      | (label, content) :: rest =>
        let name ← label.key
        let value ← named ofName name
        emptyContent inner content
        if rest.isEmpty then atEnd ending value else .error .illFormed
    | .stop _ _ asVariant => .error asVariant
    | _ => .error .illFormed

end Decoder

/-! ## Records -/

/-- How a record is read field by field into a draft. -/
structure RecordDecoder (δ α : Type) where
  /-- The fields in the order of the array form. -/
  fields : List String
  start : δ
  /-- Reads one field into the draft; none if the record has no such field. -/
  put : Dialect → δ → String → Source → Option (Except ReadError δ)
  /-- The record, if nothing is missing. -/
  finish : Dialect → δ → Except ReadError α

namespace RecordDecoder

variable {δ α : Type}

/-- Reads the members of the object form as a derived `visit_map` does; unknown
fields are skipped. -/
def putMembers (record : RecordDecoder δ α) (dialect : Dialect) (draft : δ) :
    List (Label × Source) → Except ReadError δ
  | [] => .ok draft
  | (label, source) :: members => do
    let key ← label.key
    match record.put dialect draft key source with
    | some result =>
      let next ← result
      putMembers record dialect next members
    | none =>
      match source.skip with
      | some cause => .error cause
      | none => putMembers record dialect draft members

/-- Reads the items of the array form as a derived `visit_seq` does.  Fields at
the end may be left out. -/
def putItems (record : RecordDecoder δ α) (dialect : Dialect)
    (ending : Option ReadError) (draft : δ) :
    List String → List Source → Except ReadError δ
  | _, [] => atEnd ending draft
  | [], _ :: _ =>
    if dialect.allowsSurplus then .ok draft else .error .illFormed
  | field :: fields, item :: rest =>
    match record.put dialect draft field item with
    | some (.ok next) => putItems record dialect ending next fields rest
    | some (.error cause) => .error cause
    | none => putItems record dialect ending draft fields rest

def objectForm (record : RecordDecoder δ α) (dialect : Dialect)
    (members : List (Label × Source)) (ending : Option ReadError) :
    Except ReadError α := do
  let inner ← dialect.enter
  let draft ← record.putMembers inner record.start members
  let draft ← atEnd ending draft
  record.finish dialect draft

/-- A record that is always an object. -/
def objectDecoder (record : RecordDecoder δ α) : Decoder α :=
  fun dialect source =>
    match source with
    | .object members ending => record.objectForm dialect members ending
    | other => .error other.refusal

/-- A record in object or array form. -/
def decoder (record : RecordDecoder δ α) : Decoder α := fun dialect source =>
  match source with
  | .object members ending => record.objectForm dialect members ending
  | .array items ending => do
    let inner ← dialect.enter
    let draft ←
      record.putItems inner ending record.start record.fields items
    record.finish dialect draft
  | other => .error other.refusal

end RecordDecoder

/-- Reads a field into an empty slot; a field that is set is repeated. -/
def fill {β δ : Type} (decoder : Decoder β) (slot : Option β) (store : β → δ)
    (dialect : Dialect) (source : Source) : Except ReadError δ :=
  match slot with
  | some _ => .error .mismatch
  | none => (decoder dialect source).map store

/-- The value of a field that must be there. -/
def require {β : Type} : Option β → Except ReadError β
  | some value => .ok value
  | none => .error .mismatch

end TournamentScoring.Document
