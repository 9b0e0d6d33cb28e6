import FuzzPolicy.Document.Value

/-!
# Reading records

A record is written as an object with a key for every field, or as an array with the fields in
declaration order. `Format` says which fields a record has and how each is read; what has been read
of it so far is a `Draft`, which has a value or none for every field.

`Format.readDraft` reads a record of which any field may be missing, `Format.readWhole` one of which
none may. A field that comes twice is refused, also if nothing was in it. Unknown fields are refused or
skipped, as the format says.
-/

namespace FuzzPolicy.Document

/-- How a record with the given fields is written. -/
structure Format (φ : Type) where
  /-- The name of the record in messages. -/
  record : String
  /-- Whether fields that are not known are refused. -/
  closed : Bool
  /-- The values of a field. -/
  Value : φ → Type
  /-- Reads the value of a field. -/
  read : (f : φ) → Tree → Reading (Value f)

/-- The fields of a record that have been read. -/
def Draft {φ : Type} (format : Format φ) : Type :=
  (f : φ) → Option (format.Value f)

namespace Format

variable {φ : Type}

/-- The draft in which nothing has been read. -/
def blank (format : Format φ) : Draft format :=
  fun _ => none

/-- The draft with another field. -/
def fill [DecidableEq φ] (format : Format φ) (d : Draft format) (f : φ) (v : format.Value f) :
    Draft format :=
  fun g => if h : f = g then some (h ▸ v) else d g

variable [Vocabulary φ] [DecidableEq φ]

/-- Reads items into fields, in order. There may be fewer items than fields, but not more. -/
def readItems (format : Format φ) (closing : Closing) :
    List φ → List Tree → Draft format → Reading (Draft format)
  | _, [], d => do
    ofText closing.check
    return d
  | [], _ :: _, _ => .error (.text .malformed)
  | f :: fs, t :: ts, d => do
    let v ← format.read f t
    format.readItems closing fs ts (format.fill d f v)

/-- Reads members into the fields that their keys name. -/
def readMembers (format : Format φ) (closing : Closing) :
    List (Quoted × Tree) → Draft format → Reading (Draft format)
  | [], d => do
    ofText closing.check
    return d
  | (key, t) :: ms, d => do
    let name ← ofText key.text
    match Vocabulary.ofName? name with
    | some f =>
      if (d f).isSome then
        throw (.data (.duplicateField name))
      else
        let v ← format.read f t
        format.readMembers closing ms (format.fill d f v)
    | none =>
      if format.closed then
        throw (.data (.unknownField name (Vocabulary.names φ)))
      else
        ofText (skip t)
        format.readMembers closing ms d

/-- Reads a record of which fields may be missing. -/
def readDraft (format : Format φ) : Tree → Reading (Draft format)
  | .array ts closing => format.readItems closing Vocabulary.all ts format.blank
  | .object ms closing => format.readMembers closing ms format.blank
  | t => mismatch (.record format.record) t

/-- The values of a draft, or the first field that has none. -/
def complete (format : Format φ) (d : Draft format) : Except φ ((f : φ) → format.Value f) :=
  match h : (Vocabulary.all : List φ).find? fun f => (d f).isNone with
  | some f => .error f
  | none => .ok fun f => (d f).get <| by
      simpa [Option.isSome_iff_ne_none] using List.find?_eq_none.1 h f (Vocabulary.mem_all f)

/-- The fault of a record without a field. -/
def missing (format : Format φ) (f : φ) : Tree → Mismatch
  | .array ts _ => .wrongLength ts.length format.record (Vocabulary.all : List φ).length
  | _ => .missingField (Vocabulary.name f)

/-- Reads a record of which no field may be missing. -/
def readWhole (format : Format φ) (t : Tree) : Reading ((f : φ) → format.Value f) := do
  match format.complete (← format.readDraft t) with
  | .ok values => return values
  | .error f => throw (.data (format.missing f t))

end Format

end FuzzPolicy.Document
