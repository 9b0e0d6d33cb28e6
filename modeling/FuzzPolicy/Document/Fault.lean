import FuzzPolicy.Document.Tree
import FuzzPolicy.Text.Quote

/-!
# Why a document cannot be read

A document is refused because its text is flawed or because a value in it is not what belongs there.
Of a flawed text only the kind of the flaw is kept. A value that does not belong has a text that says
what was found and what was wanted.
-/

namespace FuzzPolicy.Document

/-- What a value is, as far as messages tell. -/
inductive Found where
  | null
  | bool (b : Bool)
  /-- An integer. -/
  | int (i : Int)
  /-- Another number, or an integer too large for a word. -/
  | float (x : Float)
  | string (s : String)
  | array
  | object
  deriving DecidableEq, Repr

/-- The description of a value. -/
def Found.describe : Found → String
  | null => "null"
  | bool b => s!"boolean `{b}`"
  | int i => s!"integer `{i}`"
  | float x => s!"floating point `{(Numeral.ofFloat .document x).render}`"
  | string s => s!"string {Text.quote s}"
  | array => "sequence"
  | object => "map"

/-- What a value should have been. -/
inductive Wanted where
  /-- A natural number of 64 bits. -/
  | count
  /-- A number. -/
  | float
  | bool
  | array
  /-- The null that stands for no further content. -/
  | unit
  /-- A record of the given name. -/
  | record (name : String)
  deriving DecidableEq, Repr

/-- The description of what was wanted. -/
def Wanted.describe : Wanted → String
  | count => "usize"
  | float => "f64"
  | bool => "a boolean"
  | array => "a sequence"
  | unit => "unit"
  | record name => s!"struct {name}"

/-- Why a value does not belong where it is. -/
inductive Mismatch where
  /-- It is of another kind. -/
  | wrongType (found : Found) (wanted : Wanted)
  /-- It is of the right kind but out of range. -/
  | wrongValue (found : Found) (wanted : Wanted)
  /-- An array has too few items for a record with that many fields. -/
  | wrongLength (length : Nat) (record : String) (fields : Nat)
  /-- A record lacks a field. -/
  | missingField (field : String)
  /-- A record has a field twice. -/
  | duplicateField (field : String)
  /-- A record has a field that it should not have. -/
  | unknownField (field : String) (known : List String)
  /-- A name is no word of the vocabulary. -/
  | unknownVariant (variant : String) (known : List String)
  deriving DecidableEq, Repr

/-- A list of names to choose from. -/
def choices : List String → String
  | [a] => s!"`{a}`"
  | [a, b] => s!"`{a}` or `{b}`"
  | names => "one of " ++ ", ".intercalate (names.map fun a => s!"`{a}`")

/-- The text of a mismatch. -/
def Mismatch.message : Mismatch → String
  | wrongType found wanted => s!"invalid type: {found.describe}, expected {wanted.describe}"
  | wrongValue found wanted => s!"invalid value: {found.describe}, expected {wanted.describe}"
  | wrongLength length record fields =>
    s!"invalid length {length}, expected struct {record} with {fields} elements"
  | missingField field => s!"missing field `{field}`"
  | duplicateField field => s!"duplicate field `{field}`"
  | unknownField field known => s!"unknown field `{field}`, expected {choices known}"
  | unknownVariant variant known => s!"unknown variant `{variant}`, expected {choices known}"

/-- Why a document cannot be read. -/
inductive Fault where
  /-- The text is flawed. -/
  | text (fault : TextFault)
  /-- A value does not belong where it is. -/
  | data (mismatch : Mismatch)
  deriving DecidableEq, Repr

/-- The outcome of reading a value. -/
abbrev Reading (α : Type) := Except Fault α

end FuzzPolicy.Document
