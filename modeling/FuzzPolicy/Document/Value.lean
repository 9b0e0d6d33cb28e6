import FuzzPolicy.Decimal.Reading
import FuzzPolicy.Document.Fault
import FuzzPolicy.Document.Parser
import FuzzPolicy.Vocabulary.Basic

/-!
# Reading and writing single values

For every kind of value that documents hold there is a reader, from a tree to the value or a fault,
and a writer, from the value to a tree. What is only skipped is read as far as needed to see that its
text is sound.
-/

namespace FuzzPolicy

/-- The number that a numeral gives to a reader. -/
inductive NumberValue where
  /-- A natural number of 64 bits. -/
  | natural (n : Nat)
  /-- A negative integer of 64 bits. -/
  | negative (i : Int)
  /-- Any other number. -/
  | real (x : Float)
  deriving DecidableEq, Repr

namespace Document

/-- Reads a numeral: as an integer if it is written like one and has 64 bits, else as a float. The
negative zero is a float. A number beyond the greatest float is a flaw of the text. -/
def numberValue (n : Numeral) : Except TextFault NumberValue :=
  let k := Numeral.digitsValue n.whole
  if n.fraction.isEmpty && n.exponent.isNone && !n.negative && k < Nat.pow 2 64 then
    .ok (.natural k)
  else if n.fraction.isEmpty && n.exponent.isNone && n.negative && 0 < k && k ≤ Nat.pow 2 63 then
    .ok (.negative (-k))
  else if n.toFloat.isFinite then
    .ok (.real n.toFloat)
  else
    .error .malformed

/-- A flaw of the text, as the outcome of reading. -/
def ofText {α : Type} : Except TextFault α → Reading α
  | .ok a => .ok a
  | .error fault => .error (.text fault)

/-- What a tree is, for a message. The contents of arrays and objects are not looked at. -/
def found : Tree → Reading Found
  | .null => .ok .null
  | .bool b => .ok (.bool b)
  | .number n => do
    match ← ofText (numberValue n) with
    | .natural k => return .int k
    | .negative i => return .int i
    | .real x => return .float x
  | .string q => do
    return .string (← ofText q.text)
  | .array _ _ => .ok .array
  | .object _ _ => .ok .object
  | .absent => .error (.text .truncated)
  | .junk => .error (.text .malformed)
  | .unfinished _ => .error (.text .truncated)

/-- Refuses a value that is not of the kind that is wanted. -/
def mismatch {α : Type} (wanted : Wanted) (t : Tree) : Reading α := do
  throw (.data (.wrongType (← found t) wanted))

/-! ### Readers -/

/-- Reads a natural number of 64 bits. -/
def readCount : Tree → Reading Nat
  | .number n => do
    match ← ofText (numberValue n) with
    | .natural k => return k
    | .negative i => throw (.data (.wrongValue (.int i) .count))
    | .real x => throw (.data (.wrongType (.float x) .count))
  | t => mismatch .count t

/-- Reads a number as a float. -/
def readFloat : Tree → Reading Float
  | .number n => do
    match ← ofText (numberValue n) with
    | .natural k => return nearest k 1
    | .negative i => return -nearest i.natAbs 1
    | .real x => return x
  | t => mismatch .float t

/-- Reads a truth value. -/
def readBool : Tree → Reading Bool
  | .bool b => .ok b
  | t => mismatch .bool t

/-- Reads the null that stands for no further content. -/
def readUnit : Tree → Reading Unit
  | .null => .ok ()
  | t => mismatch .unit t

/-- Finds the word of a vocabulary that a name stands for. -/
def readName {α : Type} [Vocabulary α] (s : String) : Reading α :=
  match Vocabulary.ofName? s with
  | some a => .ok a
  | none => .error (.data (.unknownVariant s (Vocabulary.names α)))

/-- Reads a word of a vocabulary: its name, or an object with the name as its only key and null as
the value. The words of a vocabulary can be nothing else, and then it is the text that is flawed. -/
def readVariant {α : Type} [Vocabulary α] : Tree → Reading α
  | .string q => do
    readName (← ofText q.text)
  | .object ((key, v) :: more) closing => do
    let a ← readName (← ofText key.text)
    readUnit v
    match more, closing with
    | [], .closed => return a
    | [], .cut fault => throw (.text fault)
    | _, _ => throw (.text .malformed)
  | .object [] (.cut fault) => .error (.text fault)
  | .absent => .error (.text .truncated)
  | _ => .error (.text .malformed)

/-- Reads a value that may be left out by writing null. -/
def readOption {α : Type} (read : Tree → Reading α) : Tree → Reading (Option α)
  | .null => .ok none
  | .unfinished .null => .error (.text .truncated)
  | t => do
    return some (← read t)

/-- Reads the items of an array. -/
def readItems {α : Type} (read : Tree → Reading α) (closing : Closing) :
    List Tree → Reading (List α)
  | [] => do
    ofText closing.check
    return []
  | t :: ts => do
    let a ← read t
    return a :: (← readItems read closing ts)

/-- Reads an array of values. -/
def readList {α : Type} (read : Tree → Reading α) : Tree → Reading (List α)
  | .array ts closing => readItems read closing ts
  | t => mismatch .array t

/-! ### Skipping -/

mutual

/-- Looks whether the text of a value is sound. Escapes that are no character do no harm here, and a
number that breaks off counts as ill-formed. -/
def skip : Tree → Except TextFault Unit
  | .null | .bool _ | .number _ => .ok ()
  | .string q => q.ending.check
  | .array ts closing => skipItems closing ts
  | .object ms closing => skipMembers closing ms
  | .absent => .error .truncated
  | .junk => .error .malformed
  | .unfinished .number => .error .malformed
  | .unfinished _ => .error .truncated

/-- Looks whether the text of an array is sound. -/
def skipItems (closing : Closing) : List Tree → Except TextFault Unit
  | [] => closing.check
  | t :: ts => do
    skip t
    skipItems closing ts

/-- Looks whether the text of an object is sound. -/
def skipMembers (closing : Closing) : List (Quoted × Tree) → Except TextFault Unit
  | [] => closing.check
  | (key, v) :: ms => do
    key.ending.check
    skip v
    skipMembers closing ms

end

/-! ### Whole documents -/

/-- Reads a text, behind whose value only blanks may follow. -/
def readText {α : Type} (read : Tree → Reading α) (text : String) : Reading α := do
  let (tree, more) := parse text
  let a ← read tree
  if more then
    throw (.text .malformed)
  else
    return a

/-! ### Writers -/

/-- The tree of a natural number. -/
def ofCount (n : Nat) : Tree :=
  .number (.ofNat n)

/-- The tree of a float. What is no finite number is written as null. -/
def ofFloat (x : Float) : Tree :=
  if x.isFinite then .number (.ofFloat .document x) else .null

/-- The tree of a text. -/
def ofString (s : String) : Tree :=
  .string (.ofText s)

/-- The tree of a word of a vocabulary. -/
def ofVariant {α : Type} [Vocabulary α] (a : α) : Tree :=
  ofString (Vocabulary.name a)

/-- The tree of a value that may be left out. -/
def ofOption {α : Type} (write : α → Tree) : Option α → Tree
  | none => .null
  | some a => write a

/-- The tree of a list. -/
def ofList {α : Type} (write : α → Tree) (as : List α) : Tree :=
  .array (as.map write) .closed

/-- The tree of a record, given by its fields in order. -/
def ofFields (fields : List (String × Tree)) : Tree :=
  .object (fields.map fun (k, v) => (.ofText k, v)) .closed

end Document

end FuzzPolicy
