import FuzzPolicy.Document.Tree

/-!
# From text to tree

`Document.parse` makes the tree of a text. It never fails, as the tree has room for every flaw; it
also says whether anything but blanks follows the value.

The functions walk the characters and answer what they have made out together with the characters
left over. The recursion of `value`, `items` and `members` is bounded by a number of steps for which
twice the length of the text is always enough.
-/

namespace FuzzPolicy.Document

/-- The blanks that may stand between the parts of a document. -/
def isBlank (c : Char) : Bool :=
  c = ' ' || c = '\n' || c = '\t' || c = '\r'

/-- The text without the blanks before it. -/
def skipBlanks (cs : List Char) : List Char :=
  cs.dropWhile isBlank

/-! ### Words and numbers -/

/-- The rest of a word whose first letter has been read, and what follows it. -/
def word (expected : List Char) (cs : List Char) : Except TextFault (List Char) :=
  match expected, cs with
  | [], cs => .ok cs
  | _ :: _, [] => .error .truncated
  | e :: es, c :: cs => if e = c then word es cs else .error .malformed

/-- The tree of a word whose first letter has been read. -/
def wordTree (tree : Tree) (kind : Unfinished) (expected cs : List Char) : Tree × List Char :=
  match word expected cs with
  | .ok rest => (tree, rest)
  | .error .truncated => (.unfinished kind, [])
  | .error .malformed => (.junk, cs)

/-- The sign of an exponent, if it has one, and what follows. -/
def exponentSign : List Char → Bool × List Char
  | '+' :: cs => (false, cs)
  | '-' :: cs => (true, cs)
  | cs => (false, cs)

/-- The exponent of a number, whose other digits are given, if it has one. -/
def numberExponent (negative : Bool) (whole fraction cs : List Char) : Tree × List Char :=
  match cs with
  | [] => (.number ⟨negative, whole, fraction, none⟩, [])
  | e :: cs' =>
    if e = 'e' || e = 'E' then
      let (minus, cs'') := exponentSign cs'
      let digits := cs''.takeWhile Char.isDigit
      match cs'' with
      | [] => (.unfinished .number, [])
      | _ :: _ =>
        if digits.isEmpty then (.junk, cs'')
        else
          (.number ⟨negative, whole, fraction, some ⟨minus, digits⟩⟩, cs''.dropWhile Char.isDigit)
    else
      (.number ⟨negative, whole, fraction, none⟩, cs)

/-- The digits after the point of a number, whose whole digits are given, if it has a point. -/
def numberFraction (negative : Bool) (whole cs : List Char) : Tree × List Char :=
  match cs with
  | '.' :: cs' =>
    let digits := cs'.takeWhile Char.isDigit
    match cs' with
    | [] => (.unfinished .number, [])
    | _ :: _ =>
      if digits.isEmpty then (.junk, cs')
      else numberExponent negative whole digits (cs'.dropWhile Char.isDigit)
  | cs => numberExponent negative whole [] cs

/-- A number, whose sign is given. It has no zero before other whole digits. -/
def number (negative : Bool) (cs : List Char) : Tree × List Char :=
  match cs with
  | [] => (.unfinished .number, [])
  | '0' :: cs' =>
    match cs' with
    | [] => numberFraction negative ['0'] cs'
    | c :: _ => if c.isDigit then (.junk, cs') else numberFraction negative ['0'] cs'
  | cs =>
    let digits := cs.takeWhile Char.isDigit
    if digits.isEmpty then (.junk, cs)
    else numberFraction negative digits (cs.dropWhile Char.isDigit)

/-! ### Strings -/

/-- The value of a hexadecimal digit. -/
def hexValue (c : Char) : Option Nat :=
  if '0' ≤ c ∧ c ≤ '9' then some (c.toNat - '0'.toNat)
  else if 'a' ≤ c ∧ c ≤ 'f' then some (c.toNat - 'a'.toNat + 10)
  else if 'A' ≤ c ∧ c ≤ 'F' then some (c.toNat - 'A'.toNat + 10)
  else none

/-- The unit that four hexadecimal digits stand for. -/
def hexUnit (a b c d : Char) : Option Nat := do
  return (((← hexValue a) * 16 + (← hexValue b)) * 16 + (← hexValue c)) * 16 + (← hexValue d)

/-- The character that a short escape stands for. -/
def shortEscape (c : Char) : Option Char :=
  if c = '"' || c = '\\' || c = '/' then some c
  else if c = 'b' then some '\x08'
  else if c = 'f' then some '\x0c'
  else if c = 'n' then some '\n'
  else if c = 'r' then some '\r'
  else if c = 't' then some '\t'
  else none

/-- The fault of an escape by number that is not followed by four hexadecimal digits. The text counts
as over if fewer than four bytes follow. -/
def hexFault (cs : List Char) : TextFault :=
  if (cs.take 4).foldl (fun size c => size + c.utf8Size) 0 < 4 then .truncated else .malformed

/-- Puts a piece before a string. -/
def Quoted.cons (p : Piece) (q : Quoted) : Quoted :=
  ⟨p :: q.pieces, q.ending⟩

/-- A string whose opening quote has been read. -/
def quoted : List Char → Quoted × List Char
  | [] => (⟨[], .cut .truncated⟩, [])
  | '"' :: cs => (⟨[], .closed⟩, cs)
  | '\\' :: 'u' :: a :: b :: c :: d :: cs =>
    match hexUnit a b c d with
    | some u =>
      let (q, rest) := quoted cs
      (q.cons (.unit u), rest)
    | none => (⟨[], .cut (hexFault [a, b, c, d])⟩, cs)
  | '\\' :: 'u' :: cs => (⟨[], .cut (hexFault cs)⟩, [])
  | '\\' :: e :: cs =>
    match shortEscape e with
    | some c =>
      let (q, rest) := quoted cs
      (q.cons (.char c), rest)
    | none => (⟨[], .cut .malformed⟩, cs)
  | '\\' :: [] => (⟨[], .cut .truncated⟩, [])
  | c :: cs =>
    if c.toNat < 0x20 then
      (⟨[], .cut .malformed⟩, cs)
    else
      let (q, rest) := quoted cs
      (q.cons (.char c), rest)

/-! ### Values -/

mutual

/-- A value, after blanks. -/
def value : Nat → List Char → Tree × List Char
  | 0, cs => (.junk, cs)
  | n + 1, cs =>
    match skipBlanks cs with
    | [] => (.absent, [])
    | 'n' :: r => wordTree .null .null ['u', 'l', 'l'] r
    | 't' :: r => wordTree (.bool true) .bool ['r', 'u', 'e'] r
    | 'f' :: r => wordTree (.bool false) .bool ['a', 'l', 's', 'e'] r
    | '"' :: r =>
      let (q, r') := quoted r
      (.string q, r')
    | '-' :: r => number true r
    | '[' :: r =>
      match skipBlanks r with
      | [] => (.array [] (.cut .truncated), [])
      | ']' :: r' => (.array [] .closed, r')
      | r' =>
        let (items, closing, r'') := items n r'
        (.array items closing, r'')
    | '{' :: r =>
      match skipBlanks r with
      | [] => (.object [] (.cut .truncated), [])
      | '}' :: r' => (.object [] .closed, r')
      | '"' :: r' =>
        let (members, closing, r'') := members n r'
        (.object members closing, r'')
      | r' => (.object [] (.cut .malformed), r')
    | c :: r => if c.isDigit then number false (c :: r) else (.junk, c :: r)

/-- The items of an array, one of which has to follow. -/
def items : Nat → List Char → List Tree × Closing × List Char
  | 0, cs => ([.junk], .cut .malformed, cs)
  | n + 1, cs =>
    let (item, r) := value n cs
    match skipBlanks r with
    | [] => ([item], .cut .truncated, [])
    | ',' :: r' =>
      let (more, closing, r'') := items n r'
      (item :: more, closing, r'')
    | ']' :: r' => ([item], .closed, r')
    | r' => ([item], .cut .malformed, r')

/-- The members of an object, after the opening quote of the first key. -/
def members : Nat → List Char → List (Quoted × Tree) × Closing × List Char
  | 0, cs => ([], .cut .malformed, cs)
  | n + 1, cs =>
    let (key, r) := quoted cs
    match skipBlanks r with
    | [] => ([(key, .absent)], .cut .truncated, [])
    | ':' :: r' =>
      let (v, r'') := value n r'
      match skipBlanks r'' with
      | [] => ([(key, v)], .cut .truncated, [])
      | ',' :: s =>
        match skipBlanks s with
        | [] => ([(key, v)], .dangling .truncated, [])
        | '"' :: s' =>
          let (more, closing, s'') := members n s'
          ((key, v) :: more, closing, s'')
        | s' => ([(key, v)], .dangling .malformed, s')
      | '}' :: s => ([(key, v)], .closed, s)
      | s => ([(key, v)], .cut .malformed, s)
    | r' => ([(key, .junk)], .cut .malformed, r')

end

/-- The tree of a text, and whether the text goes on behind the value. -/
def parse (text : String) : Tree × Bool :=
  let cs := text.toList
  let (tree, rest) := value (2 * cs.length + 2) cs
  (tree, !(skipBlanks rest).isEmpty)

end FuzzPolicy.Document
