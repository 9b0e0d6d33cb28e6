import FuzzPolicy.Document.Tree

/-!
# From tree to text

`Document.render` writes a tree without blanks. It is meant for trees without flaws; of a flaw nothing
is written.
-/

namespace FuzzPolicy.Document

/-- A hexadecimal digit. -/
def hexDigit (n : Nat) : Char :=
  if n < 10 then Char.ofNat ('0'.toNat + n) else Char.ofNat ('a'.toNat + (n - 10))

/-- A 16-bit unit as an escape. -/
def escapeUnit (u : Nat) : List Char :=
  ['\\', 'u', hexDigit (u / 4096 % 16), hexDigit (u / 256 % 16), hexDigit (u / 16 % 16),
    hexDigit (u % 16)]

/-- A character of a string. Quotes, backslashes and control characters are escaped. -/
def escapeChar (c : Char) : List Char :=
  if c = '"' then ['\\', '"']
  else if c = '\\' then ['\\', '\\']
  else if c = '\x08' then ['\\', 'b']
  else if c = '\x0c' then ['\\', 'f']
  else if c = '\n' then ['\\', 'n']
  else if c = '\r' then ['\\', 'r']
  else if c = '\t' then ['\\', 't']
  else if c.toNat < 0x20 then escapeUnit c.toNat
  else [c]

/-- The characters of a piece of a string. -/
def Piece.chars : Piece → List Char
  | char c => escapeChar c
  | unit u => escapeUnit u

/-- The characters of a string. -/
def Quoted.chars (q : Quoted) : List Char :=
  '"' :: q.pieces.flatMap Piece.chars ++ ['"']

mutual

/-- The characters of a tree. -/
def Tree.chars : Tree → List Char
  | .null => ['n', 'u', 'l', 'l']
  | .bool true => ['t', 'r', 'u', 'e']
  | .bool false => ['f', 'a', 'l', 's', 'e']
  | .number n => n.chars
  | .string q => q.chars
  | .array [] _ => ['[', ']']
  | .array (t :: ts) _ => '[' :: t.chars ++ charsOfItems ts ++ [']']
  | .object [] _ => ['{', '}']
  | .object ((k, t) :: ms) _ => '{' :: k.chars ++ ':' :: t.chars ++ charsOfMembers ms ++ ['}']
  | .absent | .junk | .unfinished _ => []

/-- The characters of the items of an array that follow the first, commas included. -/
def charsOfItems : List Tree → List Char
  | [] => []
  | t :: ts => ',' :: t.chars ++ charsOfItems ts

/-- The characters of the members of an object that follow the first, commas included. -/
def charsOfMembers : List (Quoted × Tree) → List Char
  | [] => []
  | (k, t) :: ms => ',' :: k.chars ++ ':' :: t.chars ++ charsOfMembers ms

end

/-- The text of a tree. -/
def render (t : Tree) : String :=
  String.ofList t.chars

end FuzzPolicy.Document
