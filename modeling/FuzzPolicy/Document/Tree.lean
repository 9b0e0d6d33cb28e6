import FuzzPolicy.Decimal.Numeral

/-!
# Documents

A document is JSON text. Its tree shows what the text says as far as it says anything: where the text
breaks off or goes wrong, the tree has a node for that, in the place where it happened. Reading a
document is then a walk over the tree from left to right that stops at the first problem it meets,
whether that is a flaw of the text or a value that does not belong there. So a wrong value is reported
even if the text breaks off later, and nothing that lies behind a flaw is ever looked at.

Design points:

* Strings keep their escapes. Those escapes that are no character are a flaw only for who needs the
  text, and not for who skips the string.
* Numbers keep their digits. Whether one is too large is seen when its value is taken.
* How a flaw is reported can depend on what was expected there, so the nodes for flaws say what was
  found: no text, text that begins no value, or a value that breaks off.
-/

namespace FuzzPolicy

/-- What is wrong with a text that is no document. -/
inductive TextFault where
  /-- There is something that must not be there. -/
  | malformed
  /-- The text is over too early. -/
  | truncated
  deriving DecidableEq, Repr

namespace Document

/-- How a string ends. -/
inductive Ending where
  /-- As it should. -/
  | closed
  /-- By a flaw of the text. -/
  | cut (fault : TextFault)
  deriving DecidableEq, Repr

/-- How the items of an array or the members of an object end. -/
inductive Closing where
  /-- By the closing bracket. -/
  | closed
  /-- By a flaw of the text, after an item or where the first one should be. -/
  | cut (fault : TextFault)
  /-- By a flaw of the text after a comma that another member should follow. -/
  | dangling (fault : TextFault)
  deriving DecidableEq, Repr

/-- A piece of a string. -/
inductive Piece where
  /-- A character, as it is or by a short escape. -/
  | char (c : Char)
  /-- A 16-bit unit, by its number. -/
  | unit (u : Nat)
  deriving DecidableEq, Repr

/-- A string as it is written. -/
structure Quoted where
  pieces : List Piece
  ending : Ending
  deriving DecidableEq, Repr

/-- A value that breaks off at the end of the text. -/
inductive Unfinished where
  | null
  | bool
  | number
  deriving DecidableEq, Repr

/-- A document, or the part of one that can be made out. -/
inductive Tree where
  | null
  | bool (b : Bool)
  | number (n : Numeral)
  | string (q : Quoted)
  | array (items : List Tree) (closing : Closing)
  | object (members : List (Quoted × Tree)) (closing : Closing)
  /-- The end of the text, where a value should be. -/
  | absent
  /-- Text that begins no value, or an ill-formed word or number. -/
  | junk
  /-- A word or number that breaks off at the end of the text. -/
  | unfinished (what : Unfinished)
  deriving Repr

/-! ### The text of a string -/

/-- The units that stand for the first half of a character beyond the first 2¹⁶. -/
def isHighSurrogate (u : Nat) : Bool :=
  0xd800 ≤ u && u ≤ 0xdbff

/-- The units that stand for the second half of such a character. -/
def isLowSurrogate (u : Nat) : Bool :=
  0xdc00 ≤ u && u ≤ 0xdfff

/-- The character that two surrogates stand for. -/
def joinSurrogates (high low : Nat) : Char :=
  Char.ofNat (0x10000 + (high - 0xd800) * 0x400 + (low - 0xdc00))

/-- The fault that an ending makes. -/
def Ending.check : Ending → Except TextFault Unit
  | closed => .ok ()
  | cut fault => .error fault

/-- The fault that a closing makes. -/
def Closing.check : Closing → Except TextFault Unit
  | closed => .ok ()
  | cut fault => .error fault
  | dangling fault => .error fault

/-- The characters that the pieces of a string stand for. Surrogates must come in pairs; one that the
string leaves alone at its end is a flaw unless the text ended there. -/
def Quoted.charsOf (ending : Ending) : List Piece → Except TextFault (List Char)
  | [] => do
    ending.check
    return []
  | .char c :: ps => do
    return c :: (← charsOf ending ps)
  | .unit u :: ps =>
    if isHighSurrogate u then
      match ps with
      | .unit v :: ps' =>
        if isLowSurrogate v then do
          return joinSurrogates u v :: (← charsOf ending ps')
        else
          .error .malformed
      | .char _ :: _ => .error .malformed
      | [] =>
        match ending with
        | .closed => .error .malformed
        | .cut fault => .error fault
    else if isLowSurrogate u then
      .error .malformed
    else do
      return Char.ofNat u :: (← charsOf ending ps)

/-- The text of a string. -/
def Quoted.text (q : Quoted) : Except TextFault String := do
  return String.ofList (← charsOf q.ending q.pieces)

/-- The string with the given text. -/
def Quoted.ofText (s : String) : Quoted :=
  ⟨s.toList.map .char, .closed⟩

end Document

end FuzzPolicy
