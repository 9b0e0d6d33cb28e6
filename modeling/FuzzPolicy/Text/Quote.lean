import FuzzPolicy.Text.Hidden

/-!
# Text quoted in messages

A message shows foreign text between double quotes. Quotes, backslashes and the common control
characters are escaped by a letter, and other characters that do not show by their number.
-/

namespace FuzzPolicy.Text

/-- How a character is written inside a quotation. -/
def quoteChar (c : Char) : List Char :=
  if c = '\x00' then ['\\', '0']
  else if c = '\t' then ['\\', 't']
  else if c = '\r' then ['\\', 'r']
  else if c = '\n' then ['\\', 'n']
  else if c = '\\' then ['\\', '\\']
  else if c = '"' then ['\\', '"']
  else if isHidden c then ['\\', 'u', '{'] ++ Nat.toDigits 16 c.toNat ++ ['}']
  else [c]

/-- The text as it is quoted in messages. -/
def quote (s : String) : String :=
  String.ofList ('"' :: s.toList.flatMap quoteChar ++ ['"'])

end FuzzPolicy.Text
