/-
# Quoted text

In an exact listing, names and texts stand in double quotes.  What would not show,
or would end the quotation, is escaped:

| character | written |
| --- | --- |
| quotation mark, backslash | a backslash and the character |
| null, tab, line feed, carriage return | `\0`, `\t`, `\n`, `\r` |
| any other character that does not show by itself | `\u`, its hexadecimal code point in braces |
-/

import CircuitExpr.Text.InvisibleTable

namespace CircuitExpr
namespace Text

/-- Does the character fail to show by itself? -/
def isInvisible (c : Char) : Bool :=
  if c.toNat < 128 then c.toNat < 32 || c.toNat == 127 else invisibleRanges.contains c

/-- A character between quotation marks. -/
def quoteChar (c : Char) : List Char :=
  if c == '"' then ['\\', '"']
  else if c == '\\' then ['\\', '\\']
  else if c == '\x00' then ['\\', '0']
  else if c == '\t' then ['\\', 't']
  else if c == '\n' then ['\\', 'n']
  else if c == '\r' then ['\\', 'r']
  else if isInvisible c then
    ['\\', 'u', '\x7b'] ++ Nat.toDigits 16 c.toNat ++ ['\x7d']
  else [c]

/-- The text between quotation marks. -/
def quote (s : String) : String :=
  String.ofList ('"' :: s.toList.flatMap quoteChar ++ ['"'])

end Text
end CircuitExpr
