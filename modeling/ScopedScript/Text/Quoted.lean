/-
Quoted text: how names and strings are written in dumps.

A text stands between double quotes. Quotes and backslashes take a
backslash, the line break, carriage return, tab and NUL have letters, and
any other character that does not show as itself is written by its code
point in lower-case hexadecimal.
-/
import ScopedScript.Text.Graphic

namespace ScopedScript.Text

/-- The code point of a character as an escape. -/
def escapeCode (c : Char) : List Char :=
  ['\\', 'u', '\x7b'] ++ Nat.toDigits 16 c.toNat ++ ['\x7d']

/-- A character as it stands inside quotes. -/
def escapeChar (c : Char) : List Char :=
  if c = '"' then ['\\', '"']
  else if c = '\\' then ['\\', '\\']
  else if c = '\n' then ['\\', 'n']
  else if c = '\r' then ['\\', 'r']
  else if c = '\t' then ['\\', 't']
  else if c = '\x00' then ['\\', '0']
  else if isGraphic c then [c]
  else escapeCode c

/-- The quoted form of a text. -/
def quote (text : String) : String :=
  String.ofList ('"' :: text.toList.flatMap escapeChar ++ ['"'])

end ScopedScript.Text
