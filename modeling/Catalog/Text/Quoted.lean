import Catalog.Text.Extender
import Catalog.Text.Printable

/-!
Quoted text inside messages: a text in double quotes and a character in single quotes, so that what
the reader sees is unambiguous. Characters that would not show, or would change the one before them,
are written by their code point.
-/

namespace Catalog.Text

/-- The code point in lower-case hexadecimal without leading zeros, as in `\u{1b}`. -/
def codePoint (c : Char) : String :=
  "\\u\x7b" ++ String.ofList (Nat.toDigits 16 c.toNat) ++ "\x7d"

/-- How `c` is written between quotes of the kind `quote`. -/
def quotedChar (quote c : Char) : String :=
  if c.toNat = 0 then "\\0"
  else if c = '\t' then "\\t"
  else if c = '\r' then "\\r"
  else if c = '\n' then "\\n"
  else if c = '\\' || c = quote then String.ofList ['\\', c]
  else if isExtender c || !isPrintable c then codePoint c
  else String.singleton c

/-- A text in double quotes. -/
def quote (s : String) : String :=
  "\"" ++ String.join (s.toList.map (quotedChar '"')) ++ "\""

/-- A character in single quotes. -/
def quoteChar (c : Char) : String :=
  "'" ++ quotedChar '\'' c ++ "'"

end Catalog.Text
