import RomAtlas.Text.Basic
import RomAtlas.Text.Hex
import RomAtlas.Text.Printable

/-!
# Quoted text

A text inside a list or mapping is shown in quotes: single quotes, or double quotes if it holds a
single quote and no double one. Backslashes, the chosen quote and code points without a printed form
are escaped.
-/

namespace RomAtlas.Text

/-- Lower-case digits of a code point, filled with zeros. -/
def codeDigits (width n : Nat) : List Char := Hex.fill width (Hex.digits Hex.lowerDigit n)

/-- The escape of a code point by its number. -/
def numberEscape (n : Nat) : List Char :=
  if n < 0x100 then '\\' :: 'x' :: codeDigits 2 n
  else if n < 0x10000 then '\\' :: 'u' :: codeDigits 4 n
  else '\\' :: 'U' :: codeDigits 8 n

/-- A code point inside a given quote. -/
def escape (quote : Char) (p : CodePoint) : List Char :=
  match p.char? with
  | none => numberEscape p.val
  | some c =>
    if c = '\\' then ['\\', '\\']
    else if c = quote then ['\\', quote]
    else if c = '\n' then ['\\', 'n']
    else if c = '\t' then ['\\', 't']
    else if c = '\r' then ['\\', 'r']
    else if isPrintable c then [c]
    else numberEscape p.val

/-- The quote in which a text is shown. -/
def quoteFor (t : Text) : Char :=
  if .ofChar '\x27' ∈ t.points ∧ .ofChar '\x22' ∉ t.points then '\x22' else '\x27'

/-- A text in quotes. -/
def quoted (t : Text) : String :=
  let quote := quoteFor t
  String.ofList (quote :: t.points.flatMap (escape quote) ++ [quote])

end RomAtlas.Text
