/-!
# Lines of a text

How a text is divided into lines, and a place in it. A scalar that goes on over several lines is
folded: one line end counts as a blank, of more the first is dropped.
-/

namespace RomAtlas.Yaml

/-- Whether a character may stand in a text. -/
def isAllowed (c : Char) : Bool :=
  let n := c.toNat
  c = '\t' || c = '\n' || c = '\r' || (0x20 ≤ n && n ≤ 0x7E) || n = 0x85 ||
    (0xA0 ≤ n && n ≤ 0xFFFD) || 0x10000 ≤ n

/-- The byte order mark, which takes no column. -/
def byteOrderMark : Char := Char.ofNat 0xFEFF

/-- Whether a character ends a line. -/
def isLineEnd (c : Char) : Bool :=
  c = '\n' || c = '\r' || c.toNat = 0x85 || c.toNat = 0x2028 || c.toNat = 0x2029

/-- Whether a character is a blank. -/
def isBlank (c : Char) : Bool := c = ' ' || c = '\t'

/-- Whether a word ends here: at a blank, at the end of a line or of the text. -/
def isGap : List Char → Bool
  | [] => true
  | c :: _ => isBlank c || isLineEnd c

/-- A line end as it is kept in a scalar: the separators of lines and paragraphs as themselves. -/
def keptEnd (c : Char) : Char := if c.toNat = 0x2028 ∨ c.toNat = 0x2029 then c else '\n'

/-- The line end at the start of a text, as it is kept, and what follows it. -/
def lineEnd? : List Char → Option (Char × List Char)
  | '\r' :: '\n' :: cs => some ('\n', cs)
  | c :: cs => if isLineEnd c then some (keptEnd c, cs) else none
  | [] => none

/-- Whether a text starts with a mark of three characters. -/
def isMark (c : Char) (cs : List Char) : Bool := cs.take 3 = [c, c, c] && isGap (cs.drop 3)

/-- Whether a text starts with the mark for the start or end of a document. -/
def isMarker (cs : List Char) : Bool := isMark '-' cs || isMark '.' cs

/-- Blanks and line ends at the start of a text. -/
structure Skipped where
  /-- The line ends, as they are kept. -/
  ends : List Char
  /-- The blanks since the last line end. -/
  column : Nat
  rest : List Char

/-- Skips blanks and line ends from a column on. -/
def skipLines (blank : Char → Bool) : Nat → List Char → Skipped
  | column, [] => ⟨[], column, []⟩
  | _, '\r' :: '\n' :: cs =>
    let s := skipLines blank 0 cs
    { s with ends := '\n' :: s.ends }
  | column, c :: cs =>
    if blank c then skipLines blank (column + 1) cs
    else if isLineEnd c then
      let s := skipLines blank 0 cs
      { s with ends := keptEnd c :: s.ends }
    else ⟨[], column, c :: cs⟩

/-- Whether a line with a mark follows. -/
def Skipped.atMarker (s : Skipped) : Bool := s.column = 0 && isMarker s.rest

/-- The number of characters up to the next token, and whether a line ends among them. A comment
goes up to the end of its line. -/
def gapLength : Bool → List Char → Nat × Bool
  | _, [] => (0, false)
  | comment, c :: cs =>
    if isLineEnd c then ((gapLength false cs).1 + 1, true)
    else if comment || c = ' ' || c = '#' then
      let (count, crossed) := gapLength (comment || c = '#') cs
      (count + 1, crossed)
    else (0, false)

/-- A line end and those that follow it as part of a scalar. -/
def folded (first : Char) (more : List Char) : List Char :=
  if first ≠ '\n' then first :: more else if more.isEmpty then [' '] else more

/-- A place in a text. -/
structure Cursor where
  rest : List Char
  index : Nat
  line : Nat
  column : Nat

namespace Cursor

/-- The start of a text. -/
def start (cs : List Char) : Cursor := ⟨cs, 0, 0, 0⟩

/-- The place after the next character. -/
def next (c : Cursor) : Cursor :=
  match c.rest with
  | [] => c
  | x :: rest =>
    if isLineEnd x ∧ ¬(x = '\r' ∧ rest.head? = some '\n') then ⟨rest, c.index + 1, c.line + 1, 0⟩
    else ⟨rest, c.index + 1, c.line, if x = byteOrderMark then c.column else c.column + 1⟩

/-- The place after a number of characters. -/
def skip : Nat → Cursor → Cursor
  | 0, c => c
  | n + 1, c => skip n c.next

/-- The place where only the given rest follows. -/
def goTo (c : Cursor) (rest : List Char) : Cursor := c.skip (c.rest.length - rest.length)

end Cursor

end RomAtlas.Yaml
