import RomAtlas.Document.Fault
import RomAtlas.Document.Yaml.Line
import RomAtlas.Text.Basic

/-!
# Quoted scalars

A scalar in single quotes holds its characters, a quote written twice. A scalar in double quotes may
hold escapes, also of code points that are no characters, and of line ends, which it leaves out.
Both are folded at line ends.
-/

namespace RomAtlas.Yaml

/-- A part of a quoted scalar. -/
inductive Piece where
  /-- The closing quote. -/
  | close
  | points (ps : List CodePoint)

/-- A part made of characters. -/
def Piece.chars (cs : List Char) : Piece := .points (cs.map CodePoint.ofChar)

/-- Blanks inside quotes, folded if a line ends behind them. -/
def quotedGap (cs : List Char) : Except DocumentFault (Piece × List Char) :=
  match lineEnd? (cs.dropWhile isBlank) with
  | none => .ok (.chars (cs.takeWhile isBlank), cs.dropWhile isBlank)
  | some (first, rest) =>
    let s := skipLines isBlank 0 rest
    if s.atMarker then .error .malformed else .ok (.chars (folded first s.ends), s.rest)

/-- A character inside quotes, together with those behind it that cannot mean anything else. -/
def charsFrom (c : Char) (rest : List Char) : Piece × List Char :=
  let isOrdinary (c : Char) : Bool :=
    c ≠ '\x27' && c ≠ '\x22' && c ≠ '\\' && !isBlank c && !isLineEnd c
  (.chars (c :: rest.takeWhile isOrdinary), rest.dropWhile isOrdinary)

/-- The next part of a scalar in single quotes. -/
def singlePiece (cs : List Char) : Except DocumentFault (Piece × List Char) :=
  match cs with
  | [] => .error .malformed
  | '\x27' :: '\x27' :: rest => .ok (.chars ['\x27'], rest)
  | '\x27' :: rest => .ok (.close, rest)
  | c :: rest => if isGap cs then quotedGap cs else .ok (charsFrom c rest)

/-- The code points of the escapes of one character. -/
def escapes : List (Char × Nat) :=
  [('0', 0x00), ('a', 0x07), ('b', 0x08), ('t', 0x09), ('\t', 0x09), ('n', 0x0A), ('v', 0x0B),
    ('f', 0x0C), ('r', 0x0D), ('e', 0x1B), (' ', 0x20), ('\x22', 0x22), ('/', 0x2F), ('\\', 0x5C),
    ('N', 0x85), ('_', 0xA0), ('L', 0x2028), ('P', 0x2029)]

/-- The number of digits of an escape by number. -/
def codeWidth? (c : Char) : Option Nat :=
  if c = 'x' then some 2 else if c = 'u' then some 4 else if c = 'U' then some 8 else none

/-- The code point of a number. -/
def codePoint (n : Nat) : Except DocumentFault CodePoint :=
  match CodePoint.ofNat? n with
  | some p => .ok p
  | none => .error (if 0x7FFFFFFF < n then .escapeTooLarge else .noCodePoint)

/-- The code point of an escape by number. -/
def codeEscape (width : Nat) (cs : List Char) : Except DocumentFault (Piece × List Char) :=
  match (cs.take width).mapM (Numeral.digit? 16) with
  | none => .error .malformed
  | some digits =>
    if digits.length < width then .error .malformed
    else (codePoint (Numeral.ofDigits 16 digits)).map fun p => (.points [p], cs.drop width)

/-- What an escape stands for, after its backslash. -/
def escaped (cs : List Char) : Except DocumentFault (Piece × List Char) :=
  match lineEnd? cs with
  | some (_, rest) =>
    let s := skipLines isBlank 0 rest
    if s.atMarker then .error .malformed else .ok (.chars s.ends, s.rest)
  | none =>
    match cs with
    | [] => .error .malformed
    | c :: rest =>
      match escapes.lookup c, codeWidth? c with
      | some n, _ => (codePoint n).map fun p => (.points [p], rest)
      | none, some width => codeEscape width rest
      | none, none => .error .malformed

/-- The next part of a scalar in double quotes. -/
def doublePiece (cs : List Char) : Except DocumentFault (Piece × List Char) :=
  match cs with
  | [] => .error .malformed
  | '\x22' :: rest => .ok (.close, rest)
  | '\\' :: rest => escaped rest
  | c :: rest => if isGap cs then quotedGap cs else .ok (charsFrom c rest)

/-- The parts of a quoted scalar up to its closing quote, after those that were read. -/
def quotedFrom (piece : List Char → Except DocumentFault (Piece × List Char))
    (read : Array CodePoint) (cs : List Char) : Except DocumentFault (Text × List Char) :=
  match piece cs with
  | .error fault => .error fault
  | .ok (.close, rest) => .ok (⟨read.toList⟩, rest)
  | .ok (.points ps, rest) =>
    if rest.length < cs.length then quotedFrom piece (read ++ ps) rest else .error .malformed
termination_by cs.length

/-- The text of a quoted scalar, after its opening quote, and what follows it. -/
def quotedScalar (double : Bool) (cs : List Char) : Except DocumentFault (Text × List Char) :=
  quotedFrom (if double then doublePiece else singlePiece) #[] cs

end RomAtlas.Yaml
