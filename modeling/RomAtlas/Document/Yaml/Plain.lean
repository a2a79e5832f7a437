import RomAtlas.Document.Yaml.Line

/-!
# Extent of plain scalars

Where a scalar without quotes ends. It ends before a colon that ends a word, before a comment, and
inside brackets before their marks. It goes on over the line ends that are followed by a line
indented deeper than the block it stands in.
-/

namespace RomAtlas.Yaml

/-- Whether a character divides the items inside brackets. -/
def isFlowMark (c : Char) : Bool := c = ',' || c = '[' || c = ']' || c = '\x7b' || c = '\x7d'

/-- Whether a plain scalar cannot go on over the characters that follow. -/
def endsPlain (flow : Bool) : List Char → Bool
  | [] => true
  | c :: cs =>
    isGap (c :: cs) || (c = ':' && (isGap cs || (flow && cs.head?.any isFlowMark))) ||
      (flow && (isFlowMark c || c = '?'))

/-- The characters of a plain scalar up to the next gap or its end. -/
def plainRun (flow : Bool) : List Char → List Char × List Char
  | [] => ([], [])
  | c :: cs =>
    if endsPlain flow (c :: cs) then ([], c :: cs)
    else
      let (run, rest) := plainRun flow cs
      (c :: run, rest)

/-- A plain scalar. -/
structure Plain where
  chars : List Char
  /-- Whether a line end was skipped behind it. -/
  crossed : Bool
  rest : List Char

/-- The characters that follow a run: what they add to the scalar if it goes on, whether a line ends
among them, and the rest. Without the first the scalar ends. -/
def plainGap (flow : Bool) (indent : Int) (cs : List Char) :
    Option (List Char) × Bool × List Char :=
  let blanks := cs.takeWhile (· = ' ')
  let rest := cs.dropWhile (· = ' ')
  match lineEnd? rest with
  | none =>
    (if blanks.isEmpty || rest.head? = some '#' then none else some blanks, false, rest)
  | some (first, rest) =>
    let s := skipLines (· = ' ') 0 rest
    let ends := s.atMarker || s.rest.head? = some '#' || (!flow && s.column ≤ indent)
    (if ends then none else some (folded first s.ends), true, s.rest)

/-- The rest of a plain scalar after some of its characters and a gap. -/
def plainFrom (flow : Bool) (indent : Int) (read : Plain) (gap : List Char) : Plain :=
  let (run, rest) := plainRun flow read.rest
  let chars := read.chars ++ gap ++ run
  if run.isEmpty then read
  else
    match plainGap flow indent rest with
    | (none, crossed, rest) => ⟨chars, crossed, rest⟩
    | (some gap, crossed, rest) =>
      if rest.length < read.rest.length then plainFrom flow indent ⟨chars, crossed, rest⟩ gap
      else ⟨chars, crossed, rest⟩
termination_by read.rest.length

/-- The plain scalar at the start of a text. -/
def plainScalar (flow : Bool) (indent : Int) (cs : List Char) : Plain :=
  plainFrom flow indent ⟨[], false, cs⟩ []

/-- Whether a plain scalar starts here. -/
def startsPlain (flow : Bool) : List Char → Bool
  | [] => false
  | c :: cs =>
    if c = '-' ∨ (¬flow ∧ (c = '?' ∨ c = ':')) then !isGap cs
    else !isGap (c :: cs) && !isFlowMark c && !"?:#&*!|>\x27\x22%@\x60".contains c

end RomAtlas.Yaml
