import RomAtlas.Atlas

/-!
# Listings

A listing writes out a stretch of an image: a line with its name for each labelled address, a line
for each confirmed instruction, and lines of at most eight bytes for all else. A data line ends at
the end of its region and before the next labelled address or confirmed instruction.
-/

namespace RomAtlas

/-- A line of a listing. The line of a label has no bytes. -/
structure Line where
  address : Int
  bytes : List UInt8
  text : String
deriving DecidableEq, Repr

namespace Line

/-- The bytes of a line as text. -/
def hex (l : Line) : String := " ".intercalate (l.bytes.map Hex.byte)

/-- The line of a label. -/
def ofLabel (address : Int) (label : Label) : Line := ⟨address, [], label.name ++ ":"⟩

/-- The line of data. -/
def ofData (address : Int) (bytes : List UInt8) : Line :=
  ⟨address, bytes, "db " ++ ",".intercalate (bytes.map fun b => "$" ++ Hex.byte b)⟩

end Line

/-- The most bytes of a data line. -/
def bytesPerLine : Nat := 8

namespace Atlas

/-- An instruction as a listing shows it, with the name of its target if that has one. -/
def instructionText (a : Atlas) (i : Instruction) : String :=
  match i.targets.head?.bind a.label? with
  | some label => Instruction.join i.shape.mnemonic label.name
  | none => i.text

/-- Whether a data line has to end before an address. -/
def isMarked (a : Atlas) (address : Int) : Bool :=
  a.labels.contains address || a.instructions.contains address

/-- The number of bytes from an offset on, at most `count`, before the first marked address. -/
def unmarkedBytes (a : Atlas) : Nat → Nat → Except Fault Nat
  | 0, _ => .ok 0
  | count + 1, offset => do
    let address ← a.regions.map.addressOf offset
    if a.isMarked address then return 0
    return 1 + (← a.unmarkedBytes count (offset + 1))

/-- The line at an offset and the number of its bytes less one. -/
def lineAt (a : Atlas) (image : Image) (offset last : Nat) (address : Int) :
    Except Fault (Line × Nat) := do
  let region ← a.regions.regionOf offset
  match (a.instructions[address]?).filter fun _ => region.cls = .code with
  | some i => return (⟨address, i.raw, a.instructionText i⟩, i.operand.length)
  | none =>
    let stop := min region.stop.toNat (min (offset + bytesPerLine) last)
    let more ← a.unmarkedBytes (stop - (offset + 1)) (offset + 1)
    return (Line.ofData address (image.slice offset (1 + more)).toList, more)

/-- The lines from an offset on, behind those already written. -/
def linesFrom (a : Atlas) (image : Image) (offset last : Nat) (written : Array Line) :
    Except Fault (Array Line) :=
  if offset < last then do
    let address ← a.regions.map.addressOf offset
    let written :=
      match a.labels[address]? with
      | some label => written.push (Line.ofLabel address label)
      | none => written
    let (line, more) ← a.lineAt image offset last address
    a.linesFrom image (offset + more + 1) last (written.push line)
  else .ok written
termination_by last - offset

/-- The listing of the addresses from `start` up to and not including `stop`. -/
def listing (a : Atlas) (image : Image) (start stop : Int) : Except Fault (Array Line) := do
  let first ← a.regions.map.offsetOf start
  let last ← a.regions.map.offsetOf (stop - 1)
  a.linesFrom image first (last + 1) #[]

end Atlas

end RomAtlas
