import RomAtlas.Cpu.WidthState
import RomAtlas.Document.Value

/-!
# Hints

What the author of a project knows about an image: where code starts, which ranges are data or code,
and where an indirect jump can go. Addresses are as the author gave them; names may be any value.
-/

namespace RomAtlas

/-- The name that a value declares, if it declares one. -/
def Value.symbol? (v : Value) : Option String := if v.isGiven then v.text?.map Text.shown else none

/-- Code starts at an address, under given widths or those of the trace. -/
structure EntryHint where
  address : Int
  name : Value
  widths : Option Widths

/-- What an entry point says. -/
def EntryHint.parts (h : EntryHint) : List Value := [.int h.address, h.name]

/-- The bytes from the first to the last address are of one class. -/
structure RangeHint where
  first : Int
  last : Int
  label : Value

/-- What a range says. -/
def RangeHint.parts (h : RangeHint) : List Value := [.int h.first, .int h.last, h.label]

/-- Where the instruction at a site can go: to listed targets, or to those of a pointer table. -/
structure JumpTableHint where
  site : Int
  targets : List Int
  table : Option Int
  count : Int
  longPointers : Bool
  returns : Bool
  label : Value

/-- What a jump table says. -/
def JumpTableHint.parts (h : JumpTableHint) : List Value :=
  [.int h.site, .int h.count, h.label] ++ (h.targets ++ h.table.toList).map .int

/-- All hints of a project. -/
structure Hints where
  entryPoints : List EntryHint
  dataRanges : List RangeHint
  codeRanges : List RangeHint
  jumpTables : List JumpTableHint

/-- No hints. -/
def Hints.empty : Hints := ⟨[], [], [], []⟩

end RomAtlas
