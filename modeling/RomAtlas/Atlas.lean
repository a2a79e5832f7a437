import RomAtlas.Label
import RomAtlas.Region.Classify

/-!
# Atlases

An atlas of an image says of each byte what it is, names addresses, and lists the instructions that
are beyond doubt and the conflicts that are not. `survey` makes it: hints are checked, the flow of
control is traced, bytes are classified and labels assigned (`Atlas.ofTrace`).
-/

namespace RomAtlas

/-- The result of a survey. Labels and confirmed instructions are kept by canonical address. -/
structure Atlas where
  regions : Partition
  xrefs : List Xref
  labels : Labels
  instructions : Std.TreeMap Int Instruction
  report : Report
  truncated : Bool
  steps : Nat

namespace Atlas

/-- The confirmed instruction at an address. -/
def instruction? (a : Atlas) (address : Int) : Option Instruction :=
  a.instructions[a.regions.map.canonical address]?

/-- The label at an address. -/
def label? (a : Atlas) (address : Int) : Option Label :=
  a.labels[a.regions.map.canonical address]?

end Atlas

/-- The different widths under which each canonical address was decoded. -/
def decodedWidths (m : AddressMap) (entries : List (Node × Instruction)) :
    Std.HashMap Int (List Widths) :=
  entries.foldl (fun t (n, _) =>
    t.alter (m.canonical n.address) fun ws =>
      let ws := ws.getD []
      some (if ws.contains n.state.widths then ws else n.state.widths :: ws)) ∅

/-- Whether all bytes of an instruction are code. -/
def isAllCode (regions : Partition) (i : Instruction) : Bool :=
  (List.range i.length).all fun k : Nat => regions.classOf? (stepInBank i.address k) = some .code

/-- The instructions beyond doubt: decoded under one pair of widths only, and all of their bytes
code. -/
def confirmed (m : AddressMap) (t : Trace) (regions : Partition) : Std.TreeMap Int Instruction :=
  let entries := sortByNode t.instructions
  let widths := decodedWidths m entries
  entries.foldl (fun found (_, i) =>
    let address := m.canonical i.address
    if found.contains address || 1 < (widths.getD address []).length then found
    else if isAllCode regions i then found.insert address i
    else found) ∅

/-- Makes an atlas from a trace, the hints that were checked and the rejections of others. -/
def Atlas.ofTrace (c : Cartridge) (checked : CheckedHints) (rejected : List Conflict) (t : Trace) :
    Except Fault Atlas := do
  let (regions, conflicts) ← classify c.map t checked
  return {
    regions
    xrefs := t.xrefs
    labels := labelsFor c.map t.xrefs checked (some regions)
    instructions := confirmed c.map t regions
    report := (Report.mk rejected).addAll t.conflicts |>.addAll conflicts
    truncated := t.truncated
    steps := t.steps }

/-- Makes the atlas of a cartridge. -/
def survey (c : Cartridge) (hints : Hints) (settings : TraceSettings) (watch : Watch) :
    Except Fault Atlas := do
  let (checked, rejected) ← hints.check c
  let t ← trace c checked settings watch
  Atlas.ofTrace c checked rejected t

end RomAtlas
