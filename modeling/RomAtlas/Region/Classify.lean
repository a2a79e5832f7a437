import RomAtlas.Region.Partition
import RomAtlas.Region.Overlay
import RomAtlas.Region.Span

/-!
# Classification

`classify` gives each byte of an image a class. The bytes of decoded instructions are code, except
where instructions contradict each other, cannot be decoded or go to an unknown place; those are
ambiguous. Range hints are laid over the result.
-/

namespace RomAtlas

/-- Marks an address that could not be decoded: always if its opcode has no meaning, and otherwise
only if its byte is part of an instruction. -/
def markUnreadable (m : AddressMap) (classes : Array ByteClass) (u : Unreadable) :
    Array ByteClass :=
  match m.offset? u.key.address with
  | none => classes
  | some o =>
    if u.key.reason = .undefined ∨ classes.getD o .unknown ≠ .unknown then
      classes.setIfInBounds o .ambiguous
    else classes

/-- The spans of instructions whose target is not known. -/
def unresolvedSpans (xrefs : List Xref) (spans : List Span) : List Span :=
  let sites := Std.HashSet.ofList ((xrefs.filter (·.kind = .indirectUnresolved)).map (·.source))
  spans.filter fun s => sites.contains s.instr.address

/-- The spans of a trace, in the order of its nodes. -/
def Trace.spans (m : AddressMap) (t : Trace) : Except Fault (List Span) :=
  (sortByNode t.instructions).mapM fun entry => Span.ofInstruction m entry.2

/-- The classes that a trace gives to the bytes of an image. -/
def tracedClasses (m : AddressMap) (t : Trace) (spans : List Span) : Array ByteClass :=
  let classes := Array.replicate m.size ByteClass.unknown
  let classes := spans.foldl (fun cs s => paint .code cs s.offsets) classes
  let classes := (Clash.find spans).foldl (fun cs c => paint .ambiguous cs c.offsets) classes
  let classes := (Overlap.find spans).foldl (fun cs o => paint .ambiguous cs o.offsets) classes
  let classes := (Unreadable.find t.failures).foldl (markUnreadable m) classes
  (unresolvedSpans t.xrefs spans).foldl (fun cs s => paint .ambiguous cs s.offsets) classes

/-- The conflicts inside a trace. -/
def tracedConflicts (m : AddressMap) (t : Trace) (spans : List Span) :
    Except Fault (List Conflict) := do
  let clashes ← (Clash.find spans).mapM (Clash.conflict m)
  let overlaps ← (Overlap.find spans).mapM (Overlap.conflict m)
  return clashes ++ overlaps ++ (Unreadable.find t.failures).map Unreadable.conflict

/-- The conflicts among range hints and between them and a trace. -/
def hintConflicts (m : AddressMap) (layers : List DeclaredRange) (traced final : Array ByteClass) :
    Except Fault (List Conflict) := do
  let overlaps ← (HintOverlap.find layers).mapM (HintOverlap.conflict m)
  let runs := OverrideRun.find traced final (mergeRanges (layers.map (·.range)))
  let overrides ← runs.mapM (OverrideRun.conflict m layers)
  return overlaps ++ overrides

/-- The regions of an image and the conflicts that were found on the way. -/
def classify (m : AddressMap) (t : Trace) (hints : CheckedHints) :
    Except Fault (Partition × List Conflict) := do
  let spans ← t.spans m
  let traced := tracedClasses m t spans
  let ordered := layers hints.ranges
  let final := overlay traced ordered
  let inTrace ← tracedConflicts m t spans
  let inHints ← hintConflicts m ordered traced final
  let regions ← Partition.ofClasses m final
  return (regions, inTrace ++ inHints)

end RomAtlas
