import RomAtlas.Hint.Checked

/-!
# Range hints over traced classes

Range hints are laid over the classes that a trace found. A smaller range wins over a larger one,
and of two ranges of one size the later wins. Ranges that contradict each other are noted
(`HintOverlap`), and so is each run of bytes whose traced class a hint replaces (`OverrideRun`).
-/

namespace RomAtlas

/-- Sets the classes of offsets; offsets outside the array do not count. -/
def paint (cls : ByteClass) (classes : Array ByteClass) (offsets : List Nat) : Array ByteClass :=
  offsets.foldl (fun cs o => cs.setIfInBounds o cls) classes

/-- Sets the classes of a number of offsets from one on. -/
def paintRun (cls : ByteClass) : Nat → Nat → Array ByteClass → Array ByteClass
  | 0, _, classes => classes
  | count + 1, start, classes => paintRun cls count (start + 1) (classes.setIfInBounds start cls)

/-- Whether a range is laid down no later than another: the larger first, the earlier of one size
first. -/
def DeclaredRange.below (a b : DeclaredRange) : Bool :=
  b.range.size < a.range.size || (a.range.size = b.range.size && a.order ≤ b.order)

/-- Ranges in the order in which they are laid down, so that a later one wins. -/
def layers (ranges : List DeclaredRange) : List DeclaredRange :=
  ranges.mergeSort DeclaredRange.below

/-- Lays ranges over classes. -/
def overlay (classes : Array ByteClass) (layers : List DeclaredRange) : Array ByteClass :=
  layers.foldl (fun cs s => paintRun s.cls s.range.size.toNat s.range.start.toNat cs) classes

/-- The text of a range in conflicts. -/
def DeclaredRange.summary (m : AddressMap) (s : DeclaredRange) : Except Fault String := do
  let last ← m.addressOf (s.range.stop - 1)
  let name := (s.label.symbol?.map fun name => " '" ++ name ++ "'").getD ""
  return s.source.name ++ name ++ " " ++ s.cls.name ++ " " ++ Hex.address s.address ++ "-" ++
    Hex.address last

/-- Two ranges of different classes that share offsets; `high` wins. -/
structure HintOverlap where
  low : DeclaredRange
  high : DeclaredRange

namespace HintOverlap

/-- The overlaps among ranges in the order in which they are laid down. -/
def find : List DeclaredRange → List HintOverlap
  | [] => []
  | low :: rest =>
    (rest.filter fun high => low.cls ≠ high.cls && low.range.overlaps high.range).map
      (HintOverlap.mk low) ++ find rest

/-- The first offset that both ranges have. -/
def start (o : HintOverlap) : Int := max o.low.range.start o.high.range.start

/-- The conflict that notes an overlap. -/
def conflict (m : AddressMap) (o : HintOverlap) : Except Fault Conflict := do
  let address ← m.addressOf o.start
  let high ← o.high.summary m
  let low ← o.low.summary m
  return ⟨some address, .hintOverlap,
    o.high.source.name ++ " (" ++ o.high.cls.name ++ ") overrides " ++ o.low.source.name ++ " (" ++
      o.low.cls.name ++ ") where they overlap",
    [high, low]⟩

end HintOverlap

/-- Joins ranges in ascending order that overlap or touch; `merged` holds the joined ones, the last
first. -/
def mergeInto (merged : List Extent) (r : Extent) : List Extent :=
  match merged with
  | [] => [r]
  | last :: rest =>
    if r.start ≤ last.stop then ⟨last.start, max last.stop r.stop⟩ :: rest else r :: last :: rest

/-- The offsets of some ranges as ranges that neither overlap nor touch, in ascending order. -/
def mergeRanges (ranges : List Extent) : List Extent :=
  ((ranges.mergeSort fun a b => (compare a b).isLE).foldl mergeInto []).reverse

/-- A run of bytes that were traced as one class and are declared as another. -/
structure OverrideRun where
  start : Nat
  stop : Nat
  before : ByteClass
  after : ByteClass
deriving DecidableEq, Repr

namespace OverrideRun

/-- The runs found so far, and the one that may go on. -/
structure Scan where
  finished : Array OverrideRun
  current : Option OverrideRun

/-- Ends the current run. -/
def Scan.close (s : Scan) : Array OverrideRun :=
  match s.current with
  | none => s.finished
  | some run => s.finished.push run

/-- Adds the byte at an offset. -/
def Scan.push (s : Scan) (offset : Nat) (before after : ByteClass) : Scan :=
  if before = .unknown ∨ before = after then ⟨s.close, none⟩
  else
    match s.current with
    | some run =>
      if run.before = before ∧ run.after = after then
        ⟨s.finished, some { run with stop := offset + 1 }⟩
      else ⟨s.close, some ⟨offset, offset + 1, before, after⟩⟩
    | none => ⟨s.finished, some ⟨offset, offset + 1, before, after⟩⟩

/-- Adds a number of bytes from an offset on. -/
def scan (traced final : Array ByteClass) : Nat → Nat → Scan → Scan
  | 0, _, s => s
  | count + 1, offset, s =>
    scan traced final count (offset + 1)
      (s.push offset (traced.getD offset .unknown) (final.getD offset .unknown))

/-- The overridden runs inside ranges that do not touch. -/
def find (traced final : Array ByteClass) (ranges : List Extent) : List OverrideRun :=
  ranges.flatMap fun r =>
    (scan traced final r.size.toNat r.start.toNat ⟨#[], none⟩).close.toList

/-- The range that wins at an offset. -/
def topLayer (layers : List DeclaredRange) (offset : Nat) : Except Fault DeclaredRange :=
  match layers.reverse.find? (·.range.contains offset) with
  | some s => .ok s
  | none => .error (.notCovered offset)

/-- The conflict that notes a run. -/
def conflict (m : AddressMap) (layers : List DeclaredRange) (r : OverrideRun) :
    Except Fault Conflict := do
  let spec ← topLayer layers r.start
  let address ← m.addressOf r.start
  let described ← spec.summary m
  return ⟨some address, .hintOverride,
    spec.source.name ++ " declares " ++ toString (r.stop - r.start) ++ " byte(s) as " ++
      r.after.name ++ ", traced as " ++ r.before.name,
    [described, "traced " ++ r.before.name]⟩

end OverrideRun

end RomAtlas
