import RomAtlas.Grouping
import RomAtlas.Trace.Run

/-!
# Instruction spans

The offsets that decoded instructions take, and the ways in which instructions contradict each
other: several widths at one start (`Clash`), one instruction that starts inside another
(`Overlap`), and addresses that could not be decoded (`Unreadable`).
-/

namespace RomAtlas

/-- An instruction and the offsets of its bytes, which may wrap around inside a bank. -/
structure Span where
  instr : Instruction
  offsets : List Nat
deriving DecidableEq, Repr

namespace Span

/-- The span of an instruction. -/
def ofInstruction (m : AddressMap) (i : Instruction) : Except Fault Span := do
  let offsets ← (List.range i.length).mapM fun k : Nat => m.offsetOf (stepInBank i.address k)
  return ⟨i, offsets⟩

/-- The offset of the opcode. -/
def start (s : Span) : Nat := s.offsets.headD 0

/-- The widths under which the instruction was decoded. -/
def widths (s : Span) : Widths := s.instr.state.widths

/-- The widths and the instruction as text. -/
def text (s : Span) : String := s.instr.state.name ++ ": " ++ s.instr.text

end Span

/-- The number of different members of a list. -/
def countDistinct {α : Type} [BEq α] (l : List α) : Nat := l.eraseDups.length

/-- Instructions that start at one offset under several widths. -/
structure Clash where
  start : Nat
  members : List Span

namespace Clash

/-- The clashes among spans, in the order of their offsets. -/
def find (spans : List Span) : List Clash :=
  let groups := groupBy Span.start spans
  (sortUnique (spans.map Span.start)).filterMap fun start =>
    let members := groups.getD start []
    if 2 ≤ countDistinct (members.map Span.widths) then some ⟨start, members⟩ else none

/-- The offsets of all its instructions. -/
def offsets (c : Clash) : List Nat := c.members.flatMap Span.offsets

/-- The conflict that notes a clash. -/
def conflict (m : AddressMap) (c : Clash) : Except Fault Conflict := do
  let address ← m.addressOf c.start
  let lengths := countDistinct (c.members.map (·.instr.length))
  if 1 < lengths then
    return ⟨some address, .ambiguousWidth,
      "decoded with " ++ toString lengths ++ " different lengths under different width states",
      sortUnique (c.members.map fun s =>
        s.text ++ " (" ++ toString s.instr.length ++ " bytes)")⟩
  else
    return ⟨some address, .widthDivergence,
      "reached under " ++ toString (countDistinct (c.members.map Span.widths)) ++
        " different width states",
      sortUnique (c.members.map Span.text)⟩

end Clash

/-- Instructions that start at an inner offset of another one. -/
structure Overlap where
  outer : Span
  inner : Nat
  members : List Span

namespace Overlap

/-- The overlaps among spans. Each pair of an outer start and an inner start is taken once. -/
def find (spans : List Span) : List Overlap :=
  let groups := groupBy Span.start spans
  let pairs := spans.flatMap fun s =>
    s.offsets.tail.filterMap fun inner => (groups[inner]?).map (Overlap.mk s inner)
  firstOfEach (fun o => (o.outer.start, o.inner)) pairs

/-- The offsets of all its instructions. -/
def offsets (o : Overlap) : List Nat := o.outer.offsets ++ o.members.flatMap Span.offsets

/-- The conflict that notes an overlap. -/
def conflict (m : AddressMap) (o : Overlap) : Except Fault Conflict := do
  let address ← m.addressOf o.inner
  let start ← m.addressOf o.outer.start
  return ⟨some address, .overlappingInstruction,
    "instruction starts inside " ++ o.outer.instr.text ++ " at " ++ Hex.address start,
    sortUnique ((o.outer.text ++ " at " ++ Hex.address start) ::
      o.members.map fun s => s.text ++ " at " ++ Hex.address address)⟩

end Overlap

/-- An address that could not be decoded, and why. -/
structure UnreadableKey where
  address : Int
  reason : DecodeReason
deriving DecidableEq, Hashable, Repr

namespace UnreadableKey

/-- The word that stands for the reason. -/
def reasonName (k : UnreadableKey) : String := k.reason.name

instance : Ord UnreadableKey := ⟨compareLex (compareOn address) (compareOn reasonName)⟩

instance : Std.TransOrd UnreadableKey :=
  inferInstanceAs (Std.TransCmp (compareLex (compareOn address) (compareOn reasonName)))

instance : Std.LawfulEqOrd UnreadableKey where
  eq_of_compare {a b} h := by
    have h : compareLex (compareOn address) (compareOn reasonName) a b = .eq := h
    simp only [compareLex, compareOn, Ordering.then_eq_eq, Std.LawfulEqOrd.compare_eq_iff_eq,
      reasonName] at h
    have hr := DecodeReason.name_inj h.2
    cases a
    cases b
    simp_all

end UnreadableKey

/-- The failures to decode at one address for one reason. -/
structure Unreadable where
  key : UnreadableKey
  members : List (Node × DecodeFault)

namespace Unreadable

/-- The failures by address and reason, in this order. -/
def find (failures : List (Node × DecodeFault)) : List Unreadable :=
  let key : Node × DecodeFault → UnreadableKey := fun (n, f) => ⟨n.address, f.reason⟩
  let groups := groupBy key failures
  (sortUnique (failures.map key)).map fun k => ⟨k, groups.getD k []⟩

/-- The conflict that notes failures. -/
def conflict (u : Unreadable) : Conflict :=
  let detail := (u.members.getLast?.map fun entry => entry.2.detail).getD ""
  ⟨some u.key.address, .decodeFailure, u.key.reason.name ++ ": " ++ detail,
    sortUnique (u.members.map fun entry => entry.1.state.name)⟩

end Unreadable

end RomAtlas
