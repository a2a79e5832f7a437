import RomAtlas.Cpu.Decode

/-!
# Trace nodes and cross references

A trace visits nodes: an address under a width state. The same address under two states is two
nodes. A cross reference is a transfer of control from an address to another, or to an unknown
place.
-/

namespace RomAtlas

/-- An address under a width state. -/
structure Node where
  address : Int
  state : WidthState
deriving DecidableEq, Hashable, Repr

namespace Node

instance : Ord Node := ⟨compareLex (compareOn address) (compareOn state)⟩

instance : Std.TransOrd Node :=
  inferInstanceAs (Std.TransCmp (compareLex (compareOn address) (compareOn state)))

instance : Std.LawfulEqOrd Node where
  eq_of_compare {a b} h := by
    have h : compareLex (compareOn address) (compareOn state) a b = .eq := h
    simp only [compareLex, compareOn, Ordering.then_eq_eq, Std.LawfulEqOrd.compare_eq_iff_eq] at h
    cases a
    cases b
    simp_all

/-- The instruction at a node. -/
def decode (c : Cartridge) (n : Node) : Except DecodeFault Instruction :=
  RomAtlas.decode c n.address n.state

end Node

/-- The kinds of cross references. -/
inductive XrefKind where
  | call
  | branch
  | jump
  | interruptVector
  | jumpTable
  | indirectUnresolved
deriving DecidableEq, Repr

namespace XrefKind

/-- All kinds. -/
def all : List XrefKind := [call, branch, jump, interruptVector, jumpTable, indirectUnresolved]

/-- The word that stands for a kind. -/
def name : XrefKind → String
  | call => "CALL"
  | branch => "BRANCH"
  | jump => "JUMP"
  | interruptVector => "INTERRUPT_VECTOR"
  | jumpTable => "JUMP_TABLE"
  | indirectUnresolved => "INDIRECT_UNRESOLVED"

/-- The kind that a word stands for. -/
def ofName? (word : String) : Option XrefKind := all.find? fun k => k.name = word

theorem ofName?_name (k : XrefKind) : ofName? k.name = some k := by
  cases k <;> decide

theorem name_inj {k l : XrefKind} (h : k.name = l.name) : k = l :=
  Option.some.inj (by rw [← ofName?_name k, h, ofName?_name l])

end XrefKind

/-- A transfer of control; without a target it goes to an unknown place. -/
structure Xref where
  source : Int
  target : Option Int
  kind : XrefKind
deriving DecidableEq, Repr

namespace Xref

/-- The target by which a cross reference is placed. -/
def place (x : Xref) : Int := x.target.getD (-1)

/-- The word that stands for the kind. -/
def kindName (x : Xref) : String := x.kind.name

/-- By source, target and kind. A missing target counts as `-1` and goes before that target. -/
instance : Ord Xref :=
  ⟨compareLex (compareOn source) (compareLex (compareOn place)
    (compareLex (compareOn kindName) (compareOn target)))⟩

instance : Std.TransOrd Xref :=
  inferInstanceAs (Std.TransCmp (compareLex (compareOn source) (compareLex (compareOn place)
    (compareLex (compareOn kindName) (compareOn target)))))

instance : Std.LawfulEqOrd Xref where
  eq_of_compare {a b} h := by
    have h : compareLex (compareOn source) (compareLex (compareOn place)
      (compareLex (compareOn kindName) (compareOn target))) a b = .eq := h
    simp only [compareLex, compareOn, Ordering.then_eq_eq, Std.LawfulEqOrd.compare_eq_iff_eq,
      kindName] at h
    have hk := XrefKind.name_inj h.2.2.1
    cases a
    cases b
    simp_all

end Xref

end RomAtlas
