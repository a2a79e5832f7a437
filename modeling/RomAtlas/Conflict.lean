import RomAtlas.Sorted
import RomAtlas.Text.Hex

/-!
# Conflicts and reports

Nothing is settled silently. What is in doubt is noted as a conflict: an address, a kind, a reason
and the ways in which it might be settled. A report is the set of the conflicts that were added to
it, shown in the order of address, kind, reason and candidates.
-/

namespace RomAtlas

/-- The kinds of conflicts. -/
inductive ConflictKind where
  /-- An address was decoded with several lengths. -/
  | ambiguousWidth
  /-- An address was reached under several widths, with one length. -/
  | widthDivergence
  /-- A mode switch under an unknown carry. -/
  | uncertainWidth
  /-- An instruction starts inside another one. -/
  | overlappingInstruction
  | decodeFailure
  | indirectUnresolved
  | unmappedTarget
  /-- A hint contradicts the trace. -/
  | hintOverride
  /-- A hint contradicts another one. -/
  | hintOverlap
  | invalidHint
  | budgetExhausted
deriving DecidableEq, Repr

namespace ConflictKind

/-- All kinds. -/
def all : List ConflictKind :=
  [ambiguousWidth, widthDivergence, uncertainWidth, overlappingInstruction, decodeFailure,
    indirectUnresolved, unmappedTarget, hintOverride, hintOverlap, invalidHint, budgetExhausted]

/-- The word that stands for a kind. -/
def name : ConflictKind → String
  | ambiguousWidth => "AMBIGUOUS_WIDTH"
  | widthDivergence => "WIDTH_DIVERGENCE"
  | uncertainWidth => "UNCERTAIN_WIDTH"
  | overlappingInstruction => "OVERLAPPING_INSTRUCTION"
  | decodeFailure => "DECODE_FAILURE"
  | indirectUnresolved => "INDIRECT_UNRESOLVED"
  | unmappedTarget => "UNMAPPED_TARGET"
  | hintOverride => "HINT_OVERRIDE"
  | hintOverlap => "HINT_OVERLAP"
  | invalidHint => "INVALID_HINT"
  | budgetExhausted => "BUDGET_EXHAUSTED"

/-- The kind that a word stands for. -/
def ofName? (word : String) : Option ConflictKind := all.find? fun k => k.name = word

theorem ofName?_name (k : ConflictKind) : ofName? k.name = some k := by
  cases k <;> decide

theorem name_inj {k l : ConflictKind} (h : k.name = l.name) : k = l :=
  Option.some.inj (by rw [← ofName?_name k, h, ofName?_name l])

end ConflictKind

/-- One conflict. Without an address it concerns the whole run. -/
structure Conflict where
  address : Option Int
  kind : ConflictKind
  reason : String
  candidates : List String
deriving DecidableEq, Repr

namespace Conflict

/-- The address by which a conflict is placed; those of the whole run come first. -/
def place (c : Conflict) : Int := c.address.getD (-1)

/-- The word that stands for the kind. -/
def kindName (c : Conflict) : String := c.kind.name

/-- By place, kind, reason and candidates. A missing address goes before the address that has the
same place. -/
instance : Ord Conflict :=
  ⟨compareLex (compareOn place) (compareLex (compareOn kindName) (compareLex (compareOn reason)
    (compareLex (compareOn candidates) (compareOn address))))⟩

instance : Std.TransOrd Conflict :=
  inferInstanceAs (Std.TransCmp (compareLex (compareOn place) (compareLex (compareOn kindName)
    (compareLex (compareOn reason) (compareLex (compareOn candidates) (compareOn address))))))

instance : Std.LawfulEqOrd Conflict where
  eq_of_compare {a b} h := by
    have h : compareLex (compareOn place) (compareLex (compareOn kindName)
      (compareLex (compareOn reason) (compareLex (compareOn candidates) (compareOn address)))) a b =
        .eq := h
    simp only [compareLex, compareOn, Ordering.then_eq_eq, Std.LawfulEqOrd.compare_eq_iff_eq,
      kindName] at h
    have hk := ConflictKind.name_inj h.2.1
    cases a
    cases b
    simp_all

/-- One line of a report. -/
def text (c : Conflict) : String :=
  let head := (c.address.map Hex.address).getD "$------" ++ " " ++ c.kind.name ++ ": " ++ c.reason
  if c.candidates.isEmpty then head else head ++ " [" ++ " | ".intercalate c.candidates ++ "]"

end Conflict

/-- The conflicts that were noted, as they came. -/
structure Report where
  added : List Conflict

namespace Report

/-- Adds conflicts to a report. -/
def addAll (r : Report) (conflicts : List Conflict) : Report := ⟨r.added ++ conflicts⟩

/-- Adds one conflict to a report. -/
def add (r : Report) (conflict : Conflict) : Report := r.addAll [conflict]

/-- The conflicts of a report in order, each once. -/
def toList (r : Report) : List Conflict := sortUnique r.added

/-- The number of different conflicts. -/
def length (r : Report) : Nat := r.toList.length

/-- Whether anything was added. -/
def isEmpty (r : Report) : Bool := r.added.isEmpty

/-- The conflicts of one kind. -/
def ofKind (r : Report) (kind : ConflictKind) : List Conflict := r.toList.filter (·.kind = kind)

/-- The conflicts at one address, or those of the whole run. -/
def atAddress (r : Report) (address : Option Int) : List Conflict :=
  r.toList.filter (·.address = address)

/-- A loop over a report meets its conflicts in order. -/
instance {m : Type → Type} [Monad m] : ForIn m Report Conflict := ⟨fun r => forIn r.toList⟩

/-- Reports are equal if they hold the same conflicts. -/
instance : BEq Report := ⟨fun r s => r.toList = s.toList⟩

end Report

end RomAtlas
