/-!
# Width states

The length of an instruction depends on whether the accumulator and the index registers are 16 bits
wide. A width state holds these two widths, the widths that were saved on the stack, and the carry
flag where its value is known, since the carry decides what a mode switch does to the widths.

* `WidthState.push` and `WidthState.pop` move the status register to the stack and back.
* Width states are ordered by widths, saved widths from the oldest on, and carry.
-/

namespace RomAtlas

/-- Whether the accumulator and the index registers are 16 bits wide. -/
structure Widths where
  m16 : Bool
  x16 : Bool
deriving DecidableEq, Hashable, Repr

namespace Widths

/-- Both 8 bits wide, as after a reset. -/
def narrow : Widths := ⟨false, false⟩

/-- Bytes of an accumulator operand. -/
def accumulatorBytes (w : Widths) : Nat := if w.m16 then 2 else 1

/-- Bytes of an index operand. -/
def indexBytes (w : Widths) : Nat := if w.x16 then 2 else 1

/-- The short text of two widths, such as `m8x16`. -/
def name (w : Widths) : String :=
  "m" ++ (if w.m16 then "16" else "8") ++ "x" ++ (if w.x16 then "16" else "8")

instance : Ord Widths := ⟨compareLex (compareOn m16) (compareOn x16)⟩

instance : Std.TransOrd Widths :=
  inferInstanceAs (Std.TransCmp (compareLex (compareOn m16) (compareOn x16)))

instance : Std.LawfulEqOrd Widths where
  eq_of_compare {a b} h := by
    have h : compareLex (compareOn m16) (compareOn x16) a b = .eq := h
    simp only [compareLex, compareOn, Ordering.then_eq_eq, Std.LawfulEqOrd.compare_eq_iff_eq] at h
    cases a
    cases b
    simp_all

end Widths

/-- What is known of the processor's status on one path. -/
structure WidthState where
  widths : Widths
  /-- Widths saved on the stack, the latest first. -/
  saved : List Widths
  /-- The carry flag, if known. -/
  carry : Option Bool
deriving DecidableEq, Hashable, Repr

namespace WidthState

/-- The state after a reset. -/
def reset : WidthState := ⟨Widths.narrow, [], none⟩

/-- How many saved widths are remembered. -/
def maxSaved : Nat := 8

/-- The short text of the widths. -/
def name (s : WidthState) : String := s.widths.name

/-- The state with other widths. -/
def withWidths (s : WidthState) (w : Widths) : WidthState := { s with widths := w }

/-- The state with another knowledge of the carry. -/
def withCarry (s : WidthState) (carry : Option Bool) : WidthState := { s with carry }

/-- Saves the widths; the oldest saved widths are forgotten beyond `maxSaved`. -/
def push (s : WidthState) : WidthState := { s with saved := (s.widths :: s.saved).take maxSaved }

/-- Restores the widths saved last. With nothing saved the widths stay. The restored carry is
unknown in either case. -/
def pop (s : WidthState) : WidthState :=
  match s.saved with
  | [] => s.withCarry none
  | w :: rest => ⟨w, rest, none⟩

/-- The saved widths, the oldest first. -/
def savedUpward (s : WidthState) : List Widths := s.saved.reverse

instance : Ord WidthState :=
  ⟨compareLex (compareOn widths) (compareLex (compareOn savedUpward) (compareOn carry))⟩

instance : Std.TransOrd WidthState :=
  inferInstanceAs (Std.TransCmp
    (compareLex (compareOn widths) (compareLex (compareOn savedUpward) (compareOn carry))))

instance : Std.LawfulEqOrd WidthState where
  eq_of_compare {a b} h := by
    have h : compareLex (compareOn widths)
      (compareLex (compareOn savedUpward) (compareOn carry)) a b = .eq := h
    simp only [compareLex, compareOn, Ordering.then_eq_eq, Std.LawfulEqOrd.compare_eq_iff_eq,
      savedUpward, List.reverse_inj] at h
    cases a
    cases b
    simp_all

end WidthState

end RomAtlas
