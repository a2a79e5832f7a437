/-!
# First-in-first-out queues

A queue as two lists, the waiting members in order and the latest arrivals in reverse. `toList`
shows the members in the order in which they leave.
-/

namespace RomAtlas

/-- A queue. -/
structure Fifo (α : Type) where
  front : List α
  back : List α

namespace Fifo

variable {α : Type}

/-- The empty queue. -/
def empty : Fifo α := ⟨[], []⟩

/-- The members in the order in which they leave. -/
def toList (q : Fifo α) : List α := q.front ++ q.back.reverse

/-- Adds a member at the end. -/
def push (q : Fifo α) (a : α) : Fifo α := ⟨q.front, a :: q.back⟩

/-- The first member and the rest of the queue. -/
def pop? (q : Fifo α) : Option (α × Fifo α) :=
  match q.front with
  | a :: front => some (a, ⟨front, q.back⟩)
  | [] =>
    match q.back.reverse with
    | a :: front => some (a, ⟨front, []⟩)
    | [] => none

@[simp]
theorem toList_empty : (empty : Fifo α).toList = [] := rfl

@[simp]
theorem toList_push (q : Fifo α) (a : α) : (q.push a).toList = q.toList ++ [a] := by
  simp [toList, push]

theorem pop?_eq_none_iff (q : Fifo α) : q.pop? = none ↔ q.toList = [] := by
  obtain ⟨front, back⟩ := q
  cases front with
  | cons a front => simp [pop?, toList]
  | nil => cases h : back.reverse <;> simp [pop?, toList, h]

theorem toList_of_pop? {q r : Fifo α} {a : α} (h : q.pop? = some (a, r)) :
    q.toList = a :: r.toList := by
  obtain ⟨front, back⟩ := q
  cases front with
  | cons b front =>
    obtain ⟨rfl, rfl⟩ : b = a ∧ (⟨front, back⟩ : Fifo α) = r := by simpa [pop?] using h
    simp [toList]
  | nil =>
    cases hb : back.reverse with
    | nil => simp [pop?, hb] at h
    | cons b front =>
      obtain ⟨rfl, rfl⟩ : b = a ∧ (⟨front, []⟩ : Fifo α) = r := by simpa [pop?, hb] using h
      simp [toList, hb]

end Fifo

end RomAtlas
