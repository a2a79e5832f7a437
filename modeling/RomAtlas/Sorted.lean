/-!
# Sorted sets as lists

Results are sets that are shown in one order. `sortUnique` is the list of the distinct members of a
list in ascending order.

* `mem_sortUnique`: it has the same members.
* `pairwise_sortUnique`: it is strictly ascending.
-/

namespace RomAtlas

variable {α : Type}

/-- Drops members that equal the member after them. -/
def dropRepeats [BEq α] (l : List α) : List α :=
  l.foldr (fun a kept => if kept.head? == some a then kept else a :: kept) []

/-- The members of a list in ascending order, each once. -/
def sortUnique [Ord α] [BEq α] (l : List α) : List α :=
  dropRepeats (l.mergeSort fun a b => (compare a b).isLE)

theorem dropRepeats_cons [BEq α] (a : α) (l : List α) :
    dropRepeats (a :: l) =
      if (dropRepeats l).head? == some a then dropRepeats l else a :: dropRepeats l := rfl

theorem mem_dropRepeats [BEq α] [LawfulBEq α] {l : List α} {x : α} :
    x ∈ dropRepeats l ↔ x ∈ l := by
  induction l generalizing x with
  | nil => simp [dropRepeats]
  | cons a l ih =>
    rw [dropRepeats_cons]
    split
    · next h =>
      have ha : a ∈ l := ih.1 (List.mem_of_mem_head? (beq_iff_eq.1 h))
      rw [ih, List.mem_cons]
      exact ⟨Or.inr, fun hx => hx.elim (fun e => e ▸ ha) id⟩
    · rw [List.mem_cons, List.mem_cons, ih]

/-- In an ascending list, what is left after dropping repeats is strictly ascending. -/
theorem pairwise_dropRepeats [Ord α] [Std.TransOrd α] [Std.LawfulEqOrd α] [BEq α] [LawfulBEq α]
    {l : List α} (h : l.Pairwise fun a b => (compare a b).isLE) :
    (dropRepeats l).Pairwise fun a b => compare a b = .lt := by
  induction l with
  | nil => exact List.Pairwise.nil
  | cons a l ih =>
    obtain ⟨ha, hl⟩ := List.pairwise_cons.1 h
    rw [dropRepeats_cons]
    split
    · exact ih hl
    · next hne =>
      refine List.pairwise_cons.2 ⟨fun b hb => ?_, ih hl⟩
      have hle := ha b (mem_dropRepeats.1 hb)
      cases hab : compare a b with
      | lt => rfl
      | gt => simp [hab] at hle
      | eq =>
        -- then `b` equals `a`, and is not less than any member, so it is the head
        have hEq : a = b := Std.LawfulEqOrd.eq_of_compare hab
        subst hEq
        cases hd : dropRepeats l with
        | nil => simp [hd] at hb
        | cons c rest =>
          rw [hd] at hb hne
          rcases List.mem_cons.1 hb with e | hr
          · subst e; simp at hne
          · have hcb : compare c a = .lt :=
              (List.pairwise_cons.1 (hd ▸ ih hl)).1 a hr
            have hac := ha c (mem_dropRepeats.1 (hd ▸ List.mem_cons_self))
            rw [Std.OrientedOrd.eq_swap, hcb] at hac
            cases hac

theorem mem_sortUnique [Ord α] [BEq α] [LawfulBEq α] {l : List α} {x : α} :
    x ∈ sortUnique l ↔ x ∈ l := by
  simp [sortUnique, mem_dropRepeats]

/-- The members stand in strictly ascending order. -/
theorem pairwise_sortUnique [Ord α] [Std.TransOrd α] [Std.LawfulEqOrd α] [BEq α] [LawfulBEq α]
    (l : List α) : (sortUnique l).Pairwise fun a b => compare a b = .lt := by
  apply pairwise_dropRepeats
  apply List.pairwise_mergeSort
  · intro a b c hab hbc
    exact Std.TransOrd.isLE_trans hab hbc
  intro a b
  rw [Std.OrientedOrd.eq_swap (a := b)]
  cases compare a b <;> rfl

end RomAtlas
