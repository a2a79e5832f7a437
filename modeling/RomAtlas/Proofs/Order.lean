import Mathlib.Data.List.Nodup
import RomAtlas.Trace.Run

/-!
# Results in one order

The order of a result does not depend on the order in which its parts were found.

* `sortUnique_congr`: lists with the same members have the same sorted set.
* `sortByNode_congr`: entries with different nodes are sorted to the same list, however they stood.
-/

namespace RomAtlas

variable {α : Type}

/-- A strictly ascending list has no repeats. -/
theorem nodup_of_ascending [Ord α] [Std.TransOrd α] {l : List α}
    (h : l.Pairwise fun a b => compare a b = .lt) : l.Nodup := by
  apply h.imp
  intro a b hab he
  subst he
  rw [Std.ReflOrd.compare_self] at hab
  cases hab

/-- Strictly ascending lists with the same members are equal. -/
theorem eq_of_ascending [Ord α] [Std.TransOrd α] {l k : List α}
    (hl : l.Pairwise fun a b => compare a b = .lt) (hk : k.Pairwise fun a b => compare a b = .lt)
    (h : ∀ x, x ∈ l ↔ x ∈ k) : l = k := by
  refine List.Perm.eq_of_pairwise ?_ hl hk ?_
  · intro a b _ _ hab hba
    rw [Std.OrientedOrd.eq_swap, hba] at hab
    cases hab
  · rwa [List.perm_ext_iff_of_nodup (nodup_of_ascending hl) (nodup_of_ascending hk)]

section

variable [Ord α] [Std.TransOrd α] [Std.LawfulEqOrd α] [BEq α] [LawfulBEq α] {l k : List α}

/-- **A sorted set is determined by its members.** -/
theorem sortUnique_congr (h : ∀ x, x ∈ l ↔ x ∈ k) : sortUnique l = sortUnique k := by
  refine eq_of_ascending (pairwise_sortUnique l) (pairwise_sortUnique k) fun x => ?_
  rw [mem_sortUnique, mem_sortUnique, h]

/-- Members are picked before or after sorting. -/
theorem filter_sortUnique (p : α → Bool) (l : List α) :
    (sortUnique l).filter p = sortUnique (l.filter p) := by
  refine eq_of_ascending ((pairwise_sortUnique l).filter p) (pairwise_sortUnique _) fun x => ?_
  rw [List.mem_filter, mem_sortUnique, mem_sortUnique, List.mem_filter]

end

theorem sortByNode_perm (l : List (Node × α)) : (sortByNode l).Perm l :=
  List.mergeSort_perm l _

@[simp]
theorem mem_sortByNode {l : List (Node × α)} {e : Node × α} : e ∈ sortByNode l ↔ e ∈ l :=
  (sortByNode_perm l).mem_iff

theorem pairwise_sortByNode (l : List (Node × α)) :
    (sortByNode l).Pairwise fun a b => (compare a.1 b.1).isLE := by
  apply List.pairwise_mergeSort
  · intro a b c hab hbc
    exact Std.TransOrd.isLE_trans hab hbc
  · intro a b
    rw [Std.OrientedOrd.eq_swap (a := b.1)]
    cases compare a.1 b.1 <;> rfl

/-- The first of some members is related to the others of them as the list is. -/
theorem eq_or_rel_of_find? {R : α → α → Prop} {l : List α} {p : α → Bool} {a b : α}
    (hl : l.Pairwise R) (h : l.find? p = some a) (hb : b ∈ l) (hp : p b = true) :
    b = a ∨ R a b := by
  obtain ⟨-, before, after, rfl, hbefore⟩ := List.find?_eq_some_iff_append.1 h
  rcases List.mem_append.1 hb with hb | hb
  · have hout := hbefore b hb
    rw [hp] at hout
    cases hout
  · rcases List.mem_cons.1 hb with rfl | hb
    · exact .inl rfl
    · exact .inr ((List.pairwise_cons.1 (List.pairwise_append.1 hl).2.1).1 b hb)

/-- The first of some sorted entries has the least node among them. -/
theorem isLE_of_find?_sortByNode {l : List (Node × α)} {p : Node × α → Bool} {e f : Node × α}
    (h : (sortByNode l).find? p = some e) (hf : f ∈ l) (hp : p f = true) :
    (compare e.1 f.1).isLE := by
  rcases eq_or_rel_of_find? (pairwise_sortByNode l) h (mem_sortByNode.2 hf) hp with rfl | hle
  · rw [Std.ReflOrd.compare_self]
    rfl
  · exact hle

/-- Entries are sorted to one list, however they stood before, if no node has two of them. -/
theorem sortByNode_congr_of_eq {l k : List (Node × α)} (h : l.Perm k)
    (hl : ∀ a ∈ l, ∀ b ∈ l, a.1 = b.1 → a = b) : sortByNode l = sortByNode k := by
  refine List.Perm.eq_of_pairwise ?_ (pairwise_sortByNode l) (pairwise_sortByNode k)
    ((sortByNode_perm l).trans (h.trans (sortByNode_perm k).symm))
  intro a b ha hb hab hba
  have hnode : a.1 = b.1 := by
    rw [Std.OrientedOrd.eq_swap] at hba
    apply Std.LawfulEqOrd.eq_of_compare
    cases hc : compare a.1 b.1 <;> simp_all
  have ha' : a ∈ l := mem_sortByNode.1 ha
  have hb' : b ∈ l := h.mem_iff.2 (mem_sortByNode.1 hb)
  exact hl a ha' b hb' hnode

/-- **Entries with different nodes are sorted to one list**, however they stood before. -/
theorem sortByNode_congr {l k : List (Node × α)} (h : l.Perm k) (hl : (l.map Prod.fst).Nodup) :
    sortByNode l = sortByNode k :=
  sortByNode_congr_of_eq h fun _ ha _ hb => List.inj_on_of_nodup_map hl ha hb

end RomAtlas
