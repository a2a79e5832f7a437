import Mathlib.Data.Finset.Card
import RomAtlas.Proofs.Order

/-!
# Reports are sets in one order

Conflicts are added to a report one by one or many at once, by workers in any order, and some of them
several times. What is read from it is a list of the different ones, sorted by place, kind, reason
and candidates. These four tell all conflicts apart but one pair: a conflict of the whole run counts
as one at the address `-1`, so it has a twin there.

* `Conflict.compareKeys_eq_iff`: what the four do not tell apart.
* `Report.mem_added_after`: what calls leave in a report.
* `Report.Untwinned.eq_toList`: without twins, there is one way to sort a report.
* `Report.inOrder`: **a report is a set in one order**, and all that is read from it is read off its
  list.
-/

namespace RomAtlas

/-! ## Sort keys -/

namespace Conflict

variable {a b : Conflict}

/-- The order of conflicts by place, kind, reason and candidates. -/
def compareKeys (a b : Conflict) : Ordering :=
  compareLex (compareOn place) (compareLex (compareOn kindName) (compareLex (compareOn reason)
    (compareOn candidates))) a b

/-- A conflict of the whole run, and the same at the address that counts as its place. -/
def IsTwin (a b : Conflict) : Prop := a.address = none ∧ b = { a with address := some (-1) }

instance : Decidable (a.IsTwin b) := inferInstanceAs (Decidable (_ ∧ _))

/-- Addresses only decide between conflicts with one key. -/
theorem compare_eq_then (a b : Conflict) :
    compare a b = (a.compareKeys b).then (compare a.address b.address) := by
  show compareLex (compareOn place) (compareLex (compareOn kindName) (compareLex (compareOn reason)
    (compareLex (compareOn candidates) (compareOn address)))) a b = _
  simp only [compareKeys, compareLex, compareOn, Ordering.then_assoc]

theorem compare_of_compareKeys (h : a.compareKeys b = .lt) : compare a b = .lt := by
  rw [compare_eq_then, h]
  rfl

/-- Addresses with one place are equal, or one is missing and the other is that place. -/
theorem address_of_place (h : a.place = b.place) : a.address = b.address ∨
    a.address = none ∧ b.address = some (-1) ∨ b.address = none ∧ a.address = some (-1) := by
  unfold place at h
  cases ha : a.address <;> cases hb : b.address <;> simp_all

/-- **Twins alone have one key.** -/
theorem compareKeys_eq_iff :
    a.compareKeys b = .eq ↔ a = b ∨ a.IsTwin b ∨ b.IsTwin a := by
  have hkeys : a.compareKeys b = .eq ↔ a.place = b.place ∧ a.kind = b.kind ∧
      a.reason = b.reason ∧ a.candidates = b.candidates := by
    simp only [compareKeys, compareLex, compareOn, Ordering.then_eq_eq,
      Std.LawfulEqOrd.compare_eq_iff_eq, kindName]
    exact ⟨fun h => ⟨h.1, ConflictKind.name_inj h.2.1, h.2.2⟩, fun h => ⟨h.1, by rw [h.2.1], h.2.2⟩⟩
  rw [hkeys]
  constructor
  · rintro ⟨hplace, hkind, hreason, hcandidates⟩
    have haddress := address_of_place hplace
    obtain ⟨address, kind, reason, candidates⟩ := a
    obtain ⟨address', kind', reason', candidates'⟩ := b
    dsimp only at hkind hreason hcandidates haddress
    subst hkind hreason hcandidates
    rcases haddress with rfl | ⟨rfl, rfl⟩ | ⟨rfl, rfl⟩
    · exact .inl rfl
    · exact .inr (.inl ⟨rfl, rfl⟩)
    · exact .inr (.inr ⟨rfl, rfl⟩)
  · rintro (rfl | ⟨h, rfl⟩ | ⟨h, rfl⟩)
    · exact ⟨rfl, rfl, rfl, rfl⟩
    · exact ⟨by simp [place, h], rfl, rfl, rfl⟩
    · exact ⟨by simp [place, h], rfl, rfl, rfl⟩

end Conflict

/-! ## Calls -/

namespace Report

variable {r : Report}

/-- A call that adds to a report. -/
inductive Call where
  | add (k : Conflict)
  | addAll (ks : List Conflict)

/-- The conflicts that a call adds. -/
def Call.conflicts : Call → List Conflict
  | add k => [k]
  | addAll ks => ks

/-- Makes a call. -/
def perform (r : Report) : Call → Report
  | .add k => r.add k
  | .addAll ks => r.addAll ks

/-- A report after some calls. -/
def after (r : Report) (calls : List Call) : Report := calls.foldl perform r

theorem added_addAll (r : Report) (ks : List Conflict) : (r.addAll ks).added = r.added ++ ks := rfl

theorem added_perform (r : Report) (call : Call) :
    (r.perform call).added = r.added ++ call.conflicts := by
  cases call <;> rfl

theorem added_after (r : Report) (calls : List Call) :
    (r.after calls).added = r.added ++ calls.flatMap Call.conflicts := by
  unfold after
  induction calls generalizing r with
  | nil => simp
  | cons call calls ih =>
    rw [List.foldl_cons, ih, added_perform, List.flatMap_cons, List.append_assoc]

/-- A report holds what it held before and what calls have added. -/
theorem mem_added_after {calls : List Call} {k : Conflict} :
    k ∈ (r.after calls).added ↔ k ∈ r.added ∨ ∃ call ∈ calls, k ∈ call.conflicts := by
  rw [added_after, List.mem_append, List.mem_flatMap]

/-! ## One order -/

theorem mem_toList {k : Conflict} : k ∈ r.toList ↔ k ∈ r.added := mem_sortUnique

theorem toList_ascending (r : Report) : r.toList.Pairwise fun a b => compare a b = .lt :=
  pairwise_sortUnique r.added

/-- No two conflicts of a report are twins. -/
def Untwinned (r : Report) : Prop := ∀ a ∈ r.added, ∀ b ∈ r.added, ¬ a.IsTwin b

instance : Decidable r.Untwinned := inferInstanceAs (Decidable (∀ a ∈ r.added, _))

/-- Without twins, the keys tell the conflicts of a report apart. -/
theorem Untwinned.eq_of_compareKeys (h : r.Untwinned) {a b : Conflict} (ha : a ∈ r.added)
    (hb : b ∈ r.added) (hkeys : a.compareKeys b = .eq) : a = b := by
  rcases Conflict.compareKeys_eq_iff.1 hkeys with hsame | htwin | htwin
  · exact hsame
  · exact absurd htwin (h a ha b hb)
  · exact absurd htwin (h b hb a ha)

/-- Without twins, a report is strictly ascending by the keys. -/
theorem Untwinned.toList_ascending (h : r.Untwinned) :
    r.toList.Pairwise fun a b => a.compareKeys b = .lt := by
  refine (Report.toList_ascending r).imp_of_mem fun {a b} ha hb hab => ?_
  rw [Conflict.compare_eq_then] at hab
  cases hkeys : a.compareKeys b with
  | lt => rfl
  | gt =>
    rw [hkeys] at hab
    cases hab
  | eq =>
    obtain rfl := h.eq_of_compareKeys (mem_toList.1 ha) (mem_toList.1 hb) hkeys
    rw [hkeys, Std.ReflOrd.compare_self] at hab
    cases hab

/-- **Without twins, there is one way to sort a report.** Whoever lists its conflicts once and sorts
them by the keys has its list. -/
theorem Untwinned.eq_toList (h : r.Untwinned) {l : List Conflict} (hmem : ∀ k, k ∈ l ↔ k ∈ r.added)
    (hnodup : l.Nodup) (hsorted : l.Pairwise fun a b => (a.compareKeys b).isLE) :
    l = r.toList := by
  have hascending : l.Pairwise fun a b => compare a b = .lt := by
    refine (hnodup.and hsorted).imp_of_mem fun {a b} ha hb ⟨hne, hle⟩ => ?_
    apply Conflict.compare_of_compareKeys
    cases hkeys : a.compareKeys b with
    | lt => rfl
    | gt =>
      rw [hkeys] at hle
      cases hle
    | eq => exact absurd (h.eq_of_compareKeys ((hmem a).1 ha) ((hmem b).1 hb) hkeys) hne
  refine eq_of_ascending hascending (Report.toList_ascending r) fun k => ?_
  rw [hmem, mem_toList]

/-! ## What is read from a report -/

/-- The conflicts that a loop over a report meets. -/
def collect (r : Report) : List Conflict := Id.run do
  let mut met := #[]
  for k in r do
    met := met.push k
  return met.toList

theorem collect_eq (r : Report) : r.collect = r.toList := by
  have hloop : r.collect = (r.toList.foldl (fun met k => met.push k) #[]).toList := by
    unfold collect
    show (Id.run (forIn r.toList #[] fun k met => pure (.yield (met.push k)))).toList = _
    rw [List.forIn_pure_yield_eq_foldl]
    rfl
  rw [hloop, List.foldl_push_eq_append', Array.toList_append, List.nil_append]

theorem length_eq_card (r : Report) : r.length = r.added.toFinset.card := by
  have hset : r.added.toFinset = r.toList.toFinset := by
    ext k
    rw [List.mem_toFinset, List.mem_toFinset, mem_toList]
  rw [hset, List.toFinset_card_of_nodup (nodup_of_ascending r.toList_ascending)]
  rfl

/-- A report as a set in one order. Its list has the conflicts that were added, each once. If no two
of them are twins, they ascend strictly by their keys, and there is no other way to sort them. The
number of conflicts, the loop over them, and those of one kind or at one address are read off this
list, as if only these had been added. -/
structure InOrder (r : Report) : Prop where
  mem : ∀ k, k ∈ r.toList ↔ k ∈ r.added
  nodup : r.toList.Nodup
  ascending : r.Untwinned → r.toList.Pairwise fun a b => a.compareKeys b = .lt
  unique : r.Untwinned → ∀ l : List Conflict, (∀ k, k ∈ l ↔ k ∈ r.added) → l.Nodup →
    (l.Pairwise fun a b => (a.compareKeys b).isLE) → l = r.toList
  length : r.length = r.toList.length ∧ r.length = r.added.toFinset.card
  collect : r.collect = r.toList
  ofKind : ∀ kind, r.ofKind kind = r.toList.filter (·.kind = kind) ∧
    r.ofKind kind = toList ⟨r.added.filter (·.kind = kind)⟩
  atAddress : ∀ address, r.atAddress address = r.toList.filter (·.address = address) ∧
    r.atAddress address = toList ⟨r.added.filter (·.address = address)⟩

/-- **A report is a set in one order.** -/
theorem inOrder (r : Report) : r.InOrder where
  mem := fun _ => mem_toList
  nodup := nodup_of_ascending r.toList_ascending
  ascending := Untwinned.toList_ascending
  unique := fun h _ => h.eq_toList
  length := ⟨rfl, r.length_eq_card⟩
  collect := r.collect_eq
  ofKind := fun _ => ⟨rfl, filter_sortUnique _ _⟩
  atAddress := fun _ => ⟨rfl, filter_sortUnique _ _⟩

end Report

end RomAtlas
