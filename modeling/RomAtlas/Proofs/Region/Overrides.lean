import Mathlib.Data.List.Basic
import RomAtlas.Region.Overlay

/-!
# Overridden bytes

To find the bytes whose traced class a range hint replaces, the ranges are joined first, so that no
byte is looked at twice and no run of bytes is cut where two ranges meet. Each joined range is then
read byte by byte, and a run goes on as long as both classes stay the same.

* `Separated.mergeInto`, `Separated.foldl`: what joining one more range keeps, and what it keeps for
  all ranges in ascending order.
* `separated_mergeRanges`: **joined ranges do not touch and cover the same offsets.**
* `OverrideRun.Scan.Reads.push`, `OverrideRun.Scan.Reads.scan`: the same for one byte, and for the
  bytes of a range.
* `OverrideRun.marks_find`: **the runs are exactly the overridden bytes of the ranges**, as few and
  as long as they can be.
-/

namespace RomAtlas

variable {ranges merged l : List Extent} {r : Extent} {o : Nat}

theorem Extent.contains_iff {offset : Int} :
    r.contains offset = true ↔ r.start ≤ offset ∧ offset < r.stop := by
  unfold contains
  rw [Bool.and_eq_true, decide_eq_true_iff, decide_eq_true_iff]

/-! ## Joined ranges -/

/-- A range starts no later than another and ends before it, so that the two do not even touch. -/
def Extent.Ahead (a b : Extent) : Prop := a.start ≤ b.start ∧ a.stop < b.start

theorem Extent.start_le_of_isLE {a b : Extent} (h : (compare a b).isLE = true) :
    a.start ≤ b.start := by
  have hlex : ((compare a.start b.start).then (compare a.stop b.stop)).isLE = true := h
  exact Int.isLE_compare.1 (Ordering.isLE_left_of_isLE_then hlex)

/-- Ranges, the last first, that do not touch and cover the same offsets as some others. -/
structure Separated (ranges merged : List Extent) : Prop where
  apart : merged.Pairwise fun b a => a.Ahead b
  covers : ∀ offset : Int, (∃ e ∈ merged, e.contains offset = true) ↔
    ∃ r ∈ ranges, r.contains offset = true
  proper : (∀ r ∈ ranges, r.start < r.stop) → ∀ e ∈ merged, e.start < e.stop

/-- A range that touches the one before it covers with it what the two cover one by one. -/
theorem Extent.contains_join {a : Extent} (hstart : a.start ≤ r.start) (htouch : r.start ≤ a.stop)
    (offset : Int) : (⟨a.start, max a.stop r.stop⟩ : Extent).contains offset = true ↔
      a.contains offset = true ∨ r.contains offset = true := by
  rw [contains_iff, contains_iff, contains_iff]
  dsimp only
  omega

/-- **Joining one more range** that starts no earlier than those before it. -/
theorem Separated.mergeInto (h : Separated ranges merged) (hr : ∀ e ∈ merged, e.start ≤ r.start) :
    Separated (ranges ++ [r]) (mergeInto merged r) := by
  have hgrow : ∀ offset : Int, (∃ x ∈ ranges ++ [r], x.contains offset = true) ↔
      (∃ e ∈ merged, e.contains offset = true) ∨ r.contains offset = true := by
    intro offset
    rw [h.covers]
    simp [or_and_right, exists_or]
  have hproper : (∀ x ∈ ranges ++ [r], x.start < x.stop) →
      r.start < r.stop ∧ ∀ e ∈ merged, e.start < e.stop := by
    intro hall
    refine ⟨hall r (List.mem_append_right _ (List.mem_singleton_self r)), h.proper ?_⟩
    exact fun x hx => hall x (List.mem_append_left _ hx)
  cases merged with
  | nil =>
    refine ⟨List.pairwise_singleton _ _, fun offset => ?_, fun hall e he => ?_⟩
    · rw [hgrow]
      simp [RomAtlas.mergeInto]
    · rw [List.mem_singleton.1 he]
      exact (hproper hall).1
  | cons last rest =>
    have hstart := hr last List.mem_cons_self
    obtain ⟨hlast, hrest⟩ := List.pairwise_cons.1 h.apart
    rw [RomAtlas.mergeInto]
    split
    · next htouch =>
      refine ⟨List.pairwise_cons.2 ⟨hlast, hrest⟩, fun offset => ?_, fun hall e he => ?_⟩
      · rw [hgrow, List.exists_mem_cons_iff, List.exists_mem_cons_iff,
          Extent.contains_join hstart htouch, or_right_comm]
      · obtain ⟨-, hmerged⟩ := hproper hall
        rcases List.mem_cons.1 he with rfl | he
        · have hlt := hmerged last List.mem_cons_self
          dsimp only
          omega
        · exact hmerged e (List.mem_cons_of_mem _ he)
    · next hgap =>
      refine ⟨List.pairwise_cons.2 ⟨fun a ha => ?_, h.apart⟩, fun offset => ?_, fun hall e he => ?_⟩
      · -- what lies ahead of the last range lies ahead of one behind it
        unfold Extent.Ahead
        rcases List.mem_cons.1 ha with rfl | ha
        · omega
        · have hahead := hlast a ha
          unfold Extent.Ahead at hahead
          omega
      · rw [hgrow, List.exists_mem_cons_iff, or_comm]
      · obtain ⟨hthis, hmerged⟩ := hproper hall
        rcases List.mem_cons.1 he with rfl | he
        · exact hthis
        · exact hmerged e he

/-- Joined ranges start where ranges do. -/
theorem start_le_of_mem_mergeInto {bound : Int} (hm : ∀ e ∈ merged, e.start ≤ bound)
    (hr : r.start ≤ bound) : ∀ e ∈ mergeInto merged r, e.start ≤ bound := by
  intro e he
  unfold mergeInto at he
  split at he
  · rw [List.mem_singleton.1 he]
    exact hr
  · next last rest =>
    split at he
    · rcases List.mem_cons.1 he with rfl | he
      · exact hm last List.mem_cons_self
      · exact hm e (List.mem_cons_of_mem _ he)
    · rcases List.mem_cons.1 he with rfl | he
      · exact hr
      · exact hm e he

/-- **Joining ranges in ascending order**, one after the other. -/
theorem Separated.foldl (h : Separated ranges merged) (hl : l.Pairwise fun a b => a.start ≤ b.start)
    (hm : ∀ e ∈ merged, ∀ r ∈ l, e.start ≤ r.start) :
    Separated (ranges ++ l) (l.foldl RomAtlas.mergeInto merged) := by
  induction l generalizing ranges merged with
  | nil => simpa using h
  | cons r l ih =>
    obtain ⟨hfirst, hl⟩ := List.pairwise_cons.1 hl
    rw [List.foldl_cons, List.append_cons]
    refine ih (h.mergeInto fun e he => hm e he r List.mem_cons_self) hl fun e he x hx => ?_
    refine start_le_of_mem_mergeInto (fun e he => ?_) (hfirst x hx) e he
    exact hm e he x (List.mem_cons_of_mem r hx)

/-- **Joined ranges do not touch and cover the same offsets.** -/
theorem separated_mergeRanges (ranges : List Extent) :
    (mergeRanges ranges).Pairwise Extent.Ahead ∧
    (∀ offset : Int, (∃ e ∈ mergeRanges ranges, e.contains offset = true) ↔
      ∃ r ∈ ranges, r.contains offset = true) ∧
    ((∀ r ∈ ranges, r.start < r.stop) → ∀ e ∈ mergeRanges ranges, e.start < e.stop) := by
  have hsorted : (ranges.mergeSort fun a b => (compare a b).isLE).Pairwise
      fun a b => (compare a b).isLE = true := by
    apply List.pairwise_mergeSort
    · intro a b c hab hbc
      exact Std.TransOrd.isLE_trans hab hbc
    · intro a b
      rw [Std.OrientedOrd.eq_swap (a := b)]
      cases compare a b <;> rfl
  have hstart : Separated [] [] := ⟨.nil, fun _ => Iff.rfl, nofun⟩
  have hfold := hstart.foldl (hsorted.imp Extent.start_le_of_isLE) nofun
  rw [List.nil_append] at hfold
  unfold mergeRanges
  refine ⟨List.pairwise_reverse.2 hfold.apart, fun offset => ?_, fun hproper e he => ?_⟩
  · simpa using hfold.covers offset
  · exact hfold.proper (fun r hr => hproper r (List.mem_mergeSort.1 hr)) e (List.mem_reverse.1 he)

/-! ## Overridden runs -/

/-- The byte at an offset was traced as a class, and another one is declared for it. -/
def Overridden (traced final : Array ByteClass) (o : Nat) : Prop :=
  traced.getD o .unknown ≠ .unknown ∧ traced.getD o .unknown ≠ final.getD o .unknown

namespace OverrideRun

variable {traced final : Array ByteClass} {low high : Nat} {runs : List OverrideRun}
  {run : OverrideRun} {s : Scan}

/-- An offset lies in a run. -/
def Has (run : OverrideRun) (o : Nat) : Prop := run.start ≤ o ∧ o < run.stop

/-- A run has bytes, all of them were traced as its first class and are declared as its second one,
and so they are overridden. -/
structure Uniform (traced final : Array ByteClass) (run : OverrideRun) : Prop where
  start_lt : run.start < run.stop
  traced : ∀ o, run.Has o → traced.getD o .unknown = run.before
  final : ∀ o, run.Has o → final.getD o .unknown = run.after
  overridden : run.before ≠ .unknown ∧ run.before ≠ run.after

/-- A run ends before another starts. If they touch, they differ in a class. -/
def Precedes (a b : OverrideRun) : Prop :=
  a.stop ≤ b.start ∧ (a.stop = b.start → a.before ≠ b.before ∨ a.after ≠ b.after)

/-- Runs are the overridden bytes between two offsets, in ascending order. -/
structure Marks (traced final : Array ByteClass) (low high : Nat) (runs : List OverrideRun) :
    Prop where
  uniform : ∀ run ∈ runs, run.Uniform traced final
  within : ∀ run ∈ runs, low ≤ run.start ∧ run.stop ≤ high
  ascending : runs.Pairwise Precedes
  complete : ∀ o, low ≤ o → o < high → Overridden traced final o → ∃ run ∈ runs, run.Has o

theorem Uniform.overridden_of_has (h : run.Uniform traced final) (ho : run.Has o) :
    Overridden traced final o := by
  unfold Overridden
  rw [h.traced o ho, h.final o ho]
  exact h.overridden

/-- A byte that is not overridden adds nothing. -/
theorem Marks.skip (h : Marks traced final low high runs) (hno : ¬ Overridden traced final high) :
    Marks traced final low (high + 1) runs := by
  refine ⟨h.uniform, fun run hrun => ?_, h.ascending, fun o hlow hhigh ho => ?_⟩
  · obtain ⟨hstart, hstop⟩ := h.within run hrun
    omega
  · have hne : o ≠ high := by
      rintro rfl
      exact hno ho
    exact h.complete o hlow (by omega) ho

/-- An overridden byte opens a run, if none goes on to it under the same classes. -/
theorem Marks.opened (h : Marks traced final low high runs) (hle : low ≤ high)
    (ho : Overridden traced final high)
    (hend : ∀ run ∈ runs, run.stop = high →
      run.before ≠ traced.getD high .unknown ∨ run.after ≠ final.getD high .unknown) :
    Marks traced final low (high + 1) (runs ++
      [⟨high, high + 1, traced.getD high .unknown, final.getD high .unknown⟩]) := by
  have honly : ∀ o, Has ⟨high, high + 1, traced.getD high .unknown, final.getD high .unknown⟩ o →
      o = high := by
    rintro o ⟨hstart, hstop⟩
    dsimp only at hstart hstop
    omega
  refine ⟨fun run hrun => ?_, fun run hrun => ?_, ?_, fun o hlow hhigh hover => ?_⟩
  · rcases List.mem_append.1 hrun with hrun | hrun
    · exact h.uniform run hrun
    · rw [List.mem_singleton.1 hrun]
      refine ⟨Nat.lt_succ_self high, fun o hhas => ?_, fun o hhas => ?_, ho⟩
      · rw [honly o hhas]
      · rw [honly o hhas]
  · rcases List.mem_append.1 hrun with hrun | hrun
    · obtain ⟨hstart, hstop⟩ := h.within run hrun
      omega
    · rw [List.mem_singleton.1 hrun]
      exact ⟨hle, Nat.le_refl _⟩
  · refine List.pairwise_append.2 ⟨h.ascending, List.pairwise_singleton _ _, fun a ha b hb => ?_⟩
    rw [List.mem_singleton.1 hb]
    exact ⟨(h.within a ha).2, hend a ha⟩
  · by_cases hlast : o = high
    · subst hlast
      exact ⟨_, List.mem_append_right _ (List.mem_singleton_self _), Nat.le_refl o,
        Nat.lt_succ_self o⟩
    · obtain ⟨run, hrun, hhas⟩ := h.complete o hlow (by omega) hover
      exact ⟨run, List.mem_append_left _ hrun, hhas⟩

/-- A byte under the same classes makes the last run longer. -/
theorem Marks.extend (h : Marks traced final low high (runs ++ [run])) (hstop : run.stop = high)
    (hbefore : run.before = traced.getD high .unknown)
    (hafter : run.after = final.getD high .unknown) :
    Marks traced final low (high + 1) (runs ++ [{ run with stop := high + 1 }]) := by
  have hlast : run ∈ runs ++ [run] := List.mem_append_right _ (List.mem_singleton_self run)
  have hwithin := h.within run hlast
  have huniform := h.uniform run hlast
  have hlt := huniform.start_lt
  have hsplit : ∀ o, Has { run with stop := high + 1 } o ↔ run.Has o ∨ o = high := by
    intro o
    unfold Has
    dsimp only
    omega
  obtain ⟨hfinished, -, hahead⟩ := List.pairwise_append.1 h.ascending
  refine ⟨fun x hx => ?_, fun x hx => ?_, ?_, fun o hlow hhigh ho => ?_⟩
  · rcases List.mem_append.1 hx with hx | hx
    · exact h.uniform x (List.mem_append_left _ hx)
    · rw [List.mem_singleton.1 hx]
      refine ⟨by dsimp only; omega, fun o hhas => ?_, fun o hhas => ?_, huniform.overridden⟩
      · rcases (hsplit o).1 hhas with hhas | rfl
        · exact huniform.traced o hhas
        · exact hbefore.symm
      · rcases (hsplit o).1 hhas with hhas | rfl
        · exact huniform.final o hhas
        · exact hafter.symm
  · rcases List.mem_append.1 hx with hx | hx
    · have hx := h.within x (List.mem_append_left _ hx)
      omega
    · rw [List.mem_singleton.1 hx]
      exact ⟨hwithin.1, Nat.le_refl _⟩
  · -- the run starts where it did, so what was ahead of it still is
    refine List.pairwise_append.2 ⟨hfinished, List.pairwise_singleton _ _, fun a ha b hb => ?_⟩
    rw [List.mem_singleton.1 hb]
    exact hahead a ha run (List.mem_singleton_self run)
  · by_cases hnew : o = high
    · exact ⟨_, List.mem_append_right _ (List.mem_singleton_self _), (hsplit o).2 (.inr hnew)⟩
    · obtain ⟨x, hx, hhas⟩ := h.complete o hlow (by omega) ho
      rcases List.mem_append.1 hx with hx | hx
      · exact ⟨x, List.mem_append_left _ hx, hhas⟩
      · rw [List.mem_singleton.1 hx] at hhas
        exact ⟨_, List.mem_append_right _ (List.mem_singleton_self _), (hsplit o).2 (.inl hhas)⟩

/-! ### Reading a range -/

theorem Scan.close_of_none (h : s.current = none) : s.close.toList = s.finished.toList := by
  unfold close
  rw [h]

theorem Scan.close_of_some (h : s.current = some run) :
    s.close.toList = s.finished.toList ++ [run] := by
  unfold close
  rw [h]
  exact Array.toList_push

/-- A scan has read the bytes between two offsets: its runs mark them, and the current one is that
which ends where the scan stands. -/
structure Scan.Reads (traced final : Array ByteClass) (low high : Nat) (s : Scan) : Prop where
  low_le : low ≤ high
  marks : Marks traced final low high s.close.toList
  current : ∀ run, s.current = some run → run.stop = high
  idle : s.current = none → ∀ run ∈ s.close.toList, run.stop ≠ high

/-- **Reading one more byte.** -/
theorem Scan.Reads.push (h : s.Reads traced final low high) :
    (s.push high (traced.getD high .unknown) (final.getD high .unknown)).Reads traced final low
      (high + 1) := by
  have hle : low ≤ high + 1 := Nat.le_succ_of_le h.low_le
  unfold Scan.push
  split
  · next hno =>
    have hnot : ¬ Overridden traced final high := by
      rintro ⟨hknown, hchanged⟩
      exact hno.elim hknown hchanged
    refine ⟨hle, h.marks.skip hnot, nofun, fun _ run hrun => ?_⟩
    have hstop := (h.marks.within run hrun).2
    omega
  next hover =>
  have hover : Overridden traced final high := not_or.1 hover
  split
  · next run hcur =>
    have hclose := close_of_some hcur
    have hstop := h.current run hcur
    have hmarks := h.marks
    rw [hclose] at hmarks
    split
    · next hsame =>
      refine ⟨hle, ?_, fun x hx => ?_, nofun⟩
      · rw [close_of_some rfl]
        exact hmarks.extend hstop hsame.1 hsame.2
      · cases hx
        rfl
    · next hother =>
      refine ⟨hle, ?_, fun x hx => ?_, nofun⟩
      · rw [close_of_some rfl, hclose]
        refine hmarks.opened h.low_le hover fun x hx hend => ?_
        rcases List.mem_append.1 hx with hx | hx
        · -- a run that was finished before ends where the current one starts
          have hahead := (List.pairwise_append.1 hmarks.ascending).2.2 x hx run
            (List.mem_singleton_self run)
          have hlt := (hmarks.uniform run (List.mem_append_right _
            (List.mem_singleton_self run))).start_lt
          have hbefore := hahead.1
          omega
        · rw [List.mem_singleton.1 hx]
          exact not_and_or.1 hother
      · cases hx
        rfl
  · next hcur =>
    have hclose := close_of_none hcur
    have hmarks := h.marks
    have hidle := h.idle hcur
    rw [hclose] at hmarks hidle
    refine ⟨hle, ?_, fun x hx => ?_, nofun⟩
    · rw [close_of_some rfl]
      exact hmarks.opened h.low_le hover fun x hx hend => absurd hend (hidle x hx)
    · cases hx
      rfl

/-- **Reading the bytes of a range.** -/
theorem Scan.Reads.scan (h : s.Reads traced final low high) (count : Nat) :
    (scan traced final count high s).Reads traced final low (high + count) := by
  induction count generalizing high s with
  | zero => exact h
  | succ count ih =>
    unfold OverrideRun.scan
    rw [Nat.add_comm count 1, ← Nat.add_assoc]
    exact ih h.push

theorem marks_scan (traced final : Array ByteClass) (count low : Nat) :
    Marks traced final low (low + count) (scan traced final count low ⟨#[], none⟩).close.toList := by
  have hstart : Scan.Reads traced final low low ⟨#[], none⟩ := by
    refine ⟨Nat.le_refl low, ⟨nofun, nofun, .nil, fun o hlow hhigh => ?_⟩, nofun, fun _ => nofun⟩
    omega
  exact (hstart.scan count).marks

/-- Runs of a range that lies ahead of another one precede those of the other, and do not touch
them. -/
theorem Marks.precedes {high' low' : Nat} {runs' : List OverrideRun}
    (h : Marks traced final low high runs) (h' : Marks traced final low' high' runs')
    (hgap : high < low') {a b : OverrideRun} (ha : a ∈ runs) (hb : b ∈ runs') : a.Precedes b := by
  have hstop := (h.within a ha).2
  have hstart := (h'.within b hb).1
  refine ⟨by omega, fun htouch => ?_⟩
  omega

/-- **The runs are exactly the overridden bytes of the ranges**, in ascending order, each with one
traced and one declared class, and none of them goes on in the next one. -/
theorem marks_find (traced final : Array ByteClass)
    (hproper : ∀ r ∈ ranges, 0 ≤ r.start ∧ r.start < r.stop)
    (hahead : ranges.Pairwise Extent.Ahead) :
    (∀ run ∈ find traced final ranges, run.Uniform traced final) ∧
    (find traced final ranges).Pairwise Precedes ∧
    ∀ o : Nat, (∃ run ∈ find traced final ranges, run.Has o) ↔
      (∃ r ∈ ranges, r.contains o = true) ∧ Overridden traced final o := by
  have hmarks : ∀ r : Extent, Marks traced final r.start.toNat (r.start.toNat + r.size.toNat)
      (scan traced final r.size.toNat r.start.toNat ⟨#[], none⟩).close.toList :=
    fun r => marks_scan traced final r.size.toNat r.start.toNat
  have hbounds : ∀ r ∈ ranges, ∀ o : Nat, r.contains o = true ↔
      r.start.toNat ≤ o ∧ o < r.start.toNat + r.size.toNat := by
    intro r hr o
    have hr := hproper r hr
    rw [Extent.contains_iff]
    unfold Extent.size
    omega
  unfold find
  refine ⟨fun run hrun => ?_, ?_, fun o => ⟨?_, ?_⟩⟩
  · obtain ⟨r, -, hrun⟩ := List.mem_flatMap.1 hrun
    exact (hmarks r).uniform run hrun
  · refine List.pairwise_flatMap.2 ⟨fun r _ => (hmarks r).ascending, ?_⟩
    refine hahead.imp_of_mem ?_
    intro a b ha hb hgap x hx y hy
    refine (hmarks a).precedes (hmarks b) ?_ hx hy
    have ha := hproper a ha
    unfold Extent.Ahead at hgap
    unfold Extent.size
    omega
  · rintro ⟨run, hrun, hhas⟩
    obtain ⟨r, hr, hrun⟩ := List.mem_flatMap.1 hrun
    have hwithin := (hmarks r).within run hrun
    refine ⟨⟨r, hr, (hbounds r hr o).2 ?_⟩, ((hmarks r).uniform run hrun).overridden_of_has hhas⟩
    unfold Has at hhas
    omega
  · rintro ⟨⟨r, hr, hin⟩, ho⟩
    obtain ⟨hlow, hhigh⟩ := (hbounds r hr o).1 hin
    obtain ⟨run, hrun, hhas⟩ := (hmarks r).complete o hlow hhigh ho
    exact ⟨run, List.mem_flatMap.2 ⟨r, hr, hrun⟩, hhas⟩

end OverrideRun

end RomAtlas
