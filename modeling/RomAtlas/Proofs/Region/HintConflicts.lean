import Mathlib.Order.Bounds.Basic
import RomAtlas.Proofs.Hint.Accepted
import RomAtlas.Proofs.Mirrors
import RomAtlas.Proofs.Region.Overrides
import RomAtlas.Region.Classify

/-!
# Conflicts with range hints

Two kinds of conflicts come from range hints: ranges of different classes that overlap, and runs of
bytes whose traced class a range replaces. Both are always described: their offsets lie in the
image, and a range covers each run.

* `HintOverlap.notedBy_of_conflict`: what the conflict of a pair of ranges says.
* `marks_find_layers`: the runs of ranges inside the image are their overridden bytes.
* `exists_hintConflicts`: **the conflicts of ranges inside the image can be listed**, and all of
  them are of these two kinds.
* `forall₂_notedBy_find`: **each pair of ranges that overlap is noted**, in the order in which pairs
  are found.
-/

namespace RomAtlas

variable {m : AddressMap} {layers : List DeclaredRange} {o : Nat}

theorem Extent.overlaps_iff {r s : Extent} :
    r.overlaps s = true ↔ r.start < s.stop ∧ s.start < r.stop := by
  unfold overlaps
  rw [Bool.and_eq_true, decide_eq_true_iff, decide_eq_true_iff]

theorem DeclaredRange.exists_summary {s : DeclaredRange} (h : s.range.Within m.size) :
    ∃ text, s.summary m = .ok text := by
  have hlow := h.start_nonneg
  have hlt := h.start_lt
  have hstop := h.stop_le
  unfold summary
  exact ⟨_, bind_eq_ok.2 ⟨_, AddressMap.addressOf_eq_ok (by omega) (by omega), rfl⟩⟩

/-! ## Overlapping ranges -/

theorem HintOverlap.of_mem_find {x : HintOverlap} (h : x ∈ HintOverlap.find layers) :
    x.low ∈ layers ∧ x.high ∈ layers ∧ x.low.range.overlaps x.high.range = true := by
  induction layers with
  | nil => cases h
  | cons low rest ih =>
    unfold find at h
    rcases List.mem_append.1 h with h | h
    · obtain ⟨high, hhigh, rfl⟩ := List.mem_map.1 h
      obtain ⟨hmem, hpair⟩ := List.mem_filter.1 hhigh
      exact ⟨List.mem_cons_self, List.mem_cons_of_mem _ hmem, (Bool.and_eq_true_iff.1 hpair).2⟩
    · obtain ⟨hlow, hhigh, hover⟩ := ih h
      exact ⟨List.mem_cons_of_mem _ hlow, List.mem_cons_of_mem _ hhigh, hover⟩

theorem HintOverlap.exists_conflict {x : HintOverlap} (hlow : x.low.range.Within m.size)
    (hhigh : x.high.range.Within m.size) (hover : x.low.range.overlaps x.high.range = true) :
    ∃ k, x.conflict m = .ok k ∧ k.kind = .hintOverlap := by
  obtain ⟨hl, hr⟩ := Extent.overlaps_iff.1 hover
  have hlowNonneg := hlow.start_nonneg
  have hlowStop := hlow.stop_le
  have hhighStop := hhigh.stop_le
  have haddress : m.addressOf x.start = .ok (m.shownAt x.start.toNat) := by
    apply AddressMap.addressOf_eq_ok <;> unfold start <;> omega
  obtain ⟨high, hhighText⟩ := DeclaredRange.exists_summary hhigh
  obtain ⟨low, hlowText⟩ := DeclaredRange.exists_summary hlow
  unfold conflict
  exact ⟨_, bind_eq_ok.2 ⟨_, haddress, bind_eq_ok.2 ⟨high, hhighText,
    bind_eq_ok.2 ⟨low, hlowText, rfl⟩⟩⟩, rfl⟩

namespace HintOverlap

variable {x : HintOverlap} {k : Conflict}

theorem conflict_eq_ok (h : x.conflict m = .ok k) :
    ∃ address high low, m.addressOf x.start = .ok address ∧ x.high.summary m = .ok high ∧
      x.low.summary m = .ok low ∧
      k = ⟨some address, .hintOverlap,
        x.high.source.name ++ " (" ++ x.high.cls.name ++ ") overrides " ++ x.low.source.name ++
          " (" ++ x.low.cls.name ++ ") where they overlap",
        [high, low]⟩ := by
  unfold conflict at h
  obtain ⟨address, haddress, h⟩ := bind_eq_ok.1 h
  obtain ⟨high, hhigh, h⟩ := bind_eq_ok.1 h
  obtain ⟨low, hlow, h⟩ := bind_eq_ok.1 h
  exact ⟨address, high, low, haddress, hhigh, hlow, (pure_eq_ok.1 h).symm⟩

/-- A conflict notes an overlap at its first offset and names the range that wins there first. -/
structure NotedBy (m : AddressMap) (x : HintOverlap) (k : Conflict) : Prop where
  kind : k.kind = .hintOverlap
  address : ∃ o : Nat,
    IsLeast {o : Nat | x.low.range.contains o = true ∧ x.high.range.contains o = true} o ∧
      k.address = some (m.shownAt o)
  reason : k.reason = x.high.source.name ++ " (" ++ x.high.cls.name ++ ") overrides " ++
    x.low.source.name ++ " (" ++ x.low.cls.name ++ ") where they overlap"
  candidates : ∃ high low, x.high.summary m = .ok high ∧ x.low.summary m = .ok low ∧
    k.candidates = [high, low]

/-- The first offset that two ranges share. -/
theorem isLeast_start (hlow : x.low.range.Within m.size)
    (hover : x.low.range.overlaps x.high.range = true) (hhigh : x.high.range.Within m.size) :
    IsLeast {o : Nat | x.low.range.contains o = true ∧ x.high.range.contains o = true}
      x.start.toNat := by
  obtain ⟨hl, hr⟩ := Extent.overlaps_iff.1 hover
  have hnonneg := hlow.start_nonneg
  have hlowLt := hlow.start_lt
  have hhighLt := hhigh.start_lt
  constructor
  · show x.low.range.contains _ = true ∧ x.high.range.contains _ = true
    rw [Extent.contains_iff, Extent.contains_iff]
    unfold start
    omega
  · rintro o ⟨hol, hoh⟩
    rw [Extent.contains_iff] at hol hoh
    unfold start
    omega

theorem notedBy_of_conflict (hlow : x.low.range.Within m.size)
    (hhigh : x.high.range.Within m.size) (hover : x.low.range.overlaps x.high.range = true)
    (h : x.conflict m = .ok k) : x.NotedBy m k := by
  have hleast := isLeast_start hlow hover hhigh
  obtain ⟨address, high, low, haddress, hhighText, hlowText, rfl⟩ := conflict_eq_ok h
  refine ⟨rfl, ⟨x.start.toNat, hleast, ?_⟩, rfl, high, low, hhighText, hlowText, rfl⟩
  have hin := Extent.contains_iff.1 hleast.1.1
  have hstop := hlow.stop_le
  have hnonneg := hlow.start_nonneg
  have hstart : 0 ≤ x.start := by
    unfold start
    omega
  have hshown : m.addressOf x.start = .ok (m.shownAt x.start.toNat) :=
    AddressMap.addressOf_eq_ok hstart (by omega)
  exact congrArg some (Except.ok.inj (haddress.symm.trans hshown))

end HintOverlap

/-! ## Overridden runs -/

namespace OverrideRun

theorem exists_topLayer {s : DeclaredRange} (hs : s ∈ layers) (ho : s.range.contains o = true) :
    ∃ top ∈ layers, topLayer layers o = .ok top := by
  unfold topLayer
  cases hf : layers.reverse.find? (·.range.contains o) with
  | none =>
    have hout := List.find?_eq_none.1 hf s (List.mem_reverse.2 hs)
    exact absurd ho hout
  | some top => exact ⟨top, List.mem_reverse.1 (List.mem_of_find?_eq_some hf), rfl⟩

theorem exists_conflict (hw : ∀ s ∈ layers, s.range.Within m.size) {run : OverrideRun}
    {s : DeclaredRange} (hs : s ∈ layers) (ho : s.range.contains run.start = true) :
    ∃ k, run.conflict m layers = .ok k ∧ k.kind = .hintOverride := by
  obtain ⟨top, htop, hlayer⟩ := exists_topLayer hs ho
  obtain ⟨text, htext⟩ := DeclaredRange.exists_summary (hw top htop)
  have hlt : run.start < m.size := by
    have hstop := (hw s hs).stop_le
    have hin := Extent.contains_iff.1 ho
    omega
  unfold conflict
  exact ⟨_, bind_eq_ok.2 ⟨top, hlayer, bind_eq_ok.2 ⟨_, AddressMap.addressOf_natCast hlt,
    bind_eq_ok.2 ⟨text, htext, rfl⟩⟩⟩, rfl⟩

theorem conflict_eq_ok {run : OverrideRun} {k : Conflict} (h : run.conflict m layers = .ok k) :
    ∃ s address described, topLayer layers run.start = .ok s ∧
      m.addressOf run.start = .ok address ∧ s.summary m = .ok described ∧
      k = ⟨some address, .hintOverride,
        s.source.name ++ " declares " ++ toString (run.stop - run.start) ++ " byte(s) as " ++
          run.after.name ++ ", traced as " ++ run.before.name,
        [described, "traced " ++ run.before.name]⟩ := by
  unfold conflict at h
  obtain ⟨s, hs, h⟩ := bind_eq_ok.1 h
  obtain ⟨address, haddress, h⟩ := bind_eq_ok.1 h
  obtain ⟨described, hdescribed, h⟩ := bind_eq_ok.1 h
  exact ⟨s, address, described, hs, haddress, hdescribed, (pure_eq_ok.1 h).symm⟩

end OverrideRun

/-- **The runs are exactly the overridden bytes of the ranges**, for ranges in any order that lie in
the image. -/
theorem marks_find_layers (hw : ∀ s ∈ layers, s.range.Within m.size)
    (traced final : Array ByteClass) :
    let runs := OverrideRun.find traced final (mergeRanges (layers.map (·.range)))
    (∀ run ∈ runs, run.Uniform traced final) ∧ runs.Pairwise OverrideRun.Precedes ∧
    ∀ o : Nat, (∃ run ∈ runs, run.Has o) ↔
      (∃ s ∈ layers, s.range.contains o = true) ∧ Overridden traced final o := by
  obtain ⟨hahead, hcovers, hproper⟩ := separated_mergeRanges (layers.map (·.range))
  have hlt : ∀ e ∈ mergeRanges (layers.map (·.range)), e.start < e.stop := by
    refine hproper fun r hr => ?_
    obtain ⟨s, hs, rfl⟩ := List.mem_map.1 hr
    exact (hw s hs).start_lt
  have hcovers' : ∀ offset : Int, (∃ e ∈ mergeRanges (layers.map (·.range)),
      e.contains offset = true) ↔ ∃ s ∈ layers, s.range.contains offset = true := by
    intro offset
    rw [hcovers]
    simp
  have hlow : ∀ e ∈ mergeRanges (layers.map (·.range)), 0 ≤ e.start := by
    intro e he
    -- a joined range starts in one of the ranges
    obtain ⟨s, hs, hin⟩ := (hcovers' e.start).1
      ⟨e, he, Extent.contains_iff.2 ⟨Int.le_refl _, hlt e he⟩⟩
    exact Int.le_trans (hw s hs).start_nonneg (Extent.contains_iff.1 hin).1
  obtain ⟨huniform, hascending, hhas⟩ := OverrideRun.marks_find traced final
    (fun e he => ⟨hlow e he, hlt e he⟩) hahead
  refine ⟨huniform, hascending, fun o => ?_⟩
  rw [hhas, hcovers']

/-- **The conflicts of ranges inside the image can be listed.** -/
theorem exists_hintConflicts (hw : ∀ s ∈ layers, s.range.Within m.size)
    (traced final : Array ByteClass) :
    ∃ conflicts, hintConflicts m layers traced final = .ok conflicts ∧
      ∀ k ∈ conflicts, k.kind = .hintOverlap ∨ k.kind = .hintOverride := by
  have hoverlap : ∀ x ∈ HintOverlap.find layers,
      ∃ k, x.conflict m = .ok k ∧ k.kind = .hintOverlap := by
    intro x hx
    obtain ⟨hlow, hhigh, hover⟩ := HintOverlap.of_mem_find hx
    exact HintOverlap.exists_conflict (hw _ hlow) (hw _ hhigh) hover
  have hrun : ∀ run ∈ OverrideRun.find traced final (mergeRanges (layers.map (·.range))),
      ∃ k, run.conflict m layers = .ok k ∧ k.kind = .hintOverride := by
    intro run hrun
    obtain ⟨huniform, -, hhas⟩ := marks_find_layers hw traced final
    obtain ⟨⟨s, hs, hin⟩, -⟩ := (hhas run.start).1
      ⟨run, hrun, Nat.le_refl _, (huniform run hrun).start_lt⟩
    exact OverrideRun.exists_conflict hw hs hin
  obtain ⟨overlaps, hoverlaps, -, hkinds⟩ := exists_mapM_related hoverlap
  obtain ⟨overrides, hoverrides, -, hkinds'⟩ := exists_mapM_related hrun
  refine ⟨overlaps ++ overrides, bind_eq_ok.2 ⟨_, hoverlaps, bind_eq_ok.2 ⟨_, hoverrides, rfl⟩⟩, ?_⟩
  intro k hk
  rcases List.mem_append.1 hk with hk | hk
  · obtain ⟨-, -, hkind⟩ := hkinds k hk
    exact .inl hkind
  · obtain ⟨-, -, hkind⟩ := hkinds' k hk
    exact .inr hkind

section

variable {traced final : Array ByteClass} {conflicts : List Conflict}
  (h : hintConflicts m layers traced final = .ok conflicts)
include h

/-- The conflicts of pairs come before those of runs. -/
theorem hintConflicts_eq_ok : ∃ overlaps overrides,
    (HintOverlap.find layers).mapM (HintOverlap.conflict m) = .ok overlaps ∧
    (OverrideRun.find traced final (mergeRanges (layers.map (·.range)))).mapM
      (OverrideRun.conflict m layers) = .ok overrides ∧
    conflicts = overlaps ++ overrides ∧ (∀ k ∈ overlaps, k.kind = .hintOverlap) ∧
    ∀ k ∈ overrides, k.kind = .hintOverride := by
  unfold hintConflicts at h
  obtain ⟨overlaps, hoverlaps, h⟩ := bind_eq_ok.1 h
  obtain ⟨overrides, hoverrides, h⟩ := bind_eq_ok.1 h
  cases h
  refine ⟨overlaps, overrides, hoverlaps, hoverrides, rfl, fun k hk => ?_, fun k hk => ?_⟩
  · obtain ⟨x, -, hconflict⟩ := exists_of_mem_mapM hoverlaps hk
    obtain ⟨_, _, _, -, -, -, rfl⟩ := HintOverlap.conflict_eq_ok hconflict
    rfl
  · obtain ⟨run, -, hconflict⟩ := exists_of_mem_mapM hoverrides hk
    obtain ⟨_, _, _, -, -, -, rfl⟩ := OverrideRun.conflict_eq_ok hconflict
    rfl

/-- The conflicts of one kind are those of the pairs, one for each. -/
theorem mapM_conflict_find : (HintOverlap.find layers).mapM (HintOverlap.conflict m) =
    .ok (conflicts.filter (·.kind = .hintOverlap)) := by
  obtain ⟨overlaps, overrides, hoverlaps, -, rfl, hkinds, hothers⟩ := hintConflicts_eq_ok h
  rw [List.filter_append, List.filter_eq_self.2 fun k hk => decide_eq_true (hkinds k hk),
    List.filter_eq_nil_iff.2 fun k hk => by simp [hothers k hk], List.append_nil]
  exact hoverlaps

/-- The conflicts of the other kind are those of the runs, one for each. -/
theorem mapM_conflict_runs :
    (OverrideRun.find traced final (mergeRanges (layers.map (·.range)))).mapM
      (OverrideRun.conflict m layers) = .ok (conflicts.filter (·.kind = .hintOverride)) := by
  obtain ⟨overlaps, overrides, -, hoverrides, rfl, hothers, hkinds⟩ := hintConflicts_eq_ok h
  rw [List.filter_append, List.filter_eq_nil_iff.2 fun k hk => by simp [hothers k hk],
    List.filter_eq_self.2 fun k hk => decide_eq_true (hkinds k hk), List.nil_append]
  exact hoverrides

theorem forall₂_notedBy_find (hw : ∀ s ∈ layers, s.range.Within m.size) :
    List.Forall₂ (HintOverlap.NotedBy m) (HintOverlap.find layers)
      (conflicts.filter (·.kind = .hintOverlap)) := by
  have hall := (List.forall₂_and_left _ _).2
    ⟨fun x (hx : x ∈ HintOverlap.find layers) => hx, mapM_eq_ok.1 (mapM_conflict_find h)⟩
  refine hall.imp fun x k hx => ?_
  obtain ⟨hlow, hhigh, hover⟩ := HintOverlap.of_mem_find hx.1
  exact HintOverlap.notedBy_of_conflict (hw _ hlow) (hw _ hhigh) hover hx.2

end

end RomAtlas
