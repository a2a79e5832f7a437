import RomAtlas.Proofs.Region.Classification
import RomAtlas.Proofs.Region.Precedence

/-!
# Reports of overridden bytes

Each run of overridden bytes is reported by one conflict: at its first byte, with the number of its
bytes and the range that declares them. A run is cut where the traced or the declared class changes,
so that it may go on from one range into another one of the same class. The conflict names the range
that wins at the first byte.

* `OverrideRun.NotedBy.congr`: a conflict names one hint and one number of bytes.
* `overrides_reported_once`: **each overridden byte is reported exactly once.**
* `override_named_for_first_byte`: **the range that is named wins at the first byte**, and at all of
  them exactly if it covers them and none of its class that overrides it meets them.
* `override_credits_first_range`: it need not win at the others.
-/

namespace RomAtlas

variable {c : Cartridge} {m : AddressMap} {ranges : List DeclaredRange} {s s' : DeclaredRange}
  {traced final : Array ByteClass} {k : Conflict}

namespace OverrideRun

variable {run run' : OverrideRun}

/-- A conflict notes a run at the address of its first byte, with the number of its bytes, as
declared by a range. -/
structure NotedBy (m : AddressMap) (run : OverrideRun) (s : DeclaredRange) (k : Conflict) :
    Prop where
  kind : k.kind = .hintOverride
  address : k.address = some (m.shownAt run.start)
  reason : k.reason = s.source.name ++ " declares " ++ toString (run.stop - run.start) ++
    " byte(s) as " ++ run.after.name ++ ", traced as " ++ run.before.name
  candidates : ∃ described, s.summary m = .ok described ∧
    k.candidates = [described, "traced " ++ run.before.name]

/-- A range wins at each byte of a run. -/
def WonBy (ranges : List DeclaredRange) (run : OverrideRun) (s : DeclaredRange) : Prop :=
  ∀ o, run.Has o → DeclaredRange.WinsAt ranges o s

/-- **When a range wins a whole run** that ranges of its class win byte by byte: it covers the run,
and no range of its class that overrides it meets the run. -/
theorem wonBy_iff (hn : (ranges.map (·.order)).Nodup) (hs : s ∈ ranges)
    (hwinner : ∀ o, run.Has o → ∃ w, DeclaredRange.WinsAt ranges o w ∧ w.cls = s.cls) :
    run.WonBy ranges s ↔ (∀ o, run.Has o → s.range.contains o = true) ∧
      ∀ w ∈ ranges, w.cls = s.cls → w.Overrides s →
        ∀ o, run.Has o → w.range.contains o = false := by
  constructor
  · intro hwon
    refine ⟨fun o ho => (hwon o ho).covers, fun w hw _ hover o ho => ?_⟩
    by_contra hin
    exact (hwon o ho).not_overrides hw (Bool.not_eq_false _ ▸ hin) hover
  · rintro ⟨hcovers, hfree⟩ o ho
    obtain ⟨w, hwins, hcls⟩ := hwinner o ho
    by_cases horder : w.order = s.order
    · rwa [← List.inj_on_of_nodup_map hn hwins.mem hs horder]
    · -- another winner would override this range and meet the run
      have hover := (DeclaredRange.overrides_or_overrides horder).resolve_right
        (hwins.not_overrides hs (hcovers o ho))
      have hout := hfree w hwins.mem hcls hover o ho
      rw [hwins.covers] at hout
      cases hout

theorem topLayer_eq_ok {layers : List DeclaredRange} {o : Nat} (h : topLayer layers o = .ok s) :
    layers.reverse.find? (·.range.contains o) = some s := by
  unfold topLayer at h
  split at h
  · next hfind => rw [hfind, Except.ok.inj h]
  · cases h

theorem notedBy_of_conflict {layers : List DeclaredRange} (hlt : run.start < m.size)
    (h : run.conflict m layers = .ok k) :
    ∃ s, topLayer layers run.start = .ok s ∧ run.NotedBy m s k := by
  obtain ⟨s, address, described, htop, haddress, hdescribed, rfl⟩ := conflict_eq_ok h
  rw [AddressMap.addressOf_natCast hlt, Except.ok.injEq] at haddress
  exact ⟨s, htop, rfl, congrArg some haddress.symm, rfl, described, hdescribed, rfl⟩

/-- **A conflict names one hint and one number of bytes.** -/
theorem NotedBy.congr (h : run.NotedBy m s k) (h' : run'.NotedBy m s' k) :
    s.source = s'.source ∧ run.stop - run.start = run'.stop - run'.start := by
  have hreason := h.reason.symm.trans h'.reason
  simp only [String.append_assoc] at hreason
  have hsource := HintSource.name_append_inj hreason
  refine ⟨hsource, ?_⟩
  -- behind the hint the number ends at the first character that is no digit
  have hlist := congrArg String.toList hreason
  rw [hsource] at hlist
  simp only [String.toList_append] at hlist
  have hcount := List.append_cancel_left (List.append_cancel_left hlist)
  have hdigits : ∀ n : Nat, ∀ x ∈ (toString n).toList, x.isDigit = true := by
    intro n x hx
    rw [Nat.toString_eq_repr, Nat.toList_repr] at hx
    exact Nat.isDigit_of_mem_toDigits (by decide) (by decide) hx
  obtain ⟨hnumber, -⟩ := append_inj_of_takeWhile hcount (hdigits _) (hdigits _) rfl rfl
  have hvalue := congrArg (fun digits => Nat.ofDigitChars 10 digits 0) hnumber
  simpa only [Nat.toString_eq_repr, Nat.toList_repr, Nat.ofDigitChars_ten_toDigits] using hvalue

/-- Runs that follow one another start at different offsets. -/
theorem nodup_start_of_precedes {runs : List OverrideRun}
    (huniform : ∀ run ∈ runs, run.Uniform traced final) (hascending : runs.Pairwise Precedes) :
    (runs.map (·.start)).Nodup := by
  refine List.pairwise_map.2 (hascending.imp_of_mem fun {a b} ha _ hab => ?_)
  have hlt := (huniform a ha).start_lt
  have hstop := hab.1
  omega

end OverrideRun

/-! ## One report for each run -/

theorem start_lt_size_of_mem_runs (hw : ∀ s ∈ ranges, s.range.Within m.size) {run : OverrideRun}
    (hrun : run ∈ OverrideRun.find traced final (mergeRanges ((layers ranges).map (·.range)))) :
    run.start < m.size := by
  obtain ⟨huniform, -, hhas⟩ :=
    marks_find_layers (fun s hs => hw s (mem_layers.1 hs)) traced final
  obtain ⟨⟨s, hs, hin⟩, -⟩ := (hhas run.start).1
    ⟨run, hrun, Nat.le_refl _, (huniform run hrun).start_lt⟩
  have hstop := (hw s (mem_layers.1 hs)).stop_le
  have hin := Extent.contains_iff.1 hin
  omega

section

variable {conflicts : List Conflict} (hw : ∀ s ∈ ranges, s.range.Within m.size)
  (h : hintConflicts m (layers ranges) traced final = .ok conflicts)
include hw h

/-- **Each run is noted by one conflict**, as declared by the range that is on top where it
starts. -/
theorem forall₂_notedBy_runs :
    List.Forall₂ (fun run k =>
        ∃ s, OverrideRun.topLayer (layers ranges) run.start = .ok s ∧ run.NotedBy m s k)
      (OverrideRun.find traced final (mergeRanges ((layers ranges).map (·.range))))
      (conflicts.filter (·.kind = .hintOverride)) := by
  have hall := (List.forall₂_and_left _ _).2
    ⟨fun run hrun => hrun, mapM_eq_ok.1 (mapM_conflict_runs h)⟩
  exact hall.imp fun run k hrun =>
    OverrideRun.notedBy_of_conflict (start_lt_size_of_mem_runs hw hrun.1) hrun.2

/-- **No two runs are noted by one conflict.** -/
theorem nodup_filter_overrides : (conflicts.filter (·.kind = .hintOverride)).Nodup := by
  obtain ⟨huniform, hascending, -⟩ :=
    marks_find_layers (fun s hs => hw s (mem_layers.1 hs)) traced final
  have hstarts := OverrideRun.nodup_start_of_precedes huniform hascending
  refine nodup_of_mapM (mapM_conflict_runs h) hstarts.of_map ?_
  intro run hrun run' hrun' k hk hk'
  have hlt := start_lt_size_of_mem_runs hw hrun
  have hlt' := start_lt_size_of_mem_runs hw hrun'
  obtain ⟨_, -, hnoted⟩ := OverrideRun.notedBy_of_conflict hlt hk
  obtain ⟨_, -, hnoted'⟩ := OverrideRun.notedBy_of_conflict hlt' hk'
  -- one address is that of one first byte
  have hshown := Option.some.inj (hnoted.address.symm.trans hnoted'.address)
  have hoffset := AddressMap.offset?_shownAt hlt
  rw [hshown, AddressMap.offset?_shownAt hlt'] at hoffset
  exact List.inj_on_of_nodup_map hstarts hrun hrun' (Option.some.inj hoffset).symm

end

/-- **Each overridden byte is reported exactly once.** The runs for any ranges of an image and any
two assignments of classes are not empty, come in ascending order and hold exactly the bytes that a
range covers and whose traced class is known and was replaced. A run has one class before and one
after, and two that touch differ in one of them. Each run has a conflict of its own, that tells its
first byte and the number of its bytes. Joined ranges, which are read for it, ascend without
touching and cover the same offsets as the given ones. -/
theorem overrides_reported_once (hw : ∀ s ∈ ranges, s.range.Within m.size)
    (traced final : Array ByteClass) :
    (∃ conflicts runs,
      hintConflicts m (layers ranges) traced final = .ok conflicts ∧
      runs = OverrideRun.find traced final (mergeRanges ((layers ranges).map (·.range))) ∧
      List.Forall₂ (fun run k => ∃ s ∈ ranges, run.NotedBy m s k) runs
        (conflicts.filter (·.kind = .hintOverride)) ∧
      (conflicts.filter (·.kind = .hintOverride)).Nodup ∧
      (∀ run ∈ runs, run.Uniform traced final) ∧ runs.Pairwise OverrideRun.Precedes ∧
      ∀ o : Nat, (∃ run ∈ runs, run.Has o) ↔
        (∃ s ∈ ranges, s.range.contains o = true) ∧ Overridden traced final o) ∧
    ∀ l : List Extent, (mergeRanges l).Pairwise Extent.Ahead ∧
      (∀ offset : Int, (∃ e ∈ mergeRanges l, e.contains offset = true) ↔
        ∃ r ∈ l, r.contains offset = true) ∧
      ((∀ r ∈ l, r.start < r.stop) → ∀ e ∈ mergeRanges l, e.start < e.stop) := by
  refine ⟨?_, separated_mergeRanges⟩
  have hw' : ∀ s ∈ layers ranges, s.range.Within m.size := fun s hs => hw s (mem_layers.1 hs)
  obtain ⟨conflicts, h, -⟩ := exists_hintConflicts hw' traced final
  obtain ⟨huniform, hascending, hhas⟩ := marks_find_layers hw' traced final
  refine ⟨conflicts, _, h, rfl, (forall₂_notedBy_runs hw h).imp fun run k hrun => ?_,
    nodup_filter_overrides hw h, huniform, hascending, fun o => ?_⟩
  · obtain ⟨s, htop, hnoted⟩ := hrun
    have hfind := OverrideRun.topLayer_eq_ok htop
    exact ⟨s, mem_layers.1 (List.mem_reverse.1 (List.mem_of_find?_eq_some hfind)), hnoted⟩
  · rw [hhas]
    simp only [mem_layers]

theorem overrides_reported_once_nested :
    (∀ s ∈ nestedRanges, s.range.Within truncatedLoad.map.size) ∧
      ∃ (conflicts : List Conflict) (runs : List OverrideRun),
        hintConflicts truncatedLoad.map (layers nestedRanges) #[.ambiguous, .code, .code]
          #[.data, .code, .data] = .ok conflicts ∧
        List.Forall₂ (fun run k => ∃ s ∈ nestedRanges, run.NotedBy truncatedLoad.map s k) runs
          (conflicts.filter (·.kind = .hintOverride)) ∧
        (∃ run ∈ runs, run.Has 0) ∧ (¬ ∃ run ∈ runs, run.Has 1) ∧ ∃ run ∈ runs, run.Has 2 := by
  have hc : nestedHints.check truncatedLoad =
      .ok ({ CheckedHints.empty with ranges := nestedRanges }, []) := rfl
  have hw := (Hints.check_sound hc).within
  obtain ⟨⟨conflicts, runs, h, -, hnoted, -, -, -, hhas⟩, -⟩ :=
    overrides_reported_once hw #[.ambiguous, .code, .code] #[.data, .code, .data]
  refine ⟨hw, conflicts, runs, h, hnoted, (hhas 0).2 ⟨?_, ?_⟩, fun hone => ?_, (hhas 2).2 ⟨?_, ?_⟩⟩
  · exact ⟨_, List.mem_cons_self, rfl⟩
  · exact ⟨by decide, by decide⟩
  · exact ((hhas 1).1 hone).2.2 rfl
  · exact ⟨_, List.mem_cons_self, rfl⟩
  · exact ⟨by decide, by decide⟩

/-! ## A load declared as data -/

/-- The load of `truncatedLoad`. -/
def shortLoad : Instruction :=
  ⟨0x8001, 0xa9, ⟨.lda, .immediateM, .sequential⟩, [0x10], ⟨.narrow, [], none⟩⟩

/-- A trace of it. -/
def loadTrace : Trace := ⟨[(⟨0x8001, ⟨.narrow, [], none⟩⟩, shortLoad)], [], [], [], false, 1⟩

theorem spans_loadTrace : loadTrace.spans truncatedLoad.map = .ok [⟨shortLoad, [1, 2]⟩] := by
  have hsort : sortByNode loadTrace.instructions = loadTrace.instructions :=
    List.mergeSort_of_pairwise (by decide)
  rw [Trace.spans, hsort]
  rfl

theorem tracedClasses_loadTrace :
    tracedClasses truncatedLoad.map loadTrace [⟨shortLoad, [1, 2]⟩] =
      #[.unknown, .code, .code] := by
  have hclash : Clash.find [⟨shortLoad, [1, 2]⟩] = [] := by
    refine List.eq_nil_iff_forall_not_mem.2 fun x hx => ?_
    obtain ⟨s, hs, hwidths⟩ := (Clash.found_of_mem hx).widths .narrow
    obtain ⟨hs, -⟩ := ((Clash.found_of_mem hx).members s).1 hs
    rw [List.mem_singleton.1 hs] at hwidths
    exact hwidths rfl
  have hoverlap : Overlap.find [⟨shortLoad, [1, 2]⟩] = [] := by
    refine List.eq_nil_iff_forall_not_mem.2 fun x hx => ?_
    obtain ⟨houter, hinner, hmembers, s, hs⟩ := Overlap.found_of_mem hx
    obtain ⟨hs, hstart⟩ := (hmembers s).1 hs
    rw [List.mem_singleton.1 houter] at hinner
    rw [List.mem_singleton.1 hs, List.mem_singleton.1 hinner] at hstart
    exact absurd hstart (by decide)
  have hfailures : Unreadable.find loadTrace.failures = [] := by
    simp [Unreadable.find, loadTrace, sortUnique, dropRepeats]
  have hsites : unresolvedSpans loadTrace.xrefs [⟨shortLoad, [1, 2]⟩] = [] := by
    simp [unresolvedSpans, loadTrace]
  rw [tracedClasses, hclash, hoverlap, hfailures, hsites]
  rfl

theorem loadTrace_decodedFrom : loadTrace.DecodedFrom truncatedLoad := by
  intro n i hi
  cases List.mem_singleton.1 hi
  have hshape : Shape.ofCode? ((0xa9 : UInt8).toNat : Int) =
      some ⟨.lda, .immediateM, .sequential⟩ := by
    decide +kernel
  have hbyte : truncatedLoad.byteAt 0x8001 = .ok 0xa9 := rfl
  have hoperand : truncatedLoad.bytesFrom (stepInBank 0x8001 1) 1 = .ok [0x10] := rfl
  exact Node.decode_eq_ok_iff.2 ⟨rfl, rfl, hbyte, hshape, hoperand⟩

/-- If both of its bytes are declared as data, then a conflict notes this of the range on top of the
first one. -/
theorem exists_override_loadTrace {given : Hints} {checked : CheckedHints} {rejected : List Conflict}
    (hc : given.check truncatedLoad = .ok (checked, rejected))
    (hruns : OverrideRun.find #[.unknown, .code, .code]
      (overlay #[.unknown, .code, .code] (layers checked.ranges))
      (mergeRanges ((layers checked.ranges).map (·.range))) = [⟨1, 3, .code, .data⟩])
    (htop : OverrideRun.topLayer (layers checked.ranges) 1 = .ok s) :
    ∃ regions conflicts, classify truncatedLoad.map loadTrace checked = .ok (regions, conflicts) ∧
      ∃ k ∈ conflicts, OverrideRun.NotedBy truncatedLoad.map ⟨1, 3, .code, .data⟩ s k := by
  have hw := (Hints.check_sound hc).within
  obtain ⟨regions, conflicts, h, -⟩ := exists_classify loadTrace_decodedFrom hw
  refine ⟨regions, conflicts, h, ?_⟩
  obtain ⟨spans, hspans, -, inTrace, inHints, -, hhints, rfl⟩ := classify_eq_ok h
  obtain rfl := Except.ok.inj (spans_loadTrace.symm.trans hspans)
  rw [tracedClasses_loadTrace] at hhints
  have hnoted := forall₂_notedBy_runs hw hhints
  rw [hruns] at hnoted
  obtain ⟨k, _, ⟨r, hr, hk⟩, -, hfilter⟩ := List.forall₂_cons_left_iff.1 hnoted
  obtain rfl := Except.ok.inj (htop.symm.trans hr)
  have hmem : k ∈ inHints.filter (·.kind = .hintOverride) := by
    rw [hfilter]
    exact List.mem_cons_self
  exact ⟨k, List.mem_append_right _ (List.mem_filter.1 hmem).1, hk⟩

/-! ## The range that is named -/

/-- No conflict inside a trace is about a hint. -/
theorem kind_ne_of_mem_tracedConflicts {t : Trace} {spans : List Span} {conflicts : List Conflict}
    (h : tracedConflicts m t spans = .ok conflicts) (hk : k ∈ conflicts) :
    k.kind ≠ .hintOverride := by
  rcases source_of_tracedConflicts h hk with ⟨x, -, hx⟩ | ⟨x, -, hx⟩ | ⟨u, -, rfl⟩
  · unfold Clash.conflict at hx
    obtain ⟨_, -, hx⟩ := bind_eq_ok.1 hx
    dsimp only at hx
    split at hx <;> cases hx <;> simp
  · unfold Overlap.conflict at hx
    obtain ⟨_, -, hx⟩ := bind_eq_ok.1 hx
    obtain ⟨_, -, hx⟩ := bind_eq_ok.1 hx
    cases hx
    simp
  · simp [Unreadable.conflict]

section

variable {given : Hints} {checked : CheckedHints} {rejected : List Conflict} {t : Trace}
  {regions : Partition} {conflicts : List Conflict}

/-- **The range that an override is credited to wins at its first byte.** A conflict that notes a
run names one range and one number of bytes. At each byte of the run wins a range that declares its
class, and at the first one this is the range that is named. It wins at each byte exactly if it
covers the whole run and no range of its class that overrides it meets the run; so it does if it is
the only range of its class that covers some of the run. -/
theorem override_named_for_first_byte (hc : given.check c = .ok (checked, rejected))
    (h : classify c.map t checked = .ok (regions, conflicts)) (hk : k ∈ conflicts)
    (hkind : k.kind = .hintOverride) :
    ∃ (run : OverrideRun) (s : DeclaredRange), run.NotedBy c.map s k ∧
      (∀ run' : OverrideRun, ∀ s' ∈ checked.ranges, run'.NotedBy c.map s' k →
        s' = s ∧ run'.stop - run'.start = run.stop - run.start) ∧
      run.start < run.stop ∧ DeclaredRange.WinsAt checked.ranges run.start s ∧
      (∀ o, run.Has o → ∃ w, DeclaredRange.WinsAt checked.ranges o w ∧ w.cls = run.after) ∧
      (run.WonBy checked.ranges s ↔ (∀ o, run.Has o → s.range.contains o = true) ∧
        ∀ w ∈ checked.ranges, w.cls = s.cls → w.Overrides s →
          ∀ o, run.Has o → w.range.contains o = false) ∧
      ((∀ w ∈ checked.ranges, w.cls = s.cls → (∃ o, run.Has o ∧ w.range.contains o = true) →
        w = s) → run.WonBy checked.ranges s) := by
  obtain ⟨hnumbers, hsources⟩ := Hints.check_ranges hc
  have hn : (checked.ranges.map (·.order)).Nodup := by
    rw [hnumbers]
    exact List.nodup_range
  have hw := (Hints.check_sound hc).within
  obtain ⟨spans, -, -, inTrace, inHints, htrace, hhints, rfl⟩ := classify_eq_ok h
  have hin : k ∈ inHints.filter (·.kind = .hintOverride) := by
    refine List.mem_filter.2 ⟨(List.mem_append.1 hk).resolve_left fun hk => ?_, by simp [hkind]⟩
    exact kind_ne_of_mem_tracedConflicts htrace hk hkind
  obtain ⟨run, hrun, hconflict⟩ := exists_of_mem_mapM (mapM_conflict_runs hhints) hin
  obtain ⟨s, htop, hnoted⟩ :=
    OverrideRun.notedBy_of_conflict (start_lt_size_of_mem_runs hw hrun) hconflict
  obtain ⟨huniform, -, hhas⟩ := marks_find_layers (fun s hs => hw s (mem_layers.1 hs)) _ _
  have hfirst : DeclaredRange.WinsAt checked.ranges run.start s :=
    winsAt_of_find? hn (OverrideRun.topLayer_eq_ok htop)
  have hlt := (huniform run hrun).start_lt
  have hwinner : ∀ o, run.Has o →
      ∃ w, DeclaredRange.WinsAt checked.ranges o w ∧ w.cls = run.after := by
    intro o ho
    obtain ⟨⟨r, hr, hro⟩, -⟩ := (hhas o).1 ⟨run, hrun, ho⟩
    have hsize : (tracedClasses c.map t spans).size = c.map.size := by simp
    obtain ⟨w, hwins, -, hfinal⟩ :=
      exists_winsAt_overlay hn (hsize ▸ hw) ⟨r, mem_layers.1 hr, hro⟩
    refine ⟨w, hwins, ?_⟩
    have hafter := (huniform run hrun).final o ho
    simpa [Array.getD_eq_getD_getElem?, hfinal] using hafter
  have hcls : s.cls = run.after := by
    obtain ⟨w, hwins, hafter⟩ := hwinner run.start ⟨Nat.le_refl _, hlt⟩
    rw [hfirst.unique hn hwins, hafter]
  refine ⟨run, s, hnoted, fun run' s' hs' hnoted' => ?_, hlt, hfirst, hwinner, ?_,
    fun honly o ho => ?_⟩
  · obtain ⟨hsource, hcount⟩ := hnoted'.congr hnoted
    exact ⟨List.inj_on_of_nodup_map hsources hs' hfirst.mem hsource, hcount⟩
  · exact OverrideRun.wonBy_iff hn hfirst.mem fun o ho => hcls.symm ▸ hwinner o ho
  · obtain ⟨w, hwins, hafter⟩ := hwinner o ho
    rw [← honly w hwins.mem (hafter.trans hcls.symm) ⟨o, ho, hwins.covers⟩]
    exact hwins

end

/-- All of `truncatedLoad` as data. -/
def wholeRange : DeclaredRange := ⟨⟨0, 3⟩, .data, 0, .null, 0x8000, .dataRange 0⟩

/-- The hints that declare this range. -/
def wholeHints : Hints := ⟨[], [⟨0x8000, 0x8002, .null⟩], [], []⟩

theorem override_named_for_first_byte_whole :
    wholeHints.check truncatedLoad = .ok ({ CheckedHints.empty with ranges := [wholeRange] }, []) ∧
      ∃ regions conflicts,
        classify truncatedLoad.map loadTrace { CheckedHints.empty with ranges := [wholeRange] } =
          .ok (regions, conflicts) ∧
        ∃ k ∈ conflicts, k.kind = .hintOverride ∧ ∃ run : OverrideRun,
          run.NotedBy truncatedLoad.map wholeRange k ∧ run.stop - run.start = 2 ∧
          run.WonBy [wholeRange] wholeRange := by
  have hc : wholeHints.check truncatedLoad =
      .ok ({ CheckedHints.empty with ranges := [wholeRange] }, []) := rfl
  have hlayers : layers [wholeRange] = [wholeRange] := List.mergeSort_singleton _
  have hmerged : mergeRanges [wholeRange.range] = [⟨0, 3⟩] := by
    rw [mergeRanges, List.mergeSort_singleton]
    rfl
  obtain ⟨regions, conflicts, h, k, hk, hnote⟩ := exists_override_loadTrace hc
    (by rw [hlayers, List.map_singleton, hmerged]; rfl) (by rw [hlayers]; rfl)
  obtain ⟨run, s, hnoted, hone, -, -, -, -, hwon⟩ :=
    override_named_for_first_byte hc h hk hnote.kind
  obtain ⟨rfl, hcount⟩ := hone _ _ List.mem_cons_self hnote
  exact ⟨hc, regions, conflicts, h, k, hk, hnote.kind, run, hnoted, hcount.symm,
    hwon fun w hw _ _ => List.mem_singleton.1 hw⟩

/-- The bytes of the load as two ranges of data. -/
def adjacentRanges : List DeclaredRange :=
  [⟨⟨1, 2⟩, .data, 0, .null, 0x8001, .dataRange 0⟩,
    ⟨⟨2, 3⟩, .data, 1, .null, 0x8002, .dataRange 1⟩]

/-- The hints that declare these ranges. -/
def adjacentHints : Hints :=
  ⟨[], [⟨0x8001, 0x8001, .null⟩, ⟨0x8002, 0x8002, .null⟩], [], []⟩

/-- **The range that is named need not cover the run.** Of two bytes of code that are declared as
data by a range each, both are credited to the first range. -/
theorem override_credits_first_range :
    adjacentHints.check truncatedLoad =
        .ok ({ CheckedHints.empty with ranges := adjacentRanges }, []) ∧
      loadTrace.DecodedFrom truncatedLoad ∧
      ∃ regions conflicts,
        classify truncatedLoad.map loadTrace { CheckedHints.empty with ranges := adjacentRanges } =
          .ok (regions, conflicts) ∧
        ∃ k ∈ conflicts, k.kind = .hintOverride ∧
          ∀ run : OverrideRun, ∀ s ∈ adjacentRanges, run.NotedBy truncatedLoad.map s k →
            run.stop - run.start = 2 ∧ ¬ run.WonBy adjacentRanges s ∧
              ¬ ∀ o, run.Has o → s.range.contains o = true := by
  have hc : adjacentHints.check truncatedLoad =
      .ok ({ CheckedHints.empty with ranges := adjacentRanges }, []) := rfl
  have hlayers : layers adjacentRanges = adjacentRanges := List.mergeSort_of_pairwise (by decide)
  have hmerged : mergeRanges (adjacentRanges.map (·.range)) = [⟨1, 3⟩] := by
    rw [mergeRanges, List.mergeSort_of_pairwise (by decide)]
    rfl
  obtain ⟨regions, conflicts, h, k, hk, hnote⟩ := exists_override_loadTrace hc
    (by rw [hlayers, hmerged]; rfl) (by rw [hlayers]; rfl)
  refine ⟨hc, loadTrace_decodedFrom, regions, conflicts, h, k, hk, hnote.kind, ?_⟩
  intro run s hs hnoted
  have hcount : run.stop - run.start = 2 := (hnoted.congr hnote).2
  -- each of the ranges is one byte long
  have hsize : ∀ s ∈ adjacentRanges, s.range.stop = s.range.start + 1 := by decide
  have hnot : ¬ ∀ o, run.Has o → s.range.contains o = true := by
    intro hall
    have hone := hsize s hs
    have hlow := Extent.contains_iff.1 (hall run.start ⟨by omega, by omega⟩)
    have hhigh := Extent.contains_iff.1 (hall (run.start + 1) ⟨by omega, by omega⟩)
    omega
  exact ⟨hcount, fun hwon => hnot fun o ho => (hwon o ho).covers, hnot⟩

end RomAtlas
