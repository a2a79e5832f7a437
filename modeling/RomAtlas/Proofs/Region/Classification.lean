import RomAtlas.Proofs.Region.Contradictions
import RomAtlas.Proofs.Region.Footprint
import RomAtlas.Proofs.Region.HintConflicts
import RomAtlas.Proofs.Region.Painting
import RomAtlas.Proofs.Region.Tiling

/-!
# Classification returns

Classification looks up offsets of instructions and addresses of offsets, and it fails if one of
them is not part of the image. This never happens to a trace of decoded instructions and ranges
inside the image.

* `exists_tracedConflicts`: each contradiction of a trace is noted at the address of its start, and
  nothing else is.
* `exists_classify`: **classification returns a partition whose neighbouring regions differ.**
* `traced_of_uncovered`: outside range hints a byte keeps the class that it was traced as.
-/

namespace RomAtlas

variable {c : Cartridge} {m : AddressMap} {t : Trace} {spans : List Span} {s : Span} {o : Nat}

/-! ## Spans -/

theorem Span.Decoded.lt_size (h : s.Decoded c) (ho : o ∈ s.offsets) : o < c.map.size := by
  obtain ⟨k, -, hk⟩ := h.mem_offsets_iff_covers.1 ho
  exact AddressMap.lt_size_of_offset? hk

theorem Span.Decoded.start_lt (h : s.Decoded c) : s.start < c.map.size :=
  AddressMap.lt_size_of_offset? h.start

/-- **The bytes of a decoded instruction have offsets.** -/
theorem Instruction.ReadFrom.exists_span {i : Instruction} (h : i.ReadFrom c) :
    ∃ s, Span.ofInstruction c.map i = .ok s := by
  have hoffset : ∀ k ∈ List.range i.length,
      ∃ o, c.map.offsetOf (stepInBank i.address (k : Nat)) = .ok o := by
    intro k hk
    obtain ⟨o, ho⟩ := h.shown (List.mem_range.1 hk)
    refine ⟨o, ?_⟩
    unfold AddressMap.offsetOf
    rw [ho]
  obtain ⟨offsets, hoffsets⟩ := exists_mapM hoffset
  exact ⟨⟨i, offsets⟩, bind_eq_ok.2 ⟨offsets, hoffsets, rfl⟩⟩

theorem Trace.DecodedFrom.exists_spans (h : t.DecodedFrom c) :
    ∃ spans, t.spans c.map = .ok spans :=
  exists_mapM fun _ he => (h.readFrom (mem_sortByNode.1 he)).exists_span

/-! ## Conflicts -/

/-- A conflict notes a clash at the address of its start. -/
def Clash.NotedBy (m : AddressMap) (x : Clash) (k : Conflict) : Prop :=
  k.address = some (m.shownAt x.start) ∧ (k.kind = .ambiguousWidth ∨ k.kind = .widthDivergence)

theorem Clash.exists_conflict {x : Clash} (h : x.start < m.size) :
    ∃ k, x.conflict m = .ok k ∧ x.NotedBy m k := by
  unfold conflict
  rw [AddressMap.addressOf_natCast h]
  by_cases hl : 1 < countDistinct (x.members.map (·.instr.length))
  · exact ⟨_, if_pos hl, rfl, .inl rfl⟩
  · exact ⟨_, if_neg hl, rfl, .inr rfl⟩

/-- A conflict notes an overlap at the address of the inner start. -/
def Overlap.NotedBy (m : AddressMap) (x : Overlap) (k : Conflict) : Prop :=
  k.address = some (m.shownAt x.inner) ∧ k.kind = .overlappingInstruction

theorem Overlap.exists_conflict {x : Overlap} (hinner : x.inner < m.size)
    (houter : x.outer.start < m.size) : ∃ k, x.conflict m = .ok k ∧ x.NotedBy m k := by
  unfold conflict
  rw [AddressMap.addressOf_natCast hinner, AddressMap.addressOf_natCast houter]
  exact ⟨_, rfl, rfl, rfl⟩

/-- The conflicts inside a trace: one for each clash, each overlap and each sort of failures at an
address. -/
structure Trace.NotedBy (m : AddressMap) (t : Trace) (spans : List Span)
    (conflicts : List Conflict) : Prop where
  clash : ∀ x ∈ Clash.find spans, ∃ k ∈ conflicts, x.NotedBy m k
  overlap : ∀ x ∈ Overlap.find spans, ∃ k ∈ conflicts, x.NotedBy m k
  failure : ∀ u ∈ Unreadable.find t.failures, u.conflict ∈ conflicts
  source : ∀ k ∈ conflicts, (∃ x ∈ Clash.find spans, x.NotedBy m k) ∨
    (∃ x ∈ Overlap.find spans, x.NotedBy m k) ∨ ∃ u ∈ Unreadable.find t.failures, k = u.conflict

/-- **The contradictions of a trace can be listed.** -/
theorem exists_tracedConflicts (hs : ∀ s ∈ spans, s.Decoded c) :
    ∃ conflicts, tracedConflicts c.map t spans = .ok conflicts ∧
      t.NotedBy c.map spans conflicts := by
  have hclash : ∀ x ∈ Clash.find spans, ∃ k, x.conflict c.map = .ok k ∧ x.NotedBy c.map k := by
    intro x hx
    have hfound := Clash.found_of_mem hx
    obtain ⟨s, hmem, -⟩ := hfound.widths .narrow
    obtain ⟨hspan, hstart⟩ := (hfound.members s).1 hmem
    exact Clash.exists_conflict (hstart ▸ (hs s hspan).start_lt)
  have hoverlap : ∀ x ∈ Overlap.find spans,
      ∃ k, x.conflict c.map = .ok k ∧ x.NotedBy c.map k := by
    intro x hx
    have hfound := Overlap.found_of_mem hx
    have houter := hs x.outer hfound.outer
    exact Overlap.exists_conflict (houter.lt_size (List.mem_of_mem_tail hfound.inner))
      houter.start_lt
  obtain ⟨clashes, hclashes, hnoted, hsource⟩ := exists_mapM_related hclash
  obtain ⟨overlaps, hoverlaps, hnoted', hsource'⟩ := exists_mapM_related hoverlap
  refine ⟨clashes ++ overlaps ++ (Unreadable.find t.failures).map Unreadable.conflict,
    bind_eq_ok.2 ⟨_, hclashes, bind_eq_ok.2 ⟨_, hoverlaps, rfl⟩⟩, ?_, ?_, ?_, ?_⟩
  · intro x hx
    obtain ⟨k, hk, hnote⟩ := hnoted x hx
    exact ⟨k, List.mem_append_left _ (List.mem_append_left _ hk), hnote⟩
  · intro x hx
    obtain ⟨k, hk, hnote⟩ := hnoted' x hx
    exact ⟨k, List.mem_append_left _ (List.mem_append_right _ hk), hnote⟩
  · intro u hu
    exact List.mem_append_right _ (List.mem_map_of_mem hu)
  · intro k hk
    rcases List.mem_append.1 hk with hk | hk
    · exact (List.mem_append.1 hk).imp (hsource k) fun hk => .inl (hsource' k hk)
    · obtain ⟨u, hu, rfl⟩ := List.mem_map.1 hk
      exact .inr (.inr ⟨u, hu, rfl⟩)

/-- What is noted inside a trace is about one of its contradictions. -/
theorem source_of_tracedConflicts {conflicts : List Conflict} {k : Conflict}
    (h : tracedConflicts m t spans = .ok conflicts) (hk : k ∈ conflicts) :
    (∃ x ∈ Clash.find spans, x.conflict m = .ok k) ∨
      (∃ x ∈ Overlap.find spans, x.conflict m = .ok k) ∨
      ∃ u ∈ Unreadable.find t.failures, u.conflict = k := by
  unfold tracedConflicts at h
  obtain ⟨clashes, hclashes, h⟩ := bind_eq_ok.1 h
  obtain ⟨overlaps, hoverlaps, h⟩ := bind_eq_ok.1 h
  cases h
  rcases List.mem_append.1 hk with hk | hk
  · exact (List.mem_append.1 hk).imp (exists_of_mem_mapM hclashes)
      fun hk => .inl (exists_of_mem_mapM hoverlaps hk)
  · exact .inr (.inr (List.mem_map.1 hk))

/-! ## The partition -/

section

variable {hints : CheckedHints} {regions : Partition} {conflicts : List Conflict}

theorem classify_eq_ok (h : classify m t hints = .ok (regions, conflicts)) :
    ∃ spans, t.spans m = .ok spans ∧
      Partition.ofClasses m (overlay (tracedClasses m t spans) (layers hints.ranges)) =
        .ok regions ∧
      ∃ inTrace inHints, tracedConflicts m t spans = .ok inTrace ∧
        hintConflicts m (layers hints.ranges) (tracedClasses m t spans)
          (overlay (tracedClasses m t spans) (layers hints.ranges)) = .ok inHints ∧
        conflicts = inTrace ++ inHints := by
  unfold classify at h
  obtain ⟨spans, hspans, h⟩ := bind_eq_ok.1 h
  obtain ⟨inTrace, htrace, h⟩ := bind_eq_ok.1 h
  obtain ⟨inHints, hhints, h⟩ := bind_eq_ok.1 h
  obtain ⟨found, hfound, h⟩ := bind_eq_ok.1 h
  cases h
  exact ⟨spans, hspans, hfound, inTrace, inHints, htrace, hhints, rfl⟩

/-- **Classification returns**, and neighbouring regions are of different classes. -/
theorem exists_classify (ht : t.DecodedFrom c)
    (hw : ∀ s ∈ hints.ranges, s.range.Within c.map.size) :
    ∃ regions conflicts, classify c.map t hints = .ok (regions, conflicts) ∧
      regions.Alternating := by
  obtain ⟨spans, hspans⟩ := ht.exists_spans
  have hdecoded := (ht.spansOf hspans).decoded
  obtain ⟨inTrace, htrace, -⟩ := exists_tracedConflicts (t := t) hdecoded
  obtain ⟨inHints, hhints, -⟩ := exists_hintConflicts
    (fun s hs => hw s (mem_layers.1 hs)) (tracedClasses c.map t spans)
    (overlay (tracedClasses c.map t spans) (layers hints.ranges))
  have hsize : (overlay (tracedClasses c.map t spans) (layers hints.ranges)).size = c.map.size := by
    simp
  obtain ⟨regions, hregions, halt⟩ := Partition.exists_ofClasses hsize
  refine ⟨regions, inTrace ++ inHints, ?_, halt⟩
  exact bind_eq_ok.2 ⟨spans, hspans, bind_eq_ok.2 ⟨inTrace, htrace,
    bind_eq_ok.2 ⟨inHints, hhints, bind_eq_ok.2 ⟨regions, hregions, rfl⟩⟩⟩⟩

/-- A byte has the class of the range hint that was laid over it last. -/
theorem cls_of_top {r : Region} {top : DeclaredRange}
    (hw : ∀ s ∈ hints.ranges, s.range.Within m.size)
    (h : Partition.ofClasses m (overlay (tracedClasses m t spans) (layers hints.ranges)) =
      .ok regions)
    (hr : regions.regionOf o = .ok r)
    (htop : (layers hints.ranges).reverse.find? (·.range.contains o) = some top) :
    r.cls = top.cls := by
  have hfinal := Partition.getElem?_of_regionOf h hr
  have hlow : ∀ s ∈ layers hints.ranges, 0 ≤ s.range.start :=
    fun s hs => (hw s (mem_layers.1 hs)).start_nonneg
  rw [getElem?_overlay hlow, htop] at hfinal
  obtain ⟨cls, -, hcls⟩ := Option.map_eq_some_iff.1 hfinal
  exact hcls.symm

/-- A byte has the class of a range hint over it, if there is one. -/
theorem exists_range_or_uncovered {r : Region} (hw : ∀ s ∈ hints.ranges, s.range.Within m.size)
    (h : Partition.ofClasses m (overlay (tracedClasses m t spans) (layers hints.ranges)) =
      .ok regions)
    (hr : regions.regionOf o = .ok r) :
    (∃ s ∈ hints.ranges, s.range.contains o = true ∧ s.cls = r.cls) ∨
      ∀ s ∈ hints.ranges, s.range.contains o = false := by
  cases hf : (layers hints.ranges).reverse.find? (·.range.contains o) with
  | none =>
    refine .inr fun s hs => ?_
    have hout := List.find?_eq_none.1 hf s (List.mem_reverse.2 (mem_layers.2 hs))
    simpa using hout
  | some top =>
    have htop := mem_layers.1 (List.mem_reverse.1 (List.mem_of_find?_eq_some hf))
    have hover := List.find?_some (p := fun s : DeclaredRange => s.range.contains o) hf
    exact .inl ⟨top, htop, hover, (cls_of_top hw h hr hf).symm⟩

/-- A byte under range hints of one class has that class. -/
theorem classOf?_of_ranges {address : Int} {s : DeclaredRange} {cls : ByteClass}
    (hw : ∀ s ∈ hints.ranges, s.range.Within m.size)
    (h : Partition.ofClasses m (overlay (tracedClasses m t spans) (layers hints.ranges)) =
      .ok regions)
    (hcls : ∀ s ∈ hints.ranges, s.cls = cls) (hs : s ∈ hints.ranges)
    (ho : m.offset? address = some o) (hover : s.range.contains o = true) :
    regions.classOf? address = some cls := by
  obtain ⟨r, hr⟩ := Partition.exists_regionOf_of_ofClasses h (AddressMap.lt_size_of_offset? ho)
  have hregion : r.cls = cls := by
    rcases exists_range_or_uncovered hw h hr with ⟨s', hs', -, hcls'⟩ | hno
    · rw [← hcls', hcls s' hs']
    · rw [hno s hs] at hover
      cases hover
  rw [← (Partition.regions_of_ofClasses h).1] at ho
  rw [Partition.classOf?_of_regionOf ho hr, hregion]

/-- Outside range hints a byte keeps the class that it was traced as. -/
theorem traced_of_uncovered {r : Region} (hw : ∀ s ∈ hints.ranges, s.range.Within m.size)
    (h : Partition.ofClasses m (overlay (tracedClasses m t spans) (layers hints.ranges)) =
      .ok regions)
    (hr : regions.regionOf o = .ok r) (hno : ∀ s ∈ hints.ranges, s.range.contains o = false) :
    (tracedClasses m t spans)[o]? = some r.cls := by
  rw [← Partition.getElem?_of_regionOf h hr, getElem?_overlay_of_uncovered]
  · exact fun s hs => (hw s (mem_layers.1 hs)).start_nonneg
  · exact fun s hs => hno s (mem_layers.1 hs)

/-- Outside range hints a byte is ambiguous exactly if a pass marked it. -/
theorem ambiguous_iff_suspects {r : Region} (hw : ∀ s ∈ hints.ranges, s.range.Within m.size)
    (h : Partition.ofClasses m (overlay (tracedClasses m t spans) (layers hints.ranges)) =
      .ok regions)
    (hr : regions.regionOf o = .ok r) (hno : ∀ s ∈ hints.ranges, s.range.contains o = false) :
    r.cls = .ambiguous ↔ t.Suspects m spans o := by
  have htraced := traced_of_uncovered hw h hr hno
  have ho : o < m.size := by simpa using (Array.getElem?_eq_some_iff.1 htraced).1
  constructor
  · intro hamb
    rw [hamb] at htraced
    exact (tracedClasses_eq_ambiguous_iff.1 htraced).2
  · intro hsuspect
    rw [tracedClasses_eq_ambiguous_iff.2 ⟨ho, hsuspect⟩] at htraced
    exact (Option.some.inj htraced).symm

end

end RomAtlas
