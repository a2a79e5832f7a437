import RomAtlas.Proofs.Atlas.Total
import RomAtlas.Proofs.Region.Doubt
import RomAtlas.Proofs.Trace.Unresolved

/-!
# Doubt is reported

Bytes are marked as ambiguous in one place and conflicts are reported in others: most of them when
bytes are classified, and jumps to unknown places by the trace. The marks go by offsets, and the
conflicts by canonical addresses or by the addresses that were decoded.

* `doubt_is_reported`: **nothing is settled silently.** A report explains each ambiguous byte
  (`Report.Explains`), and each of its entries that puts a byte in doubt stands at one that is
  ambiguous.
-/

namespace RomAtlas

variable {c : Cartridge} {t : Trace} {spans : List Span} {inTrace : List Conflict}
  {report : Report} {o : Nat}

/-- A report has an entry that explains why the byte at an offset is in doubt. -/
inductive Report.Explains (m : AddressMap) (t : Trace) (report : Report) (o : Nat) : Prop
  /-- Several widths are noted at the canonical address of an instruction over the byte. -/
  | widths {k : Conflict} {i : Instruction} (hk : k ∈ report.toList)
      (hkind : k.kind = .ambiguousWidth ∨ k.kind = .widthDivergence)
      (haddress : k.address = some (m.canonical i.address)) (hi : t.Decoded i) (ho : i.Covers m o)
  /-- An overlap is noted at the canonical address of an instruction that starts inside another
  one, and the byte is in an instruction that starts there or has this start inside it. -/
  | overlap {k : Conflict} {i inner outer : Instruction} {p : Nat} (hk : k ∈ report.toList)
      (hkind : k.kind = .overlappingInstruction)
      (haddress : k.address = some (m.canonical inner.address)) (hinner : t.Decoded inner)
      (hstart : m.offset? inner.address = some p) (houter : t.Decoded outer)
      (hinside : outer.Covers m p ∧ m.offset? outer.address ≠ some p) (hi : t.Decoded i)
      (hp : m.offset? i.address = some p ∨ i.Covers m p) (ho : i.Covers m o)
  /-- A failure to decode is noted at an address of the byte. -/
  | failure {k : Conflict} {a : Int} (hk : k ∈ report.toList) (hkind : k.kind = .decodeFailure)
      (haddress : k.address = some a) (ho : m.offset? a = some o)
  /-- An unknown target is noted at the address of an instruction over the byte. -/
  | unresolved {k : Conflict} {i : Instruction} (hk : k ∈ report.toList)
      (hkind : k.kind = .indirectUnresolved) (haddress : k.address = some i.address)
      (hi : t.Decoded i) (ho : i.Covers m o)

/-! ## From bytes to conflicts -/

/-- **What is marked is noted.** -/
theorem explains_of_suspects (hof : SpansOf c t spans) (hnote : t.NotedBy c.map spans inTrace)
    (hsites : t.NotesSites) (hreport : ∀ k, k ∈ inTrace ∨ k ∈ t.conflicts → k ∈ report.toList)
    (h : t.Suspects c.map spans o) : report.Explains c.map t o := by
  have hcanonical : ∀ s ∈ spans, c.map.canonical s.instr.address = c.map.shownAt s.start :=
    fun s hs => AddressMap.canonical_eq_shownAt (hof.decoded s hs).start
  rcases h with ⟨x, hx, ho⟩ | ⟨x, hx, ho⟩ | ⟨u, hu, ho, -⟩ | ⟨s, hs, ho⟩
  · obtain ⟨k, hk, haddress, hkind⟩ := hnote.clash x hx
    obtain ⟨s, hs, ho⟩ := List.mem_flatMap.1 ho
    obtain ⟨hs, hstart⟩ := ((Clash.found_of_mem hx).members s).1 hs
    refine .widths (hreport k (.inl hk)) hkind ?_ (hof.decoded_instr hs) (hof.covers hs ho)
    rw [haddress, hcanonical s hs, hstart]
  · obtain ⟨k, hk, haddress, hkind⟩ := hnote.overlap x hx
    have hfound := Overlap.found_of_mem hx
    have houter := hof.decoded x.outer hfound.outer
    obtain ⟨r, hr⟩ := hfound.nonempty
    obtain ⟨hr, hstart⟩ := (hfound.members r).1 hr
    have hinner : c.map.offset? r.instr.address = some x.inner :=
      hstart ▸ (hof.decoded r hr).start
    have hinside : x.outer.instr.Covers c.map x.inner ∧
        c.map.offset? x.outer.instr.address ≠ some x.inner := by
      refine ⟨hof.covers hfound.outer (List.mem_of_mem_tail hfound.inner), fun hsame => ?_⟩
      rw [houter.start] at hsame
      exact houter.ne_start_of_mem_tail hfound.inner (Option.some.inj hsame).symm
    have haddress : k.address = some (c.map.canonical r.instr.address) := by
      rw [haddress, hcanonical r hr, hstart]
    have hk := hreport k (.inl hk)
    have hdecoded := hof.decoded_instr hfound.outer
    rcases List.mem_append.1 ho with ho | ho
    · exact .overlap hk hkind haddress (hof.decoded_instr hr) hinner hdecoded hinside
        hdecoded (.inr hinside.1) (hof.covers hfound.outer ho)
    · obtain ⟨s, hs, ho⟩ := List.mem_flatMap.1 ho
      obtain ⟨hs, hstart⟩ := (hfound.members s).1 hs
      exact .overlap hk hkind haddress (hof.decoded_instr hr) hinner hdecoded hinside
        (hof.decoded_instr hs) (.inl (hstart ▸ (hof.decoded s hs).start)) (hof.covers hs ho)
  · exact .failure (hreport _ (.inl (hnote.failure u hu))) rfl rfl ho
  · obtain ⟨hs, x, hx, hkind, hsource⟩ := mem_unresolvedSpans.1 hs
    obtain ⟨k, hk, hkind, haddress⟩ := hsites.noted x hx hkind
    exact .unresolved (hreport k (.inr hk)) hkind (hsource ▸ haddress) (hof.decoded_instr hs)
      (hof.covers hs ho)

/-! ## From conflicts to bytes -/

/-- A conflict stands at a byte that a pass marks. -/
def Conflict.StandsAtSuspect (m : AddressMap) (t : Trace) (spans : List Span) (k : Conflict) :
    Prop :=
  ∃ a o, k.address = some a ∧ m.offset? a = some o ∧ t.Suspects m spans o

/-- **What is noted inside a trace is marked**, unless it is an instruction that leaves the
image. -/
theorem standsAtSuspect_of_mem_inTrace (hof : SpansOf c t spans)
    (hnote : t.NotedBy c.map spans inTrace)
    (hfail : ∀ n fault, (n, fault) ∈ t.failures → n.decode c = .error fault) {k : Conflict}
    (hk : k ∈ inTrace)
    (hreason : k.kind = .decodeFailure →
      ∀ detail, k.reason ≠ DecodeReason.outOfBounds.name ++ ": " ++ detail) :
    k.StandsAtSuspect c.map t spans := by
  rcases hnote.source k hk with ⟨x, hx, haddress, -⟩ | ⟨x, hx, haddress, -⟩ | ⟨u, hu, rfl⟩
  · have hfound := Clash.found_of_mem hx
    obtain ⟨s, hmem, -⟩ := hfound.widths .narrow
    obtain ⟨hs, hstart⟩ := (hfound.members s).1 hmem
    have hd := hof.decoded s hs
    refine ⟨_, x.start, haddress, ?_, .inl ⟨x, hx, ?_⟩⟩
    · exact AddressMap.offset?_shownAt (hstart ▸ hd.start_lt)
    · exact List.mem_flatMap.2 ⟨s, hmem, hstart ▸ hd.start_mem⟩
  · have hfound := Overlap.found_of_mem hx
    have hin := List.mem_of_mem_tail hfound.inner
    refine ⟨_, x.inner, haddress, ?_, .inr (.inl ⟨x, hx, List.mem_append_left _ hin⟩)⟩
    exact AddressMap.offset?_shownAt ((hof.decoded _ hfound.outer).lt_size hin)
  · obtain ⟨n, fault, hfault, hkey⟩ := Unreadable.exists_failure hu
    have hundefined : u.key.reason = .undefined := by
      cases hr : u.key.reason with
      | undefined => rfl
      | outOfBounds =>
        refine absurd ?_ (hreason rfl ((u.members.getLast?.map fun e => e.2.detail).getD ""))
        unfold Unreadable.conflict
        rw [hr]
    have hreason : fault.reason = .undefined := by rw [← hundefined, hkey]
    obtain ⟨o, ho⟩ := Node.exists_offset_of_undefined (hfail n fault hfault) hreason
    have ho : c.map.offset? u.key.address = some o := by rw [hkey]; exact ho
    exact ⟨_, o, rfl, ho, .inr (.inr (.inl ⟨u, hu, ho, .inl hundefined⟩))⟩

/-- What the trace itself notes is marked. -/
theorem standsAtSuspect_of_mem_conflicts (hof : SpansOf c t spans) (hsites : t.NotesSites)
    {k : Conflict} (hk : k ∈ t.conflicts) (hkind : k.kind ∈ ConflictKind.doubts) :
    k.StandsAtSuspect c.map t spans := by
  obtain ⟨-, n, i, hi, haddress, x, hx, hxkind, hsource⟩ := hsites.site k hk hkind
  obtain ⟨s, hs, rfl⟩ := (hof.mem i).2 ⟨n, hi⟩
  have hd := hof.decoded s hs
  refine ⟨_, s.start, haddress, hd.start, .inr (.inr (.inr ⟨s, ?_, hd.start_mem⟩))⟩
  exact mem_unresolvedSpans.2 ⟨hs, x, hx, hxkind, hsource⟩

/-! ## The report of an atlas -/

/-- A report holds what a trace notes and what contradicts itself in it, and nothing else that puts
a byte in doubt. -/
structure Report.Gathers (t : Trace) (inTrace : List Conflict) (report : Report) : Prop where
  mem : ∀ k, k ∈ inTrace ∨ k ∈ t.conflicts → k ∈ report.toList
  source : ∀ k ∈ report.toList, k.kind ∈ ConflictKind.doubts → k ∈ inTrace ∨ k ∈ t.conflicts

section

variable {given : Hints} {settings : TraceSettings} {checked : CheckedHints} {atlas : Atlas}

/-- What an atlas was made from. -/
theorem Atlas.OfSurvey.exists_gathers (h : atlas.OfSurvey c given settings checked t) :
    ∃ spans inTrace, SpansOf c t spans ∧
      Partition.ofClasses c.map (overlay (tracedClasses c.map t spans) (layers checked.ranges)) =
        .ok atlas.regions ∧
      t.NotedBy c.map spans inTrace ∧ atlas.report.Gathers t inTrace := by
  obtain ⟨rejected, conflicts, hc, hclassify, hadded⟩ := h.report_eq
  obtain ⟨spans, hspans, hclasses, inTrace, inHints, hinTrace, hinHints, rfl⟩ :=
    classify_eq_ok hclassify
  have hof := h.decodedFrom.spansOf hspans
  have hnote : t.NotedBy c.map spans inTrace := by
    obtain ⟨found, hfound, hnote⟩ := exists_tracedConflicts (t := t) hof.decoded
    obtain rfl := Except.ok.inj (hfound.symm.trans hinTrace)
    exact hnote
  have hkinds : ∀ k ∈ inHints, k.kind = .hintOverlap ∨ k.kind = .hintOverride := by
    obtain ⟨found, hfound, hkinds⟩ := exists_hintConflicts
      (fun s hs => h.sound.within s (mem_layers.1 hs)) (tracedClasses c.map t spans)
      (overlay (tracedClasses c.map t spans) (layers checked.ranges))
    obtain rfl := Except.ok.inj (hfound.symm.trans hinHints)
    exact hkinds
  have hrejected : ∀ k ∈ rejected, k.kind = .invalidHint := by
    have hends := given.check_ends (c := c)
    rw [hc] at hends
    exact fun k hk => (hends k hk).1
  have hmem : ∀ k, k ∈ atlas.report.toList ↔
      (k ∈ rejected ∨ k ∈ t.conflicts) ∨ k ∈ inTrace ∨ k ∈ inHints := by
    intro k
    unfold Report.toList
    rw [mem_sortUnique, hadded, List.mem_append, List.mem_append, List.mem_append]
  refine ⟨spans, inTrace, hof, hclasses, hnote, ?_, ?_⟩
  · rintro k (hk | hk)
    · exact (hmem k).2 (.inr (.inl hk))
    · exact (hmem k).2 (.inl (.inr hk))
  · intro k hk hkind
    rcases (hmem k).1 hk with (hk | hk) | hk | hk
    · exact absurd hkind (by simp [hrejected k hk, ConflictKind.doubts])
    · exact .inr hk
    · exact .inl hk
    · exact absurd hkind (by rcases hkinds k hk with h | h <;> simp [h, ConflictKind.doubts])

end

/-- **Nothing is settled silently**, in whatever order the trace went and wherever it was stopped.
In an atlas each ambiguous byte outside range hints is explained by an entry of the report, and each
entry that puts a byte in doubt, other than for an instruction that leaves the image, stands at a
byte that is ambiguous unless a range hint covers it. -/
theorem doubt_is_reported {given : Hints} {settings : TraceSettings} {checked : CheckedHints}
    {atlas : Atlas} (h : atlas.OfSurvey c given settings checked t) :
    (∀ (o : Nat) (r : Region), atlas.regions.regionOf o = .ok r → r.cls = .ambiguous →
      (∀ s ∈ checked.ranges, s.range.contains o = false) → atlas.report.Explains c.map t o) ∧
    ∀ k ∈ atlas.report.toList, k.kind ∈ ConflictKind.doubts →
      (k.kind = .decodeFailure →
        ∀ detail, k.reason ≠ DecodeReason.outOfBounds.name ++ ": " ++ detail) →
      ∃ a o, k.address = some a ∧ c.map.offset? a = some o ∧
        ((∀ s ∈ checked.ranges, s.range.contains o = false) →
          ∃ r, atlas.regions.regionOf o = .ok r ∧ r.cls = .ambiguous) := by
  obtain ⟨spans, inTrace, hof, hclasses, hnote, hgathers⟩ := h.exists_gathers
  have hw := h.sound.within
  have hsites := h.traced.notesSites
  constructor
  · intro o r hr hamb hno
    have hsuspect := (ambiguous_iff_suspects hw hclasses hr hno).1 hamb
    exact explains_of_suspects hof hnote hsites hgathers.mem hsuspect
  · intro k hk hkind hreason
    have hstands : k.StandsAtSuspect c.map t spans := by
      rcases hgathers.source k hk hkind with hk | hk
      · exact standsAtSuspect_of_mem_inTrace hof hnote
          (fun n fault => h.traced.decode_of_mem_failures) hk hreason
      · exact standsAtSuspect_of_mem_conflicts hof hsites hk hkind
    obtain ⟨a, o, haddress, ho, hsuspect⟩ := hstands
    refine ⟨a, o, haddress, ho, fun hno => ?_⟩
    obtain ⟨r, hr⟩ := Partition.exists_regionOf_of_ofClasses hclasses
      (AddressMap.lt_size_of_offset? ho)
    exact ⟨r, hr, (ambiguous_iff_suspects hw hclasses hr hno).2 hsuspect⟩

/-- The opcode without meaning. -/
def reservedCartridge : Cartridge :=
  ⟨⟨#[0x42], by decide⟩, ⟨.loRom, 1, .slow, by decide, by decide⟩, rfl⟩

theorem decode_reservedCartridge (s : WidthState) : Node.decode reservedCartridge ⟨0x8000, s⟩ =
    .error ⟨0x8000, .opcodeUndefined (0x42 : UInt8).toNat⟩ := by
  have hbyte : reservedCartridge.byteAt 0x8000 = .ok 0x42 := rfl
  have hshape : Shape.ofCode? ((0x42 : UInt8).toNat : Int) = none := by decide +kernel
  simp only [Node.decode, decode, hbyte, hshape]

theorem doubt_is_reported_reserved : ∃ atlas t,
    survey reservedCartridge startHints unlimitedSettings (.still false) = .ok atlas ∧
      atlas.OfSurvey reservedCartridge startHints unlimitedSettings startChecked t ∧
      (∃ r, atlas.regions.regionOf 0 = .ok r ∧ r.cls = .ambiguous) ∧
      atlas.report.Explains reservedCartridge.map t 0 := by
  have hshort : ∀ n, .int n ∈ startHints.parts → n.natAbs < 0x1000000 := by
    intro n hn
    simp only [Hints.parts, startHints, EntryHint.parts, List.flatMap_cons, List.flatMap_nil,
      List.append_nil, List.mem_cons, Value.int.injEq, List.not_mem_nil, or_false,
      reduceCtorEq] at hn
    rw [hn]
    decide
  have hsurvey :
      ∃ atlas, survey reservedCartridge startHints unlimitedSettings (.still false) = .ok atlas :=
    exists_survey (fun v => List.mem_singleton.1) hshort rfl
  have hc : startHints.check reservedCartridge = .ok (startChecked, []) := rfl
  obtain ⟨atlas, hs⟩ := hsurvey
  obtain ⟨t, ht, hof⟩ := exists_ofSurvey_of_check hc hs
  have hno : ∀ s ∈ CheckedHints.empty.ranges, s.range.contains (0 : Nat) = false :=
    fun s hs => absurd hs List.not_mem_nil
  -- the entry point is visited and has no meaning, so its byte is in doubt
  have hexact := exact_of_unlimited hc rfl rfl Watch.uncancelled_still ht
  have hvisited : ⟨0x8000, ⟨.narrow, [], none⟩⟩ ∈ t.visited :=
    hexact.least.1.seed _ (List.mem_append_right _ List.mem_cons_self)
  have hfail := (hexact.failures _ _).2 ⟨hvisited, decode_reservedCartridge _⟩
  have hdoubt : t.Doubts reservedCartridge.map 0 := .undefined hfail rfl (by decide +kernel)
  obtain ⟨conflicts, hclassify⟩ := hof.exists_classify
  obtain ⟨spans, -, hclasses, -⟩ := classify_eq_ok hclassify
  obtain ⟨r, hr⟩ := Partition.exists_regionOf_of_ofClasses hclasses (o := 0) (by decide)
  have hamb : r.cls = .ambiguous := by
    rw [cls_of_uncovered hof.decodedFrom hof.sound.within hclassify (by decide) hr hno,
      if_pos hdoubt]
  obtain ⟨hexplains, -⟩ := doubt_is_reported hof
  exact ⟨atlas, t, hs, hof, ⟨r, hr, hamb⟩, hexplains 0 r hr hamb hno⟩

end RomAtlas
