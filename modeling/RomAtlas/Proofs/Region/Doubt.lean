import RomAtlas.Proofs.Region.UniqueCode

/-!
# What a trace says of a byte

Five passes over the image mark bytes, in a fixed order, and one of them reads what those before it
wrote. What they leave does not depend on the order: a byte is in doubt for one of five reasons
(`Trace.Doubts`), each of which speaks of the instructions, the failures and the cross references of
the trace alone.

* `suspects_iff_doubts`: **the passes find exactly the bytes in doubt.**
* `class_of_uncovered_byte`: the class of each byte outside range hints.
-/

namespace RomAtlas

/-- An instruction was decoded somewhere in a trace. -/
def Trace.Decoded (t : Trace) (i : Instruction) : Prop := ∃ n, (n, i) ∈ t.instructions

/-- Two instructions start at different offsets, and one of them starts inside the other. -/
def Instruction.Collides (m : AddressMap) (i j : Instruction) : Prop :=
  ∃ p q, m.offset? i.address = some p ∧ m.offset? j.address = some q ∧ p ≠ q ∧
    (i.Covers m q ∨ j.Covers m p)

/-- The reasons to doubt the byte at an offset. -/
inductive Trace.Doubts (m : AddressMap) (t : Trace) (o : Nat) : Prop
  /-- An instruction over the byte was decoded under other widths too. -/
  | widths {i j : Instruction} (hi : t.Decoded i) (hj : t.Decoded j) (ho : i.Covers m o)
      (hstart : m.offset? i.address = m.offset? j.address) (hw : i.state.widths ≠ j.state.widths)
  /-- An instruction over the byte starts inside another one, or another one inside it. -/
  | collision {i j : Instruction} (hi : t.Decoded i) (hj : t.Decoded j) (ho : i.Covers m o)
      (h : i.Collides m j)
  /-- The byte is an opcode without meaning. -/
  | undefined {n : Node} {fault : DecodeFault} (h : (n, fault) ∈ t.failures)
      (hreason : fault.reason = .undefined) (ho : m.offset? n.address = some o)
  /-- An instruction that starts at the byte leaves the image, and another one has the byte. -/
  | outOfBounds {n : Node} {fault : DecodeFault} {i : Instruction} (h : (n, fault) ∈ t.failures)
      (hreason : fault.reason = .outOfBounds) (hat : m.offset? n.address = some o)
      (hi : t.Decoded i) (ho : i.Covers m o)
  /-- It is not known where an instruction over the byte goes. -/
  | unresolved {i : Instruction} {x : Xref} (hi : t.Decoded i) (ho : i.Covers m o)
      (hx : x ∈ t.xrefs) (hkind : x.kind = .indirectUnresolved) (hsource : x.source = i.address)

variable {c : Cartridge} {t : Trace} {spans : List Span} {s : Span} {o : Nat}

/-! ## Spans -/

/-- An instruction is shorter than a block, so it does not come back to its start. -/
theorem Span.Decoded.ne_start_of_mem_tail (h : s.Decoded c) {p : Nat} (hp : p ∈ s.offsets.tail) :
    p ≠ s.start := by
  have hlength := h.readFrom.length_le
  rw [h.offsets, ← List.map_tail, List.tail_range, List.mem_map] at hp
  obtain ⟨k, hk, rfl⟩ := hp
  obtain ⟨j, hj, rfl⟩ := List.mem_range'.1 hk
  unfold Layout.stepInBlock Layout.blockSize
  cases c.map.layout <;> dsimp only <;> omega

namespace SpansOf

theorem decoded_instr (h : SpansOf c t spans) (hs : s ∈ spans) : t.Decoded s.instr :=
  (h.mem s.instr).1 ⟨s, hs, rfl⟩

theorem covers (h : SpansOf c t spans) (hs : s ∈ spans) (ho : o ∈ s.offsets) :
    s.instr.Covers c.map o :=
  (h.decoded s hs).mem_offsets_iff_covers.1 ho

theorem mem_offsets (h : SpansOf c t spans) (hs : s ∈ spans) (ho : s.instr.Covers c.map o) :
    o ∈ s.offsets :=
  (h.decoded s hs).mem_offsets_iff_covers.2 ho

theorem covered_iff (h : SpansOf c t spans) :
    (∃ s ∈ spans, o ∈ s.offsets) ↔ ∃ i, t.Decoded i ∧ i.Covers c.map o := by
  constructor
  · rintro ⟨s, hs, ho⟩
    exact ⟨s.instr, h.decoded_instr hs, h.covers hs ho⟩
  · rintro ⟨i, hi, ho⟩
    obtain ⟨s, hs, rfl⟩ := (h.mem i).2 hi
    exact ⟨s, hs, h.mem_offsets hs ho⟩

end SpansOf

/-! ## The bytes in doubt -/

/-- What a pass marks is in doubt. -/
theorem doubts_of_suspects (h : SpansOf c t spans) (ho : t.Suspects c.map spans o) :
    t.Doubts c.map o := by
  rcases ho with ⟨x, hx, ho⟩ | ⟨x, hx, ho⟩ | ⟨u, hu, hat, hread⟩ | ⟨s, hs, ho⟩
  · have hfound := Clash.found_of_mem hx
    obtain ⟨s, hs, ho⟩ := List.mem_flatMap.1 ho
    obtain ⟨r, hr, hne⟩ := hfound.widths s.widths
    obtain ⟨hs, hstart⟩ := (hfound.members s).1 hs
    obtain ⟨hr, hstart'⟩ := (hfound.members r).1 hr
    refine .widths (h.decoded_instr hs) (h.decoded_instr hr) (h.covers hs ho) ?_ (Ne.symm hne)
    rw [(h.decoded s hs).start, (h.decoded r hr).start, hstart, hstart']
  · have hfound := Overlap.found_of_mem hx
    have houter := h.decoded x.outer hfound.outer
    have hne := houter.ne_start_of_mem_tail hfound.inner
    have hin := h.covers hfound.outer (List.mem_of_mem_tail hfound.inner)
    rcases List.mem_append.1 ho with ho | ho
    · obtain ⟨r, hr⟩ := hfound.nonempty
      obtain ⟨hr, hstart⟩ := (hfound.members r).1 hr
      exact .collision (h.decoded_instr hfound.outer) (h.decoded_instr hr)
        (h.covers hfound.outer ho)
        ⟨_, x.inner, houter.start, hstart ▸ (h.decoded r hr).start, hne.symm, .inl hin⟩
    · obtain ⟨r, hr, ho⟩ := List.mem_flatMap.1 ho
      obtain ⟨hr, hstart⟩ := (hfound.members r).1 hr
      exact .collision (h.decoded_instr hr) (h.decoded_instr hfound.outer) (h.covers hr ho)
        ⟨x.inner, _, hstart ▸ (h.decoded r hr).start, houter.start, hne, .inr hin⟩
  · obtain ⟨n, fault, hfault, hkey⟩ := Unreadable.exists_failure hu
    rw [hkey] at hat hread
    cases hreason : fault.reason with
    | undefined => exact .undefined hfault hreason hat
    | outOfBounds =>
      obtain ⟨i, hi, ho⟩ := h.covered_iff.1 (hread.resolve_left (by simp [hreason]))
      exact .outOfBounds hfault hreason hat hi ho
  · obtain ⟨hs, x, hx, hkind, hsource⟩ := mem_unresolvedSpans.1 hs
    exact .unresolved (h.decoded_instr hs) (h.covers hs ho) hx hkind hsource

/-- What is in doubt is marked by a pass. -/
theorem suspects_of_doubts (h : SpansOf c t spans) (ho : t.Doubts c.map o) :
    t.Suspects c.map spans o := by
  cases ho with
  | widths hi hj ho hstart hw =>
    obtain ⟨s, hs, rfl⟩ := (h.mem _).2 hi
    obtain ⟨r, hr, rfl⟩ := (h.mem _).2 hj
    rw [(h.decoded s hs).start, (h.decoded r hr).start, Option.some.injEq] at hstart
    obtain ⟨x, hx, hmem⟩ := Clash.exists_mem_of_widths_ne hs hr hstart hw
    exact .inl ⟨x, hx, List.mem_flatMap.2 ⟨s, hmem, h.mem_offsets hs ho⟩⟩
  | collision hi hj ho hcol =>
    obtain ⟨s, hs, rfl⟩ := (h.mem _).2 hi
    obtain ⟨r, hr, rfl⟩ := (h.mem _).2 hj
    obtain ⟨p, q, hp, hq, hne, hin⟩ := hcol
    obtain rfl := Option.some.inj ((h.decoded s hs).start.symm.trans hp)
    obtain rfl := Option.some.inj ((h.decoded r hr).start.symm.trans hq)
    have ho := h.mem_offsets hs ho
    rcases hin with hin | hin
    · have hin := Span.mem_tail_offsets (h.mem_offsets hs hin) hne.symm
      obtain ⟨x, hx, hstart, -⟩ := Overlap.exists_mem_of_start_mem_tail hs hr hin
      have houter := (Overlap.found_of_mem hx).outer
      -- the overlap may stand for a span with the same start; one of other widths is a clash
      by_cases hw : s.widths = x.outer.widths
      · rw [(h.decoded s hs).offsets_congr (h.decoded _ houter) hstart.symm hw] at ho
        exact .inr (.inl ⟨x, hx, List.mem_append_left _ ho⟩)
      · obtain ⟨y, hy, hmem⟩ := Clash.exists_mem_of_widths_ne hs houter hstart.symm hw
        exact .inl ⟨y, hy, List.mem_flatMap.2 ⟨s, hmem, ho⟩⟩
    · have hin := Span.mem_tail_offsets (h.mem_offsets hr hin) hne
      obtain ⟨x, hx, -, hmem⟩ := Overlap.exists_mem_of_start_mem_tail hr hs hin
      exact .inr (.inl ⟨x, hx, List.mem_append_right _ (List.mem_flatMap.2 ⟨s, hmem, ho⟩)⟩)
  | undefined hfault hreason ho =>
    obtain ⟨u, hu, hkey⟩ := Unreadable.exists_mem_find hfault
    exact .inr (.inr (.inl ⟨u, hu, by rw [hkey]; exact ho, .inl (by rw [hkey]; exact hreason)⟩))
  | outOfBounds hfault _ hat hi ho =>
    obtain ⟨u, hu, hkey⟩ := Unreadable.exists_mem_find hfault
    exact .inr (.inr (.inl ⟨u, hu, by rw [hkey]; exact hat, .inr (h.covered_iff.2 ⟨_, hi, ho⟩)⟩))
  | unresolved hi ho hx hkind hsource =>
    obtain ⟨s, hs, rfl⟩ := (h.mem _).2 hi
    exact .inr (.inr (.inr
      ⟨s, mem_unresolvedSpans.2 ⟨hs, _, hx, hkind, hsource⟩, h.mem_offsets hs ho⟩))

/-- **The passes find exactly the bytes in doubt**, in whatever order they come. -/
theorem suspects_iff_doubts (h : SpansOf c t spans) :
    t.Suspects c.map spans o ↔ t.Doubts c.map o :=
  ⟨doubts_of_suspects h, suspects_of_doubts h⟩

/-! ## The class of a byte -/

section

variable {hints : CheckedHints} {regions : Partition} {conflicts : List Conflict} {r : Region}

open Classical in
/-- Outside range hints, the class of a byte is what the trace says of it. -/
theorem cls_of_uncovered (ht : t.DecodedFrom c)
    (hw : ∀ s ∈ hints.ranges, s.range.Within c.map.size)
    (h : classify c.map t hints = .ok (regions, conflicts)) (ho : o < c.map.size)
    (hr : regions.regionOf o = .ok r) (hno : ∀ s ∈ hints.ranges, s.range.contains o = false) :
    r.cls = if t.Doubts c.map o then .ambiguous
      else if ∃ i, t.Decoded i ∧ i.Covers c.map o then .code else .unknown := by
  obtain ⟨spans, hspans, hclasses, -⟩ := classify_eq_ok h
  have hof := ht.spansOf hspans
  have htraced := traced_of_uncovered hw hclasses hr hno
  rw [getElem?_tracedClasses ho, Option.some.injEq] at htraced
  rw [← htraced]
  simp only [suspects_iff_doubts hof, hof.covered_iff]

end

/-- **The class of each byte outside range hints.** It is ambiguous exactly if it is in doubt, code
exactly if it is not in doubt and an instruction covers it, unknown if none does, and never data.
The ranges of checked hints lie in the image. -/
theorem class_of_uncovered_byte {t : Trace} (ht : t.DecodedFrom c) {hints : CheckedHints}
    (hw : ∀ s ∈ hints.ranges, s.range.Within c.map.size) :
    ∃ regions conflicts, classify c.map t hints = .ok (regions, conflicts) ∧
      ∀ o < c.map.size, (∀ s ∈ hints.ranges, s.range.contains o = false) →
        ∃ r, regions.regionOf o = .ok r ∧
          (r.cls = .ambiguous ↔ t.Doubts c.map o) ∧
          (r.cls = .code ↔ ¬ t.Doubts c.map o ∧ ∃ i, t.Decoded i ∧ i.Covers c.map o) ∧
          (r.cls = .unknown ↔ ¬ t.Doubts c.map o ∧ ∀ i, t.Decoded i → ¬ i.Covers c.map o) ∧
          r.cls ≠ .data := by
  obtain ⟨regions, conflicts, h, -⟩ := exists_classify ht hw
  refine ⟨regions, conflicts, h, fun o ho hno => ?_⟩
  obtain ⟨spans, -, hclasses, -⟩ := classify_eq_ok h
  obtain ⟨r, hr⟩ := Partition.exists_regionOf_of_ofClasses hclasses ho
  refine ⟨r, hr, ?_⟩
  rw [cls_of_uncovered ht hw h ho hr hno]
  by_cases hdoubt : t.Doubts c.map o
  · simp [hdoubt]
  · by_cases hcover : ∃ i, t.Decoded i ∧ i.Covers c.map o
    · simp [hdoubt, hcover]
    · rw [if_neg hdoubt, if_neg hcover]
      simpa [hdoubt] using hcover

/-- A trace that met one byte at two addresses, under different widths. -/
def tornTrace : Trace :=
  ⟨[(⟨0x8000, ⟨.narrow, [], none⟩⟩, idleAt 0x8000),
    (⟨0x808000, ⟨⟨true, true⟩, [], none⟩⟩,
      { idleAt 0x808000 with state := ⟨⟨true, true⟩, [], none⟩ })], [], [], [], false, 2⟩

/-- The second byte is data. -/
def tailHints : CheckedHints :=
  { CheckedHints.empty with ranges := [⟨⟨1, 2⟩, .data, 0, .null, 0x8001, .dataRange 0⟩] }

theorem tornTrace_decodedFrom : tornTrace.DecodedFrom shortCartridge := by
  intro n i hi
  rcases List.mem_cons.1 hi with he | hi
  · cases he
    exact decode_idleAt rfl _
  · cases List.mem_singleton.1 hi
    exact decode_idleAt rfl _

theorem class_of_uncovered_byte_torn :
    tornTrace.DecodedFrom shortCartridge ∧
      (∀ s ∈ tailHints.ranges, s.range.Within shortCartridge.map.size) ∧
      ∃ regions conflicts, classify shortCartridge.map tornTrace tailHints =
        .ok (regions, conflicts) ∧ ∃ r, regions.regionOf 0 = .ok r ∧ r.cls = .ambiguous := by
  have hw : ∀ s ∈ tailHints.ranges, s.range.Within shortCartridge.map.size := by
    intro s hs
    obtain rfl := List.mem_singleton.1 hs
    exact ⟨by decide, by decide, by decide⟩
  have hno : ∀ s ∈ tailHints.ranges, s.range.contains (0 : Nat) = false := by
    intro s hs
    obtain rfl := List.mem_singleton.1 hs
    decide
  refine ⟨tornTrace_decodedFrom, hw, ?_⟩
  obtain ⟨regions, conflicts, h, hall⟩ := class_of_uncovered_byte tornTrace_decodedFrom hw
  obtain ⟨r, hr, hdoubt, -⟩ := hall 0 (by decide) hno
  refine ⟨regions, conflicts, h, r, hr, hdoubt.2 ?_⟩
  exact .widths ⟨_, List.mem_cons_self⟩ ⟨_, List.mem_cons_of_mem _ List.mem_cons_self⟩
    ⟨0, by decide, by decide +kernel⟩ (by decide +kernel) (by decide)

end RomAtlas
