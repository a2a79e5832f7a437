import RomAtlas.Proofs.Atlas.Survey

/-!
# Code is decoded in one way

A byte that ends up as code, and not because a range hint says so, belongs to one decoding: all
instructions that cover it have the same first byte, the same widths and the same bytes. Two that
differ in one of these share a byte only if one starts inside the other or both start at one offset
under different widths, and then no byte of theirs is left as code.

* `code_decoded_in_one_way`: this, and that **confirmed instructions do not overlap** if no code
  range is declared.
-/

namespace RomAtlas

variable {c : Cartridge} {t : Trace} {spans : List Span} {o : Nat}

/-- Two instructions start at one byte, under the same widths, and have the same bytes. -/
structure Instruction.SameBytes (m : AddressMap) (i j : Instruction) : Prop where
  start : m.offset? i.address = m.offset? j.address
  widths : i.state.widths = j.state.widths
  covers : ∀ o, i.Covers m o ↔ j.Covers m o

/-- Two spans over a byte that is traced as code are the same. -/
theorem Span.Decoded.sameBytes_of_code {s r : Span} (hspans : ∀ s ∈ spans, s.Decoded c)
    (hcode : (tracedClasses c.map t spans)[o]? = some .code) (hs : s ∈ spans) (hr : r ∈ spans)
    (hso : o ∈ s.offsets) (hro : o ∈ r.offsets) : s.instr.SameBytes c.map r.instr := by
  obtain ⟨-, hclash, hoverlap, -⟩ := tracedClasses_eq_code_iff.1 hcode
  have hsd := hspans s hs
  have hrd := hspans r hr
  have hstart : s.start = r.start := by
    by_contra hne
    -- one of the two starts inside the other, so the overlap takes in both
    rcases hsd.start_mem_tail hrd hso hro hne with hin | hin
    · obtain ⟨x, hx, -, hmem⟩ := Overlap.exists_mem_of_start_mem_tail hs hr hin
      exact hoverlap x hx (List.mem_append_right _ (List.mem_flatMap.2 ⟨r, hmem, hro⟩))
    · obtain ⟨x, hx, -, hmem⟩ := Overlap.exists_mem_of_start_mem_tail hr hs hin
      exact hoverlap x hx (List.mem_append_right _ (List.mem_flatMap.2 ⟨s, hmem, hso⟩))
  have hwidths : s.widths = r.widths := by
    by_contra hne
    obtain ⟨x, hx, hmem⟩ := Clash.exists_mem_of_widths_ne hs hr hstart hne
    exact hclash x hx (List.mem_flatMap.2 ⟨s, hmem, hso⟩)
  have hfirst : c.map.offset? s.instr.address = c.map.offset? r.instr.address := by
    rw [hsd.start, hrd.start, hstart]
  exact ⟨hfirst, hwidths, fun p => hsd.readFrom.covers_congr hrd.readFrom hfirst hwidths⟩

/-! ## Classification -/

section

variable {hints : CheckedHints} {given : Hints} {regions : Partition} {conflicts : List Conflict}
  {r : Region}

/-- **A byte of code that no range hint covers was decoded, and in one way.** -/
theorem decoded_of_code (ht : t.DecodedFrom c) (hh : hints.Sound c.map given)
    (h : classify c.map t hints = .ok (regions, conflicts)) (hr : regions.regionOf o = .ok r)
    (hcode : r.cls = .code) (hno : ∀ s ∈ hints.ranges, s.range.contains o = false) :
    (∃ n i, (n, i) ∈ t.instructions ∧ i.Covers c.map o) ∧
      ∀ n i k j, (n, i) ∈ t.instructions → (k, j) ∈ t.instructions → i.Covers c.map o →
        j.Covers c.map o → i.SameBytes c.map j := by
  obtain ⟨spans, hspans, hclasses, -⟩ := classify_eq_ok h
  obtain ⟨hdecoded, hmem⟩ := ht.spansOf hspans
  have htraced := traced_of_uncovered hh.within hclasses hr hno
  rw [hcode] at htraced
  constructor
  · obtain ⟨⟨-, s, hs, hso⟩, -⟩ := tracedClasses_eq_code_iff.1 htraced
    obtain ⟨n, hn⟩ := (hmem s.instr).1 ⟨s, hs, rfl⟩
    exact ⟨n, s.instr, hn, (hdecoded s hs).mem_offsets_iff_covers.1 hso⟩
  · intro n i k j hi hj hio hjo
    obtain ⟨s, hs, rfl⟩ := (hmem i).2 ⟨n, hi⟩
    obtain ⟨q, hq, rfl⟩ := (hmem j).2 ⟨k, hj⟩
    exact Span.Decoded.sameBytes_of_code hdecoded htraced hs hq
      ((hdecoded s hs).mem_offsets_iff_covers.2 hio) ((hdecoded q hq).mem_offsets_iff_covers.2 hjo)

/-- Without code ranges, a range hint leaves no code below it. -/
theorem uncovered_of_code (hh : hints.Sound c.map given) (hnone : given.codeRanges = [])
    (h : classify c.map t hints = .ok (regions, conflicts)) (hr : regions.regionOf o = .ok r)
    (hcode : r.cls = .code) : ∀ s ∈ hints.ranges, s.range.contains o = false := by
  obtain ⟨spans, -, hclasses, -⟩ := classify_eq_ok h
  refine (exists_range_or_uncovered hh.within hclasses hr).resolve_left ?_
  rintro ⟨s, hs, -, hcls⟩
  have hdata : s.cls = .data := (hh.cls s hs).resolve_right fun h => h.2 hnone
  rw [hdata, hcode] at hcls
  cases hcls

end

/-! ## Confirmed instructions -/

/-- No two of the instructions that are kept by address share a byte. -/
def Apart (m : AddressMap) (instructions : Std.TreeMap Int Instruction) : Prop :=
  ∀ (k l : Int) (i j : Instruction), instructions[k]? = some i → instructions[l]? = some j →
    k ≠ l → ∀ o, ¬ (i.Covers m o ∧ j.Covers m o)

/-- **Without code ranges the instructions that are confirmed from decoded ones do not overlap.** -/
theorem apart_confirmed {hints : CheckedHints} {given : Hints} {regions : Partition}
    {conflicts : List Conflict} (ht : t.DecodedFrom c) (hh : hints.Sound c.map given)
    (hnone : given.codeRanges = []) (h : classify c.map t hints = .ok (regions, conflicts)) :
    Apart c.map (confirmed c.map t regions) := by
  rintro k l i j hi hj hne o ⟨hio, hjo⟩
  have hi := confirmed_of_getElem? hi
  have hj := confirmed_of_getElem? hj
  obtain ⟨spans, -, hclasses, -⟩ := classify_eq_ok h
  obtain ⟨r, hr, hcode⟩ := hi.exists_regionOf (Partition.regions_of_ofClasses hclasses).1 hio
  have hno := uncovered_of_code hh hnone h hr hcode
  obtain ⟨n, hn⟩ := hi.traced
  obtain ⟨n', hn'⟩ := hj.traced
  have hsame := (decoded_of_code ht hh h hr hcode hno).2 n i n' j hn hn' hio hjo
  -- one start means one canonical address, by which both are kept
  refine hne ?_
  rw [← hi.canonical, ← hj.canonical]
  obtain ⟨first, hfirst⟩ := (ht.readFrom hn).exists_start
  exact AddressMap.canonical_congr hfirst (hsame.start ▸ hfirst)

/-- **Code is decoded in one way.** A byte that is left as code outside range hints is covered by a
decoded instruction, and all that cover it agree in start, widths and bytes. So the instructions
that are confirmed do not overlap, if no code range was declared: those of any trace that holds
decoded instructions, of any run wherever it was stopped, and of a survey. -/
theorem code_decoded_in_one_way {given : Hints} {checked : CheckedHints}
    {rejected : List Conflict} (hc : given.check c = .ok (checked, rejected)) :
    (∀ t, t.DecodedFrom c → ∀ regions conflicts,
      classify c.map t checked = .ok (regions, conflicts) →
      ∀ (o : Nat) (r : Region), regions.regionOf o = .ok r → r.cls = .code →
      (∀ s ∈ checked.ranges, s.range.contains o = false) →
        (∃ n i, (n, i) ∈ t.instructions ∧ i.Covers c.map o) ∧
        ∀ n i k j, (n, i) ∈ t.instructions → (k, j) ∈ t.instructions → i.Covers c.map o →
          j.Covers c.map o → i.SameBytes c.map j) ∧
    (given.codeRanges = [] →
      (∀ t, t.DecodedFrom c → ∀ regions conflicts,
        classify c.map t checked = .ok (regions, conflicts) →
        Apart c.map (confirmed c.map t regions)) ∧
      (∀ settings t (a : Atlas), a.OfSurvey c given settings checked t →
        Apart c.map a.instructions) ∧
      ∀ settings watch (a : Atlas), survey c given settings watch = .ok a →
        Apart c.map a.instructions) := by
  have hh := Hints.check_sound hc
  refine ⟨fun t ht regions conflicts h o r hr hcode hno => decoded_of_code ht hh h hr hcode hno,
    fun hnone => ?_⟩
  have hapart : ∀ checked settings t (a : Atlas), a.OfSurvey c given settings checked t →
      Apart c.map a.instructions := by
    intro checked settings t a ha
    obtain ⟨conflicts, hclassify⟩ := ha.exists_classify
    rw [ha.instructions_eq]
    exact apart_confirmed ha.decodedFrom ha.sound hnone hclassify
  refine ⟨fun t ht regions conflicts h => apart_confirmed ht hh hnone h, hapart checked, ?_⟩
  intro settings watch a hs
  obtain ⟨checked, t, -, ha⟩ := exists_ofSurvey hs
  exact hapart checked settings t a ha

/-- A trace that met one byte at two addresses. -/
def mirroredTrace : Trace :=
  ⟨[(⟨0x8000, ⟨.narrow, [], none⟩⟩, idleAt 0x8000),
    (⟨0x808000, ⟨.narrow, [], none⟩⟩, idleAt 0x808000)], [], [], [], false, 2⟩

theorem mirroredTrace_decodedFrom : mirroredTrace.DecodedFrom shortCartridge := by
  intro n i hi
  rcases List.mem_cons.1 hi with he | hi
  · cases he
    exact decode_idleAt rfl _
  · cases List.mem_singleton.1 hi
    exact decode_idleAt rfl _

theorem classify_mirroredTrace : ∃ regions,
    classify shortCartridge.map mirroredTrace .empty = .ok (regions, []) ∧
      regions.regionOf 0 = .ok ⟨0, 1, .code⟩ := by
  let spans : List Span := [⟨idleAt 0x8000, [0]⟩, ⟨idleAt 0x808000, [0]⟩]
  have hspans : mirroredTrace.spans shortCartridge.map = .ok spans := by
    have hsort : sortByNode mirroredTrace.instructions = mirroredTrace.instructions :=
      List.mergeSort_of_pairwise (by decide)
    rw [Trace.spans, hsort]
    rfl
  have hclash : Clash.find spans = [] := by
    have hstarts : sortUnique (spans.map Span.start) = [0] := by
      rw [sortUnique, List.mergeSort_of_pairwise (by decide)]
      rfl
    have hgroup : (groupBy Span.start spans).getD 0 [] = spans := by rw [getD_groupBy]; rfl
    have hwidths : countDistinct (spans.map Span.widths) = 1 := rfl
    simp [Clash.find, hstarts, hgroup, hwidths]
  have hoverlap : Overlap.find spans = [] := rfl
  have hfailures : Unreadable.find mirroredTrace.failures = [] := by
    simp [Unreadable.find, mirroredTrace, sortUnique, dropRepeats]
  have hsites : unresolvedSpans mirroredTrace.xrefs spans = [] := by
    simp [unresolvedSpans, mirroredTrace]
  have hlayers : layers CheckedHints.empty.ranges = [] := by
    simp [layers, CheckedHints.empty]
  have htraced : tracedClasses shortCartridge.map mirroredTrace spans = #[.code, .unknown] := by
    rw [tracedClasses, hclash, hoverlap, hfailures, hsites]
    rfl
  have hconflicts : tracedConflicts shortCartridge.map mirroredTrace spans = .ok [] := by
    rw [tracedConflicts, hclash, hoverlap, hfailures]
    rfl
  have hhints : ∀ classes, hintConflicts shortCartridge.map [] classes classes = .ok [] := by
    intro classes
    rw [hintConflicts, mergeRanges, List.map_nil, List.mergeSort_nil]
    rfl
  refine ⟨⟨shortCartridge.map, #[⟨0, 1, .code⟩, ⟨1, 2, .unknown⟩],
    ⟨rfl, by decide, rfl, by decide, rfl⟩⟩, ?_,
    Partition.regionOf_eq_ok_iff.2 ⟨by simp, rfl⟩⟩
  refine bind_eq_ok.2 ⟨spans, hspans, bind_eq_ok.2 ⟨[], hconflicts, bind_eq_ok.2 ⟨[], ?_, ?_⟩⟩⟩
  · rw [hlayers, htraced]
    exact hhints _
  · rw [hlayers, htraced]
    rfl

theorem code_decoded_in_one_way_mirrored :
    Hints.empty.check shortCartridge = .ok (.empty, []) ∧
      mirroredTrace.DecodedFrom shortCartridge ∧
      (∃ regions, classify shortCartridge.map mirroredTrace .empty = .ok (regions, []) ∧
        regions.regionOf 0 = .ok ⟨0, 1, .code⟩) ∧
      (idleAt 0x8000).SameBytes shortCartridge.map (idleAt 0x808000) := by
  have hc : Hints.empty.check shortCartridge = .ok (.empty, []) := rfl
  have ht := mirroredTrace_decodedFrom
  obtain ⟨regions, hclassify, hr⟩ := classify_mirroredTrace
  refine ⟨hc, ht, ⟨regions, hclassify, hr⟩, ?_⟩
  have hno : ∀ s ∈ CheckedHints.empty.ranges, s.range.contains 0 = false :=
    fun s hs => absurd hs List.not_mem_nil
  obtain ⟨-, hsame⟩ := (code_decoded_in_one_way hc).1 _ ht _ _ hclassify 0 _ hr rfl hno
  exact hsame _ _ _ _ List.mem_cons_self (List.mem_cons_of_mem _ List.mem_cons_self)
    ⟨0, by decide, by decide +kernel⟩ ⟨0, by decide, by decide +kernel⟩

end RomAtlas
