import RomAtlas.Proofs.Atlas.Total

/-!
# Which instructions are confirmed

Instructions are confirmed one after the other, and the first that passes takes its address. The
outcome does not depend on this: at one canonical address and under one pair of widths all
instructions have the same bytes, through whatever mirror they were reached and whatever was saved
on the way, so either all of them are code or none is.

* `Instruction.ReadFrom.isCode_congr`: **mirrors are code together.**
* `confirmed_exactly`: which addresses have a confirmed instruction, and which one it is.
-/

namespace RomAtlas

/-- All decoding at a canonical address was under one pair of widths. -/
def Trace.OneWidthAt (m : AddressMap) (t : Trace) (k : Int) : Prop :=
  ∀ e ∈ t.instructions, ∀ f ∈ t.instructions, m.canonical e.1.address = k →
    m.canonical f.1.address = k → e.1.state.widths = f.1.state.widths

/-- All bytes of an instruction are in regions of code. -/
def Instruction.IsCode (m : AddressMap) (regions : Partition) (i : Instruction) : Prop :=
  ∀ o, i.Covers m o → ∃ r, regions.regionOf o = .ok r ∧ r.cls = .code

/-- The confirmed instructions of an atlas are those beyond doubt. An address has one exactly if an
instruction was decoded there, all that were have one pair of widths, and its bytes are code, for
whichever of them. It is the one of the least node. Addresses stand in ascending order, and each is
canonical and shows a byte. -/
structure Atlas.ConfirmsExactly (c : Cartridge) (t : Trace) (atlas : Atlas) : Prop where
  mem_iff : ∀ k, k ∈ atlas.instructions ↔ ∃ n i, (n, i) ∈ t.instructions ∧
    c.map.canonical n.address = k ∧ t.OneWidthAt c.map k ∧ i.IsCode c.map atlas.regions
  same : ∀ n i n' i', (n, i) ∈ t.instructions → (n', i') ∈ t.instructions →
    c.map.canonical n.address = c.map.canonical n'.address →
    t.OneWidthAt c.map (c.map.canonical n.address) →
      (i.IsCode c.map atlas.regions ↔ i'.IsCode c.map atlas.regions)
  least : ∀ k i, atlas.instructions[k]? = some i → ∃ n, (n, i) ∈ t.instructions ∧
    n.decode c = .ok i ∧ c.map.canonical n.address = k ∧
      ∀ n' i', (n', i') ∈ t.instructions → c.map.canonical n'.address = k →
        (compare n n').isLE
  ascending : atlas.instructions.keys.Pairwise (· < ·)
  canonical : ∀ k ∈ atlas.instructions, c.map.shows k = true ∧ c.map.canonical k = k

variable {c : Cartridge} {t : Trace} {regions : Partition} {i j : Instruction} {k : Int}

/-! ## Bytes of code -/

theorem Instruction.ReadFrom.isAllCode_iff (h : i.ReadFrom c) (hmap : regions.map = c.map) :
    isAllCode regions i = true ↔ i.IsCode c.map regions := by
  constructor
  · intro hcode o ho
    exact exists_regionOf_of_isAllCode hmap hcode ho
  · intro hcode
    refine List.all_eq_true.2 fun k hk => decide_eq_true ?_
    have hk := List.mem_range.1 hk
    obtain ⟨o, ho⟩ := h.shown hk
    obtain ⟨r, hr, hcls⟩ := hcode o ⟨k, hk, ho⟩
    rw [Partition.classOf?_of_regionOf (hmap ▸ ho) hr, hcls]

/-- **Mirrors are code together.** Of two instructions with one first byte and one pair of widths,
both are code or none is. -/
theorem Instruction.ReadFrom.isCode_congr (hi : i.ReadFrom c) (hj : j.ReadFrom c)
    (hstart : c.map.offset? i.address = c.map.offset? j.address)
    (hw : i.state.widths = j.state.widths) : i.IsCode c.map regions ↔ j.IsCode c.map regions := by
  unfold Instruction.IsCode
  simp only [hi.covers_congr hj hstart hw]

/-! ## Entries of one address -/

section

variable {n n' : Node}

theorem Trace.DecodedFrom.address_eq (h : t.DecodedFrom c) (hi : (n, i) ∈ t.instructions) :
    i.address = n.address :=
  (Node.decode_eq_ok_iff.1 (h n i hi)).1

/-- The instructions of one canonical address are code together, if they have one pair of widths. -/
theorem Trace.DecodedFrom.isCode_congr (h : t.DecodedFrom c) (hi : (n, i) ∈ t.instructions)
    (hj : (n', j) ∈ t.instructions) (hn : c.map.canonical n.address = k)
    (hn' : c.map.canonical n'.address = k) (hone : t.OneWidthAt c.map k) :
    i.IsCode c.map regions ↔ j.IsCode c.map regions := by
  obtain ⟨hia, his, hir⟩ := Node.decode_eq_ok_iff.1 (h n i hi)
  obtain ⟨hja, hjs, hjr⟩ := Node.decode_eq_ok_iff.1 (h n' j hj)
  have hstart : c.map.offset? i.address = c.map.offset? j.address := by
    rw [hia, hja, ← c.map.offset?_canonical_eq n.address, ← c.map.offset?_canonical_eq n'.address,
      hn, hn']
  have hw : i.state.widths = j.state.widths := by
    rw [his, hjs]
    exact hone _ hi _ hj hn hn'
  exact hir.isCode_congr hjr hstart hw

/-- **The entry that is kept has the least node** of all that were decoded at its address. -/
theorem exists_least_of_confirmed (h : t.DecodedFrom c) (hmap : regions.map = c.map)
    (hk : (confirmed c.map t regions)[k]? = some i) :
    ∃ n, (n, i) ∈ t.instructions ∧ ∀ n' j, (n', j) ∈ t.instructions →
      c.map.canonical n'.address = k → (compare n n').isLE := by
  rw [getElem?_confirmed] at hk
  obtain ⟨⟨n, i⟩, hfind, rfl⟩ := Option.map_eq_some_iff.1 hk
  have hn : (n, i) ∈ t.instructions := mem_sortByNode.1 (List.mem_of_find?_eq_some hfind)
  obtain ⟨hcanon, hone, hcode⟩ := mayKeep_iff.1 (List.find?_some hfind)
  refine ⟨n, hn, fun n' j hj hn' => isLE_of_find?_sortByNode hfind hj ?_⟩
  -- the other entry would have been kept as well
  have hcode' : isAllCode regions j = true := by
    have hsame : i.IsCode c.map regions ↔ j.IsCode c.map regions :=
      h.isCode_congr hn hj (h.address_eq hn ▸ hcanon) hn' (single_iff.1 hone)
    rw [(h.readFrom hj).isAllCode_iff hmap, ← hsame, ← (h.readFrom hn).isAllCode_iff hmap]
    exact hcode
  refine mayKeep_iff.2 ⟨?_, hone, hcode'⟩
  rw [h.address_eq hj]
  exact hn'

end

/-! ## Surveys -/

section

variable {given : Hints} {settings : TraceSettings}

/-- **Exactly the instructions beyond doubt are confirmed**, in whatever order the trace went and
wherever it was stopped. -/
theorem Atlas.OfSurvey.confirmsExactly {checked : CheckedHints} {atlas : Atlas}
    (h : atlas.OfSurvey c given settings checked t) : atlas.ConfirmsExactly c t := by
  have hconf := h.instructions_eq
  have hmap := h.map_eq
  have hdecoded := h.decodedFrom
  have hmem : ∀ k, k ∈ atlas.instructions ↔ ∃ n i, (n, i) ∈ t.instructions ∧
      c.map.canonical n.address = k ∧ t.OneWidthAt c.map k ∧ i.IsCode c.map atlas.regions := by
    intro k
    rw [Std.TreeMap.mem_iff_isSome_getElem?, Option.isSome_iff_exists, hconf]
    constructor
    · rintro ⟨i, hi⟩
      have hi := confirmed_of_getElem? hi
      obtain ⟨n, hn⟩ := hi.traced
      refine ⟨n, i, hn, ?_, hi.single, ?_⟩
      · rw [← hdecoded.address_eq hn]
        exact hi.canonical
      · exact ((hdecoded.readFrom hn).isAllCode_iff hmap).1 hi.code
    · rintro ⟨n, i, hn, hk, hone, hcode⟩
      have hi : Confirmed c.map t atlas.regions k i := by
        refine ⟨⟨n, hn⟩, ?_, hone, ((hdecoded.readFrom hn).isAllCode_iff hmap).2 hcode⟩
        rw [hdecoded.address_eq hn]
        exact hk
      exact hi.exists_getElem?
  refine ⟨hmem, ?_, ?_, ?_, ?_⟩
  · intro n i n' i' hi hi' hk hone
    exact hdecoded.isCode_congr hi hi' rfl hk.symm hone
  · intro k i hk
    rw [hconf] at hk
    obtain ⟨n, hn, hleast⟩ := exists_least_of_confirmed hdecoded hmap hk
    refine ⟨n, hn, hdecoded n i hn, ?_, hleast⟩
    rw [← hdecoded.address_eq hn]
    exact (confirmed_of_getElem? hk).canonical
  · exact Std.TreeMap.ordered_keys.imp Int.compare_eq_lt.1
  · intro k hk
    obtain ⟨n, i, hn, rfl, -⟩ := (hmem k).1 hk
    obtain ⟨o, ho⟩ := (hdecoded.readFrom hn).exists_start
    rw [hdecoded.address_eq hn] at ho
    refine ⟨?_, c.map.canonical_canonical n.address⟩
    unfold AddressMap.shows
    rw [c.map.offset?_canonical_eq, ho]
    rfl

/-- **Exactly the instructions beyond doubt are confirmed**, in each atlas that a survey can make.
If names are texts, a survey returns one; it fails only if an integer of a hint or the step budget
is too long to be shown. -/
theorem confirmed_exactly (c : Cartridge) (hnames : ∀ v ∈ given.names, v.IsName)
    (settings : TraceSettings) :
    (∀ checked t (atlas : Atlas), atlas.OfSurvey c given settings checked t →
      atlas.ConfirmsExactly c t) ∧
    ∀ watch,
      (∃ atlas checked t, survey c given settings watch = .ok atlas ∧
        trace c checked settings watch = .ok t ∧ atlas.OfSurvey c given settings checked t ∧
        atlas.ConfirmsExactly c t) ∨
      survey c given settings watch = .error .integerTooLong ∧
        ((∃ n, .int n ∈ given.parts ∧ Numeral.IsLong n) ∨ settings.LongBudget) := by
  refine ⟨fun checked t atlas h => h.confirmsExactly, fun watch => ?_⟩
  rcases exists_survey_or_long (c := c) hnames settings watch with ⟨atlas, hs, -⟩ | hlong
  · obtain ⟨checked, t, ht, hof⟩ := exists_ofSurvey hs
    exact .inl ⟨atlas, checked, t, hs, ht, hof, hof.confirmsExactly⟩
  · exact .inr hlong

end

/-- Code starts at the second byte, which is given at two addresses, the canonical one last. Both
bytes are declared to be code. -/
def mirrorHints : Hints :=
  ⟨[⟨0x808001, .null, none⟩, ⟨0x8001, .null, none⟩], [], [⟨0x8000, 0x8001, .null⟩], []⟩

/-- What is left of `mirrorHints` where both bytes are in the image. -/
def mirrorChecked : CheckedHints where
  entryPoints := [⟨0x808001, none, .null⟩, ⟨0x8001, none, .null⟩]
  jumpTables := ∅
  returningSites := []
  ranges := [⟨⟨0, 2⟩, .code, 0, .null, 0x8000, .codeRange 0⟩]

/-- The return of `shortCartridge`, seen at an address. -/
def returnAt (a : Int) : Instruction :=
  ⟨a, 0x60, ⟨.rts, .implied, .leave⟩, [], ⟨.narrow, [], none⟩⟩

theorem decode_returnAt {a : Int} (h : shortCartridge.byteAt a = .ok 0x60) :
    Node.decode shortCartridge ⟨a, ⟨.narrow, [], none⟩⟩ = .ok (returnAt a) := by
  have hshape : Shape.ofCode? ((0x60 : UInt8).toNat : Int) = some ⟨.rts, .implied, .leave⟩ := by
    decide +kernel
  exact Node.decode_eq_ok_iff.2 ⟨rfl, rfl, h, hshape, rfl⟩

/-- Both addresses of the return are decoded, and nothing else is. -/
theorem instructions_mirrorHints {t : Trace}
    (ht : trace shortCartridge mirrorChecked unlimitedSettings (.still false) = .ok t) (n : Node)
    (i : Instruction) : (n, i) ∈ t.instructions ↔ (n.address = 0x8001 ∨ n.address = 0x808001) ∧
      n.state = ⟨.narrow, [], none⟩ ∧ i = returnAt n.address := by
  have hc : mirrorHints.check shortCartridge = .ok (mirrorChecked, []) := rfl
  have hexact := exact_of_unlimited hc rfl rfl Watch.uncancelled_still ht
  have hlow := decode_returnAt (a := 0x8001) rfl
  have hhigh := decode_returnAt (a := 0x808001) rfl
  have hseeds : (traceSeeds shortCartridge mirrorChecked unlimitedSettings).nodes =
    [⟨0x808001, ⟨.narrow, [], none⟩⟩, ⟨0x8001, ⟨.narrow, [], none⟩⟩] := rfl
  -- nothing follows a return, so the entry points are all that is visited
  let visited : Set Node := {n | (n.address = 0x8001 ∨ n.address = 0x808001) ∧
    n.state = ⟨.narrow, [], none⟩}
  have hdecode : ∀ n ∈ visited, n.decode shortCartridge = .ok (returnAt n.address) := by
    rintro ⟨a, s⟩ ⟨rfl | rfl, rfl⟩
    · exact hlow
    · exact hhigh
  have hclosed : FlowClosed shortCartridge mirrorChecked
      (traceSeeds shortCartridge mirrorChecked unlimitedSettings).nodes visited := by
    constructor
    · intro n hn
      rw [hseeds] at hn
      simp only [List.mem_cons, List.not_mem_nil, or_false] at hn
      rcases hn with rfl | rfl
      · exact ⟨.inr rfl, rfl⟩
      · exact ⟨.inl rfl, rfl⟩
    · intro n hn i hi k hk
      obtain rfl := Except.ok.inj ((hdecode n hn).symm.trans hi)
      have hnext : (successors shortCartridge.map (returnAt n.address) mirrorChecked).nodes = [] :=
        rfl
      rw [hnext] at hk
      cases hk
  have hall : ∀ n, n ∈ t.visited ↔ n ∈ visited := by
    intro n
    refine ⟨fun hn => hexact.least.2 hclosed hn, ?_⟩
    obtain ⟨a, s⟩ := n
    rintro ⟨rfl | rfl, rfl⟩
    · exact hexact.least.1.seed _ (by rw [hseeds]; simp)
    · exact hexact.least.1.seed _ (by rw [hseeds]; simp)
  rw [hexact.instructions, hall]
  constructor
  · rintro ⟨hn, hi⟩
    exact ⟨hn.1, hn.2, Except.ok.inj (hi.symm.trans (hdecode n hn))⟩
  · rintro ⟨haddress, hstate, rfl⟩
    exact ⟨⟨haddress, hstate⟩, hdecode n ⟨haddress, hstate⟩⟩

theorem confirmed_exactly_mirrored : (∀ v ∈ mirrorHints.names, v.IsName) ∧
    ∃ atlas, survey shortCartridge mirrorHints unlimitedSettings (.still false) = .ok atlas ∧
      atlas.instructions[(0x8001 : Int)]? = some (returnAt 0x8001) := by
  have hnull : ∀ v ∈ mirrorHints.names, v = .null := by
    intro v hv
    simpa [mirrorHints, Hints.names] using hv
  have hnames : ∀ v ∈ mirrorHints.names, v.IsName := by
    intro v hv
    rw [hnull v hv]
    exact nofun
  have hshort : ∀ n, .int n ∈ mirrorHints.parts → n.natAbs < 0x1000000 := by
    intro n hn
    have hn : n = 0x808001 ∨ n = 0x8001 ∨ n = 0x8000 ∨ n = 0x8001 := by
      simpa [mirrorHints, Hints.parts, EntryHint.parts, RangeHint.parts] using hn
    omega
  refine ⟨hnames, ?_⟩
  obtain ⟨-, hsurvey⟩ := confirmed_exactly shortCartridge hnames unlimitedSettings
  rcases hsurvey (.still false) with
    ⟨atlas, checked, t, hs, ht, hof, hexactly⟩ | ⟨-, ⟨n, hn, hlong⟩ | ⟨b, hb, -⟩⟩
  rotate_left
  · have hlt := hshort n hn
    exact absurd hlong (Numeral.not_isLong (by omega))
  · cases hb
  refine ⟨atlas, hs, ?_⟩
  have hchecked : mirrorHints.check shortCartridge = .ok (mirrorChecked, []) := rfl
  obtain ⟨rejected, hc, -⟩ := hof.made
  cases hchecked.symm.trans hc
  have hmem := instructions_mirrorHints ht
  have hlow := (hmem ⟨0x8001, ⟨.narrow, [], none⟩⟩ _).2 ⟨.inl rfl, rfl, rfl⟩
  have hone : t.OneWidthAt shortCartridge.map 0x8001 := by
    rintro ⟨n, i⟩ hn ⟨n', i'⟩ hn' - -
    rw [((hmem n i).1 hn).2.1, ((hmem n' i').1 hn').2.1]
  have hcode : (returnAt 0x8001).IsCode shortCartridge.map atlas.regions := by
    rw [← (hof.decodedFrom.readFrom hlow).isAllCode_iff hof.map_eq]
    refine hof.isAllCode_of_range (fun s hs => ?_) List.mem_cons_self rfl hlow
    rw [List.mem_singleton.1 hs]
  have hkey := (hexactly.mem_iff 0x8001).2 ⟨_, _, hlow, by decide +kernel, hone, hcode⟩
  obtain ⟨i, hi⟩ := Option.isSome_iff_exists.1 (Std.TreeMap.mem_iff_isSome_getElem?.1 hkey)
  obtain ⟨n, hn, -, -, hleast⟩ := hexactly.least _ _ hi
  have hle := hleast _ _ hlow (by decide +kernel)
  obtain ⟨haddress, hstate, rfl⟩ := (hmem n i).1 hn
  obtain ⟨a, s⟩ := n
  rcases haddress with rfl | rfl
  · exact hi
  · -- the other mirror stands behind
    subst hstate
    exact absurd hle (by decide)

end RomAtlas
