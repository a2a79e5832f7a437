import RomAtlas.Proofs.Atlas.Total

/-!
# Confirmed instructions have one pair of widths

An address that was reached under several widths has no confirmed instruction, at any of its
mirrors. If all of these widths can be decoded, they are compared. If one of them leads out of the
image, the byte is ambiguous, and only a range of code can make it code again.

* `unconfirmed_under_two_widths`: both of these.
* `confirmed_despite_failure`: **a range of code does confirm an instruction that was also reached
  under widths that cannot be decoded**, since those are not compared.
-/

namespace RomAtlas

variable {c : Cartridge} {given : Hints} {settings : TraceSettings}

/-- Where a confirmed instruction was also reached under widths that cannot be decoded, a range of
code covers its first byte. -/
theorem Atlas.OfSurvey.exists_codeRange {checked : CheckedHints} {t : Trace} {atlas : Atlas}
    {key : Int} {i : Instruction} (hof : atlas.OfSurvey c given settings checked t)
    (h : Confirmed c.map t atlas.regions key i) {n : Node} {fault : DecodeFault}
    (hn : (n, fault) ∈ t.failures) (hkey : c.map.canonical n.address = key) :
    ∃ s ∈ checked.ranges, s.cls = .code ∧
      ∃ o, c.map.offset? n.address = some o ∧ s.range.contains o = true := by
  have hw := hof.sound.within
  obtain ⟨conflicts, hclassify⟩ := hof.exists_classify
  obtain ⟨spans, -, hclasses, -⟩ := classify_eq_ok hclassify
  obtain ⟨p, hp⟩ := h.traced
  have hread := hof.decodedFrom.readFrom hp
  obtain ⟨o, ho⟩ := hread.exists_start
  have hon : c.map.offset? n.address = some o :=
    AddressMap.offset?_of_canonical_eq ho (hkey.trans h.canonical.symm)
  obtain ⟨r, hr, hcode⟩ := h.exists_regionOf hof.map_eq (hread.covers_start ho)
  rcases exists_range_or_uncovered hw hclasses hr with ⟨s, hs, hover, hcls⟩ | hno
  · exact ⟨s, hs, hcls.trans hcode, o, hon, hover⟩
  · -- the failure marked the byte, so the trace did not leave it as code
    have htraced := traced_of_uncovered hw hclasses hr hno
    rw [hcode] at htraced
    obtain ⟨-, -, -, hreadable, -⟩ := tracedClasses_eq_code_iff.1 htraced
    obtain ⟨u, hu, hu'⟩ := Unreadable.exists_mem_find hn
    exact absurd hon (by simpa [hu'] using hreadable u hu)

/-- **No instruction is confirmed under two pairs of widths**, in whatever order the trace went and
wherever it was stopped. Where it visited one address, at any of its mirrors, under different
widths, the atlas has no instruction, if both were decoded or no range of code covers the byte. -/
theorem unconfirmed_under_two_widths {checked : CheckedHints} {t : Trace} {atlas : Atlas}
    (hof : atlas.OfSurvey c given settings checked t) :
    ∀ n ∈ t.visited, ∀ k ∈ t.visited, c.map.canonical n.address = c.map.canonical k.address →
      n.state.widths ≠ k.state.widths →
      (n ∈ t.instructions.map Prod.fst ∧ k ∈ t.instructions.map Prod.fst) ∨
        (∀ s ∈ checked.ranges, s.cls = .code →
          ∀ o : Nat, c.map.offset? n.address = some o → s.range.contains o = false) →
      atlas.instructions[c.map.canonical n.address]? = none := by
  intro n hn k hk hsame hne hwhy
  rw [Option.eq_none_iff_forall_ne_some]
  intro i hi
  rw [hof.instructions_eq] at hi
  have hi := confirmed_of_getElem? hi
  have hsingle : ∀ q r : Node, q ∈ t.instructions.map Prod.fst → r ∈ t.instructions.map Prod.fst →
      c.map.canonical q.address = c.map.canonical n.address →
      c.map.canonical r.address = c.map.canonical n.address → q.state.widths = r.state.widths := by
    intro q r hq hr hqn hrn
    obtain ⟨e, he, rfl⟩ := List.mem_map.1 hq
    obtain ⟨f, hf, rfl⟩ := List.mem_map.1 hr
    exact hi.single e he f hf hqn hrn
  rcases hwhy with ⟨hn', hk'⟩ | hnone
  · exact hne (hsingle n k hn' hk' rfl hsame.symm)
  · -- a node that failed would need a range of code
    have hdecoded : ∀ q ∈ t.visited, c.map.canonical q.address = c.map.canonical n.address →
        q ∈ t.instructions.map Prod.fst := by
      intro q hq hqn
      refine hq.resolve_right fun hfail => ?_
      obtain ⟨⟨_, fault⟩, hmem, rfl⟩ := List.mem_map.1 hfail
      obtain ⟨s, hs, hcls, o, ho, hover⟩ := hof.exists_codeRange hi hmem hqn
      have hon := AddressMap.offset?_of_canonical_eq ho hqn.symm
      rw [hnone s hs hcls o hon] at hover
      cases hover
    exact hne (hsingle n k (hdecoded n hn rfl) (hdecoded k hk hsame.symm) rfl hsame.symm)

/-- The first byte is reached under two pairs of widths, and both bytes are declared to be code. -/
def forcedHints : Hints :=
  ⟨[⟨0x8000, .null, some .narrow⟩, ⟨0x8000, .null, some ⟨true, false⟩⟩], [],
    [⟨0x8000, 0x8001, .null⟩], []⟩

/-- What is left of `forcedHints` where both bytes are in the image. -/
def forcedChecked : CheckedHints where
  entryPoints := [⟨0x8000, some ⟨.narrow, [], none⟩, .null⟩,
    ⟨0x8000, some ⟨⟨true, false⟩, [], none⟩, .null⟩]
  jumpTables := ∅
  returningSites := []
  ranges := [⟨⟨0, 2⟩, .code, 0, .null, 0x8000, .codeRange 0⟩]

theorem exists_survey_forcedHints (c : Cartridge) :
    ∃ atlas, survey c forcedHints unlimitedSettings (.still false) = .ok atlas := by
  refine exists_survey (fun v hv => ?_) (fun n hn => ?_) rfl
  · simpa [forcedHints, Hints.names] using hv
  · have hn : n = 0x8000 ∨ n = 0x8001 := by
      simpa [forcedHints, Hints.parts, EntryHint.parts, RangeHint.parts] using hn
    omega

theorem visited_forcedHints {t : Trace} (hc : forcedHints.check c = .ok (forcedChecked, []))
    (ht : trace c forcedChecked unlimitedSettings (.still false) = .ok t) :
    ⟨0x8000, ⟨.narrow, [], none⟩⟩ ∈ t.visited ∧
      ⟨0x8000, ⟨⟨true, false⟩, [], none⟩⟩ ∈ t.visited := by
  have hseed := (exact_of_unlimited hc rfl rfl Watch.uncancelled_still ht).least.1.seed
  exact ⟨hseed _ (List.mem_append_right _ List.mem_cons_self),
    hseed _ (List.mem_append_right _ (List.mem_cons_of_mem _ List.mem_cons_self))⟩

theorem unconfirmed_under_two_widths_short : ∃ atlas t,
    survey shortCartridge forcedHints unlimitedSettings (.still false) = .ok atlas ∧
      atlas.OfSurvey shortCartridge forcedHints unlimitedSettings forcedChecked t ∧
      ⟨0x8000, ⟨.narrow, [], none⟩⟩ ∈ t.visited ∧
      ⟨0x8000, ⟨⟨true, false⟩, [], none⟩⟩ ∈ t.visited ∧
      atlas.instructions[(0x8000 : Int)]? = none := by
  have hc : forcedHints.check shortCartridge = .ok (forcedChecked, []) := rfl
  obtain ⟨atlas, hs⟩ := exists_survey_forcedHints shortCartridge
  obtain ⟨t, ht, hof⟩ := exists_ofSurvey_of_check hc hs
  obtain ⟨hn, hk⟩ := visited_forcedHints hc ht
  refine ⟨atlas, t, hs, hof, hn, hk, ?_⟩
  -- the first instruction does nothing and is decoded under all widths
  have hdecoded : ∀ s, ⟨0x8000, s⟩ ∈ t.visited →
      (⟨0x8000, s⟩ : Node) ∈ t.instructions.map Prod.fst := by
    intro s hs
    have hexact := exact_of_unlimited hc rfl rfl Watch.uncancelled_still ht
    exact List.mem_map.2 ⟨_, (hexact.instructions _ _).2 ⟨hs, decode_idleAt rfl s⟩, rfl⟩
  exact unconfirmed_under_two_widths hof _ hn _ hk rfl (by decide)
    (.inl ⟨hdecoded _ hn, hdecoded _ hk⟩)

/-! ## Widths that cannot be decoded -/

/-- An instruction that loads one byte or, under wide registers, goes on past the end. -/
def loadCartridge : Cartridge :=
  ⟨⟨#[0xa9, 0x10], by decide⟩, shortCartridge.map, rfl⟩

/-- The instruction of `loadCartridge`. -/
def loadByte : Instruction :=
  ⟨0x8000, 0xa9, ⟨.lda, .immediateM, .sequential⟩, [0x10], ⟨.narrow, [], none⟩⟩

theorem decode_loadCartridge :
    Node.decode loadCartridge ⟨0x8000, ⟨.narrow, [], none⟩⟩ = .ok loadByte ∧
      (∃ fault, Node.decode loadCartridge ⟨0x8000, ⟨⟨true, false⟩, [], none⟩⟩ = .error fault) ∧
      ∃ fault, Node.decode loadCartridge ⟨0x8002, ⟨.narrow, [], none⟩⟩ = .error fault := by
  have hbyte : loadCartridge.byteAt 0x8000 = .ok 0xa9 := rfl
  have hshape : Shape.ofCode? ((0xa9 : UInt8).toNat : Int) =
      some ⟨.lda, .immediateM, .sequential⟩ := by
    decide +kernel
  have hlong : ∃ fault, loadCartridge.bytesFrom (stepInBank 0x8000 1) 2 = .error fault := ⟨_, rfl⟩
  have hpast : ∃ fault, loadCartridge.byteAt 0x8002 = .error fault := ⟨_, rfl⟩
  obtain ⟨fault, hlong⟩ := hlong
  obtain ⟨fault', hpast⟩ := hpast
  refine ⟨Node.decode_eq_ok_iff.2 ⟨rfl, rfl, hbyte, hshape, rfl⟩, ?_, ?_⟩
  · refine ⟨⟨0x8000, .operandUnread .lda fault⟩, ?_⟩
    have hbytes : Addressing.operandBytes ⟨true, false⟩ .immediateM = 2 := rfl
    simp only [Node.decode, decode, hbyte, hshape, Addressing.fetch_eq, hbytes, hlong]
  · refine ⟨⟨0x8002, .opcodeUnread fault'⟩, ?_⟩
    simp only [Node.decode, decode, hpast]

/-- Only the first of the two entry points of `loadCartridge` is decoded. -/
theorem decoded_loadCartridge {t : Trace}
    (ht : trace loadCartridge forcedChecked unlimitedSettings (.still false) = .ok t) :
    ∀ e ∈ t.instructions, e.1 = ⟨0x8000, ⟨.narrow, [], none⟩⟩ := by
  have hc : forcedHints.check loadCartridge = .ok (forcedChecked, []) := rfl
  have hexact := exact_of_unlimited hc rfl rfl Watch.uncancelled_still ht
  obtain ⟨hload, ⟨_, hwide⟩, ⟨_, hpast⟩⟩ := decode_loadCartridge
  -- the nodes that are visited: the entry points, and what follows the first
  let visited : Set Node := {n | n = ⟨0x8000, ⟨.narrow, [], none⟩⟩ ∨
    n = ⟨0x8000, ⟨⟨true, false⟩, [], none⟩⟩ ∨ n = ⟨0x8002, ⟨.narrow, [], none⟩⟩}
  have hclosed : FlowClosed loadCartridge forcedChecked
      (traceSeeds loadCartridge forcedChecked unlimitedSettings).nodes visited := by
    constructor
    · intro n hn
      have hseeds : (traceSeeds loadCartridge forcedChecked unlimitedSettings).nodes =
        [⟨0x8000, ⟨.narrow, [], none⟩⟩, ⟨0x8000, ⟨⟨true, false⟩, [], none⟩⟩] := rfl
      rw [hseeds] at hn
      simp only [List.mem_cons, List.not_mem_nil, or_false] at hn
      exact hn.imp id .inl
    · rintro n (rfl | rfl | rfl) i hi k hk
      · obtain rfl := Except.ok.inj (hload.symm.trans hi)
        have hnext : (successors loadCartridge.map loadByte forcedChecked).nodes =
          [⟨0x8002, ⟨.narrow, [], none⟩⟩] := rfl
        rw [hnext] at hk
        exact .inr (.inr (List.mem_singleton.1 hk))
      · rw [hwide] at hi
        cases hi
      · rw [hpast] at hi
        cases hi
  rintro ⟨n, i⟩ he
  obtain ⟨hvisited, hi⟩ := (hexact.instructions n i).1 he
  rcases hexact.least.2 hclosed hvisited with rfl | rfl | rfl
  · rfl
  · rw [hwide] at hi
    cases hi
  · rw [hpast] at hi
    cases hi

/-- An instruction is confirmed, by a range of code, at an address that was also reached under
widths that lead out of the image. -/
theorem confirmed_despite_failure :
    ∃ atlas t, survey loadCartridge forcedHints unlimitedSettings (.still false) = .ok atlas ∧
      trace loadCartridge forcedChecked unlimitedSettings (.still false) = .ok t ∧
      ∃ n ∈ t.visited, ∃ k ∈ t.visited,
        loadCartridge.map.canonical n.address = loadCartridge.map.canonical k.address ∧
        n.state.widths ≠ k.state.widths ∧
        ∃ i, atlas.instructions[loadCartridge.map.canonical n.address]? = some i := by
  have hc : forcedHints.check loadCartridge = .ok (forcedChecked, []) := rfl
  obtain ⟨atlas, hs⟩ := exists_survey_forcedHints loadCartridge
  obtain ⟨t, ht, hof⟩ := exists_ofSurvey_of_check hc hs
  obtain ⟨hn, hk⟩ := visited_forcedHints hc ht
  refine ⟨atlas, t, hs, ht, _, hn, _, hk, rfl, by decide, loadByte, ?_⟩
  have hexact := exact_of_unlimited hc rfl rfl Watch.uncancelled_still ht
  have hmem := (hexact.instructions _ _).2 ⟨hn, decode_loadCartridge.1⟩
  -- the range makes both bytes code
  refine hof.getElem?_of_only (fun s hs => ?_) List.mem_cons_self rfl hmem (decoded_loadCartridge ht)
  rw [List.mem_singleton.1 hs]

end RomAtlas
