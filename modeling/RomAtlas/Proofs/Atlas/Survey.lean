import RomAtlas.Atlas
import RomAtlas.Proofs.Region.Classification
import RomAtlas.Proofs.Trace.Exact

/-!
# How an atlas is made

A survey checks the hints, traces, classifies, and keeps the instructions beyond doubt. Its workers
go in any order, and its trace may be stopped anywhere: `Atlas.OfSurvey` is what such a survey can
make, and what `survey` returns is one of these (`exists_ofSurvey`).

* `Trace.OfRun.decodedFrom`: the trace of a survey holds decoded instructions only.
* `getElem?_confirmed`: the first entry of an address that may be kept is kept.
* `confirmed_of_getElem?`: **what a confirmed instruction is.** It was decoded under one pair of
  widths at its canonical address, and all of its bytes are code (`Confirmed.exists_regionOf`).
-/

namespace RomAtlas

variable {c : Cartridge} {m : AddressMap} {t : Trace} {regions : Partition} {k : Int}
  {i : Instruction} {o : Nat}

section

variable {given : Hints} {checked : CheckedHints} {settings : TraceSettings} {watch : Watch}
  {a : Atlas}

/-- The instructions of a run are decoded, wherever it was stopped. -/
theorem Fleet.Run.decodedFrom {seeds : Edges} {moves : List Move} {f : Fleet}
    (h : Fleet.Run c checked seeds moves f) (stopped : Option String) :
    (f.machine.toTrace stopped).DecodedFrom c := by
  intro n i hi
  exact (h.ok.records.mem_instructions.1 (mem_sortByNode.1 hi)).2

theorem Trace.OfRun.decodedFrom (h : t.OfRun c checked settings) : t.DecodedFrom c := by
  obtain ⟨moves, f, stopped, hrun, -, rfl⟩ := h
  exact hrun.decodedFrom stopped

/-- The failures of a run are those of its nodes, wherever it was stopped. -/
theorem Trace.OfRun.decode_of_mem_failures (h : t.OfRun c checked settings) {n : Node}
    {fault : DecodeFault} (hf : (n, fault) ∈ t.failures) : n.decode c = .error fault := by
  obtain ⟨moves, f, stopped, hrun, -, rfl⟩ := h
  exact (hrun.ok.records.mem_failures.1 (mem_sortByNode.1 hf)).2

/-! ## Stages -/

theorem Atlas.ofTrace_eq_ok {rejected : List Conflict}
    (h : Atlas.ofTrace c checked rejected t = .ok a) :
    ∃ conflicts, classify c.map t checked = .ok (a.regions, conflicts) ∧
      a.instructions = confirmed c.map t a.regions ∧
      a.labels = labelsFor c.map t.xrefs checked (some a.regions) ∧
      a.report.added = rejected ++ t.conflicts ++ conflicts ∧ a.truncated = t.truncated := by
  unfold Atlas.ofTrace at h
  obtain ⟨⟨regions, conflicts⟩, hclassify, h⟩ := bind_eq_ok.1 h
  cases h
  exact ⟨conflicts, hclassify, rfl, rfl, rfl, rfl⟩

/-- The atlases that surveys of given hints can make, with the hints that were accepted and the
trace: the workers go in any order, and the run is at its end or was stopped anywhere, by a budget,
the clock or a cancellation. -/
structure Atlas.OfSurvey (c : Cartridge) (given : Hints) (settings : TraceSettings)
    (checked : CheckedHints) (t : Trace) (a : Atlas) : Prop where
  traced : t.OfRun c checked settings
  made : ∃ rejected, given.check c = .ok (checked, rejected) ∧
    Atlas.ofTrace c checked rejected t = .ok a

theorem exists_ofSurvey_of_check {rejected : List Conflict}
    (hc : given.check c = .ok (checked, rejected)) (h : survey c given settings watch = .ok a) :
    ∃ t, trace c checked settings watch = .ok t ∧ a.OfSurvey c given settings checked t := by
  unfold survey at h
  obtain ⟨found, hfound, h⟩ := bind_eq_ok.1 h
  obtain rfl := Except.ok.inj (hc.symm.trans hfound)
  obtain ⟨t, ht, h⟩ := bind_eq_ok.1 h
  exact ⟨t, ht, ofRun_of_trace hc ht, rejected, hc, h⟩

/-- **A survey makes one of the atlases of surveys.** -/
theorem exists_ofSurvey (h : survey c given settings watch = .ok a) :
    ∃ checked t, trace c checked settings watch = .ok t ∧
      a.OfSurvey c given settings checked t := by
  obtain ⟨⟨checked, rejected⟩, hc, -⟩ := bind_eq_ok.1 h
  exact ⟨checked, exists_ofSurvey_of_check hc h⟩

namespace Atlas.OfSurvey

variable (h : a.OfSurvey c given settings checked t)
include h

theorem sound : checked.Sound c.map given := by
  obtain ⟨rejected, hc, -⟩ := h.made
  exact Hints.check_sound hc

theorem decodedFrom : t.DecodedFrom c := h.traced.decodedFrom

theorem exists_classify : ∃ conflicts, classify c.map t checked = .ok (a.regions, conflicts) := by
  obtain ⟨rejected, -, hmade⟩ := h.made
  obtain ⟨conflicts, hclassify, -⟩ := Atlas.ofTrace_eq_ok hmade
  exact ⟨conflicts, hclassify⟩

theorem instructions_eq : a.instructions = confirmed c.map t a.regions := by
  obtain ⟨rejected, -, hmade⟩ := h.made
  obtain ⟨-, -, hinstructions, -⟩ := Atlas.ofTrace_eq_ok hmade
  exact hinstructions

theorem labels_eq : a.labels = labelsFor c.map t.xrefs checked (some a.regions) := by
  obtain ⟨rejected, -, hmade⟩ := h.made
  obtain ⟨-, -, -, hlabels, -⟩ := Atlas.ofTrace_eq_ok hmade
  exact hlabels

theorem truncated_eq : a.truncated = t.truncated := by
  obtain ⟨rejected, -, hmade⟩ := h.made
  obtain ⟨-, -, -, -, -, htruncated⟩ := Atlas.ofTrace_eq_ok hmade
  exact htruncated

theorem map_eq : a.regions.map = c.map := by
  obtain ⟨conflicts, hclassify⟩ := h.exists_classify
  obtain ⟨spans, -, hclasses, -⟩ := classify_eq_ok hclassify
  exact (Partition.regions_of_ofClasses hclasses).1

/-- The report has the rejected hints, what the trace noted and what was found when bytes were
classified. -/
theorem report_eq : ∃ rejected conflicts, given.check c = .ok (checked, rejected) ∧
    classify c.map t checked = .ok (a.regions, conflicts) ∧
    a.report.added = rejected ++ t.conflicts ++ conflicts := by
  obtain ⟨rejected, hc, hmade⟩ := h.made
  obtain ⟨conflicts, hclassify, -, -, hadded, -⟩ := Atlas.ofTrace_eq_ok hmade
  exact ⟨rejected, conflicts, hc, hclassify, hadded⟩

end Atlas.OfSurvey

end

/-! ## Widths at an address -/

/-- One step of `decodedWidths`. -/
def noteWidths (m : AddressMap) (table : Std.HashMap Int (List Widths))
    (entry : Node × Instruction) : Std.HashMap Int (List Widths) :=
  table.alter (m.canonical entry.1.address) fun ws =>
    let ws := ws.getD []
    some (if ws.contains entry.1.state.widths then ws else entry.1.state.widths :: ws)

theorem decodedWidths_eq (m : AddressMap) (entries : List (Node × Instruction)) :
    decodedWidths m entries = entries.foldl (noteWidths m) ∅ := rfl

theorem mem_getD_noteWidths {table : Std.HashMap Int (List Widths)} {entry : Node × Instruction}
    {w : Widths} :
    w ∈ (noteWidths m table entry).getD k [] ↔
      w ∈ table.getD k [] ∨ m.canonical entry.1.address = k ∧ entry.1.state.widths = w := by
  unfold noteWidths
  rw [Std.HashMap.getD_alter]
  by_cases hk : m.canonical entry.1.address = k
  · subst hk
    rw [if_pos BEq.rfl, ← Std.HashMap.getD_eq_getD_getElem?]
    dsimp only [Option.getD_some]
    by_cases hmem : entry.1.state.widths ∈ table.getD (m.canonical entry.1.address) []
    · rw [if_pos (List.contains_iff_mem.2 hmem)]
      exact ⟨.inl, fun h => h.elim id fun hw => hw.2 ▸ hmem⟩
    · rw [if_neg fun h => hmem (List.contains_iff_mem.1 h), List.mem_cons]
      exact ⟨fun h => h.symm.imp id fun hw => ⟨rfl, hw.symm⟩,
        fun h => h.symm.imp (fun hw => hw.2.symm) id⟩
  · rw [if_neg fun h => hk (beq_iff_eq.1 h)]
    exact ⟨.inl, fun h => h.elim id fun hw => absurd hw.1 hk⟩

theorem mem_decodedWidths {entries : List (Node × Instruction)} {w : Widths} :
    w ∈ (decodedWidths m entries).getD k [] ↔
      ∃ e ∈ entries, m.canonical e.1.address = k ∧ e.1.state.widths = w := by
  have key : ∀ table : Std.HashMap Int (List Widths),
      w ∈ (entries.foldl (noteWidths m) table).getD k [] ↔
        w ∈ table.getD k [] ∨
          ∃ e ∈ entries, m.canonical e.1.address = k ∧ e.1.state.widths = w := by
    induction entries with
    | nil => simp
    | cons e entries ih =>
      intro table
      rw [List.foldl_cons, ih, mem_getD_noteWidths, or_assoc, List.exists_mem_cons_iff]
  rw [decodedWidths_eq, key]
  simp

theorem nodup_decodedWidths {entries : List (Node × Instruction)} :
    ((decodedWidths m entries).getD k []).Nodup := by
  have key : ∀ table : Std.HashMap Int (List Widths), (table.getD k []).Nodup →
      ((entries.foldl (noteWidths m) table).getD k []).Nodup := by
    induction entries with
    | nil => exact fun _ h => h
    | cons e entries ih =>
      intro table h
      refine ih _ ?_
      unfold noteWidths
      rw [Std.HashMap.getD_alter]
      split
      · next hk =>
        obtain rfl := beq_iff_eq.1 hk
        rw [← Std.HashMap.getD_eq_getD_getElem?]
        dsimp only [Option.getD_some]
        split
        · exact h
        · next hnew => exact List.nodup_cons.2 ⟨fun hw => hnew (List.contains_iff_mem.2 hw), h⟩
      · exact h
  rw [decodedWidths_eq]
  exact key ∅ (by simp)

/-- All decoding at a canonical address was under one pair of widths exactly if it was counted
so. -/
theorem length_decodedWidths_le_one {entries : List (Node × Instruction)} :
    ((decodedWidths m entries).getD k []).length ≤ 1 ↔
      ∀ e ∈ entries, ∀ f ∈ entries, m.canonical e.1.address = k → m.canonical f.1.address = k →
        e.1.state.widths = f.1.state.widths := by
  constructor
  · intro hone e he f hf hek hfk
    have hew := mem_decodedWidths.2 ⟨e, he, hek, rfl⟩
    have hfw := mem_decodedWidths.2 ⟨f, hf, hfk, rfl⟩
    match hws : (decodedWidths m entries).getD k [] with
    | [] => rw [hws] at hew; cases hew
    | [w] =>
      rw [hws, List.mem_singleton] at hew hfw
      exact hew.trans hfw.symm
    | _ :: _ :: _ =>
      rw [hws] at hone
      simp at hone
  · intro hall
    match hws : (decodedWidths m entries).getD k [] with
    | [] => exact Nat.zero_le 1
    | [w] => exact Nat.le_refl 1
    | v :: w :: rest =>
      -- two members of the list would be the widths of two nodes
      have hnodup : ((decodedWidths m entries).getD k []).Nodup := nodup_decodedWidths
      have hv : v ∈ (decodedWidths m entries).getD k [] := by rw [hws]; simp
      have hw : w ∈ (decodedWidths m entries).getD k [] := by rw [hws]; simp
      obtain ⟨e, he, hek, rfl⟩ := mem_decodedWidths.1 hv
      obtain ⟨f, hf, hfk, rfl⟩ := mem_decodedWidths.1 hw
      rw [hws, hall e he f hf hek hfk] at hnodup
      simp at hnodup

/-! ## Confirmed instructions -/

/-- What a confirmed instruction is: one of the trace, kept by its canonical address, at which all
decoding was under one pair of widths, and with all of its bytes code. -/
structure Confirmed (m : AddressMap) (t : Trace) (regions : Partition) (k : Int)
    (i : Instruction) : Prop where
  traced : ∃ n, (n, i) ∈ t.instructions
  canonical : m.canonical i.address = k
  single : ∀ e ∈ t.instructions, ∀ f ∈ t.instructions, m.canonical e.1.address = k →
    m.canonical f.1.address = k → e.1.state.widths = f.1.state.widths
  code : isAllCode regions i = true

/-- One step of `confirmed`, by the widths at each address. -/
def confirm (m : AddressMap) (regions : Partition) (widths : Std.HashMap Int (List Widths))
    (found : Std.TreeMap Int Instruction) (e : Node × Instruction) : Std.TreeMap Int Instruction :=
  let address := m.canonical e.2.address
  if found.contains address || 1 < (widths.getD address []).length then found
  else if isAllCode regions e.2 then found.insert address e.2
  else found

theorem confirmed_eq (m : AddressMap) (t : Trace) (regions : Partition) :
    confirmed m t regions = (sortByNode t.instructions).foldl
      (confirm m regions (decodedWidths m (sortByNode t.instructions))) ∅ := rfl

theorem single_iff :
    ((decodedWidths m (sortByNode t.instructions)).getD k []).length ≤ 1 ↔
      ∀ e ∈ t.instructions, ∀ f ∈ t.instructions, m.canonical e.1.address = k →
        m.canonical f.1.address = k → e.1.state.widths = f.1.state.widths := by
  rw [length_decodedWidths_le_one]
  simp only [mem_sortByNode]

/-- Whether an entry may be kept under an address. -/
def mayKeep (m : AddressMap) (regions : Partition) (widths : Std.HashMap Int (List Widths))
    (k : Int) (e : Node × Instruction) : Bool :=
  m.canonical e.2.address = k && (widths.getD k []).length ≤ 1 && isAllCode regions e.2

section

variable {widths : Std.HashMap Int (List Widths)} {found : Std.TreeMap Int Instruction}
  {e : Node × Instruction}

theorem mayKeep_iff : mayKeep m regions widths k e = true ↔ m.canonical e.2.address = k ∧
    (widths.getD k []).length ≤ 1 ∧ isAllCode regions e.2 = true := by
  unfold mayKeep
  rw [Bool.and_eq_true, Bool.and_eq_true, decide_eq_true_iff, decide_eq_true_iff, and_assoc]

/-- One step keeps what was found, and fills a free address with an entry that may be kept. -/
theorem getElem?_confirm : (confirm m regions widths found e)[k]? =
    (found[k]?).or (if mayKeep m regions widths k e then some e.2 else none) := by
  unfold confirm
  dsimp only
  by_cases hk : m.canonical e.2.address = k
  · rw [hk, Std.TreeMap.contains_eq_isSome_getElem?]
    cases hfound : found[k]? with
    | some i => simp [hfound]
    | none =>
      by_cases hone : (widths.getD k []).length ≤ 1
      · have hfew : ¬ 1 < (widths.getD k []).length := Nat.not_lt.2 hone
        by_cases hcode : isAllCode regions e.2 = true
        · simp [mayKeep, hk, hone, hfew, hcode]
        · simp [mayKeep, hfew, hcode, hfound]
      · have hmany : 1 < (widths.getD k []).length := Nat.lt_of_not_le hone
        simp [mayKeep, hone, hmany, hfound]
  · have hkeep : mayKeep m regions widths k e = false := by simp [mayKeep, hk]
    rw [hkeep, if_neg Bool.false_ne_true, Option.or_none]
    split
    · rfl
    split
    · rw [Std.TreeMap.getElem?_insert, if_neg]
      exact fun heq => hk (Std.LawfulEqOrd.eq_of_compare heq)
    · rfl

theorem getElem?_foldl_confirm (l : List (Node × Instruction)) :
    (l.foldl (confirm m regions widths) found)[k]? =
      (found[k]?).or ((l.find? (mayKeep m regions widths k)).map Prod.snd) := by
  induction l generalizing found with
  | nil => simp
  | cons e l ih =>
    rw [List.foldl_cons, ih, getElem?_confirm, Option.or_assoc, List.find?_cons]
    by_cases hkeep : mayKeep m regions widths k e = true
    · simp [hkeep]
    · simp [hkeep]

end

/-- **The first entry of an address that may be kept is confirmed.** -/
theorem getElem?_confirmed : (confirmed m t regions)[k]? =
    ((sortByNode t.instructions).find?
      (mayKeep m regions (decodedWidths m (sortByNode t.instructions)) k)).map Prod.snd := by
  rw [confirmed_eq, getElem?_foldl_confirm, Std.TreeMap.getElem?_emptyc, Option.none_or]

theorem confirmed_of_getElem? (h : (confirmed m t regions)[k]? = some i) :
    Confirmed m t regions k i := by
  rw [getElem?_confirmed] at h
  obtain ⟨⟨n, j⟩, hfind, rfl⟩ := Option.map_eq_some_iff.1 h
  obtain ⟨hk, hone, hcode⟩ := mayKeep_iff.1 (List.find?_some hfind)
  exact ⟨⟨n, mem_sortByNode.1 (List.mem_of_find?_eq_some hfind)⟩, hk, single_iff.1 hone, hcode⟩

/-- **An instruction beyond doubt is confirmed**, or another one at its canonical address is. -/
theorem Confirmed.exists_getElem? (h : Confirmed m t regions k i) :
    ∃ j, (confirmed m t regions)[k]? = some j := by
  obtain ⟨n, hn⟩ := h.traced
  have hkeep : mayKeep m regions (decodedWidths m (sortByNode t.instructions)) k (n, i) = true :=
    mayKeep_iff.2 ⟨h.canonical, single_iff.2 h.single, h.code⟩
  have hfound := List.find?_isSome.2 ⟨(n, i), mem_sortByNode.2 hn, hkeep⟩
  rw [getElem?_confirmed]
  exact Option.isSome_iff_exists.1 (by rwa [Option.isSome_map])

/-- The bytes of an instruction that is all code are in regions of code. -/
theorem exists_regionOf_of_isAllCode (hmap : regions.map = m) (hcode : isAllCode regions i = true)
    (ho : i.Covers m o) : ∃ r, regions.regionOf o = .ok r ∧ r.cls = .code := by
  obtain ⟨j, hj, hshown⟩ := ho
  have hall := List.all_eq_true.1 hcode j (List.mem_range.2 hj)
  have hclass := of_decide_eq_true hall
  unfold Partition.classOf? Partition.region? at hclass
  rw [hmap, hshown] at hclass
  obtain ⟨r, hr, hcls⟩ := Option.map_eq_some_iff.1 hclass
  refine ⟨r, ?_, hcls⟩
  dsimp only [Option.bind_some] at hr
  cases he : regions.regionOf o with
  | ok found => rw [he] at hr; cases hr; rfl
  | error fault => rw [he] at hr; cases hr

/-- All bytes of a confirmed instruction are in regions of code. -/
theorem Confirmed.exists_regionOf (h : Confirmed m t regions k i) (hmap : regions.map = m)
    (ho : i.Covers m o) : ∃ r, regions.regionOf o = .ok r ∧ r.cls = .code :=
  exists_regionOf_of_isAllCode hmap h.code ho

/-! ## Images that are declared to be code -/

section

variable {given : Hints} {checked : CheckedHints} {settings : TraceSettings} {a : Atlas}
  {s : DeclaredRange} {n : Node} (h : a.OfSurvey c given settings checked t)
  (hcode : ∀ s ∈ checked.ranges, s.cls = .code) (hs : s ∈ checked.ranges)
  (hwhole : s.range = ⟨0, c.map.size⟩) (hi : (n, i) ∈ t.instructions)
include h hcode hs hwhole hi

/-- If a range of code covers the image, all decoded instructions are code. -/
theorem Atlas.OfSurvey.isAllCode_of_range : isAllCode a.regions i = true := by
  obtain ⟨conflicts, hclassify⟩ := h.exists_classify
  obtain ⟨spans, -, hclasses, -⟩ := classify_eq_ok hclassify
  refine List.all_eq_true.2 fun k hk => decide_eq_true ?_
  obtain ⟨o, ho⟩ := (h.decodedFrom.readFrom hi).shown (List.mem_range.1 hk)
  have hlt := AddressMap.lt_size_of_offset? ho
  refine classOf?_of_ranges h.sound.within hclasses hcode hs ho (Extent.contains_iff.2 ?_)
  rw [hwhole]
  dsimp only
  omega

/-- The only instruction that was decoded is confirmed then. -/
theorem Atlas.OfSurvey.getElem?_of_only (honly : ∀ e ∈ t.instructions, e.1 = n) :
    a.instructions[c.map.canonical n.address]? = some i := by
  have hdecode := h.decodedFrom n i hi
  have hconfirmed : Confirmed c.map t a.regions (c.map.canonical n.address) i := by
    refine ⟨⟨n, hi⟩, ?_, fun e he f hf _ _ => ?_, h.isAllCode_of_range hcode hs hwhole hi⟩
    · rw [(Node.decode_eq_ok_iff.1 hdecode).1]
    · rw [honly e he, honly f hf]
  obtain ⟨j, hj⟩ := hconfirmed.exists_getElem?
  obtain ⟨k, hk⟩ := (confirmed_of_getElem? hj).traced
  -- a node has one outcome
  obtain rfl : k = n := honly _ hk
  obtain rfl := Except.ok.inj (hdecode.symm.trans (h.decodedFrom k j hk))
  rw [h.instructions_eq]
  exact hj

end

end RomAtlas
