import RomAtlas.Proofs.Region.Footprint
import RomAtlas.Proofs.Trace.Transfers
import RomAtlas.Proofs.Trace.Union

/-!
# Hardware vectors

A scan of the vectors goes slot by slot and ends at the first slot that the image does not show.
Its seeds are then dropped, but not the cross references and conflicts that were found before. As
the slots ascend in one bank, this shows only in images that end inside the vector table.

* `exists_word_iff`: which slots can be read.
* `mem_scanVectors`, `mem_nodes_scanVectors`: what a scan finds, and that its seeds are all or none.
* `vectors_accounted`: **the vectors in every run**, and that the scan is all or nothing unless the
  image ends inside the table.
* `vectors_left_behind`: such an image keeps a cross reference that nothing follows.
-/

namespace RomAtlas

variable {c : Cartridge} {m : AddressMap} {state : WidthState}

/-! ## Slots -/

namespace Cartridge

/-- A slot holds a vector if it can be read and holds none of the two fillers. -/
structure Points (c : Cartridge) (slot : Int) (target : Nat) : Prop where
  word : c.word slot = .ok target
  filled : target ≠ 0 ∧ target ≠ 0xFFFF

/-- The image ends inside the vector table: its first slot can be read and its last one cannot. -/
def EndsInVectors (c : Cartridge) : Prop :=
  c.map.size < c.map.layout.blockSize ∧ c.map.layout.blockSize ≤ c.map.size + 26

end Cartridge

/-- The upper half of the first bank shows the end of the first block. -/
theorem AddressMap.shows_upper_iff {a : Int} (hlow : 0x8000 ≤ a) (hhigh : a < 0x10000) :
    m.shows a = true ↔ a + m.layout.blockSize < 0x10000 + m.size := by
  have hw : (wrapAddress a).toNat = a.toNat := by
    unfold wrapAddress
    omega
  have hplace : place? m.layout a = some (a.toNat + m.layout.blockSize - 0x10000) := by
    unfold place?
    simp only [hw]
    rw [if_neg (by omega), if_neg (by omega)]
    cases m.layout with
    | loRom =>
      dsimp only [Layout.blockSize]
      rw [if_neg (by omega), Option.some.injEq]
      omega
    | hiRom =>
      dsimp only [Layout.blockSize]
      rw [Option.some.injEq]
      omega
  have hblock : 0x8000 ≤ m.layout.blockSize := by cases m.layout <;> decide
  unfold shows offset?
  rw [hplace, Option.filter_some, Option.isSome_ite, decide_eq_true_iff]
  omega

theorem Cartridge.exists_word_iff_shows {a : Int} : (∃ target, c.word a = .ok target) ↔
    c.map.shows a = true ∧ c.map.shows (stepInBank a 1) = true := by
  rw [← exists_byteAt_iff, ← exists_byteAt_iff]
  unfold word
  constructor
  · rintro ⟨target, h⟩
    obtain ⟨low, hlow, h⟩ := bind_eq_ok.1 h
    obtain ⟨high, hhigh, -⟩ := bind_eq_ok.1 h
    exact ⟨⟨low, hlow⟩, high, hhigh⟩
  · rintro ⟨⟨low, hlow⟩, high, hhigh⟩
    exact ⟨_, bind_eq_ok.2 ⟨low, hlow, bind_eq_ok.2 ⟨high, hhigh, rfl⟩⟩⟩

theorem bounds_of_mem_hardwareVectors :
    ∀ slot ∈ hardwareVectors, 0xFFE4 ≤ slot.1 ∧ slot.1 ≤ 0xFFFE := by decide

/-- **A slot can be read if the image goes on behind it.** -/
theorem exists_word_iff {slot : Int × String} (hs : slot ∈ hardwareVectors) :
    (∃ target, c.word slot.1 = .ok target) ↔
      slot.1 + 2 + c.map.layout.blockSize ≤ 0x10000 + c.map.size := by
  obtain ⟨hlow, hhigh⟩ := bounds_of_mem_hardwareVectors slot hs
  have hstep : stepInBank slot.1 1 = slot.1 + 1 := by
    unfold stepInBank bankBase wrapAddress
    omega
  rw [Cartridge.exists_word_iff_shows, hstep, AddressMap.shows_upper_iff (by omega) (by omega),
    AddressMap.shows_upper_iff (by omega) (by omega)]
  omega

theorem forall_word_iff :
    (∀ slot ∈ hardwareVectors, ∃ target, c.word slot.1 = .ok target) ↔
      c.map.layout.blockSize ≤ c.map.size := by
  constructor
  · intro h
    have hlast : (0xFFFE, "emulation IRQ/BRK") ∈ hardwareVectors := by decide
    have hread := (exists_word_iff hlast).1 (h _ hlast)
    dsimp only at hread
    omega
  · intro h slot hs
    have hbound := bounds_of_mem_hardwareVectors slot hs
    exact (exists_word_iff hs).2 (by omega)

/-- A slot can be read if a later one can. -/
theorem readable_of_later : hardwareVectors.Pairwise fun slot later =>
    (∃ target, c.word later.1 = .ok target) → ∃ target, c.word slot.1 = .ok target := by
  have hascending : hardwareVectors.Pairwise fun slot later => slot.1 ≤ later.1 := by decide
  refine hascending.imp_of_mem fun {slot later} hs hl hle h => ?_
  have hread := (exists_word_iff hl).1 h
  exact (exists_word_iff hs).2 (by omega)

/-- **Either all slots can be read or none**, if the image does not end inside the table. -/
theorem forall_word_of_word (hends : ¬ c.EndsInVectors) {slot : Int × String}
    (hs : slot ∈ hardwareVectors) (h : ∃ target, c.word slot.1 = .ok target) :
    ∀ other ∈ hardwareVectors, ∃ target, c.word other.1 = .ok target := by
  have hread := (exists_word_iff hs).1 h
  have hbounds := bounds_of_mem_hardwareVectors slot hs
  unfold Cartridge.EndsInVectors at hends
  exact forall_word_iff.2 (by omega)

/-! ## The scan -/

/-- The conflict on a vector that leads out of the image. -/
def vectorConflict (slot : Int × String) (target : Nat) : Conflict :=
  ⟨some slot.1, .unmappedTarget,
    slot.2 ++ " vector points to " ++ Hex.address target ++ " outside mapped ROM", []⟩

section

variable {slot : Int × String} {target : Nat}

theorem mem_nodes_vectorEdge {n : Node} :
    n ∈ (vectorEdge m state slot.1 slot.2 target).nodes ↔
      (target ≠ 0 ∧ target ≠ 0xFFFF) ∧ m.shows target = true ∧ n = ⟨target, state⟩ := by
  unfold vectorEdge
  split
  · next hfiller => simp [Edges.empty, ← not_or, hfiller]
  · next hfiller =>
    rw [not_or] at hfiller
    split <;> simp_all

theorem mem_xrefs_vectorEdge {x : Xref} :
    x ∈ (vectorEdge m state slot.1 slot.2 target).xrefs ↔
      (target ≠ 0 ∧ target ≠ 0xFFFF) ∧ x = ⟨slot.1, some target, .interruptVector⟩ := by
  unfold vectorEdge
  split
  · next hfiller => simp [Edges.empty, ← not_or, hfiller]
  · next hfiller =>
    rw [not_or] at hfiller
    split <;> simp_all

theorem mem_conflicts_vectorEdge {k : Conflict} :
    k ∈ (vectorEdge m state slot.1 slot.2 target).conflicts ↔
      (target ≠ 0 ∧ target ≠ 0xFFFF) ∧ m.shows target = false ∧
        k = vectorConflict slot target := by
  unfold vectorEdge
  split
  · next hfiller => simp [Edges.empty, ← not_or, hfiller]
  · next hfiller =>
    rw [not_or] at hfiller
    split <;> simp_all [vectorConflict]

end

section

variable {found : Edges} {slots : List (Int × String)}

/-- What a scan finds besides nodes are the marks of all slots that can be read. -/
theorem mem_scanVectors {α : Type} (part : Edges → List α)
    (happend : ∀ e f : Edges, part (e ++ f) = part e ++ part f)
    (hnodes : ∀ e : Edges, part { e with nodes := [] } = part e)
    (hslots : slots.Pairwise fun slot later =>
      (∃ target, c.word later.1 = .ok target) → ∃ target, c.word slot.1 = .ok target) {x : α} :
    x ∈ part (scanVectors c state found slots) ↔ x ∈ part found ∨ ∃ slot ∈ slots, ∃ target,
      c.word slot.1 = .ok target ∧ x ∈ part (vectorEdge c.map state slot.1 slot.2 target) := by
  induction slots generalizing found with
  | nil => simp [scanVectors]
  | cons slot rest ih =>
    obtain ⟨hfirst, hrest⟩ := List.pairwise_cons.1 hslots
    unfold scanVectors
    cases hword : c.word slot.1 with
    | error e =>
      -- no later slot can be read
      have hnone : ∀ later ∈ slot :: rest, ∀ target, c.word later.1 ≠ .ok target := by
        rintro later hl target ht
        rcases List.mem_cons.1 hl with rfl | hl
        · rw [hword] at ht
          cases ht
        · obtain ⟨first, hok⟩ := hfirst later hl ⟨target, ht⟩
          rw [hword] at hok
          cases hok
      dsimp only
      rw [hnodes]
      constructor
      · exact .inl
      · rintro (hx | ⟨later, hl, target, ht, -⟩)
        · exact hx
        · exact absurd ht (hnone later hl target)
    | ok target =>
      dsimp only
      rw [ih hrest, happend, List.mem_append, or_assoc]
      simp [hword]

/-- **The seeds of a scan are all or none.** -/
theorem mem_nodes_scanVectors {n : Node} :
    n ∈ (scanVectors c state found slots).nodes ↔
      (∀ slot ∈ slots, ∃ target, c.word slot.1 = .ok target) ∧
      (n ∈ found.nodes ∨ ∃ slot ∈ slots, ∃ target, c.word slot.1 = .ok target ∧
        n ∈ (vectorEdge c.map state slot.1 slot.2 target).nodes) := by
  induction slots generalizing found with
  | nil => simp [scanVectors]
  | cons slot rest ih =>
    unfold scanVectors
    cases hword : c.word slot.1 with
    | error e => simp [hword]
    | ok target =>
      dsimp only
      rw [ih, Edges.nodes_append, List.mem_append, or_assoc]
      simp [hword]

end

/-! ## Texts -/

/-- A conflict says of a vector that it leads out of the image. -/
def Conflict.NotesVector (k : Conflict) : Prop :=
  k.kind = .unmappedTarget ∧
    ∃ slot ∈ hardwareVectors, ∃ rest, k.reason = slot.2 ++ " vector points to " ++ rest

theorem notesVector_vectorConflict {slot : Int × String} (hs : slot ∈ hardwareVectors)
    (target : Nat) : (vectorConflict slot target).NotesVector :=
  ⟨rfl, slot, hs, Hex.address target ++ " outside mapped ROM", by
    simp only [vectorConflict, String.append_assoc]⟩

/-- The conflicts of an instruction begin with its text. -/
theorem reason_of_mem_successors {i : Instruction} {hints : CheckedHints} :
    ∀ k ∈ (successors m i hints).conflicts, ∃ rest, k.reason = i.text ++ rest := by
  refine successors_parts (P := fun e => ∀ k ∈ e.conflicts, ∃ rest, k.reason = i.text ++ rest)
    nofun ?_ nofun ?_ ?_ ?_
  · intro e f he hf k hk
    exact (List.mem_append.1 hk).elim (he k) (hf k)
  · intro k hk
    unfold uncertainWidth at hk
    split at hk
    · rw [List.mem_singleton.1 hk]
      exact ⟨_, by simp only [String.append_assoc]; rfl⟩
    · cases hk
  · intro kind targets _ _ _ k hk
    obtain ⟨t, -, rfl⟩ := List.mem_map.1 hk
    exact ⟨_, by simp only [String.append_assoc]; rfl⟩
  · intro _ _ k hk
    rw [List.mem_singleton.1 hk]
    exact ⟨_, by simp only [String.append_assoc]; rfl⟩

theorem Instruction.exists_text (i : Instruction) :
    ∃ rest, i.text = i.shape.mnemonic.name ++ rest := by
  unfold text join
  split
  · exact ⟨"", by simp⟩
  · exact ⟨" " ++ i.operandText, by simp only [String.append_assoc]⟩

/-- No instruction raises such a conflict: mnemonics start with a capital letter and the names of
vectors do not. -/
theorem not_notesVector_of_mem_successors {i : Instruction} {hints : CheckedHints} {k : Conflict}
    (hk : k ∈ (successors m i hints).conflicts) : ¬ k.NotesVector := by
  rintro ⟨-, slot, hs, rest, hreason⟩
  have hcapital : ∀ x : Mnemonic, x.name.toList.head?.any Char.isUpper = true := by
    intro x
    cases x <;> rfl
  have hsmall : ∀ slot ∈ hardwareVectors, slot.2.toList.head?.any (!·.isUpper) = true := by
    decide +kernel
  obtain ⟨first, hfirst, hupper⟩ := (Option.any_eq_true _ _).1 (hcapital i.shape.mnemonic)
  obtain ⟨first', hfirst', hlower⟩ := (Option.any_eq_true _ _).1 (hsmall slot hs)
  obtain ⟨tail, htail⟩ := reason_of_mem_successors k hk
  obtain ⟨operand, htext⟩ := i.exists_text
  have hheads := congrArg (fun text => text.toList.head?) (htail.symm.trans hreason)
  rw [htext] at hheads
  simp only [String.toList_append, List.head?_append, hfirst, hfirst', Option.some_or,
    Option.some.injEq] at hheads
  rw [hheads] at hupper
  rw [hupper] at hlower
  cases hlower

/-! ## Traces -/

/-- A trace accounts for the vectors. Its cross references of vectors and the conflicts on them are
those of the slots that can be read and hold a vector. If nothing was cut off and all slots can be
read, then each vector that stays in the image is followed in the initial state. If some slot cannot
be read, then the trace goes where it would go without the vectors. So the scan is all or nothing,
unless the image ends inside the table. -/
structure Trace.AccountsForVectors (c : Cartridge) (hints : CheckedHints)
    (settings : TraceSettings) (t : Trace) : Prop where
  xrefs : ∀ x, x.kind = .interruptVector → (x ∈ t.xrefs ↔ ∃ slot ∈ hardwareVectors, ∃ target,
    c.Points slot.1 target ∧ x = ⟨slot.1, some target, .interruptVector⟩)
  conflicts : ∀ k, k ∈ t.conflicts ∧ k.NotesVector ↔ ∃ slot ∈ hardwareVectors, ∃ target,
    c.Points slot.1 target ∧ c.map.shows target = false ∧ k = vectorConflict slot target
  followed : t.truncated = false →
    (∀ slot ∈ hardwareVectors, ∃ target, c.word slot.1 = .ok target) →
    ∀ slot ∈ hardwareVectors, ∀ target, c.Points slot.1 target → c.map.shows target = true →
      ⟨target, ⟨settings.initial, [], none⟩⟩ ∈ t.visited
  skipped : t.truncated = false →
    (∃ slot ∈ hardwareVectors, ¬ ∃ target, c.word slot.1 = .ok target) →
    IsLeast {S | FlowClosed c hints
      (traceSeeds c hints { settings with useVectors := false }).nodes S} t.visited
  allOrNothing : ¬ c.EndsInVectors →
    (t.truncated = false → ∀ x ∈ t.xrefs, x.kind = .interruptVector → ∀ target,
      x.target = some target → c.map.shows target = true →
      ⟨target, ⟨settings.initial, [], none⟩⟩ ∈ t.visited) ∧
    ((∃ slot ∈ hardwareVectors, ¬ ∃ target, c.word slot.1 = .ok target) →
      (∀ x ∈ t.xrefs, x.kind ≠ .interruptVector) ∧ ∀ k ∈ t.conflicts, ¬ k.NotesVector)

section

variable {hints : CheckedHints} {settings : TraceSettings}

/-- The vectors have no part in the seeds if some slot cannot be read. -/
theorem mem_nodes_traceSeeds_of_unreadable
    (hout : ∃ slot ∈ hardwareVectors, ¬ ∃ target, c.word slot.1 = .ok target) {n : Node} :
    n ∈ (traceSeeds c hints settings).nodes ↔
      n ∈ (traceSeeds c hints { settings with useVectors := false }).nodes := by
  obtain ⟨slot, hs, hslot⟩ := hout
  have hnone : n ∉ (vectorEdges c ⟨settings.initial, [], none⟩).nodes :=
    fun hn => hslot ((mem_nodes_scanVectors.1 hn).1 slot hs)
  rw [mem_nodes_traceSeeds, mem_nodes_traceSeeds]
  simp [hnone]

variable {seeds : Edges} {machine : Machine} {done : List Node}

/-- The marks of vectors in a trace are those of its seeds. -/
theorem Machine.Records.mem_vector_marks
    (h : machine.Records c hints (traceSeeds c hints settings) done)
    (hv : settings.useVectors = true) (stopped : Option String) :
    (∀ x, x.kind = .interruptVector → (x ∈ (machine.toTrace stopped).xrefs ↔
      x ∈ (vectorEdges c ⟨settings.initial, [], none⟩).xrefs)) ∧
    ∀ k, k ∈ (machine.toTrace stopped).conflicts ∧ k.NotesVector ↔
      k ∈ (vectorEdges c ⟨settings.initial, [], none⟩).conflicts ∧ k.NotesVector := by
  constructor
  · intro x hx
    rw [h.mem_xrefs_toTrace stopped, mem_xrefs_traceSeeds]
    constructor
    · rintro (⟨n, i, -, hmem⟩ | ⟨-, hmem⟩)
      · exact absurd hx (followed_successors.kind x hmem)
      · exact hmem
    · exact fun hmem => .inr ⟨hv, hmem⟩
  · intro k
    rw [h.mem_conflicts_toTrace stopped, mem_conflicts_traceSeeds]
    constructor
    · rintro ⟨hk | ⟨n, i, -, hk⟩ | ⟨-, hk⟩, hnotes⟩
      · -- the conflict that says why a run was stopped is of another kind
        obtain ⟨text, -, rfl⟩ := Option.map_eq_some_iff.1 (Option.mem_toList.1 hk)
        cases hnotes.1
      · exact absurd hnotes (not_notesVector_of_mem_successors hk)
      · exact ⟨hk, hnotes⟩
    · rintro ⟨hk, hnotes⟩
      exact ⟨.inr (.inr ⟨hv, hk⟩), hnotes⟩

/-- The marks of a scan are those of the slots that can be read and hold a vector. -/
theorem mem_xrefs_vectorEdges {x : Xref} : x ∈ (vectorEdges c state).xrefs ↔
    ∃ slot ∈ hardwareVectors, ∃ target, c.Points slot.1 target ∧
      x = ⟨slot.1, some target, .interruptVector⟩ := by
  unfold vectorEdges
  rw [mem_scanVectors Edges.xrefs Edges.xrefs_append (fun _ => rfl) readable_of_later]
  simp only [mem_xrefs_vectorEdge, Edges.empty, List.not_mem_nil, false_or]
  constructor
  · rintro ⟨slot, hs, target, hword, hfilled, rfl⟩
    exact ⟨slot, hs, target, ⟨hword, hfilled⟩, rfl⟩
  · rintro ⟨slot, hs, target, hpoints, rfl⟩
    exact ⟨slot, hs, target, hpoints.word, hpoints.filled, rfl⟩

theorem mem_conflicts_vectorEdges {k : Conflict} : k ∈ (vectorEdges c state).conflicts ↔
    ∃ slot ∈ hardwareVectors, ∃ target, c.Points slot.1 target ∧ c.map.shows target = false ∧
      k = vectorConflict slot target := by
  unfold vectorEdges
  rw [mem_scanVectors Edges.conflicts Edges.conflicts_append (fun _ => rfl) readable_of_later]
  simp only [mem_conflicts_vectorEdge, Edges.empty, List.not_mem_nil, false_or]
  constructor
  · rintro ⟨slot, hs, target, hword, hfilled, hout, rfl⟩
    exact ⟨slot, hs, target, ⟨hword, hfilled⟩, hout, rfl⟩
  · rintro ⟨slot, hs, target, hpoints, hout, rfl⟩
    exact ⟨slot, hs, target, hpoints.word, hpoints.filled, hout, rfl⟩

/-- In an exact trace each vector that stays in the image is followed, if all slots can be read. -/
theorem Trace.Exact.visited_of_points {t : Trace} (h : t.Exact c hints settings)
    (hv : settings.useVectors = true)
    (hread : ∀ slot ∈ hardwareVectors, ∃ target, c.word slot.1 = .ok target)
    {slot : Int × String} {target : Nat} (hs : slot ∈ hardwareVectors)
    (hpoints : c.Points slot.1 target) (hshown : c.map.shows target = true) :
    ⟨target, ⟨settings.initial, [], none⟩⟩ ∈ t.visited := by
  refine h.least.1.seed _ (mem_nodes_traceSeeds.2 (.inl ⟨hv, ?_⟩))
  exact mem_nodes_scanVectors.2 ⟨hread, .inr ⟨slot, hs, target, hpoints.word,
    mem_nodes_vectorEdge.2 ⟨hpoints.filled, hshown, rfl⟩⟩⟩

/-- An exact trace goes where it would go without the vectors, if some slot cannot be read. -/
theorem Trace.Exact.isLeast_of_unreadable {t : Trace} (h : t.Exact c hints settings)
    (hout : ∃ slot ∈ hardwareVectors, ¬ ∃ target, c.word slot.1 = .ok target) :
    IsLeast {S | FlowClosed c hints
      (traceSeeds c hints { settings with useVectors := false }).nodes S} t.visited := by
  have hseeds : {S | FlowClosed c hints
      (traceSeeds c hints { settings with useVectors := false }).nodes S} =
      {S | FlowClosed c hints (traceSeeds c hints settings).nodes S} := by
    ext S
    have hmem : ∀ n, n ∈ (traceSeeds c hints settings).nodes ↔
        n ∈ (traceSeeds c hints { settings with useVectors := false }).nodes :=
      fun n => mem_nodes_traceSeeds_of_unreadable hout
    exact ⟨fun hS => ⟨fun n hn => hS.seed n ((hmem n).1 hn), hS.next⟩,
      fun hS => ⟨fun n hn => hS.seed n ((hmem n).2 hn), hS.next⟩⟩
  rw [hseeds]
  exact h.least

variable {f : Fleet} {moves : List Move}

/-- A run accounts for the vectors, at any time. -/
theorem Fleet.Run.accountsForVectors
    (h : Fleet.Run c hints (traceSeeds c hints settings) moves f)
    (hv : settings.useVectors = true) {stopped : Option String}
    (hf : stopped = none → f.Finished) :
    (f.machine.toTrace stopped).AccountsForVectors c hints settings := by
  obtain ⟨hmarks, hnotes⟩ := h.ok.records.mem_vector_marks hv stopped
  have hxrefs : ∀ x, x.kind = .interruptVector → (x ∈ (f.machine.toTrace stopped).xrefs ↔
      ∃ slot ∈ hardwareVectors, ∃ target, c.Points slot.1 target ∧
        x = ⟨slot.1, some target, .interruptVector⟩) := by
    intro x hx
    rw [hmarks x hx, mem_xrefs_vectorEdges]
  have hconflicts : ∀ k, k ∈ (f.machine.toTrace stopped).conflicts ∧ k.NotesVector ↔
      ∃ slot ∈ hardwareVectors, ∃ target, c.Points slot.1 target ∧
        c.map.shows target = false ∧ k = vectorConflict slot target := by
    intro k
    rw [hnotes k, mem_conflicts_vectorEdges]
    refine and_iff_left_of_imp ?_
    rintro ⟨slot, hs, target, -, -, rfl⟩
    exact notesVector_vectorConflict hs target
  have hexact : (f.machine.toTrace stopped).truncated = false →
      (f.machine.toTrace stopped).Exact c hints settings := by
    intro hwhole
    cases stopped with
    | some text => cases hwhole
    | none => exact h.exact (hf rfl)
  refine ⟨hxrefs, hconflicts, fun hwhole hread slot hs target hpoints hshown => ?_,
    fun hwhole hout => (hexact hwhole).isLeast_of_unreadable hout, fun hends => ⟨?_, ?_⟩⟩
  · exact (hexact hwhole).visited_of_points hv hread hs hpoints hshown
  · intro hwhole x hx hkind target htarget hshown
    obtain ⟨slot, hs, t, hpoints, rfl⟩ := (hxrefs x hkind).1 hx
    obtain rfl := Option.some.inj htarget
    have hread := forall_word_of_word hends hs ⟨t, hpoints.word⟩
    exact (hexact hwhole).visited_of_points hv hread hs hpoints hshown
  · rintro ⟨other, ho, hother⟩
    refine ⟨fun x hx hkind => ?_, fun k hk hnotes => ?_⟩
    · obtain ⟨slot, hs, t, hpoints, -⟩ := (hxrefs x hkind).1 hx
      exact hother (forall_word_of_word hends hs ⟨t, hpoints.word⟩ other ho)
    · obtain ⟨slot, hs, t, hpoints, -⟩ := (hconflicts k).1 ⟨hk, hnotes⟩
      exact hother (forall_word_of_word hends hs ⟨t, hpoints.word⟩ other ho)

end

/-- **The vectors are accounted for**, in every run on checked hints: in whatever order the nodes
were completed, and wherever the run was stopped by a budget or a cancellation. So it is in each
trace. A slot can be read if two bytes of the first block lie behind it, so that only an image that
ends inside the table shows some of them and not others. -/
theorem vectors_accounted {given : Hints} {checked : CheckedHints} {rejected : List Conflict}
    (hc : given.check c = .ok (checked, rejected)) {settings : TraceSettings}
    (hv : settings.useVectors = true) :
    (∀ moves f stopped, Fleet.Run c checked (traceSeeds c checked settings) moves f →
      (stopped = none → f.Finished) →
      (f.machine.toTrace stopped).AccountsForVectors c checked settings) ∧
    (∀ watch t, trace c checked settings watch = .ok t →
      t.AccountsForVectors c checked settings) ∧
    ∀ slot ∈ hardwareVectors, (∃ target, c.word slot.1 = .ok target) ↔
      slot.1 + 2 + c.map.layout.blockSize ≤ 0x10000 + c.map.size := by
  refine ⟨fun moves f stopped h hf => h.accountsForVectors hv hf, fun watch t ht => ?_,
    fun slot hs => exists_word_iff hs⟩
  obtain ⟨moves, f, stopped, hrun, hf, rfl⟩ := ofRun_of_trace hc ht
  exact hrun.accountsForVectors hv hf

/-- An image of one repeated byte, whose vectors all lead to `$8080`. -/
def uniformCartridge (size : Nat) (hpos : 0 < size) (hle : size ≤ maxImageSize) : Cartridge where
  image := ⟨Array.replicate size 0x80, by simpa using hpos⟩
  map := ⟨.loRom, size, .slow, hpos, hle⟩
  size_eq := by simp [Image.size]

section

variable (size : Nat) (hpos : 0 < size) (hle : size ≤ maxImageSize)

theorem points_uniformCartridge {a : Int}
    (h : ∃ target, (uniformCartridge size hpos hle).word a = .ok target) :
    (uniformCartridge size hpos hle).Points a 0x8080 := by
  have hbyte : ∀ a b, (uniformCartridge size hpos hle).byteAt a = .ok b → b = 0x80 := by
    intro a b hb
    obtain ⟨o, ho, hob⟩ := Cartridge.byteAt_eq_ok.1 hb
    have hlt : o < size := AddressMap.lt_size_of_offset? ho
    simpa [uniformCartridge, hlt] using hob.symm
  obtain ⟨target, htarget⟩ := h
  refine ⟨?_, by decide⟩
  rw [htarget]
  unfold Cartridge.word at htarget
  obtain ⟨low, hlow, htarget⟩ := bind_eq_ok.1 htarget
  obtain ⟨high, hhigh, htarget⟩ := bind_eq_ok.1 htarget
  rw [hbyte _ _ hlow, hbyte _ _ hhigh] at htarget
  rw [← pure_eq_ok.1 htarget]
  rfl

/-- A trace of it without hints and budgets. -/
theorem exists_trace_uniformCartridge :
    Hints.empty.check (uniformCartridge size hpos hle) = .ok (.empty, []) ∧
    ∃ t, trace (uniformCartridge size hpos hle) .empty unlimitedSettings (.still false) = .ok t ∧
      t.truncated = false ∧
      t.AccountsForVectors (uniformCartridge size hpos hle) .empty unlimitedSettings := by
  have hc : Hints.empty.check (uniformCartridge size hpos hle) = .ok (.empty, []) := rfl
  obtain ⟨f, moves, hrun, hf, ht⟩ := (remembered_traceSeeds hc
    unlimitedSettings).exists_trace_unlimited rfl rfl Watch.uncancelled_still
  exact ⟨hc, f.machine.toTrace none, ht, rfl, hrun.accountsForVectors rfl fun _ => hf⟩

end

/-- An image that holds the whole vector table. -/
def wholeBlock : Cartridge := uniformCartridge 0x8000 (by decide) (by decide)

/-- An image that ends behind the first slot. -/
def tornBlock : Cartridge := uniformCartridge 0x7FE6 (by decide) (by decide)

theorem vectors_accounted_whole :
    Hints.empty.check wholeBlock = .ok (.empty, []) ∧ unlimitedSettings.useVectors = true ∧
      ∃ t, trace wholeBlock .empty unlimitedSettings (.still false) = .ok t ∧ t.truncated = false ∧
        (∀ slot ∈ hardwareVectors, ⟨slot.1, some 0x8080, .interruptVector⟩ ∈ t.xrefs) ∧
        ⟨0x8080, ⟨unlimitedSettings.initial, [], none⟩⟩ ∈ t.visited := by
  have hv : unlimitedSettings.useVectors = true := rfl
  obtain ⟨hc, t, ht, hwhole, -⟩ :=
    exists_trace_uniformCartridge 0x8000 (by decide) (by decide)
  have haccounts := (vectors_accounted hc hv).2.1 _ t ht
  have hread : ∀ slot ∈ hardwareVectors, ∃ target, wholeBlock.word slot.1 = .ok target :=
    forall_word_iff.2 (Nat.le_refl 0x8000)
  have hpoints : ∀ slot ∈ hardwareVectors, wholeBlock.Points slot.1 0x8080 :=
    fun slot hs => points_uniformCartridge _ _ _ (hread slot hs)
  refine ⟨hc, hv, t, ht, hwhole, fun slot hs => ?_, ?_⟩
  · exact (haccounts.xrefs _ rfl).2 ⟨slot, hs, 0x8080, hpoints slot hs, rfl⟩
  · have hfirst : (0xFFE4, "native COP") ∈ hardwareVectors := List.mem_cons_self
    have hshown : wholeBlock.map.shows (0x8080 : Nat) = true := by decide +kernel
    exact haccounts.followed hwhole hread _ hfirst _ (hpoints _ hfirst) hshown

/-- **An image that ends inside the vector table keeps marks that nothing follows.** Only the first
slot can be read. Its vector leads into the image and is noted as a cross reference, but nothing is
visited. -/
theorem vectors_left_behind :
    (¬ ∃ target, tornBlock.word 0xFFE6 = .ok target) ∧ tornBlock.map.shows 0x8080 = true ∧
      Hints.empty.check tornBlock = .ok (.empty, []) ∧
      ∃ t, trace tornBlock .empty unlimitedSettings (.still false) = .ok t ∧ t.truncated = false ∧
        ⟨0xFFE4, some 0x8080, .interruptVector⟩ ∈ t.xrefs ∧ t.visited = ∅ := by
  obtain ⟨hc, t, ht, hwhole, haccounts⟩ :=
    exists_trace_uniformCartridge 0x7FE6 (by decide) (by decide)
  have hfirst : (0xFFE4, "native COP") ∈ hardwareVectors := List.mem_cons_self
  have hsecond : (0xFFE6, "native BRK") ∈ hardwareVectors :=
    List.mem_cons_of_mem _ List.mem_cons_self
  have hread : ∃ target, tornBlock.word 0xFFE4 = .ok target :=
    (exists_word_iff hfirst).2 (by decide)
  have hout : ¬ ∃ target, tornBlock.word 0xFFE6 = .ok target :=
    fun h => absurd ((exists_word_iff hsecond).1 h) (by decide)
  refine ⟨hout, by decide +kernel, hc, t, ht, hwhole, ?_, ?_⟩
  · exact (haccounts.xrefs _ rfl).2 ⟨_, hfirst, 0x8080, points_uniformCartridge _ _ _ hread, rfl⟩
  · -- without the vectors there are no seeds
    have hleast := haccounts.skipped hwhole ⟨_, hsecond, hout⟩
    exact Set.subset_empty_iff.1 (hleast.2 ⟨nofun, nofun⟩)

end RomAtlas
