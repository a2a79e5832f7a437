import RomAtlas.Proofs.Order
import RomAtlas.Proofs.Trace.Flow

/-!
# What a machine has recorded

Two lists that a machine does not keep itself say what it has done: the nodes that were dispatched
and the nodes that were completed.

* `Machine.Queued`: the nodes ever entered are those dispatched and those that wait, none of them
  twice.
* `Machine.Records`: the results are those of the completed nodes, and the nodes ever entered are
  the seeds and all that follows a completed node.
* `Machine.Records.toTrace_congr`: the trace of a machine depends on the set of the completed nodes
  and not on their order.
-/

namespace RomAtlas

variable {c : Cartridge} {hints : CheckedHints} {seeds : Edges} {n k : Node}

/-! ## Entries of nodes -/

section

variable {α : Type} {g : Node → Option α} {l d : List Node}

/-- The entries of the nodes that have a value. -/
def entriesOf (g : Node → Option α) (l : List Node) : List (Node × α) :=
  l.filterMap fun n => (g n).map (Prod.mk n)

theorem mem_entriesOf {a : α} : (n, a) ∈ entriesOf g l ↔ n ∈ l ∧ g n = some a := by
  simp [entriesOf, List.mem_filterMap]

theorem map_fst_entriesOf : (entriesOf g l).map Prod.fst = l.filter fun n => (g n).isSome := by
  induction l with
  | nil => rfl
  | cons n l ih =>
    cases h : g n with
    | none => simpa [entriesOf, h] using ih
    | some a => simpa [entriesOf, h] using ih

theorem nodup_keys_entriesOf (h : l.Nodup) : ((entriesOf g l).map Prod.fst).Nodup := by
  rw [map_fst_entriesOf]
  exact h.filter _

theorem sortByNode_entriesOf_congr (h : l.Perm d) (hl : l.Nodup) :
    sortByNode (entriesOf g l) = sortByNode (entriesOf g d) :=
  sortByNode_congr (h.filterMap _) (nodup_keys_entriesOf hl)

end

/-- The instruction at a node, if it can be decoded. -/
def Node.instruction? (c : Cartridge) (n : Node) : Option Instruction :=
  match n.decode c with
  | .ok i => some i
  | .error _ => none

/-- Why a node cannot be decoded, if it cannot. -/
def Node.fault? (c : Cartridge) (n : Node) : Option DecodeFault :=
  match n.decode c with
  | .ok _ => none
  | .error fault => some fault

theorem Node.instruction?_eq_some {i : Instruction} :
    n.instruction? c = some i ↔ n.decode c = .ok i := by
  cases h : n.decode c <;> simp [instruction?, h]

theorem Node.fault?_eq_some {fault : DecodeFault} :
    n.fault? c = some fault ↔ n.decode c = .error fault := by
  cases h : n.decode c <;> simp [fault?, h]

namespace Machine

variable {m m' : Machine} {sent done : List Node}

/-! ## Entering nodes -/

theorem enter_of_mem (h : n ∈ m.entered) : m.enter n = m := by
  unfold enter
  rw [if_pos (Std.HashSet.contains_iff_mem.2 h)]

theorem enter_of_notMem (h : n ∉ m.entered) :
    m.enter n = { m with queue := m.queue.push n, entered := m.entered.insert n } := by
  unfold enter
  rw [if_neg (by simpa using h)]

theorem mem_entered_enter : k ∈ (m.enter n).entered ↔ k ∈ m.entered ∨ k = n := by
  by_cases h : n ∈ m.entered
  · rw [enter_of_mem h]
    exact ⟨.inl, fun hk => hk.elim id fun e => e ▸ h⟩
  · rw [enter_of_notMem h]
    simp only [Std.HashSet.mem_insert, beq_iff_eq]
    rw [or_comm, eq_comm]

/-- Entering nodes changes the queue and the set of entered nodes only. -/
theorem exists_foldl_enter (l : List Node) (m : Machine) :
    ∃ queue entered, l.foldl enter m = { m with queue, entered } := by
  induction l generalizing m with
  | nil => exact ⟨m.queue, m.entered, rfl⟩
  | cons n l ih =>
    rw [List.foldl_cons]
    obtain ⟨queue, entered, h⟩ := ih (m.enter n)
    refine ⟨queue, entered, ?_⟩
    rw [h]
    unfold enter
    split <;> rfl

theorem mem_entered_foldl_enter (l : List Node) (m : Machine) :
    k ∈ (l.foldl enter m).entered ↔ k ∈ m.entered ∨ k ∈ l := by
  induction l generalizing m with
  | nil => simp
  | cons n l ih =>
    rw [List.foldl_cons, ih, mem_entered_enter, List.mem_cons, or_assoc]

theorem mem_entered_absorb (e : Edges) :
    k ∈ (m.absorb e).entered ↔ k ∈ m.entered ∨ k ∈ e.nodes :=
  mem_entered_foldl_enter _ _

/-- What absorbing edges leaves as it was, and what it adds to the results. -/
theorem exists_absorb (m : Machine) (e : Edges) :
    ∃ queue entered, m.absorb e =
      { m with
        queue, entered, xrefs := e.xrefs ++ m.xrefs, conflicts := e.conflicts ++ m.conflicts } :=
  exists_foldl_enter _ _

/-! ## Completing a node -/

theorem complete_of_ok {i : Instruction} (h : n.decode c = .ok i) :
    m.complete c hints n =
      { m with instructions := (n, i) :: m.instructions }.absorb (n.edges c hints) := by
  rw [Node.edges_of_ok h, complete, h]

theorem complete_of_error {fault : DecodeFault} (h : n.decode c = .error fault) :
    m.complete c hints n = { m with failures := (n, fault) :: m.failures } := by
  rw [complete, h]

theorem mem_entered_complete :
    k ∈ (m.complete c hints n).entered ↔ k ∈ m.entered ∨ k ∈ (n.edges c hints).nodes := by
  cases h : n.decode c with
  | ok i => rw [complete_of_ok h, mem_entered_absorb]
  | error fault => simp [complete_of_error h, Node.edges_of_error h]

@[simp]
theorem steps_complete : (m.complete c hints n).steps = m.steps := by
  cases h : n.decode c with
  | ok i =>
    rw [complete_of_ok h]
    obtain ⟨queue, entered, ha⟩ := exists_absorb
      { m with instructions := (n, i) :: m.instructions } (n.edges c hints)
    rw [ha]
  | error fault => rw [complete_of_error h]

theorem dispatch?_eq_some (h : m.dispatch? = some (n, m')) :
    ∃ queue, m.queue.toList = n :: queue.toList ∧ m' = { m with queue, steps := m.steps + 1 } := by
  unfold dispatch? at h
  obtain ⟨⟨k, queue⟩, hq, he⟩ := Option.map_eq_some_iff.1 h
  obtain ⟨rfl, rfl⟩ := Prod.mk.inj he
  exact ⟨queue, Fifo.toList_of_pop? hq, rfl⟩

theorem dispatch?_eq_none : m.dispatch? = none ↔ m.queue.toList = [] := by
  rw [dispatch?, Option.map_eq_none_iff, Fifo.pop?_eq_none_iff]

/-! ## The queue -/

/-- The nodes that were ever entered are those that were dispatched and those in the queue, each
once. -/
structure Queued (sent : List Node) (m : Machine) : Prop where
  nodup : (sent ++ m.queue.toList).Nodup
  entered : ∀ n, n ∈ m.entered ↔ n ∈ sent ++ m.queue.toList

theorem Queued.enter (h : m.Queued sent) (n : Node) : (m.enter n).Queued sent := by
  by_cases hn : n ∈ m.entered
  · rwa [enter_of_mem hn]
  · rw [enter_of_notMem hn]
    have hnew : n ∉ sent ++ m.queue.toList := fun hmem => hn ((h.entered n).2 hmem)
    refine ⟨?_, fun k => ?_⟩
    · rw [Fifo.toList_push, ← List.append_assoc]
      refine List.nodup_append.2 ⟨h.nodup, List.nodup_singleton n, ?_⟩
      rintro a ha b hb rfl
      exact hnew (List.mem_singleton.1 hb ▸ ha)
    · simp only [Std.HashSet.mem_insert, beq_iff_eq, h.entered k, Fifo.toList_push,
        ← List.append_assoc, List.mem_append (t := [n]), List.mem_singleton]
      rw [or_comm, eq_comm]

theorem Queued.absorb (h : m.Queued sent) (e : Edges) : (m.absorb e).Queued sent := by
  have key : ∀ (l : List Node) (m : Machine), m.Queued sent →
      (l.foldl Machine.enter m).Queued sent := by
    intro l
    induction l with
    | nil => intro m hm; exact hm
    | cons n l ih => intro m hm; exact ih _ (hm.enter n)
  exact key _ _ ⟨h.nodup, h.entered⟩

theorem Queued.complete (h : m.Queued sent) : (m.complete c hints n).Queued sent := by
  cases hd : n.decode c with
  | ok i =>
    rw [complete_of_ok hd]
    refine Queued.absorb ?_ _
    exact ⟨h.nodup, h.entered⟩
  | error fault => rw [complete_of_error hd]; exact ⟨h.nodup, h.entered⟩

/-- A node that leaves the queue joins the dispatched ones. -/
theorem Queued.dispatch (h : m.Queued sent) {queue : Fifo Node}
    (hq : m.queue.toList.Perm (n :: queue.toList)) :
    { m with queue, steps := m.steps + 1 }.Queued (n :: sent) := by
  have hp : (sent ++ m.queue.toList).Perm (n :: sent ++ queue.toList) :=
    (hq.append_left sent).trans List.perm_middle
  exact ⟨hp.nodup_iff.1 h.nodup, fun k => (h.entered k).trans hp.mem_iff⟩

theorem queued_start (seeds : Edges) : (start seeds).Queued [] :=
  Queued.absorb ⟨List.nodup_nil, fun n => by simp [empty]⟩ _

/-! ## The results -/

/-- The results of a machine are those of the completed nodes, the latest first, and the nodes ever
entered are the seeds and what follows a completed node. -/
structure Records (c : Cartridge) (hints : CheckedHints) (seeds : Edges) (done : List Node)
    (m : Machine) : Prop where
  instructions : m.instructions = entriesOf (Node.instruction? c) done
  failures : m.failures = entriesOf (Node.fault? c) done
  xrefs : m.xrefs = done.flatMap (fun n => (n.edges c hints).xrefs) ++ seeds.xrefs
  conflicts : m.conflicts = done.flatMap (fun n => (n.edges c hints).conflicts) ++ seeds.conflicts
  entered : ∀ n, n ∈ m.entered ↔ n ∈ seeds.nodes ∨ ∃ k ∈ done, n ∈ (k.edges c hints).nodes

theorem records_start (c : Cartridge) (hints : CheckedHints) (seeds : Edges) :
    (start seeds).Records c hints seeds [] := by
  obtain ⟨queue, entered, h⟩ := exists_absorb empty seeds
  have hs : start seeds = empty.absorb seeds := rfl
  refine ⟨?_, ?_, ?_, ?_, fun n => ?_⟩
  · rw [hs, h]; rfl
  · rw [hs, h]; rfl
  · rw [hs, h]; simp [empty]
  · rw [hs, h]; simp [empty]
  · rw [hs, mem_entered_absorb]; simp [empty]

theorem Records.dispatch (h : m.Records c hints seeds done) (queue : Fifo Node) :
    { m with queue, steps := m.steps + 1 }.Records c hints seeds done :=
  ⟨h.instructions, h.failures, h.xrefs, h.conflicts, h.entered⟩

theorem Records.complete (h : m.Records c hints seeds done) :
    (m.complete c hints n).Records c hints seeds (n :: done) := by
  have hent : ∀ k, k ∈ (m.complete c hints n).entered ↔
      k ∈ seeds.nodes ∨ ∃ p ∈ n :: done, k ∈ (p.edges c hints).nodes := by
    intro k
    rw [mem_entered_complete, h.entered, List.exists_mem_cons_iff, or_assoc, or_comm (b := _ ∈ _)]
  cases hd : n.decode c with
  | ok i =>
    have hi : n.instruction? c = some i := Node.instruction?_eq_some.2 hd
    have hf : n.fault? c = none := by simp [Node.fault?, hd]
    obtain ⟨queue, entered, ha⟩ := exists_absorb
      { m with instructions := (n, i) :: m.instructions } (n.edges c hints)
    rw [complete_of_ok hd] at hent ⊢
    refine ⟨?_, ?_, ?_, ?_, hent⟩ <;> rw [ha]
    · simp [entriesOf, hi, h.instructions]
    · simp [entriesOf, hf, h.failures]
    · simp [h.xrefs]
    · simp [h.conflicts]
  | error fault =>
    have hi : n.instruction? c = none := by simp [Node.instruction?, hd]
    have hf : n.fault? c = some fault := Node.fault?_eq_some.2 hd
    rw [complete_of_error hd] at hent ⊢
    refine ⟨?_, ?_, ?_, ?_, hent⟩
    · simp [entriesOf, hi, h.instructions]
    · simp [entriesOf, hf, h.failures]
    · simp [Node.edges_of_error hd, h.xrefs, Edges.empty]
    · simp [Node.edges_of_error hd, h.conflicts, Edges.empty]

/-- The trace of a machine depends on the set of the completed nodes and on the sets of what was
found. -/
theorem Records.toTrace_congr_of_mem {hints' : CheckedHints} {seeds' : Edges} {d : List Node}
    (h : m.Records c hints seeds done) (h' : m'.Records c hints' seeds' d) (hp : done.Perm d)
    (hn : done.Nodup) (hs : m.steps = m'.steps) (hx : ∀ x, x ∈ m.xrefs ↔ x ∈ m'.xrefs)
    (hc : ∀ x, x ∈ m.conflicts ↔ x ∈ m'.conflicts) (stopped : Option String) :
    m.toTrace stopped = m'.toTrace stopped := by
  unfold toTrace
  rw [h.instructions, h'.instructions, h.failures, h'.failures, hs, sortUnique_congr hx,
    sortByNode_entriesOf_congr hp hn, sortByNode_entriesOf_congr hp hn,
    sortUnique_congr (l := _ ++ m.conflicts) (k := _ ++ m'.conflicts)]
  intro x
  rw [List.mem_append, List.mem_append, hc]

/-- **The order of completion does not show** in the trace of a machine. -/
theorem Records.toTrace_congr {d : List Node} (h : m.Records c hints seeds done)
    (h' : m'.Records c hints seeds d) (hp : done.Perm d) (hn : done.Nodup)
    (hs : m.steps = m'.steps) (stopped : Option String) :
    m.toTrace stopped = m'.toTrace stopped := by
  refine h.toTrace_congr_of_mem h' hp hn hs (fun x => ?_) (fun x => ?_) stopped
  · rw [h.xrefs, h'.xrefs]
    simp only [List.mem_append, List.mem_flatMap, hp.mem_iff]
  · rw [h.conflicts, h'.conflicts]
    simp only [List.mem_append, List.mem_flatMap, hp.mem_iff]

theorem mem_conflicts_toTrace {stopped : Option String} {k : Conflict} :
    k ∈ (m.toTrace stopped).conflicts ↔
      k ∈ (stopped.map (budgetConflict m.steps)).toList ∨ k ∈ m.conflicts :=
  mem_sortUnique.trans List.mem_append

section

variable (h : m.Records c hints seeds done)
include h

theorem Records.mem_instructions {i : Instruction} :
    (n, i) ∈ m.instructions ↔ n ∈ done ∧ n.decode c = .ok i := by
  rw [h.instructions, mem_entriesOf, Node.instruction?_eq_some]

theorem Records.mem_failures {fault : DecodeFault} :
    (n, fault) ∈ m.failures ↔ n ∈ done ∧ n.decode c = .error fault := by
  rw [h.failures, mem_entriesOf, Node.fault?_eq_some]

/-- A completed node has one outcome, and only completed nodes have one. -/
theorem Records.mem_keys :
    n ∈ m.instructions.map Prod.fst ∨ n ∈ m.failures.map Prod.fst ↔ n ∈ done := by
  refine ⟨?_, fun hn => ?_⟩
  · rintro (hn | hn) <;> obtain ⟨⟨k, a⟩, hk, rfl⟩ := List.mem_map.1 hn
    · exact (h.mem_instructions.1 hk).1
    · exact (h.mem_failures.1 hk).1
  · cases hd : n.decode c with
    | ok i => exact .inl (List.mem_map.2 ⟨(n, i), h.mem_instructions.2 ⟨hn, hd⟩, rfl⟩)
    | error fault => exact .inr (List.mem_map.2 ⟨(n, fault), h.mem_failures.2 ⟨hn, hd⟩, rfl⟩)

theorem Records.nodup_keys (hd : done.Nodup) :
    (m.instructions.map Prod.fst ++ m.failures.map Prod.fst).Nodup := by
  refine List.nodup_append.2 ⟨?_, ?_, ?_⟩
  · rw [h.instructions]
    exact nodup_keys_entriesOf hd
  · rw [h.failures]
    exact nodup_keys_entriesOf hd
  · rintro n hn k hk rfl
    obtain ⟨⟨_, i⟩, hi, rfl⟩ := List.mem_map.1 hn
    obtain ⟨⟨_, fault⟩, hf, rfl⟩ := List.mem_map.1 hk
    have hok := (h.mem_instructions.1 hi).2
    rw [(h.mem_failures.1 hf).2] at hok
    cases hok

/-- What follows the completed nodes is what follows their instructions. -/
theorem Records.mem_flatMap_edges {α : Type} (part : Edges → List α) (hp : part .empty = [])
    {x : α} : x ∈ done.flatMap (fun n => part (n.edges c hints)) ↔
      ∃ n i, (n, i) ∈ m.instructions ∧ x ∈ part (successors c.map i hints) := by
  simp only [List.mem_flatMap, Node.mem_edges part hp, h.mem_instructions]
  constructor
  · rintro ⟨n, hn, i, hi, hx⟩
    exact ⟨n, i, ⟨hn, hi⟩, hx⟩
  · rintro ⟨n, i, ⟨hn, hi⟩, hx⟩
    exact ⟨n, hn, i, hi, hx⟩

/-- The cross references of a trace are those of its instructions and of the seeds. -/
theorem Records.mem_xrefs_toTrace (stopped : Option String) {x : Xref} :
    x ∈ (m.toTrace stopped).xrefs ↔
      (∃ n i, (n, i) ∈ (m.toTrace stopped).instructions ∧ x ∈ (successors c.map i hints).xrefs) ∨
        x ∈ seeds.xrefs := by
  have hx : x ∈ (m.toTrace stopped).xrefs ↔ x ∈ m.xrefs := mem_sortUnique
  rw [hx, h.xrefs, List.mem_append, h.mem_flatMap_edges Edges.xrefs rfl]
  simp only [toTrace, mem_sortByNode]

/-- The conflicts of a trace are those of its instructions and of the seeds, and the one that says
why it was stopped. -/
theorem Records.mem_conflicts_toTrace (stopped : Option String) {k : Conflict} :
    k ∈ (m.toTrace stopped).conflicts ↔ k ∈ (stopped.map (budgetConflict m.steps)).toList ∨
      (∃ n i, (n, i) ∈ (m.toTrace stopped).instructions ∧
        k ∈ (successors c.map i hints).conflicts) ∨ k ∈ seeds.conflicts := by
  rw [Machine.mem_conflicts_toTrace, h.conflicts, List.mem_append,
    h.mem_flatMap_edges Edges.conflicts rfl]
  simp only [toTrace, mem_sortByNode]

end

end Machine

end RomAtlas
