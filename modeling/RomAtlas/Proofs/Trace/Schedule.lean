import RomAtlas.Proofs.Trace.Records

/-!
# Schedules

A trace with several workers has several nodes in flight and completes them in any order. What a
worker has entered joins the queue some time after its node is completed, behind what other workers
entered or before it. So any of the nodes that wait may be the next to be dispatched: a `Fleet` is a
machine with the nodes that are in flight, and a `Fleet.Run` is any interleaving of dispatches of
nodes that wait and completions of nodes in flight, from the seeds on.

* `Fleet.Run.ok`: what holds along every run. Each node ever entered is reachable, and it is
  dispatched and completed at most once.
* `Fleet.Run.mem_completions`: **a finished run has completed exactly the reachable nodes.**
* `Fleet.Run.toTrace_eq`: all finished runs end with the same trace.
-/

namespace RomAtlas

/-- A machine, and the nodes that were dispatched and not yet completed. -/
structure Fleet where
  machine : Machine
  inFlight : List Node

/-- The moves of a schedule. -/
inductive Move where
  | dispatch (n : Node)
  | complete (n : Node)
deriving DecidableEq

namespace Move

/-- The node that a move dispatches. -/
def dispatched? : Move → Option Node
  | dispatch n => some n
  | complete _ => none

/-- The node that a move completes. -/
def completed? : Move → Option Node
  | dispatch _ => none
  | complete n => some n

end Move

/-- The nodes that moves dispatch. -/
def dispatches (moves : List Move) : List Node := moves.filterMap Move.dispatched?

/-- The nodes that moves complete. -/
def completions (moves : List Move) : List Node := moves.filterMap Move.completed?

section

variable (moves : List Move) (n : Node)

@[simp]
theorem dispatches_dispatch : dispatches (.dispatch n :: moves) = n :: dispatches moves := rfl

@[simp]
theorem dispatches_complete : dispatches (.complete n :: moves) = dispatches moves := rfl

@[simp]
theorem completions_dispatch : completions (.dispatch n :: moves) = completions moves := rfl

@[simp]
theorem completions_complete : completions (.complete n :: moves) = n :: completions moves := rfl

theorem count_dispatch : moves.count (.dispatch n) = (dispatches moves).count n := by
  induction moves with
  | nil => rfl
  | cons a moves ih => cases a <;> simp [List.count_cons, ih]

theorem length_moves :
    moves.length = (dispatches moves).length + (completions moves).length := by
  induction moves with
  | nil => rfl
  | cons a moves ih => cases a <;> simp [ih] <;> omega

end

namespace Fleet

variable {c : Cartridge} {hints : CheckedHints} {seeds : Edges} {f f' : Fleet} {n : Node} {a : Move}
  {moves : List Move}

/-- The seeds entered and nothing in flight. -/
def start (seeds : Edges) : Fleet := ⟨.start seeds, []⟩

/-- Nothing waits and nothing is in flight. -/
def Finished (f : Fleet) : Prop := f.machine.dispatch? = none ∧ f.inFlight = []

/-- One move: any node that waits is dispatched, and the others go on waiting in any order, or any
node in flight is completed. -/
inductive Step (c : Cartridge) (hints : CheckedHints) : Fleet → Move → Fleet → Prop
  | dispatch {f : Fleet} {n : Node} {queue : Fifo Node} :
      f.machine.queue.toList.Perm (n :: queue.toList) →
      Step c hints f (.dispatch n)
        ⟨{ f.machine with queue, steps := f.machine.steps + 1 }, n :: f.inFlight⟩
  | complete {f : Fleet} {n : Node} : n ∈ f.inFlight →
      Step c hints f (.complete n) ⟨f.machine.complete c hints n, f.inFlight.erase n⟩

/-- The head of the queue is one of the nodes that may be dispatched. -/
theorem Step.dispatch_head {m m' : Machine} (h : m.dispatch? = some (n, m'))
    (inFlight : List Node) : Step c hints ⟨m, inFlight⟩ (.dispatch n) ⟨m', n :: inFlight⟩ := by
  obtain ⟨queue, hq, rfl⟩ := Machine.dispatch?_eq_some h
  exact .dispatch (f := ⟨m, inFlight⟩) (.of_eq hq)

/-- Any interleaving of moves from the seeds on, the latest move first. -/
inductive Run (c : Cartridge) (hints : CheckedHints) (seeds : Edges) : List Move → Fleet → Prop
  | start : Run c hints seeds [] (.start seeds)
  | move {moves : List Move} {f f' : Fleet} {a : Move} : Run c hints seeds moves f →
      Step c hints f a f' → Run c hints seeds (a :: moves) f'

/-- What moves have made of a fleet. -/
structure Ok (c : Cartridge) (hints : CheckedHints) (seeds : Edges) (moves : List Move)
    (f : Fleet) : Prop where
  records : f.machine.Records c hints seeds (completions moves)
  queued : f.machine.Queued (dispatches moves)
  flying : (dispatches moves).Perm (f.inFlight ++ completions moves)
  steps : f.machine.steps = (dispatches moves).length
  reachable : ∀ n ∈ f.machine.entered, Reachable c hints seeds.nodes n

theorem start_ok (c : Cartridge) (hints : CheckedHints) (seeds : Edges) :
    (start seeds).Ok c hints seeds [] := by
  have hr := Machine.records_start c hints seeds
  obtain ⟨queue, entered, h⟩ := Machine.exists_absorb .empty seeds
  refine ⟨hr, Machine.queued_start seeds, .nil, ?_, fun n hn => ?_⟩
  · show (Machine.empty.absorb seeds).steps = 0
    rw [h]; rfl
  · rcases (hr.entered n).1 hn with hn | ⟨k, hk, -⟩
    · exact .seed hn
    · cases hk

/-- A node in flight was entered before. -/
theorem Ok.entered_of_inFlight (h : f.Ok c hints seeds moves) (hn : n ∈ f.inFlight) :
    n ∈ f.machine.entered := by
  rw [h.queued.entered, List.mem_append, h.flying.mem_iff]
  exact .inl (List.mem_append_left _ hn)

theorem Ok.step (h : f.Ok c hints seeds moves) (hs : Step c hints f a f') :
    f'.Ok c hints seeds (a :: moves) := by
  cases hs with
  | @dispatch n queue hq =>
    exact ⟨h.records.dispatch queue, h.queued.dispatch hq, h.flying.cons n,
      congrArg (· + 1) h.steps, h.reachable⟩
  | @complete n hn =>
    refine ⟨h.records.complete, h.queued.complete, ?_, ?_, fun k hk => ?_⟩
    · -- the node goes from those in flight to the completed ones
      have hp : f.inFlight.Perm (n :: f.inFlight.erase n) := List.perm_cons_erase hn
      exact h.flying.trans ((hp.append_right _).trans List.perm_middle.symm)
    · exact Machine.steps_complete.trans h.steps
    · rcases Machine.mem_entered_complete.1 hk with hk | hk
      · exact h.reachable k hk
      · exact (h.reachable n (h.entered_of_inFlight hn)).edges hk

theorem Run.ok (h : Run c hints seeds moves f) : f.Ok c hints seeds moves := by
  induction h with
  | start => exact start_ok c hints seeds
  | move _ hs ih => exact ih.step hs

/-- No node is dispatched twice. -/
theorem Run.nodup_dispatches (h : Run c hints seeds moves f) : (dispatches moves).Nodup :=
  (List.nodup_append.1 h.ok.queued.nodup).1

theorem Run.length_completions_le (h : Run c hints seeds moves f) :
    (completions moves).length ≤ (dispatches moves).length := by
  rw [h.ok.flying.length_eq, List.length_append]
  exact Nat.le_add_left _ _

theorem Run.reachable_of_dispatched (h : Run c hints seeds moves f) (hn : n ∈ dispatches moves) :
    Reachable c hints seeds.nodes n :=
  h.ok.reachable n ((h.ok.queued.entered n).2 (List.mem_append_left _ hn))

section Finished

variable (h : Run c hints seeds moves f) (hf : f.Finished)
include h hf

theorem Run.perm_of_finished : (dispatches moves).Perm (completions moves) := by
  have hp := h.ok.flying
  rwa [hf.2, List.nil_append] at hp

/-- A finished run has dispatched all nodes that were ever entered. -/
theorem Run.mem_dispatches : n ∈ dispatches moves ↔ n ∈ f.machine.entered := by
  rw [h.ok.queued.entered, Machine.dispatch?_eq_none.1 hf.1, List.append_nil]

/-- **A finished run has completed exactly the reachable nodes.** -/
theorem Run.mem_completions : n ∈ completions moves ↔ Reachable c hints seeds.nodes n := by
  have hc : ∀ k, k ∈ completions moves ↔ k ∈ f.machine.entered :=
    fun k => (h.perm_of_finished hf).mem_iff.symm.trans (h.mem_dispatches hf)
  refine ⟨fun hn => h.ok.reachable n ((hc n).1 hn), fun hn => ?_⟩
  induction hn with
  | seed hs => exact (hc _).2 ((h.ok.records.entered _).2 (.inl hs))
  | next _ hi hk ih =>
    exact (hc _).2 ((h.ok.records.entered _).2
      (.inr ⟨_, ih, Node.mem_nodes_edges.2 ⟨_, hi, hk⟩⟩))

theorem Run.nodup_completions : (completions moves).Nodup :=
  (h.perm_of_finished hf).nodup_iff.1 h.nodup_dispatches

end Finished

/-- **Schedules do not show.** All finished runs end with the same trace. -/
theorem Run.toTrace_eq {moves' : List Move} (h : Run c hints seeds moves f) (hf : f.Finished)
    (h' : Run c hints seeds moves' f') (hf' : f'.Finished) (stopped : Option String) :
    f.machine.toTrace stopped = f'.machine.toTrace stopped := by
  have hp : (completions moves).Perm (completions moves') := by
    rw [List.perm_ext_iff_of_nodup (h.nodup_completions hf) (h'.nodup_completions hf')]
    intro n
    rw [h.mem_completions hf, h'.mem_completions hf']
  have hsteps : f.machine.steps = f'.machine.steps := by
    rw [h.ok.steps, h'.ok.steps, (h.perm_of_finished hf).length_eq, hp.length_eq,
      (h'.perm_of_finished hf').length_eq]
  exact h.ok.records.toTrace_congr h'.ok.records hp (h.nodup_completions hf) hsteps stopped

end Fleet

end RomAtlas
