import RomAtlas.Proofs.Trace.Convoy

/-!
# Traces are exact

`explore` is one of the schedules, the one that completes each node before it dispatches the next.
Since every schedule is finite, its fuel is never used up (`convoyRun_explore`).

* `explore_terminates`: **without budgets a trace ends by itself**; no schedule goes on for ever.
* `trace_eq_of_finished_run`: **all schedules end with the same trace** and dispatch each node once.
* `trace_exact`: **a trace that was not cut off shows exactly the reachable nodes.**
* `Trace.OfRun`: the traces of all schedules, at their end or stopped anywhere.
-/

namespace RomAtlas

variable {c : Cartridge} {hints : CheckedHints} {seeds : Edges} {limits : Limits}

/-- The limits of a trace under given settings. -/
def traceLimits (settings : TraceSettings) (watch : Watch) : Limits :=
  ⟨settings.stepBudget, settings.timeBudget, watch⟩

/-- The run is never cancelled. -/
def Watch.Uncancelled (watch : Watch) : Prop := ∀ steps, watch.cancelled steps = false

theorem Watch.uncancelled_still : (still false).Uncancelled := fun _ => rfl

/-- The nodes that a trace under given settings can reach. -/
def reachedFrom (c : Cartridge) (hints : CheckedHints) (settings : TraceSettings) : Set Node :=
  {n | Reachable c hints (traceSeeds c hints settings).nodes n}

theorem explore_eq_drive (settings : TraceSettings) (watch : Watch) :
    explore c hints settings watch =
      (Machine.start (traceSeeds c hints settings)).drive c hints (traceLimits settings watch)
        (nodeBound (traceSeeds c hints settings) hints + 1) := by
  unfold explore traceSeeds traceLimits
  dsimp only

theorem Machine.conclude_eq_ok {m : Machine} {stopped : Option Interruption} {t : Trace}
    (h : conclude (m, stopped) = .ok t) :
    ∃ text : Option String, text.isSome = stopped.isSome ∧ t = m.toTrace text := by
  cases stopped with
  | none =>
    cases h
    exact ⟨none, rfl, rfl⟩
  | some reason =>
    rw [conclude] at h
    split at h
    · cases h
      exact ⟨_, rfl, rfl⟩
    · cases h

/-- All nodes that a machine ever entered lie in a set, and it made no more steps than the set has
members. -/
structure Machine.Within (space : Set Node) (m : Machine) : Prop where
  entered : ∀ n ∈ m.entered, n ∈ space
  steps : m.steps ≤ space.ncard

/-- Seeds with no more saved widths than are remembered. -/
def Edges.Remembered (seeds : Edges) : Prop :=
  ∀ n ∈ seeds.nodes, n.state.saved.length ≤ WidthState.maxSaved

namespace Edges.Remembered

variable {settings : TraceSettings} {watch : Watch} {m : Machine} {f : Fleet}
  {moves : List Move} (hs : (traceSeeds c hints settings).Remembered)
include hs

theorem finite_reachedFrom : (reachedFrom c hints settings).Finite :=
  (finite_nodeSpace _ _).subset fun _ hn => hn.mem_nodeSpace hs

theorem within_nodeSpace (h : Fleet.Run c hints (traceSeeds c hints settings) moves f) :
    f.machine.Within (nodeSpace (traceSeeds c hints settings) hints) :=
  ⟨fun n hn => (h.ok.reachable n hn).mem_nodeSpace hs, h.steps_le hs⟩

/-- While a node waits, fewer nodes were dispatched than are reachable. -/
theorem steps_lt_of_waiting (h : Fleet.Run c hints (traceSeeds c hints settings) moves f)
    (hq : f.machine.queue.toList ≠ []) :
    f.machine.steps < (reachedFrom c hints settings).ncard := by
  have hle := length_le_ncard hs.finite_reachedFrom h.ok.queued.nodup
    fun n hn => h.ok.reachable n ((h.ok.queued.entered n).2 hn)
  have hpos := List.length_pos_iff.2 hq
  rw [List.length_append, ← h.ok.steps] at hle
  omega

/-- **Exploring is a finished run under limits**: its fuel is never used up. -/
theorem convoyRun_explore {stopped : Option Interruption}
    (h : explore c hints settings watch = (m, stopped)) :
    Convoy.Run c hints (traceSeeds c hints settings) (traceLimits settings watch)
      ⟨⟨m, []⟩, stopped⟩ ∧ Convoy.Finished ⟨⟨m, []⟩, stopped⟩ := by
  rw [explore_eq_drive] at h
  have hstart : Convoy.Run c hints (traceSeeds c hints settings) (traceLimits settings watch)
      ⟨⟨.start (traceSeeds c hints settings), []⟩, none⟩ := .start
  have hrun := Machine.convoyRun_drive (nodeBound (traceSeeds c hints settings) hints + 1) hstart
  rw [h] at hrun
  refine ⟨hrun, rfl, fun hr => ?_⟩
  have hend := Machine.drive_unstopped (nodeBound (traceSeeds c hints settings) hints + 1)
    ((congrArg Prod.snd h).trans hr)
  rw [h] at hend
  rcases hend with hq | hq
  · exact Machine.dispatch?_eq_none.2 hq
  · -- a run that used all its fuel would have dispatched more nodes than there are
    obtain ⟨moves, hfleet⟩ := hrun.held.run
    have hsteps := (hs.within_nodeSpace hfleet).steps
    have hspace := ncard_nodeSpace_le (traceSeeds c hints settings) hints
    dsimp only at hsteps hq
    omega

/-- Limits that leave a step for each node that can be reached stop no run. -/
theorem stopped_eq_none
    (hcancel : ∀ n < (reachedFrom c hints settings).ncard, watch.cancelled n = false)
    (hsteps : ∀ b, settings.stepBudget = some b → ((reachedFrom c hints settings).ncard : Int) ≤ b)
    (htime : ∀ b, settings.timeBudget = some b →
      ∀ n < (reachedFrom c hints settings).ncard, ¬ watch.start + b ≤ watch.now n)
    {g : Convoy}
    (h : Convoy.Run c hints (traceSeeds c hints settings) (traceLimits settings watch) g) :
    g.stopped = none := by
  cases hstopped : g.stopped with
  | none => rfl
  | some reason =>
    obtain ⟨hstop, hq⟩ := h.held.stopped reason hstopped
    obtain ⟨moves, hrun⟩ := h.held.run
    -- a node waits, so the limits were asked for a step that they leave
    have hlt := hs.steps_lt_of_waiting hrun hq
    have hleft : (traceLimits settings watch).stop? g.fleet.machine.steps = none := by
      refine Limits.stop?_eq_none (hcancel _ hlt) (fun b hb => ?_) fun b hb => htime b hb _ hlt
      have hle := hsteps b hb
      omega
    cases hleft.symm.trans hstop

/-- Limits that leave a step for each node that can be reached let a trace come to its end. -/
theorem exists_trace
    (hcancel : ∀ n < (reachedFrom c hints settings).ncard, watch.cancelled n = false)
    (hsteps : ∀ b, settings.stepBudget = some b → ((reachedFrom c hints settings).ncard : Int) ≤ b)
    (htime : ∀ b, settings.timeBudget = some b →
      ∀ n < (reachedFrom c hints settings).ncard, ¬ watch.start + b ≤ watch.now n) :
    ∃ f moves, Fleet.Run c hints (traceSeeds c hints settings) moves f ∧ f.Finished ∧
      trace c hints settings watch = .ok (f.machine.toTrace none) := by
  rcases he : explore c hints settings watch with ⟨m, stopped⟩
  obtain ⟨hrun, hf⟩ := hs.convoyRun_explore he
  obtain rfl : stopped = none := hs.stopped_eq_none hcancel hsteps htime hrun
  obtain ⟨moves, hfleet⟩ := hrun.held.run
  refine ⟨⟨m, []⟩, moves, hfleet, ⟨hf.2 rfl, rfl⟩, ?_⟩
  rw [trace, he, Machine.conclude]

/-- A trace without budgets and a cancellation comes to its end. -/
theorem exists_trace_unlimited (hsteps : settings.stepBudget = none)
    (htime : settings.timeBudget = none) (hwatch : watch.Uncancelled) :
    ∃ f moves, Fleet.Run c hints (traceSeeds c hints settings) moves f ∧ f.Finished ∧
      trace c hints settings watch = .ok (f.machine.toTrace none) := by
  refine hs.exists_trace (fun n _ => hwatch n) (fun b hb => ?_) (fun b hb => ?_)
  · rw [hsteps] at hb
    cases hb
  · rw [htime] at hb
    cases hb

end Edges.Remembered

section

variable {given : Hints} {checked : CheckedHints} {rejected : List Conflict}
  (hc : given.check c = .ok (checked, rejected)) {settings : TraceSettings} {watch : Watch}
  {f : Fleet} {moves : List Move}
include hc

/-- The seeds of checked hints have no saved widths at all. -/
theorem remembered_traceSeeds (settings : TraceSettings) :
    (traceSeeds c checked settings).Remembered := by
  intro n hn
  rw [(Hints.check_sound hc).saved_of_mem_traceSeeds hn]
  exact Nat.zero_le _

/-- All finished runs end with the trace that is made without budgets and a cancellation. -/
theorem Fleet.Run.trace_eq (h : Fleet.Run c checked (traceSeeds c checked settings) moves f)
    (hf : f.Finished) (hsteps : settings.stepBudget = none) (htime : settings.timeBudget = none)
    (hwatch : watch.Uncancelled) :
    trace c checked settings watch = .ok (f.machine.toTrace none) := by
  obtain ⟨f', moves', hrun, hf', ht⟩ :=
    (remembered_traceSeeds hc settings).exists_trace_unlimited hsteps htime hwatch
  rw [ht, hrun.toTrace_eq hf' h hf none]

end

/-! ## Two instructions -/

/-- An instruction that does nothing, and a return. -/
def shortCartridge : Cartridge :=
  ⟨⟨#[0xea, 0x60], by decide⟩, ⟨.loRom, 2, .slow, by decide, by decide⟩, rfl⟩

/-- Code starts at the first byte. -/
def startHints : Hints := ⟨[⟨0x8000, .null, none⟩], [], [], []⟩

/-- The standard settings without a budget. -/
def unlimitedSettings : TraceSettings := { TraceSettings.standard with stepBudget := none }

/-- What the check makes of `startHints`. -/
def startChecked : CheckedHints :=
  { CheckedHints.empty with entryPoints := [⟨0x8000, none, .null⟩] }

theorem check_startHints : startHints.check shortCartridge = .ok (startChecked, []) := rfl

/-- The instruction of `shortCartridge` that does nothing, seen at an address. -/
def idleAt (a : Int) : Instruction :=
  ⟨a, 0xea, ⟨.nop, .implied, .sequential⟩, [], ⟨.narrow, [], none⟩⟩

theorem decode_idleAt {a : Int} (h : shortCartridge.byteAt a = .ok 0xea) (s : WidthState) :
    Node.decode shortCartridge ⟨a, s⟩ = .ok { idleAt a with state := s } := by
  have hshape : Shape.ofCode? ((0xea : UInt8).toNat : Int) =
      some ⟨.nop, .implied, .sequential⟩ := by
    decide +kernel
  exact Node.decode_eq_ok_iff.2 ⟨rfl, rfl, h, hshape, rfl⟩

/-- Where the return of `shortCartridge` is met. -/
def returnNode : Node := ⟨0x8001, ⟨.narrow, [], none⟩⟩

/-- The return is reached from the entry point before it. -/
theorem reachedFrom_short :
    returnNode ∈ reachedFrom shortCartridge startChecked unlimitedSettings := by
  have hidle : Node.decode shortCartridge ⟨0x8000, ⟨.narrow, [], none⟩⟩ = .ok (idleAt 0x8000) :=
    decode_idleAt rfl _
  have hnext : (successors shortCartridge.map (idleAt 0x8000) startChecked).nodes = [returnNode] :=
    rfl
  refine .next (.seed (List.mem_append_right _ List.mem_cons_self)) hidle ?_
  rw [hnext]
  exact List.mem_cons_self

/-! ## All schedules end, and in the same way -/

/-- **A trace without budgets terminates.** Its nodes lie in a finite set that the inputs fix, the
size of the set bounds every schedule, and the loop ends by itself, for want of a node that waits,
unless it was cancelled. -/
theorem explore_terminates {given : Hints} {checked : CheckedHints} {rejected : List Conflict}
    (hc : given.check c = .ok (checked, rejected)) {settings : TraceSettings}
    (hsteps : settings.stepBudget = none) (htime : settings.timeBudget = none) (watch : Watch) :
    (nodeSpace (traceSeeds c checked settings) checked).Finite ∧
    (∀ moves f, Fleet.Run c checked (traceSeeds c checked settings) moves f →
      f.machine.Within (nodeSpace (traceSeeds c checked settings) checked) ∧
      moves.length ≤ 2 * (nodeSpace (traceSeeds c checked settings) checked).ncard) ∧
    ∃ m stopped, explore c checked settings watch = (m, stopped) ∧
      m.Within (nodeSpace (traceSeeds c checked settings) checked) ∧
      (stopped = none ∧ m.dispatch? = none ∨
        watch.cancelled m.steps = true ∧ stopped = some .cancelled) := by
  have hs := remembered_traceSeeds hc settings
  refine ⟨finite_nodeSpace _ _, fun moves f h => ⟨hs.within_nodeSpace h, ?_⟩, ?_⟩
  · exact h.length_moves_le hs
  rcases he : explore c checked settings watch with ⟨m, stopped⟩
  obtain ⟨hrun, hf⟩ := hs.convoyRun_explore he
  obtain ⟨moves, hfleet⟩ := hrun.held.run
  refine ⟨m, stopped, rfl, hs.within_nodeSpace hfleet, ?_⟩
  cases stopped with
  | none => exact .inl ⟨rfl, hf.2 rfl⟩
  | some reason =>
    -- there is no budget that could have stopped the run
    obtain ⟨hstop, -⟩ := hrun.held.stopped reason rfl
    rcases Limits.stop?_eq_some hstop with ⟨rfl, hcancel⟩ | ⟨b, -, hb, -⟩ | ⟨b, -, hb, -⟩
    · exact .inr ⟨hcancel, rfl⟩
    · cases hsteps.symm.trans hb
    · cases htime.symm.trans hb

theorem explore_terminates_short : startHints.check shortCartridge = .ok (startChecked, []) ∧
    ∃ m stopped, explore shortCartridge startChecked unlimitedSettings (.still false) =
        (m, stopped) ∧
      m.Within (nodeSpace (traceSeeds shortCartridge startChecked unlimitedSettings)
        startChecked) ∧
      stopped = none ∧ m.dispatch? = none := by
  obtain ⟨-, -, m, stopped, he, hwithin, hend⟩ :=
    explore_terminates check_startHints (rfl : unlimitedSettings.stepBudget = none) rfl
      (.still false)
  exact ⟨check_startHints, m, stopped, he, hwithin, hend.resolve_right (by simp [Watch.still])⟩

/-- **Schedules do not show.** Whatever order the workers take, each node that is ever entered is
dispatched once, no other node is, and the run ends with the trace of `explore`. -/
theorem trace_eq_of_finished_run {given : Hints} {checked : CheckedHints} {rejected : List Conflict}
    (hc : given.check c = .ok (checked, rejected)) {settings : TraceSettings}
    (hsteps : settings.stepBudget = none) (htime : settings.timeBudget = none) {watch : Watch}
    (hwatch : watch.Uncancelled) {f : Fleet} {moves : List Move}
    (h : Fleet.Run c checked (traceSeeds c checked settings) moves f) (hf : f.Finished) :
    (∀ n ∈ f.machine.entered, moves.count (.dispatch n) = 1) ∧
    (∀ n ∉ f.machine.entered, moves.count (.dispatch n) = 0) ∧
    trace c checked settings watch = .ok (f.machine.toTrace none) := by
  refine ⟨fun n hn => ?_, fun n hn => ?_, ?_⟩
  · rw [count_dispatch]
    exact List.count_eq_one_of_mem h.nodup_dispatches ((h.mem_dispatches hf).2 hn)
  · rw [count_dispatch, List.count_eq_zero, h.mem_dispatches hf]
    exact hn
  · exact h.trace_eq hc hf hsteps htime hwatch

/-- The return is dispatched once, after the instruction before it. -/
theorem trace_eq_of_finished_run_short : ∃ moves f,
    startHints.check shortCartridge = .ok (startChecked, []) ∧
    (Watch.still false).Uncancelled ∧
    Fleet.Run shortCartridge startChecked
      (traceSeeds shortCartridge startChecked unlimitedSettings) moves f ∧ f.Finished ∧
    moves.count (.dispatch returnNode) = 1 ∧
    trace shortCartridge startChecked unlimitedSettings (.still false) =
      .ok (f.machine.toTrace none) := by
  obtain ⟨f, moves, hrun, hf, -⟩ := (remembered_traceSeeds check_startHints
    unlimitedSettings).exists_trace_unlimited rfl rfl Watch.uncancelled_still
  obtain ⟨honce, -, htrace⟩ :=
    trace_eq_of_finished_run check_startHints rfl rfl Watch.uncancelled_still hrun hf
  have hdone := (hrun.mem_completions hf).2 reachedFrom_short
  have hsent := (hrun.perm_of_finished hf).mem_iff.2 hdone
  exact ⟨moves, f, check_startHints, Watch.uncancelled_still, hrun, hf,
    honce _ ((hrun.mem_dispatches hf).1 hsent), htrace⟩

/-! ## What a trace shows -/

/-- The nodes that a trace shows, decoded or not. -/
def Trace.visited (t : Trace) : Set Node :=
  {n | n ∈ t.instructions.map Prod.fst ∨ n ∈ t.failures.map Prod.fst}

/-- A trace shows exactly what the flow of control meets: the least set of nodes that holds the
seeds and what follows its members, each node under its one outcome, and all that was found on the
way, each once and in order. -/
structure Trace.Exact (c : Cartridge) (hints : CheckedHints) (settings : TraceSettings)
    (t : Trace) : Prop where
  least : IsLeast {S | FlowClosed c hints (traceSeeds c hints settings).nodes S} t.visited
  nodup : (t.instructions.map Prod.fst ++ t.failures.map Prod.fst).Nodup
  instructions : ∀ n i, (n, i) ∈ t.instructions ↔ n ∈ t.visited ∧ n.decode c = .ok i
  failures : ∀ n e, (n, e) ∈ t.failures ↔ n ∈ t.visited ∧ n.decode c = .error e
  xrefs : ∀ x, x ∈ t.xrefs ↔
    (settings.useVectors = true ∧ x ∈ (vectorEdges c ⟨settings.initial, [], none⟩).xrefs) ∨
      ∃ n i, (n, i) ∈ t.instructions ∧ x ∈ (successors c.map i hints).xrefs
  xrefs_ascending : t.xrefs.Pairwise fun x y => compare x y = .lt
  conflicts : ∀ x, x ∈ t.conflicts ↔
    (settings.useVectors = true ∧ x ∈ (vectorEdges c ⟨settings.initial, [], none⟩).conflicts) ∨
      ∃ n i, (n, i) ∈ t.instructions ∧ x ∈ (successors c.map i hints).conflicts
  conflicts_ascending : t.conflicts.Pairwise fun x y => compare x y = .lt

section

variable {settings : TraceSettings} {f : Fleet} {moves : List Move}

theorem mem_xrefs_traceSeeds {x : Xref} : x ∈ (traceSeeds c hints settings).xrefs ↔
    settings.useVectors = true ∧ x ∈ (vectorEdges c ⟨settings.initial, [], none⟩).xrefs := by
  unfold traceSeeds seedEdges
  cases settings.useVectors <;> simp [Edges.xrefs_append, Edges.empty]

theorem mem_conflicts_traceSeeds {x : Conflict} : x ∈ (traceSeeds c hints settings).conflicts ↔
    settings.useVectors = true ∧ x ∈ (vectorEdges c ⟨settings.initial, [], none⟩).conflicts := by
  unfold traceSeeds seedEdges
  cases settings.useVectors <;> simp [Edges.conflicts_append, Edges.empty]

theorem Trace.Exact.visited_eq {t : Trace} (h : t.Exact c hints settings) :
    t.visited = reachedFrom c hints settings :=
  h.least.unique (isLeast_reachable c hints _)

/-- **A finished run shows exactly what the flow of control meets.** -/
theorem Fleet.Run.exact (h : Fleet.Run c hints (traceSeeds c hints settings) moves f)
    (hf : f.Finished) : (f.machine.toTrace none).Exact c hints settings := by
  have hr := h.ok.records
  have hi := sortByNode_perm f.machine.instructions
  have hfail := sortByNode_perm f.machine.failures
  have hv : ∀ n, n ∈ (f.machine.toTrace none).visited ↔ n ∈ completions moves := by
    intro n
    rw [← hr.mem_keys, ← (hi.map Prod.fst).mem_iff, ← (hfail.map Prod.fst).mem_iff]
    rfl
  have hreach : (f.machine.toTrace none).visited = reachedFrom c hints settings := by
    ext n
    exact (hv n).trans (h.mem_completions hf)
  refine ⟨?_, ?_, fun n i => ?_, fun n e => ?_, fun x => ?_, pairwise_sortUnique _, fun x => ?_,
    pairwise_sortUnique _⟩
  · rw [hreach]
    exact isLeast_reachable c hints _
  · have hkeys := hr.nodup_keys (h.nodup_completions hf)
    exact ((hi.map Prod.fst).append (hfail.map Prod.fst)).nodup_iff.2 hkeys
  · rw [hv, ← hr.mem_instructions]
    exact hi.mem_iff
  · rw [hv, ← hr.mem_failures]
    exact hfail.mem_iff
  · rw [hr.mem_xrefs_toTrace, or_comm, mem_xrefs_traceSeeds]
  · rw [hr.mem_conflicts_toTrace, or_comm (a := ∃ n i, _), mem_conflicts_traceSeeds]
    simp

end

/-! ## Traces of runs -/

/-- The traces of runs: in whatever order the workers go, a run shows what it has found when it is
at its end, or wherever it is stopped, for whatever reason. -/
def Trace.OfRun (c : Cartridge) (hints : CheckedHints) (settings : TraceSettings) (t : Trace) :
    Prop :=
  ∃ moves f stopped, Fleet.Run c hints (traceSeeds c hints settings) moves f ∧
    (stopped = none → f.Finished) ∧ t = f.machine.toTrace stopped

section

variable {settings : TraceSettings} {t : Trace}

/-- A run that was not cut off shows exactly what the flow of control meets. -/
theorem Trace.OfRun.exact (h : t.OfRun c hints settings) (hwhole : t.truncated = false) :
    t.Exact c hints settings := by
  obtain ⟨moves, f, stopped, hrun, hf, rfl⟩ := h
  obtain rfl : stopped = none := Option.isSome_eq_false_iff.1 hwhole |> Option.isNone_iff_eq_none.1
  exact hrun.exact (hf rfl)

/-- **A finished run under limits shows the trace of a run**, also one that was cut off. -/
theorem Convoy.Run.ofRun {g : Convoy}
    (h : Convoy.Run c hints (traceSeeds c hints settings) limits g) (hf : g.Finished)
    (ht : Machine.conclude (g.fleet.machine, g.stopped) = .ok t) : t.OfRun c hints settings := by
  obtain ⟨moves, hrun⟩ := h.held.run
  obtain ⟨text, htext, rfl⟩ := Machine.conclude_eq_ok ht
  refine ⟨moves, g.fleet, text, hrun, fun hnone => ?_, rfl⟩
  rw [hnone] at htext
  exact ⟨hf.2 (Option.isNone_iff_eq_none.1 (by simpa using htext.symm)), hf.1⟩

/-- **Every trace is that of a run**, also one that was cut off. -/
theorem ofRun_of_trace {given : Hints} {checked : CheckedHints} {rejected : List Conflict}
    (hc : given.check c = .ok (checked, rejected)) {watch : Watch}
    (h : trace c checked settings watch = .ok t) : t.OfRun c checked settings := by
  rw [trace] at h
  rcases he : explore c checked settings watch with ⟨m, stopped⟩
  rw [he] at h
  obtain ⟨hrun, hf⟩ := (remembered_traceSeeds hc settings).convoyRun_explore he
  exact hrun.ofRun hf h

/-- A trace without budgets and a cancellation is exact. -/
theorem exact_of_unlimited {given : Hints} {checked : CheckedHints} {rejected : List Conflict}
    (hc : given.check c = .ok (checked, rejected)) (hsteps : settings.stepBudget = none)
    (htime : settings.timeBudget = none) {watch : Watch} (hwatch : watch.Uncancelled)
    (ht : trace c checked settings watch = .ok t) : t.Exact c checked settings := by
  obtain ⟨f, moves, hrun, hf, hshown⟩ :=
    (remembered_traceSeeds hc settings).exists_trace_unlimited hsteps htime hwatch
  obtain rfl := Except.ok.inj (hshown.symm.trans ht)
  exact hrun.exact hf

end

/-- **A trace is exact.** Every run at its end, in whatever order it went, shows exactly what the
flow of control meets, and so does a trace that was not cut off. No run is stopped, and the trace is
not cut off, if the limits leave a step for each node that can be reached: it is not cancelled
before, the step budget is no smaller, and the time budget does not run out. -/
theorem trace_exact {given : Hints} {checked : CheckedHints} {rejected : List Conflict}
    (hc : given.check c = .ok (checked, rejected)) (settings : TraceSettings) :
    (∀ moves f, Fleet.Run c checked (traceSeeds c checked settings) moves f → f.Finished →
      (f.machine.toTrace none).Exact c checked settings) ∧
    ∀ watch : Watch,
      (∀ t, trace c checked settings watch = .ok t → t.truncated = false →
        t.Exact c checked settings) ∧
      ((∀ n < (reachedFrom c checked settings).ncard, watch.cancelled n = false) →
        (∀ b, settings.stepBudget = some b →
          ((reachedFrom c checked settings).ncard : Int) ≤ b) →
        (∀ b, settings.timeBudget = some b →
          ∀ n < (reachedFrom c checked settings).ncard, ¬ watch.start + b ≤ watch.now n) →
        (∀ g, Convoy.Run c checked (traceSeeds c checked settings) (traceLimits settings watch) g →
          g.stopped = none) ∧
        ∃ t, trace c checked settings watch = .ok t ∧ t.truncated = false) := by
  have hs := remembered_traceSeeds hc settings
  refine ⟨fun moves f h hf => h.exact hf, fun watch => ⟨fun t ht => ?_, ?_⟩⟩
  · exact (ofRun_of_trace hc ht).exact
  · intro hcancel hsteps htime
    refine ⟨fun g hg => hs.stopped_eq_none hcancel hsteps htime hg, ?_⟩
    obtain ⟨f, moves, -, -, ht⟩ := hs.exists_trace hcancel hsteps htime
    exact ⟨f.machine.toTrace none, ht, rfl⟩

/-- The trace goes on from the entry point to the return. -/
theorem trace_exact_short : ∃ t, startHints.check shortCartridge = .ok (startChecked, []) ∧
    trace shortCartridge startChecked unlimitedSettings (.still false) = .ok t ∧
    t.truncated = false ∧ t.Exact shortCartridge startChecked unlimitedSettings ∧
    returnNode ∈ t.visited := by
  obtain ⟨-, hwatch⟩ := trace_exact check_startHints unlimitedSettings
  obtain ⟨hexact, hcut⟩ := hwatch (.still false)
  obtain ⟨-, t, ht, hwhole⟩ := hcut (fun _ _ => rfl) nofun nofun
  have hshown := hexact t ht hwhole
  refine ⟨t, check_startHints, ht, hwhole, hshown, ?_⟩
  rw [hshown.visited_eq]
  exact reachedFrom_short

end RomAtlas
