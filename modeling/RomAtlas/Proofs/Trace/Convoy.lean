import RomAtlas.Proofs.Trace.NodeSpace

/-!
# Schedules under limits

The limits of a run are asked before each dispatch and at no other time: not while the queue is
empty, though nodes in flight may still fill it. Once they stop the run, the nodes in flight are
completed and nothing more is dispatched. A `Convoy` is a fleet that moves under limits.

* `Convoy.Run.held`: what holds along every run under limits, in whatever order it goes.
* `Fleet.Run.comesToEnd`: **however it goes on, a run under limits ends**, with nothing in flight.
* `Machine.convoyRun_drive`: driving a machine is such a run, with at most one node in flight.
-/

namespace RomAtlas

variable {c : Cartridge} {hints : CheckedHints} {seeds : Edges} {limits : Limits}

/-! ## What stops a run -/

namespace Limits

variable {steps : Nat}

theorem lt_of_stop?_eq_none (h : limits.stop? steps = none) {b : Int}
    (hb : limits.stepBudget = some b) : (steps : Int) < b := by
  by_contra hle
  have hfilter : (limits.stepBudget.filter fun b : Int => b ≤ steps) = some b := by
    rw [hb, Option.filter_some, if_pos (by simpa using hle)]
  unfold stop? at h
  rw [hfilter] at h
  split at h
  · cases h
  · cases h

/-- Nothing stops a run that is not cancelled and within its budgets. -/
theorem stop?_eq_none (hc : limits.watch.cancelled steps = false)
    (hs : ∀ b, limits.stepBudget = some b → (steps : Int) < b)
    (ht : ∀ b, limits.timeBudget = some b → ¬ limits.watch.start + b ≤ limits.watch.now steps) :
    limits.stop? steps = none := by
  have hsteps : (limits.stepBudget.filter fun b : Int => b ≤ steps) = none := by
    refine Option.filter_eq_none_iff.2 fun b hb => ?_
    have hlt := hs b hb
    simpa using hlt
  have htime : (limits.timeBudget.filter fun b =>
      limits.watch.start + b ≤ limits.watch.now steps) = none := by
    refine Option.filter_eq_none_iff.2 fun b hb => ?_
    simpa using ht b hb
  simp [stop?, hc, hsteps, htime]

/-- What a run that was stopped was stopped by. -/
theorem stop?_eq_some {reason : Interruption} (h : limits.stop? steps = some reason) :
    reason = .cancelled ∧ limits.watch.cancelled steps = true ∨
    (∃ b, reason = .stepsUsed b ∧ limits.stepBudget = some b ∧ b ≤ steps) ∨
    ∃ b, reason = .timeUsed b ∧ limits.timeBudget = some b ∧
      limits.watch.start + b ≤ limits.watch.now steps := by
  unfold stop? at h
  split at h
  · next hcancelled => exact .inl ⟨(Option.some.inj h).symm, hcancelled⟩
  split at h
  · next b hb =>
    obtain ⟨hbudget, hle⟩ := Option.filter_eq_some_iff.1 hb
    exact .inr (.inl ⟨b, (Option.some.inj h).symm, hbudget, of_decide_eq_true hle⟩)
  · obtain ⟨b, hb, hreason⟩ := Option.map_eq_some_iff.1 h
    obtain ⟨hbudget, hle⟩ := Option.filter_eq_some_iff.1 hb
    exact .inr (.inr ⟨b, hreason.symm, hbudget, of_decide_eq_true hle⟩)

end Limits

/-! ## Runs -/

/-- A fleet under limits, and why it was stopped, if it was. -/
structure Convoy where
  fleet : Fleet
  stopped : Option Interruption

namespace Convoy

variable {g g' : Convoy}

/-- The seeds entered, nothing in flight and nothing stopped. -/
def start (seeds : Edges) : Convoy := ⟨.start seeds, none⟩

/-- All that was dispatched is completed, and nothing is left to dispatch unless the run was
stopped. -/
def Finished (g : Convoy) : Prop :=
  g.fleet.inFlight = [] ∧ (g.stopped = none → g.fleet.machine.dispatch? = none)

/-- One move under limits. While a node waits the limits are asked: they let it be dispatched, or
they stop the run. Nodes in flight are completed in either case, but what then waits is never
dispatched. -/
inductive Step (c : Cartridge) (hints : CheckedHints) (limits : Limits) : Convoy → Convoy → Prop
  | dispatch {f f' : Fleet} {n : Node} : limits.stop? f.machine.steps = none →
      Fleet.Step c hints f (.dispatch n) f' → Step c hints limits ⟨f, none⟩ ⟨f', none⟩
  | stop {f : Fleet} {reason : Interruption} : f.machine.dispatch? ≠ none →
      limits.stop? f.machine.steps = some reason → Step c hints limits ⟨f, none⟩ ⟨f, some reason⟩
  | complete {f f' : Fleet} {n : Node} {stopped : Option Interruption} :
      Fleet.Step c hints f (.complete n) f' → Step c hints limits ⟨f, stopped⟩ ⟨f', stopped⟩

/-- Any interleaving of moves under limits from the seeds on. -/
inductive Run (c : Cartridge) (hints : CheckedHints) (seeds : Edges) (limits : Limits) :
    Convoy → Prop
  | start : Run c hints seeds limits (.start seeds)
  | move {g g' : Convoy} : Run c hints seeds limits g → Step c hints limits g g' →
      Run c hints seeds limits g'

end Convoy

theorem Machine.exists_queue_enter (m : Machine) (n : Node) :
    ∃ more, (m.enter n).queue.toList = m.queue.toList ++ more := by
  by_cases h : n ∈ m.entered
  · exact ⟨[], by rw [enter_of_mem h, List.append_nil]⟩
  · exact ⟨[n], by rw [enter_of_notMem h, Fifo.toList_push]⟩

/-- Completing a node takes nothing from the queue. -/
theorem Machine.exists_queue_complete (c : Cartridge) (hints : CheckedHints) (m : Machine)
    (n : Node) :
    ∃ more, (m.complete c hints n).queue.toList = m.queue.toList ++ more := by
  have key : ∀ (l : List Node) (m : Machine),
      ∃ more, (l.foldl enter m).queue.toList = m.queue.toList ++ more := by
    intro l
    induction l with
    | nil => exact fun m => ⟨[], (List.append_nil _).symm⟩
    | cons k l ih =>
      intro m
      obtain ⟨more, hmore⟩ := m.exists_queue_enter k
      obtain ⟨rest, hrest⟩ := ih (m.enter k)
      exact ⟨more ++ rest, by rw [List.foldl_cons, hrest, hmore, List.append_assoc]⟩
  cases h : n.decode c with
  | ok i =>
    rw [complete_of_ok h]
    exact key _ _
  | error fault =>
    rw [complete_of_error h]
    exact ⟨[], (List.append_nil _).symm⟩

namespace Convoy

variable {g g' : Convoy}

/-- What moves under limits keep: the fleet moves as without limits, its steps are within the
budget, and it was stopped only for a reason that still holds, while a node waits. -/
structure Held (c : Cartridge) (hints : CheckedHints) (seeds : Edges) (limits : Limits)
    (g : Convoy) : Prop where
  run : ∃ moves, Fleet.Run c hints seeds moves g.fleet
  within : ∀ b, limits.stepBudget = some b → (g.fleet.machine.steps : Int) ≤ max b 0
  stopped : ∀ reason, g.stopped = some reason →
    limits.stop? g.fleet.machine.steps = some reason ∧ g.fleet.machine.queue.toList ≠ []

theorem held_start (c : Cartridge) (hints : CheckedHints) (seeds : Edges) (limits : Limits) :
    (start seeds).Held c hints seeds limits := by
  refine ⟨⟨[], .start⟩, fun b _ => ?_, nofun⟩
  have hsteps : (Fleet.start seeds).machine.steps = 0 := (Fleet.start_ok c hints seeds).steps
  show ((Fleet.start seeds).machine.steps : Int) ≤ max b 0
  rw [hsteps]
  exact le_max_right b 0

theorem Held.step (h : g.Held c hints seeds limits) (hs : Step c hints limits g g') :
    g'.Held c hints seeds limits := by
  obtain ⟨moves, hrun⟩ := h.run
  cases hs with
  | @dispatch f f' n hnone hstep =>
    refine ⟨⟨_, hrun.move hstep⟩, fun b hb => ?_, nofun⟩
    have hlt := Limits.lt_of_stop?_eq_none hnone hb
    cases hstep
    dsimp only
    omega
  | @stop f reason hwait hstop =>
    refine ⟨⟨moves, hrun⟩, h.within, fun reason' hr => ?_⟩
    obtain rfl := Option.some.inj hr
    exact ⟨hstop, fun hq => hwait (Machine.dispatch?_eq_none.2 hq)⟩
  | @complete f f' n stopped hstep =>
    have hsteps : f'.machine.steps = f.machine.steps := by
      cases hstep
      exact Machine.steps_complete
    refine ⟨⟨_, hrun.move hstep⟩, fun b hb => ?_, fun reason hr => ?_⟩
    · show (f'.machine.steps : Int) ≤ max b 0
      rw [hsteps]
      exact h.within b hb
    · obtain ⟨hstop, hqueue⟩ := h.stopped reason hr
      refine ⟨by rw [hsteps]; exact hstop, ?_⟩
      -- completing adds to what waits
      cases hstep
      obtain ⟨more, hmore⟩ := f.machine.exists_queue_complete c hints n
      dsimp only at hqueue ⊢
      rw [hmore]
      exact List.append_ne_nil_of_left_ne_nil hqueue more

/-- **What holds along every run under limits.** -/
theorem Run.held (h : Run c hints seeds limits g) : g.Held c hints seeds limits := by
  induction h with
  | start => exact held_start c hints seeds limits
  | move _ hs ih => exact ih.step hs

/-! ## Every run ends -/

/-- However it goes on, a run ends after finitely many moves, and then it is finished. -/
inductive ComesToEnd (c : Cartridge) (hints : CheckedHints) (limits : Limits) : Convoy → Prop
  | intro {g : Convoy} : (g.Finished ∨ ∃ g', Step c hints limits g g') →
      (∀ g', Step c hints limits g g' → ComesToEnd c hints limits g') →
      ComesToEnd c hints limits g

/-- A run that is not finished can go on. -/
theorem finished_or_exists_step (c : Cartridge) (hints : CheckedHints) (limits : Limits)
    (g : Convoy) : g.Finished ∨ ∃ g', Step c hints limits g g' := by
  obtain ⟨⟨m, inFlight⟩, stopped⟩ := g
  cases inFlight with
  | cons n rest =>
    -- a node in flight can be completed, whether or not the run was stopped
    exact .inr ⟨_, .complete (.complete (n := n) List.mem_cons_self)⟩
  | nil =>
    cases stopped with
    | some reason => exact .inl ⟨rfl, nofun⟩
    | none =>
      cases hd : m.dispatch? with
      | none => exact .inl ⟨rfl, fun _ => hd⟩
      | some next =>
        right
        cases hstop : limits.stop? m.steps with
        | none => exact ⟨_, .dispatch hstop (Fleet.Step.dispatch_head hd [])⟩
        | some reason =>
          refine ⟨_, .stop (f := ⟨m, []⟩) (fun hnone => ?_) hstop⟩
          rw [hd] at hnone
          cases hnone

/-- Each move under limits is one more move of the fleet, or it stops the run. -/
theorem Step.exists_run (hs : Step c hints limits g g') {moves : List Move}
    (h : Fleet.Run c hints seeds moves g.fleet) :
    ∃ moves', Fleet.Run c hints seeds moves' g'.fleet ∧
      moves.length + g.stopped.isSome.toNat < moves'.length + g'.stopped.isSome.toNat := by
  cases hs with
  | dispatch _ hmove => exact ⟨_, h.move hmove, by simp⟩
  | stop => exact ⟨moves, h, by simp⟩
  | complete hmove => exact ⟨_, h.move hmove, by simp⟩

end Convoy

/-- **However it goes on, a run under limits ends**, if no seed has more saved widths than are
remembered. Each node of the space is dispatched and completed at most once, and the run is stopped
at most once. -/
theorem Fleet.Run.comesToEnd (hs : ∀ n ∈ seeds.nodes, n.state.saved.length ≤ WidthState.maxSaved)
    {g : Convoy} {moves : List Move} (h : Fleet.Run c hints seeds moves g.fleet) :
    g.ComesToEnd c hints limits := by
  -- by induction on the number of moves that are left at most
  obtain ⟨left, hleft⟩ : ∃ left, 2 * (nodeSpace seeds hints).ncard + 1 ≤
      moves.length + g.stopped.isSome.toNat + left := ⟨_, Nat.le_add_left _ _⟩
  induction left generalizing g moves with
  | zero =>
    refine .intro (g.finished_or_exists_step c hints limits) fun g' hstep => ?_
    obtain ⟨moves', hrun, hmore⟩ := hstep.exists_run h
    have hlength := hrun.length_moves_le hs
    have hstopped := Bool.toNat_le g'.stopped.isSome
    omega
  | succ left ih =>
    refine .intro (g.finished_or_exists_step c hints limits) fun g' hstep => ?_
    obtain ⟨moves', hrun, hmore⟩ := hstep.exists_run h
    exact ih hrun (by omega)

/-! ## Driving a machine -/

namespace Machine

/-- **Driving a machine is a run under limits**, with at most one node in flight. -/
theorem convoyRun_drive (fuel : Nat) {m : Machine}
    (h : Convoy.Run c hints seeds limits ⟨⟨m, []⟩, none⟩) :
    Convoy.Run c hints seeds limits
      ⟨⟨(m.drive c hints limits fuel).1, []⟩, (m.drive c hints limits fuel).2⟩ := by
  induction fuel generalizing m with
  | zero => exact h
  | succ fuel ih =>
    unfold drive
    split
    · exact h
    · next n m' hd =>
      split
      · next reason hstop =>
        refine h.move (.stop (f := ⟨m, []⟩) (fun hnone => ?_) hstop)
        rw [hd] at hnone
        cases hnone
      · next hnone =>
        -- the head of the queue is dispatched and completed at once
        have hgo : Fleet.Step c hints ⟨m, []⟩ (.dispatch n) ⟨m', [n]⟩ :=
          Fleet.Step.dispatch_head hd []
        have hdone : Fleet.Step c hints ⟨m', [n]⟩ (.complete n)
            ⟨m'.complete c hints n, [n].erase n⟩ := .complete List.mem_cons_self
        rw [List.erase_cons_head] at hdone
        exact ih ((h.move (.dispatch hnone hgo)).move (.complete hdone))

/-- A machine that is driven and not stopped has no node waiting, or has made all its steps. -/
theorem drive_unstopped (fuel : Nat) {m : Machine} (h : (m.drive c hints limits fuel).2 = none) :
    (m.drive c hints limits fuel).1.queue.toList = [] ∨
      m.steps + fuel ≤ (m.drive c hints limits fuel).1.steps := by
  induction fuel generalizing m with
  | zero => exact .inr le_rfl
  | succ fuel ih =>
    unfold drive at h ⊢
    cases hd : m.dispatch? with
    | none => exact .inl (dispatch?_eq_none.1 hd)
    | some next =>
      simp only [hd] at h ⊢
      cases hstop : limits.stop? m.steps with
      | some reason =>
        rw [hstop] at h
        cases h
      | none =>
        simp only [hstop] at h ⊢
        have hnext : next.2.steps = m.steps + 1 := by
          obtain ⟨queue, -, hnext⟩ := dispatch?_eq_some hd
          rw [hnext]
        refine (ih h).imp id fun hsteps => ?_
        rw [steps_complete, hnext] at hsteps
        omega

end Machine

end RomAtlas
