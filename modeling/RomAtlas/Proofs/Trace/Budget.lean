import RomAtlas.Proofs.Region.Evidence

/-!
# Step budgets

A run under a step budget makes a step for each node that can be reached, or as many as the budget
allows, in whatever order it goes.

* `Convoy.Run.steps_eq`: **a run makes as many steps as it can reach nodes, or as its budget
  allows.**
* `budget_accounts`: the whole account of a run under a step budget.
* `trace_fails_on_long_budget`: a budget that is too long to be shown ends in a fault.
-/

namespace RomAtlas

variable {c : Cartridge} {hints : CheckedHints} {seeds : Edges}

/-! ## Conflicts of edges -/

/-- A conflict that stands at an address and does not concern the run as a whole. -/
def Conflict.IsPlaced (k : Conflict) : Prop := k.address ≠ none ∧ k.kind ≠ .budgetExhausted

/-- All conflicts of edges are placed. -/
def Edges.Placed (e : Edges) : Prop := ∀ k ∈ e.conflicts, k.IsPlaced

namespace Edges

theorem placed_empty : empty.Placed := nofun

theorem Placed.append {e f : Edges} (he : e.Placed) (hf : f.Placed) : (e ++ f).Placed :=
  fun k hk => (List.mem_append.1 hk).elim (he k) (hf k)

end Edges

section

variable {m : AddressMap} {i : Instruction} {states : List WidthState}

theorem placed_fallThrough : (fallThrough i states).Placed := nofun

theorem placed_uncertainWidth : (uncertainWidth i states).Placed := by
  unfold uncertainWidth
  split
  · intro k hk
    rw [List.mem_singleton.1 hk]
    exact ⟨nofun, nofun⟩
  · exact Edges.placed_empty

theorem placed_transferTo (kind : XrefKind) (targets : List Int) :
    (transferTo m i states kind targets).Placed := by
  intro k hk
  obtain ⟨t, -, rfl⟩ := List.mem_map.1 hk
  exact ⟨nofun, nofun⟩

theorem placed_unresolved : (unresolved m i).Placed := by
  intro k hk
  rw [List.mem_singleton.1 hk]
  exact ⟨nofun, nofun⟩

theorem placed_successors : (successors m i hints).Placed :=
  successors_parts Edges.placed_empty (fun _ _ => .append) placed_fallThrough placed_uncertainWidth
    (fun kind targets _ _ _ => placed_transferTo kind targets) fun _ _ => placed_unresolved

theorem Node.placed_edges (n : Node) : (n.edges c hints).Placed := by
  cases h : n.decode c with
  | ok i =>
    rw [Node.edges_of_ok h]
    exact placed_successors
  | error fault =>
    rw [Node.edges_of_error h]
    exact Edges.placed_empty

theorem placed_vectorEdge (state : WidthState) (slot : Int) (name : String) (target : Nat) :
    (vectorEdge m state slot name target).Placed := by
  unfold vectorEdge
  split
  · exact Edges.placed_empty
  split
  · exact nofun
  · intro k hk
    rw [List.mem_singleton.1 hk]
    exact ⟨nofun, nofun⟩

theorem placed_traceSeeds (hints : CheckedHints) (settings : TraceSettings) :
    (traceSeeds c hints settings).Placed :=
  seedEdges_parts Edges.placed_empty (fun _ _ => .append) (fun _ _ he => he)
    (placed_vectorEdge _) _

end

/-- **All that a machine notes is placed**, if the seeds are. -/
theorem Machine.Records.isPlaced {m : Machine} {done : List Node}
    (h : m.Records c hints seeds done) (hs : seeds.Placed) : ∀ k ∈ m.conflicts, k.IsPlaced := by
  intro k hk
  rw [h.conflicts, List.mem_append, List.mem_flatMap] at hk
  rcases hk with ⟨n, -, hk⟩ | hk
  · exact n.placed_edges k hk
  · exact hs k hk

/-! ## The account of a run -/

/-- The account of a trace under a step budget, beside the whole trace. It made a step for each node
that can be reached or as many as the budget allows, each with one outcome. It was cut off exactly
if more nodes can be reached, one conflict says so, and all else is part of the whole trace. -/
structure Trace.Accounts (reached : Set Node) (b : Int) (t whole : Trace) : Prop where
  steps : (t.steps : Int) = min (reached.ncard : Int) (max b 0)
  outcomes : t.instructions.length + t.failures.length = t.steps
  truncated : t.truncated = true ↔ max b 0 < (reached.ncard : Int)
  noted : (t.conflicts.filter (·.kind = .budgetExhausted)).length = if t.truncated then 1 else 0
  instructions : t.instructions ⊆ whole.instructions
  failures : t.failures ⊆ whole.failures
  xrefs : t.xrefs ⊆ whole.xrefs
  conflicts : ∀ k ∈ t.conflicts, k.kind ≠ .budgetExhausted → k ∈ whole.conflicts

section

variable {m : Machine} {done : List Node} {f f' : Fleet} {moves moves' : List Move}

/-- A completed node has one outcome. -/
theorem Machine.Records.length_outcomes (h : m.Records c hints seeds done) :
    m.instructions.length + m.failures.length = done.length := by
  rw [h.instructions, h.failures]
  clear h
  induction done with
  | nil => rfl
  | cons n done ih =>
    cases hn : n.decode c <;>
      simp [entriesOf, Node.instruction?, Node.fault?, hn] at ih ⊢ <;> omega

/-- The one conflict of a trace that concerns the run as a whole says that it was stopped. -/
theorem Machine.length_budgetExhausted (hplaced : ∀ k ∈ m.conflicts, k.IsPlaced)
    (stopped : Option String) :
    ((m.toTrace stopped).conflicts.filter (·.kind = .budgetExhausted)).length =
      if (m.toTrace stopped).truncated then 1 else 0 := by
  have hnodup : ((m.toTrace stopped).conflicts.filter (·.kind = .budgetExhausted)).Nodup :=
    (nodup_of_ascending (pairwise_sortUnique _)).filter _
  have hone : ((stopped.map (budgetConflict m.steps)).toList).Nodup := by
    cases stopped <;> simp
  have hperm : ((m.toTrace stopped).conflicts.filter (·.kind = .budgetExhausted)).Perm
      (stopped.map (budgetConflict m.steps)).toList := by
    rw [List.perm_ext_iff_of_nodup hnodup hone]
    intro k
    rw [List.mem_filter, mem_conflicts_toTrace, decide_eq_true_iff]
    constructor
    · rintro ⟨hk | hk, hkind⟩
      · exact hk
      · exact absurd hkind (hplaced k hk).2
    · intro hk
      refine ⟨.inl hk, ?_⟩
      obtain ⟨text, -, rfl⟩ := Option.map_eq_some_iff.1 (Option.mem_toList.1 hk)
      rfl
  rw [hperm.length_eq]
  cases stopped <;> rfl

/-- A finished run makes one step for each node that can be reached. -/
theorem Fleet.Run.steps_eq_ncard (h : Fleet.Run c hints seeds moves f) (hf : f.Finished) :
    f.machine.steps = {n | Reachable c hints seeds.nodes n}.ncard := by
  classical
  have hset : {n | Reachable c hints seeds.nodes n} = ((dispatches moves).toFinset : Set Node) := by
    ext n
    rw [Finset.mem_coe, List.mem_toFinset, (h.perm_of_finished hf).mem_iff]
    exact (h.mem_completions hf).symm
  rw [hset, Set.ncard_coe_finset, List.toFinset_card_of_nodup h.nodup_dispatches, h.ok.steps]

/-- **A run that was cut off has part of the results of the whole run**, and the conflict that says
so. -/
theorem Fleet.Run.results_subset (h : Fleet.Run c hints seeds moves f)
    (h' : Fleet.Run c hints seeds moves' f') (hf' : f'.Finished) (stopped : Option String) :
    (f.machine.toTrace stopped).xrefs ⊆ (f'.machine.toTrace none).xrefs ∧
      ∀ k ∈ (f.machine.toTrace stopped).conflicts, k.kind ≠ .budgetExhausted →
        k ∈ (f'.machine.toTrace none).conflicts := by
  refine ⟨h.xrefs_subset h' hf' stopped none, fun k hk hkind => ?_⟩
  refine mem_sortUnique.2 (List.mem_append_right _ ?_)
  rcases Machine.mem_conflicts_toTrace.1 hk with hk | hk
  · obtain ⟨text, -, rfl⟩ := Option.map_eq_some_iff.1 (Option.mem_toList.1 hk)
    exact absurd rfl hkind
  · rw [h.ok.records.conflicts] at hk
    rw [h'.ok.records.conflicts]
    exact flatMap_append_subset (h.completions_subset h' hf') _ _ hk

end

/-- Without a cancellation and a time budget, only the step budget stops a run. -/
theorem traceLimits_stop?_eq_some {settings : TraceSettings} {b : Int} {steps : Nat} {watch : Watch}
    {reason : Interruption} (hb : settings.stepBudget = some b) (ht : settings.timeBudget = none)
    (hwatch : watch.Uncancelled) (h : (traceLimits settings watch).stop? steps = some reason) :
    reason = .stepsUsed b ∧ b ≤ steps := by
  rcases Limits.stop?_eq_some h with ⟨-, hcancel⟩ | ⟨b', rfl, hb', hle⟩ | ⟨b', -, ht', -⟩
  · cases hcancel.symm.trans (hwatch steps)
  · obtain rfl : b = b' := Option.some.inj (hb.symm.trans hb')
    exact ⟨rfl, hle⟩
  · cases ht.symm.trans ht'

section

variable {given : Hints} {checked : CheckedHints} {rejected : List Conflict}
  (hc : given.check c = .ok (checked, rejected)) {settings : TraceSettings} {b : Int}
  (hb : settings.stepBudget = some b) (ht : settings.timeBudget = none) {watch : Watch}
  (hwatch : watch.Uncancelled) {g : Convoy}
include hc hb ht hwatch

/-- **A run makes as many steps as it can reach nodes, or as its budget allows**, and in the second
case only it is stopped. -/
theorem Convoy.Run.steps_eq
    (h : Convoy.Run c checked (traceSeeds c checked settings) (traceLimits settings watch) g)
    (hf : g.Finished) :
    (g.stopped = none ∧ g.fleet.machine.steps = (reachedFrom c checked settings).ncard ∧
      ((reachedFrom c checked settings).ncard : Int) ≤ max b 0) ∨
    (g.stopped = some (.stepsUsed b) ∧ (g.fleet.machine.steps : Int) = max b 0 ∧
      max b 0 < ((reachedFrom c checked settings).ncard : Int)) := by
  have hheld := h.held
  obtain ⟨moves, hrun⟩ := hheld.run
  have hwithin := hheld.within b hb
  cases hs : g.stopped with
  | none =>
    have hall := hrun.steps_eq_ncard ⟨hf.2 hs, hf.1⟩
    refine .inl ⟨rfl, hall, ?_⟩
    unfold reachedFrom
    rwa [← hall]
  | some reason =>
    obtain ⟨hstop, hqueue⟩ := hheld.stopped reason hs
    obtain ⟨rfl, hle⟩ := traceLimits_stop?_eq_some hb ht hwatch hstop
    -- a node waits, so one more can be reached than was dispatched
    have hlt : g.fleet.machine.steps < (reachedFrom c checked settings).ncard :=
      (remembered_traceSeeds hc settings).steps_lt_of_waiting hrun hqueue
    have heq : (g.fleet.machine.steps : Int) = max b 0 := by omega
    exact .inr ⟨rfl, heq, by omega⟩

/-- The trace of a finished run under a step budget accounts for it. -/
theorem Convoy.Run.accounts
    (h : Convoy.Run c checked (traceSeeds c checked settings) (traceLimits settings watch) g)
    (hf : g.Finished) {f : Fleet} {moves : List Move}
    (hwhole : Fleet.Run c checked (traceSeeds c checked settings) moves f) (hff : f.Finished)
    {text : Option String} (htext : text.isSome = g.stopped.isSome) :
    (g.fleet.machine.toTrace text).Accounts (reachedFrom c checked settings) b
      (f.machine.toTrace none) := by
  obtain ⟨moves', hrun⟩ := h.held.run
  have hevidence := hrun.evidenceIn hwhole hff text none
  obtain ⟨hxrefs, hconflicts⟩ := hrun.results_subset hwhole hff text
  have hsteps := h.steps_eq hc hb ht hwatch hf
  refine ⟨?_, ?_, ?_, ?_, hevidence.instructions, hevidence.failures, hxrefs, hconflicts⟩
  · show (g.fleet.machine.steps : Int) = _
    omega
  · -- nothing is in flight, so all that was dispatched has its outcome
    have hflying := hrun.ok.flying
    rw [hf.1, List.nil_append] at hflying
    have hlength := hrun.ok.records.length_outcomes
    show (sortByNode _).length + (sortByNode _).length = g.fleet.machine.steps
    rw [(sortByNode_perm _).length_eq, (sortByNode_perm _).length_eq, hlength, hrun.ok.steps,
      hflying.length_eq]
  · show text.isSome = true ↔ _
    rw [htext]
    rcases hsteps with ⟨hs, -, hle⟩ | ⟨hs, -, hlt⟩
    · rw [hs]
      exact iff_of_false Bool.false_ne_true (Int.not_lt.2 hle)
    · rw [hs]
      exact iff_of_true rfl hlt
  · exact Machine.length_budgetExhausted
      (hrun.ok.records.isPlaced (placed_traceSeeds checked settings)) text

end

/-- **The account of a run under a step budget**, which may be any integer, in whatever order the
run goes, if it is not cancelled and has no time budget. The trace is that of such a run. The one
exception is a budget that stops the run and is too long to be shown. -/
theorem budget_accounts {given : Hints} {checked : CheckedHints} {rejected : List Conflict}
    (hc : given.check c = .ok (checked, rejected)) {settings : TraceSettings} {b : Int}
    (hb : settings.stepBudget = some b) (ht : settings.timeBudget = none) {watch : Watch}
    (hwatch : watch.Uncancelled) :
    (reachedFrom c checked settings).Finite ∧
    ∃ whole, trace c checked settings.unlimited watch = .ok whole ∧
      (∀ g, Convoy.Run c checked (traceSeeds c checked settings) (traceLimits settings watch) g →
        g.Finished →
        (∃ t, Machine.conclude (g.fleet.machine, g.stopped) = .ok t ∧
          t.Accounts (reachedFrom c checked settings) b whole) ∨
        Machine.conclude (g.fleet.machine, g.stopped) = .error .integerTooLong ∧
          Numeral.IsLong b ∧ max b 0 < ((reachedFrom c checked settings).ncard : Int)) ∧
      ∃ g, Convoy.Run c checked (traceSeeds c checked settings) (traceLimits settings watch) g ∧
        g.Finished ∧
        trace c checked settings watch = Machine.conclude (g.fleet.machine, g.stopped) := by
  have hs := remembered_traceSeeds hc settings
  obtain ⟨f, moves, hwhole, hff, htrace⟩ :=
    (remembered_traceSeeds hc settings.unlimited).exists_trace_unlimited rfl rfl hwatch
  refine ⟨hs.finite_reachedFrom, f.machine.toTrace none, htrace, fun g h hf => ?_, ?_⟩
  · have haccounts : ∀ text : Option String, text.isSome = g.stopped.isSome →
        (g.fleet.machine.toTrace text).Accounts (reachedFrom c checked settings) b
          (f.machine.toTrace none) := fun text => h.accounts hc hb ht hwatch hf hwhole hff
    rcases h.steps_eq hc hb ht hwatch hf with ⟨hs, -, -⟩ | ⟨hs, -, hlt⟩
    · rw [hs] at haccounts ⊢
      exact .inl ⟨_, rfl, haccounts none rfl⟩
    · rw [hs] at haccounts ⊢
      rw [Machine.conclude]
      split
      · next text _ => exact .inl ⟨_, rfl, haccounts (some text) rfl⟩
      · next hnone =>
        rw [Interruption.text?, Option.map_eq_none_iff] at hnone
        exact .inr ⟨rfl, Numeral.text?_eq_none.1 hnone, hlt⟩
  · rcases hexplore : explore c checked settings watch with ⟨m', stopped⟩
    obtain ⟨hrun, hf⟩ := hs.convoyRun_explore hexplore
    exact ⟨_, hrun, hf, by rw [trace, hexplore]⟩

theorem budget_accounts_oneStep : ∃ whole t,
    startHints.check shortCartridge = .ok (startChecked, []) ∧
    oneStepSettings.stepBudget = some 1 ∧ oneStepSettings.timeBudget = none ∧
    (Watch.still false).Uncancelled ∧
    trace shortCartridge startChecked oneStepSettings.unlimited (.still false) = .ok whole ∧
    trace shortCartridge startChecked oneStepSettings (.still false) = .ok t ∧
    t.Accounts (reachedFrom shortCartridge startChecked oneStepSettings) 1 whole := by
  have hb : oneStepSettings.stepBudget = some 1 := rfl
  have hwatch := Watch.uncancelled_still
  obtain ⟨-, whole, hwhole, hruns, g, hrun, hf, ht⟩ :=
    budget_accounts check_startHints hb rfl hwatch
  rcases hruns g hrun hf with ⟨t, hconclude, haccounts⟩ | ⟨-, hlong, -⟩
  · exact ⟨whole, t, check_startHints, rfl, rfl, hwatch, hwhole, ht.trans hconclude, haccounts⟩
  · exact absurd hlong (Numeral.not_isLong (by decide))

/-- The standard settings with another step budget. -/
def budgetSettings (b : Int) : TraceSettings := { unlimitedSettings with stepBudget := some b }

/-- A budget that stops the run at once and is too long to be shown ends in a fault. -/
theorem trace_of_long_budget {b : Int} (hb : b ≤ 0) (hlong : Numeral.IsLong b) :
    trace shortCartridge startChecked (budgetSettings b) (.still false) =
      .error .integerTooLong := by
  have hc := check_startHints
  have hseeds := remembered_traceSeeds hc (budgetSettings b)
  have hreached : 0 < (reachedFrom shortCartridge startChecked (budgetSettings b)).ncard :=
    (Set.ncard_pos hseeds.finite_reachedFrom).2 ⟨returnNode, reachedFrom_short⟩
  rcases hexplore : explore shortCartridge startChecked (budgetSettings b) (.still false) with
    ⟨m, stopped⟩
  obtain ⟨hrun, hf⟩ := hseeds.convoyRun_explore hexplore
  have hstopped : stopped = some (.stepsUsed b) := by
    rcases hrun.steps_eq hc rfl rfl Watch.uncancelled_still hf with ⟨-, -, hle⟩ | ⟨hs, -, -⟩
    · omega
    · exact hs
  rw [trace, hexplore, hstopped, Machine.conclude, Interruption.text?,
    Numeral.text?_eq_none.2 hlong]
  rfl

/-- **Not every step budget gives a trace.** -/
theorem trace_fails_on_long_budget :
    startHints.check shortCartridge = .ok (startChecked, []) ∧
    trace shortCartridge startChecked
      (budgetSettings (-(Nat.pow 10 Numeral.maxDecimalDigits : Nat))) (.still false) =
        .error .integerTooLong := by
  refine ⟨check_startHints,
    trace_of_long_budget (Int.neg_nonpos_of_nonneg (Int.natCast_nonneg _)) ?_⟩
  unfold Numeral.IsLong
  rw [Int.natAbs_neg, Int.natAbs_natCast]

end RomAtlas
