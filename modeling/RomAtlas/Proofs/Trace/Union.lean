import RomAtlas.Proofs.Trace.Exact

/-!
# Entry points combine by union

Code that two entry points share belongs to the one whose walk gets there first, so a run from both
is not put together from the runs from each. But a complete trace shows what can be reached and
nothing else, and a node can be reached from both exactly if it can be reached from one.

* `reachable_union`: what can be reached from some of the seeds or from the others.
* `Trace.Exact.isUnion`: complete traces unite if what they visit does.
* `entryPoints_unite`: **a trace from two lists of entry points is the union of the traces from
  each**, so more entry points never take a result away, and their order and repetitions do not
  show.
-/

namespace RomAtlas

variable {c : Cartridge} {hints hints' hints₁ hints₂ : CheckedHints} {settings : TraceSettings}
  {n : Node}

/-! ## Hints that lead to the same places -/

namespace CheckedHints

/-- Hints with the same jump tables and returning sites, whatever else they say. -/
structure SameFlow (hints hints' : CheckedHints) : Prop where
  tables : ∀ site : Int, hints.jumpTables[site]? = hints'.jumpTables[site]?
  returning : ∀ site, site ∈ hints.returningSites ↔ site ∈ hints'.returningSites

/-- Entry points start with no more saved widths than are remembered. -/
def Startable (hints : CheckedHints) : Prop :=
  ∀ e ∈ hints.entryPoints, ∀ s, e.state = some s → s.saved.length ≤ WidthState.maxSaved

theorem sameFlow_refl (hints : CheckedHints) : hints.SameFlow hints :=
  ⟨fun _ => rfl, fun _ => Iff.rfl⟩

theorem SameFlow.symm (hf : hints.SameFlow hints') : hints'.SameFlow hints :=
  ⟨fun site => (hf.tables site).symm, fun site => (hf.returning site).symm⟩

/-- The flow of control reads nothing else of the hints. -/
theorem SameFlow.successors_eq (hf : hints.SameFlow hints') (m : AddressMap) (i : Instruction) :
    successors m i hints = successors m i hints' := by
  have htargets : ∀ site, hints.hintedTargets site = hints'.hintedTargets site := by
    intro site
    unfold hintedTargets
    rw [hf.tables site]
  have hreturns : ∀ site,
      hints.returningSites.contains site = hints'.returningSites.contains site := by
    intro site
    rw [Bool.eq_iff_iff, List.contains_iff_mem, List.contains_iff_mem, hf.returning]
  unfold successors transfers
  simp only [htargets, hreturns]

theorem SameFlow.edges_eq (hf : hints.SameFlow hints') (n : Node) :
    n.edges c hints = n.edges c hints' := by
  unfold Node.edges
  split
  · exact hf.successors_eq c.map _
  · rfl

/-- Entry points that pass the check start with nothing saved. -/
theorem startable_of_check {given : Hints} {rejected : List Conflict}
    (hc : given.check c = .ok (hints, rejected)) : hints.Startable := by
  intro e he s hstate
  rw [(Hints.check_sound hc).unsaved e he s hstate]
  exact Nat.zero_le _

theorem Startable.remembered (hs : hints.Startable) :
    (traceSeeds c hints settings).Remembered := by
  intro n hn
  rcases state_of_mem_seedEdges hn with hstate | ⟨e, he, hstate⟩
  · rw [hstate]
    exact Nat.zero_le _
  · exact hs e he _ hstate

end CheckedHints

/-! ## What can be reached -/

/-- More seeds reach no less. -/
theorem Reachable.mono {seeds seeds' : List Node} (hf : hints.SameFlow hints')
    (hsub : ∀ n ∈ seeds, n ∈ seeds') (hn : Reachable c hints seeds n) :
    Reachable c hints' seeds' n := by
  induction hn with
  | seed hs => exact .seed (hsub _ hs)
  | next _ hi hk ih =>
    rw [hf.successors_eq] at hk
    exact .next ih hi hk

/-- **What can be reached from all seeds is what can be reached from one part of them or from the
other.** -/
theorem reachable_union {seeds seeds₁ seeds₂ : List Node} (hf₁ : hints.SameFlow hints₁)
    (hf₂ : hints.SameFlow hints₂) (hseeds : ∀ n, n ∈ seeds ↔ n ∈ seeds₁ ∨ n ∈ seeds₂) :
    Reachable c hints seeds n ↔ Reachable c hints₁ seeds₁ n ∨ Reachable c hints₂ seeds₂ n := by
  constructor
  · intro hn
    induction hn with
    | seed hs => exact ((hseeds _).1 hs).imp .seed .seed
    | next _ hi hk ih =>
      -- a node is reached from the part from which the node before it is
      refine ih.imp (fun hn => .next hn hi ?_) (fun hn => .next hn hi ?_)
      · rwa [← hf₁.successors_eq]
      · rwa [← hf₂.successors_eq]
  · rintro (hn | hn)
    · exact hn.mono hf₁.symm fun k hk => (hseeds k).2 (.inl hk)
    · exact hn.mono hf₂.symm fun k hk => (hseeds k).2 (.inr hk)

/-- The seeds are those of vectors, if they are used, and the entry points. -/
theorem mem_nodes_traceSeeds : n ∈ (traceSeeds c hints settings).nodes ↔
    (settings.useVectors = true ∧ n ∈ (vectorEdges c ⟨settings.initial, [], none⟩).nodes) ∨
      ∃ e ∈ hints.entryPoints, ⟨e.address, e.state.getD ⟨settings.initial, [], none⟩⟩ = n := by
  unfold traceSeeds seedEdges
  cases settings.useVectors <;> simp [Edges.nodes_append]

/-- Seeds unite as entry points do. -/
theorem mem_nodes_traceSeeds_union
    (hentries : ∀ e, e ∈ hints.entryPoints ↔ e ∈ hints₁.entryPoints ∨ e ∈ hints₂.entryPoints) :
    n ∈ (traceSeeds c hints settings).nodes ↔
      n ∈ (traceSeeds c hints₁ settings).nodes ∨ n ∈ (traceSeeds c hints₂ settings).nodes := by
  simp only [mem_nodes_traceSeeds, hentries, or_and_right, exists_or]
  exact or_or_distrib_left

/-! ## Complete traces -/

namespace Trace

variable {t t₁ t₂ : Trace}

/-- A trace shows what two others show, and nothing else. -/
structure IsUnion (t t₁ t₂ : Trace) : Prop where
  instructions : ∀ e, e ∈ t.instructions ↔ e ∈ t₁.instructions ∨ e ∈ t₂.instructions
  failures : ∀ e, e ∈ t.failures ↔ e ∈ t₁.failures ∨ e ∈ t₂.failures
  xrefs : ∀ x, x ∈ t.xrefs ↔ x ∈ t₁.xrefs ∨ x ∈ t₂.xrefs
  conflicts : ∀ k, k ∈ t.conflicts ↔ k ∈ t₁.conflicts ∨ k ∈ t₂.conflicts

/-- All results of a trace are results of another. -/
structure PartOf (t u : Trace) : Prop where
  instructions : t.instructions ⊆ u.instructions
  failures : t.failures ⊆ u.failures
  xrefs : t.xrefs ⊆ u.xrefs
  conflicts : t.conflicts ⊆ u.conflicts

theorem IsUnion.partOf_left (h : t.IsUnion t₁ t₂) : t₁.PartOf t :=
  ⟨fun e he => (h.instructions e).2 (.inl he), fun e he => (h.failures e).2 (.inl he),
    fun x hx => (h.xrefs x).2 (.inl hx), fun k hk => (h.conflicts k).2 (.inl hk)⟩

/-- What is found beside the vectors unites as the instructions do. -/
theorem exists_found_union {α : Type} (part : Edges → List α) (hf₁ : hints.SameFlow hints₁)
    (hf₂ : hints.SameFlow hints₂)
    (hi : ∀ e, e ∈ t.instructions ↔ e ∈ t₁.instructions ∨ e ∈ t₂.instructions) (p : Prop) (x : α) :
    (p ∨ ∃ n i, (n, i) ∈ t.instructions ∧ x ∈ part (successors c.map i hints)) ↔
      (p ∨ ∃ n i, (n, i) ∈ t₁.instructions ∧ x ∈ part (successors c.map i hints₁)) ∨
        p ∨ ∃ n i, (n, i) ∈ t₂.instructions ∧ x ∈ part (successors c.map i hints₂) := by
  simp only [← hf₁.successors_eq, ← hf₂.successors_eq, hi, or_and_right, exists_or]
  exact or_or_distrib_left

/-- **Complete traces unite if what they visit does.** -/
theorem Exact.isUnion (h : t.Exact c hints settings) (h₁ : t₁.Exact c hints₁ settings)
    (h₂ : t₂.Exact c hints₂ settings) (hf₁ : hints.SameFlow hints₁) (hf₂ : hints.SameFlow hints₂)
    (hv : ∀ n, n ∈ t.visited ↔ n ∈ t₁.visited ∨ n ∈ t₂.visited) : t.IsUnion t₁ t₂ := by
  have hi : ∀ e, e ∈ t.instructions ↔ e ∈ t₁.instructions ∨ e ∈ t₂.instructions := by
    rintro ⟨n, i⟩
    rw [h.instructions, h₁.instructions, h₂.instructions, hv, or_and_right]
  refine ⟨hi, ?_, fun x => ?_, fun k => ?_⟩
  · rintro ⟨n, fault⟩
    rw [h.failures, h₁.failures, h₂.failures, hv, or_and_right]
  · rw [h.xrefs, h₁.xrefs, h₂.xrefs]
    exact exists_found_union Edges.xrefs hf₁ hf₂ hi _ x
  · rw [h.conflicts, h₁.conflicts, h₂.conflicts]
    exact exists_found_union Edges.conflicts hf₁ hf₂ hi _ k

end Trace

section

variable (hsteps : settings.stepBudget = none) (htime : settings.timeBudget = none) {watch : Watch}
  (hwatch : watch.Uncancelled)
include hsteps htime hwatch

/-- Without budgets a trace is complete. -/
theorem CheckedHints.Startable.exists_trace (hs : hints.Startable) :
    ∃ t, trace c hints settings watch = .ok t ∧ t.truncated = false ∧
      t.Exact c hints settings := by
  obtain ⟨f, moves, hrun, hf, ht⟩ := hs.remembered.exists_trace_unlimited hsteps htime hwatch
  exact ⟨f.machine.toTrace none, ht, rfl, hrun.exact hf⟩

/-- A trace is the union of two others if its entry points are those of both. -/
theorem CheckedHints.Startable.isUnion (hs : hints.Startable) (hf₁ : hints.SameFlow hints₁)
    (hf₂ : hints.SameFlow hints₂)
    (hentries : ∀ e, e ∈ hints.entryPoints ↔ e ∈ hints₁.entryPoints ∨ e ∈ hints₂.entryPoints) :
    ∃ t t₁ t₂, trace c hints settings watch = .ok t ∧ trace c hints₁ settings watch = .ok t₁ ∧
      trace c hints₂ settings watch = .ok t₂ ∧ t.IsUnion t₁ t₂ := by
  have hs₁ : hints₁.Startable := fun e he => hs e ((hentries e).2 (.inl he))
  have hs₂ : hints₂.Startable := fun e he => hs e ((hentries e).2 (.inr he))
  obtain ⟨t, ht, -, hexact⟩ := hs.exists_trace (c := c) hsteps htime hwatch
  obtain ⟨t₁, ht₁, -, hexact₁⟩ := hs₁.exists_trace (c := c) hsteps htime hwatch
  obtain ⟨t₂, ht₂, -, hexact₂⟩ := hs₂.exists_trace (c := c) hsteps htime hwatch
  refine ⟨t, t₁, t₂, ht, ht₁, ht₂, hexact.isUnion hexact₁ hexact₂ hf₁ hf₂ fun n => ?_⟩
  rw [hexact.visited_eq, hexact₁.visited_eq, hexact₂.visited_eq]
  exact reachable_union hf₁ hf₂ fun n => mem_nodes_traceSeeds_union hentries

/-- **The order of entry points and their repetitions do not show.** -/
theorem CheckedHints.Startable.trace_congr (hs : hints.Startable) (hf : hints.SameFlow hints')
    (hentries : ∀ e, e ∈ hints.entryPoints ↔ e ∈ hints'.entryPoints) :
    trace c hints settings watch = trace c hints' settings watch := by
  have hs' : hints'.Startable := fun e he => hs e ((hentries e).2 he)
  obtain ⟨f, moves, hrun, hfinished, ht⟩ :=
    hs.remembered.exists_trace_unlimited (c := c) hsteps htime hwatch
  obtain ⟨f', moves', hrun', hfinished', ht'⟩ :=
    hs'.remembered.exists_trace_unlimited (c := c) hsteps htime hwatch
  have hseeds : ∀ n, n ∈ (traceSeeds c hints settings).nodes ↔
      n ∈ (traceSeeds c hints' settings).nodes := by
    intro n
    simp only [mem_nodes_traceSeeds, hentries]
  -- both runs complete the same nodes, each once
  have hperm : (completions moves).Perm (completions moves') := by
    rw [List.perm_ext_iff_of_nodup (hrun.nodup_completions hfinished)
      (hrun'.nodup_completions hfinished')]
    intro n
    rw [hrun.mem_completions hfinished, hrun'.mem_completions hfinished']
    exact ⟨fun hn => hn.mono hf fun k hk => (hseeds k).1 hk,
      fun hn => hn.mono hf.symm fun k hk => (hseeds k).2 hk⟩
  have hsteps : f.machine.steps = f'.machine.steps := by
    have hcount := (hrun.perm_of_finished hfinished).length_eq
    have hcount' := (hrun'.perm_of_finished hfinished').length_eq
    have hsent := hrun.ok.steps
    have hsent' := hrun'.ok.steps
    have hlength := hperm.length_eq
    omega
  have hr := hrun.ok.records
  have hr' := hrun'.ok.records
  have hsame := hr.toTrace_congr_of_mem hr' hperm (hrun.nodup_completions hfinished) hsteps
    (fun x => ?_) (fun k => ?_) none
  · rw [ht, ht', hsame]
  · rw [hr.xrefs, hr'.xrefs]
    simp only [List.mem_append, List.mem_flatMap, hperm.mem_iff, hf.edges_eq]
    rfl
  · rw [hr.conflicts, hr'.conflicts]
    simp only [List.mem_append, List.mem_flatMap, hperm.mem_iff, hf.edges_eq]
    rfl

end

/-- **Entry points combine by union.** Without budgets and a cancellation, the trace from the entry
points of two sets of hints with the same jump tables and returning sites is complete and shows
exactly what the traces from each show together. So more entry points never take a result away, and
neither their order nor repetitions change anything. Entry points may start in any states that a
trace can be in; those that pass the check do. -/
theorem entryPoints_unite (c : Cartridge) {settings : TraceSettings}
    (hsteps : settings.stepBudget = none) (htime : settings.timeBudget = none) {watch : Watch}
    (hwatch : watch.Uncancelled) :
    (∀ (given : Hints) (checked : CheckedHints) (rejected : List Conflict),
      given.check c = .ok (checked, rejected) → checked.Startable) ∧
    (∀ hints : CheckedHints, hints.Startable →
      ∃ t, trace c hints settings watch = .ok t ∧ t.truncated = false) ∧
    (∀ hints hints₁ hints₂ : CheckedHints, hints.Startable → hints.SameFlow hints₁ →
      hints.SameFlow hints₂ → hints.entryPoints = hints₁.entryPoints ++ hints₂.entryPoints →
      ∃ t t₁ t₂, trace c hints settings watch = .ok t ∧ trace c hints₁ settings watch = .ok t₁ ∧
        trace c hints₂ settings watch = .ok t₂ ∧ t.IsUnion t₁ t₂) ∧
    (∀ hints more : CheckedHints, more.Startable → more.SameFlow hints →
      hints.entryPoints ⊆ more.entryPoints →
      ∃ t u, trace c hints settings watch = .ok t ∧ trace c more settings watch = .ok u ∧
        t.PartOf u) ∧
    ∀ hints hints' : CheckedHints, hints.Startable → hints.SameFlow hints' →
      (∀ e, e ∈ hints.entryPoints ↔ e ∈ hints'.entryPoints) →
      trace c hints settings watch = trace c hints' settings watch := by
  refine ⟨fun given checked rejected hc => CheckedHints.startable_of_check hc, ?_, ?_, ?_, ?_⟩
  · intro hints hs
    obtain ⟨t, ht, hwhole, -⟩ := hs.exists_trace (c := c) hsteps htime hwatch
    exact ⟨t, ht, hwhole⟩
  · intro hints hints₁ hints₂ hs hf₁ hf₂ hentries
    refine hs.isUnion hsteps htime hwatch hf₁ hf₂ fun e => ?_
    rw [hentries, List.mem_append]
  · intro hints more hs hf hsub
    -- what is added to entry points that are there already changes nothing
    have hentries : ∀ e, e ∈ more.entryPoints ↔ e ∈ hints.entryPoints ∨ e ∈ more.entryPoints :=
      fun e => ⟨.inr, fun he => he.elim (fun he => hsub he) id⟩
    obtain ⟨u, t, _, hu, ht, -, hunion⟩ :=
      hs.isUnion (c := c) hsteps htime hwatch hf (CheckedHints.sameFlow_refl more) hentries
    exact ⟨t, u, ht, hu, hunion.partOf_left⟩
  · intro hints hints' hs hf hentries
    exact hs.trace_congr hsteps htime hwatch hf hentries

/-- Code starts at some addresses in the state of the trace. -/
def CheckedHints.startingAt (addresses : List Int) : CheckedHints :=
  { CheckedHints.empty with entryPoints := addresses.map (⟨·, none, .null⟩) }

/-- Both entry points lead to the return, which both traces and their union visit; the trace stays
the same if one of them is repeated before the other. -/
theorem entryPoints_unite_shared :
    unlimitedSettings.stepBudget = none ∧ unlimitedSettings.timeBudget = none ∧
      (Watch.still false).Uncancelled ∧ ∃ t t₁ t₂,
        trace shortCartridge (.startingAt [0x8000, 0x8001]) unlimitedSettings (.still false) =
          .ok t ∧
        trace shortCartridge (.startingAt [0x8000]) unlimitedSettings (.still false) = .ok t₁ ∧
        trace shortCartridge (.startingAt [0x8001]) unlimitedSettings (.still false) = .ok t₂ ∧
        t.IsUnion t₁ t₂ ∧ t₂.PartOf t ∧
        returnNode ∈ t₁.visited ∧ returnNode ∈ t₂.visited ∧
        trace shortCartridge (.startingAt [0x8001, 0x8000, 0x8001]) unlimitedSettings
          (.still false) = .ok t := by
  have hwatch := Watch.uncancelled_still
  obtain ⟨-, -, hunion, hpart, hsame⟩ :=
    entryPoints_unite shortCartridge (rfl : unlimitedSettings.stepBudget = none) rfl hwatch
  have hs : ∀ addresses, (CheckedHints.startingAt addresses).Startable := by
    intro addresses e he s hstate
    obtain ⟨a, -, rfl⟩ := List.mem_map.1 he
    cases hstate
  have hf : ∀ addresses addresses',
      (CheckedHints.startingAt addresses).SameFlow (.startingAt addresses') :=
    fun _ _ => ⟨fun _ => rfl, fun _ => Iff.rfl⟩
  obtain ⟨t, t₁, t₂, ht, ht₁, ht₂, hu⟩ := hunion (.startingAt [0x8000, 0x8001])
    (.startingAt [0x8000]) (.startingAt [0x8001]) (hs _) (hf _ _) (hf _ _) rfl
  obtain ⟨t₂', t', ht₂', ht', hp⟩ := hpart (.startingAt [0x8001]) (.startingAt [0x8000, 0x8001])
    (hs _) (hf _ _) (List.subset_cons_self _ _)
  obtain rfl : t₂' = t₂ := Except.ok.inj (ht₂'.symm.trans ht₂)
  obtain rfl : t' = t := Except.ok.inj (ht'.symm.trans ht)
  -- the first trace goes on to the return, where the second one starts
  have hexact : ∀ addresses t,
      trace shortCartridge (.startingAt addresses) unlimitedSettings (.still false) = .ok t →
      t.visited = reachedFrom shortCartridge (.startingAt addresses) unlimitedSettings := by
    intro addresses t ht
    obtain ⟨u, hu, -, hexact⟩ := (hs addresses).exists_trace (c := shortCartridge)
      (rfl : unlimitedSettings.stepBudget = none) rfl hwatch
    obtain rfl := Except.ok.inj (ht.symm.trans hu)
    exact hexact.visited_eq
  have hfirst : returnNode ∈ t₁.visited := by
    rw [hexact _ _ ht₁]
    exact reachedFrom_short
  have hsecond : returnNode ∈ t₂'.visited := by
    rw [hexact _ _ ht₂]
    exact .seed (List.mem_append_right _ List.mem_cons_self)
  refine ⟨rfl, rfl, hwatch, t', t₁, t₂', ht, ht₁, ht₂, hu, hp, hfirst, hsecond, ?_⟩
  refine (hsame _ _ (hs _) (hf _ _) fun e => ?_).trans ht
  simp only [CheckedHints.startingAt, List.map_cons, List.map_nil, List.mem_cons,
    List.not_mem_nil, or_false]
  exact ⟨fun he => he.elim .inr id, .inr⟩

end RomAtlas
