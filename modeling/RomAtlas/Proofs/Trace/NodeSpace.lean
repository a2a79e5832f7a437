import Mathlib.Data.Set.Card
import RomAtlas.Proofs.Decode
import RomAtlas.Proofs.Hint.Accepted
import RomAtlas.Proofs.Trace.Schedule

/-!
# The nodes that a trace can enter

A node holds a stack of saved widths, so a loop that keeps saving gives a new node on each turn. The
stack is cut at `WidthState.maxSaved`, and addresses have 24 bits unless a seed or a hint names
another, so all nodes lie in one finite set, `nodeSpace`.

* `ncard_nodeSpace_le`: it has at most `nodeBound` members.
* `Reachable.mem_nodeSpace`: **every reachable node lies in it.**
* `Fleet.Run.length_moves_le`: no schedule makes more than two moves for each of its members.
-/

namespace RomAtlas

variable {c : Cartridge} {hints : CheckedHints} {seeds : Edges} {n : Node}

/-- The nodes with no more saved widths than are remembered, whose address has 24 bits or is that of
a seed or of a hinted target. -/
def nodeSpace (seeds : Edges) (hints : CheckedHints) : Set Node :=
  {n | n.state.saved.length ≤ WidthState.maxSaved ∧
    (0 ≤ n.address ∧ n.address < 0x1000000 ∨ n.address ∈ seeds.nodes.map Node.address ∨
      ∃ site, n.address ∈ hints.hintedTargets site)}

/-! ## Counting -/

/-- All pairs of widths. -/
def allWidths : List Widths := [⟨false, false⟩, ⟨false, true⟩, ⟨true, false⟩, ⟨true, true⟩]

theorem mem_allWidths (w : Widths) : w ∈ allWidths := by
  obtain ⟨_ | _, _ | _⟩ := w <;> decide

/-- All lists of pairs of widths up to a length. -/
def savedLists : Nat → List (List Widths)
  | 0 => [[]]
  | n + 1 => [] :: allWidths.flatMap fun w => (savedLists n).map (w :: ·)

theorem length_savedLists (n : Nat) : (savedLists n).length = savedBound n := by
  induction n with
  | zero => rfl
  | succ n ih =>
    simp only [savedLists, allWidths, List.length_cons, List.flatMap_cons, List.flatMap_nil,
      List.length_append, List.length_map, List.length_nil, ih, savedBound]
    omega

theorem mem_savedLists {n : Nat} {l : List Widths} (h : l.length ≤ n) : l ∈ savedLists n := by
  induction n generalizing l with
  | zero =>
    rw [List.length_eq_zero_iff.1 (Nat.le_zero.1 h)]
    exact List.mem_singleton_self _
  | succ n ih =>
    cases l with
    | nil => exact List.mem_cons_self
    | cons w l =>
      refine List.mem_cons_of_mem _ (List.mem_flatMap.2 ⟨w, mem_allWidths w, ?_⟩)
      exact List.mem_map_of_mem (ih (Nat.le_of_succ_le_succ h))

/-- All width states whose saved widths are in a list. -/
def statesOver (saved : List (List Widths)) : List WidthState :=
  allWidths.flatMap fun w => [none, some false, some true].flatMap fun carry =>
    saved.map fun ws => ⟨w, ws, carry⟩

theorem length_statesOver (saved : List (List Widths)) :
    (statesOver saved).length = 4 * 3 * saved.length := by
  simp only [statesOver, allWidths, List.flatMap_cons, List.flatMap_nil, List.length_append,
    List.length_map, List.length_nil]
  omega

theorem mem_statesOver {saved : List (List Widths)} {s : WidthState} (h : s.saved ∈ saved) :
    s ∈ statesOver saved := by
  refine List.mem_flatMap.2 ⟨s.widths, mem_allWidths _, List.mem_flatMap.2 ⟨s.carry, ?_, ?_⟩⟩
  · rcases s.carry with _ | _ | _ <;> simp
  · exact List.mem_map.2 ⟨s.saved, h, rfl⟩

/-- The targets of all jump tables. -/
def CheckedHints.allTargets (hints : CheckedHints) : List Int :=
  hints.jumpTables.toList.flatMap Prod.snd

theorem CheckedHints.length_allTargets (hints : CheckedHints) :
    hints.allTargets.length =
      hints.jumpTables.foldl (fun n _ targets => n + targets.length) 0 := by
  rw [Std.TreeMap.foldl_eq_foldl_toList, allTargets]
  have key : ∀ (l : List (Int × List Int)) (k : Nat),
      l.foldl (fun n e => n + e.2.length) k = k + (l.flatMap Prod.snd).length := by
    intro l
    induction l with
    | nil => intro k; rfl
    | cons e l ih =>
      intro k
      rw [List.foldl_cons, ih, List.flatMap_cons, List.length_append, Nat.add_assoc]
  rw [key, Nat.zero_add]

theorem CheckedHints.mem_allTargets {site t : Int} (h : t ∈ hints.hintedTargets site) :
    t ∈ hints.allTargets := by
  unfold hintedTargets at h
  cases hs : hints.jumpTables[site]? with
  | none => simp [hs] at h
  | some targets =>
    rw [hs] at h
    exact List.mem_flatMap.2 ⟨(site, targets), Std.TreeMap.mem_toList_iff_getElem?_eq_some.2 hs, h⟩

/-- The addresses in `nodeSpace`, some perhaps more than once. -/
noncomputable def spaceAddresses (seeds : Edges) (hints : CheckedHints) : List Int :=
  (List.range 0x1000000).map Int.ofNat ++ seeds.nodes.map Node.address ++ hints.allTargets

/-- All nodes at some addresses under some states. -/
def nodesOver (addresses : List Int) (states : List WidthState) : List Node :=
  addresses.flatMap fun a => states.map (Node.mk a)

theorem length_nodesOver (addresses : List Int) (states : List WidthState) :
    (nodesOver addresses states).length = addresses.length * states.length := by
  unfold nodesOver
  induction addresses with
  | nil => simp
  | cons a addresses ih =>
    rw [List.flatMap_cons, List.length_append, ih, List.length_map, List.length_cons, Nat.add_mul,
      Nat.one_mul, Nat.add_comm]

theorem mem_nodesOver {addresses : List Int} {states : List WidthState}
    (ha : n.address ∈ addresses) (hs : n.state ∈ states) : n ∈ nodesOver addresses states :=
  List.mem_flatMap.2 ⟨n.address, ha, List.mem_map.2 ⟨n.state, hs, rfl⟩⟩

/-- The members of `nodeSpace`, some perhaps more than once. -/
noncomputable def spaceNodes (seeds : Edges) (hints : CheckedHints) : List Node :=
  nodesOver (spaceAddresses seeds hints) (statesOver (savedLists WidthState.maxSaved))

theorem length_spaceNodes (seeds : Edges) (hints : CheckedHints) :
    (spaceNodes seeds hints).length = nodeBound seeds hints := by
  rw [spaceNodes, length_nodesOver, length_statesOver, length_savedLists, spaceAddresses,
    List.length_append, List.length_append, List.length_map, List.length_map, List.length_range,
    CheckedHints.length_allTargets, nodeBound, stateBound]

theorem mem_spaceNodes (h : n ∈ nodeSpace seeds hints) : n ∈ spaceNodes seeds hints := by
  refine mem_nodesOver ?_ (mem_statesOver (mem_savedLists h.1))
  unfold spaceAddresses
  rw [List.mem_append, List.mem_append]
  rcases h.2 with ⟨h0, hlt⟩ | h | ⟨site, h⟩
  · refine .inl (.inl (List.mem_map.2 ⟨n.address.toNat, List.mem_range.2 (by omega), ?_⟩))
    exact Int.toNat_of_nonneg h0
  · exact .inl (.inr h)
  · exact .inr (CheckedHints.mem_allTargets h)

theorem finite_nodeSpace (seeds : Edges) (hints : CheckedHints) : (nodeSpace seeds hints).Finite :=
  (List.finite_toSet (spaceNodes seeds hints)).subset fun _ => mem_spaceNodes

/-- A finite set that holds the members of a list without repeats has no fewer members. -/
theorem length_le_ncard {S : Set Node} (hS : S.Finite) {l : List Node} (hl : l.Nodup)
    (h : ∀ n ∈ l, n ∈ S) : l.length ≤ S.ncard := by
  classical
  rw [← List.toFinset_card_of_nodup hl, ← Set.ncard_coe_finset]
  exact Set.ncard_le_ncard (fun n hn => h n (List.mem_toFinset.1 hn)) hS

/-- **The space is no larger than the bound.** -/
theorem ncard_nodeSpace_le (seeds : Edges) (hints : CheckedHints) :
    (nodeSpace seeds hints).ncard ≤ nodeBound seeds hints := by
  classical
  have hsub : nodeSpace seeds hints ⊆ (spaceNodes seeds hints).toFinset :=
    fun n hn => List.mem_toFinset.2 (mem_spaceNodes hn)
  have h := Set.ncard_le_ncard hsub (Finset.finite_toSet _)
  rw [Set.ncard_coe_finset] at h
  rw [← length_spaceNodes]
  exact h.trans (List.toFinset_card_le _)

/-! ## Where the nodes lie -/

theorem state_of_mem_scanVectors {s : WidthState} {found : Edges} {slots : List (Int × String)}
    (hfound : ∀ n ∈ found.nodes, n.state = s) :
    ∀ n ∈ (scanVectors c s found slots).nodes, n.state = s := by
  induction slots generalizing found with
  | nil => exact hfound
  | cons slot slots ih =>
    unfold scanVectors
    split
    · intro n hn; cases hn
    · refine ih fun n hn => ?_
      rw [Edges.nodes_append, List.mem_append] at hn
      rcases hn with hn | hn
      · exact hfound n hn
      · unfold vectorEdge at hn
        split at hn
        · cases hn
        · split at hn
          · rw [List.mem_singleton.1 hn]
          · cases hn

/-- A seed is in the initial state or in that of an entry point. -/
theorem state_of_mem_seedEdges {initial : WidthState} {useVectors : Bool}
    (h : n ∈ (seedEdges c hints initial useVectors).nodes) :
    n.state = initial ∨ ∃ e ∈ hints.entryPoints, e.state = some n.state := by
  unfold seedEdges at h
  rw [Edges.nodes_append, List.mem_append] at h
  rcases h with h | h
  · split at h
    · exact .inl (state_of_mem_scanVectors (fun k hk => by cases hk) n h)
    · cases h
  · obtain ⟨e, he, rfl⟩ := List.mem_map.1 h
    cases hs : e.state with
    | none => exact .inl rfl
    | some s => exact .inr ⟨e, he, hs⟩

/-- The seeds of a trace under given settings. -/
def traceSeeds (c : Cartridge) (hints : CheckedHints) (settings : TraceSettings) : Edges :=
  seedEdges c hints ⟨settings.initial, [], none⟩ settings.useVectors

/-- The seeds of a trace have no saved widths. -/
theorem CheckedHints.Sound.saved_of_mem_traceSeeds {given : Hints} (hh : hints.Sound c.map given)
    {settings : TraceSettings} (hn : n ∈ (traceSeeds c hints settings).nodes) :
    n.state.saved = [] := by
  rcases state_of_mem_seedEdges hn with h | ⟨e, he, h⟩
  · rw [h]
  · exact hh.unsaved e he _ h

/-- **Every reachable node lies in the space**, if no seed has more saved widths than are
remembered. -/
theorem Reachable.mem_nodeSpace
    (hs : ∀ n ∈ seeds.nodes, n.state.saved.length ≤ WidthState.maxSaved)
    (h : Reachable c hints seeds.nodes n) : n ∈ nodeSpace seeds hints := by
  induction h with
  | seed hn => exact ⟨hs _ hn, .inr (.inl (List.mem_map_of_mem hn))⟩
  | @next n k i _ hi hk ih =>
    obtain ⟨-, hstate, hread⟩ := Node.decode_eq_ok_iff.1 hi
    obtain ⟨hks, hgoes⟩ := mem_nodes_successors.1 hk
    refine ⟨WidthState.length_saved_possibleAfter (hstate ▸ ih.1) hks, ?_⟩
    rcases (Instruction.goesTo_iff ..).1 hgoes with ⟨-, hnext⟩ | ⟨-, htarget, -⟩ | ⟨-, hhinted, -⟩
    · rw [hnext]
      exact .inl (stepInBank_bounds _ _)
    · exact .inl (hread.target_bounds htarget)
    · exact .inr (.inr ⟨_, hhinted⟩)

namespace Fleet

variable {f : Fleet} {moves : List Move}
  (hs : ∀ n ∈ seeds.nodes, n.state.saved.length ≤ WidthState.maxSaved)
include hs

/-- No schedule makes more steps than the space has nodes. -/
theorem Run.steps_le (h : Run c hints seeds moves f) :
    f.machine.steps ≤ (nodeSpace seeds hints).ncard := by
  rw [h.ok.steps]
  exact length_le_ncard (finite_nodeSpace seeds hints) h.nodup_dispatches
    fun n hn => (h.reachable_of_dispatched hn).mem_nodeSpace hs

/-- No schedule goes on for ever: each node of the space is dispatched and completed at most
once. -/
theorem Run.length_moves_le (h : Run c hints seeds moves f) :
    moves.length ≤ 2 * (nodeSpace seeds hints).ncard := by
  have hsteps := h.steps_le hs
  have hdone := h.length_completions_le
  rw [h.ok.steps] at hsteps
  rw [length_moves]
  omega

end Fleet

end RomAtlas
