import Mathlib.Order.Bounds.Basic
import RomAtlas.Trace.Run

/-!
# Reachable nodes

The nodes that a trace has to visit, said without a work list: the least set of nodes that holds the
seeds and, with each node that can be decoded, all nodes that follow its instruction
(`isLeast_reachable`).

* `Node.edges`: what follows a node, which is nothing if it cannot be decoded.
* `successors_parts`, `seedEdges_parts`: how to show something of all edges of an instruction or of
  the seeds.
* `mem_nodes_successors`: **which nodes follow an instruction**, for each kind of flow.
-/

namespace RomAtlas

variable {c : Cartridge} {hints : CheckedHints} {seeds : List Node} {n k : Node}

/-- A set of nodes that holds the seeds and is closed under the flow of control. -/
structure FlowClosed (c : Cartridge) (hints : CheckedHints) (seeds : List Node) (S : Set Node) :
    Prop where
  seed : ∀ n ∈ seeds, n ∈ S
  next : ∀ n ∈ S, ∀ i, n.decode c = .ok i → ∀ k ∈ (successors c.map i hints).nodes, k ∈ S

/-- The nodes that the flow of control reaches from the seeds. -/
inductive Reachable (c : Cartridge) (hints : CheckedHints) (seeds : List Node) : Node → Prop
  | seed {n : Node} : n ∈ seeds → Reachable c hints seeds n
  | next {n k : Node} {i : Instruction} : Reachable c hints seeds n → n.decode c = .ok i →
      k ∈ (successors c.map i hints).nodes → Reachable c hints seeds k

/-- **The reachable nodes are the least closed set.** -/
theorem isLeast_reachable (c : Cartridge) (hints : CheckedHints) (seeds : List Node) :
    IsLeast {S | FlowClosed c hints seeds S} {n | Reachable c hints seeds n} := by
  refine ⟨⟨fun n hn => .seed hn, fun n hn i hi k hk => .next hn hi hk⟩, ?_⟩
  intro S hS n hn
  induction hn with
  | seed h => exact hS.seed _ h
  | next _ hi hk ih => exact hS.next _ ih _ hi _ hk

/-- What follows a node. -/
def Node.edges (c : Cartridge) (hints : CheckedHints) (n : Node) : Edges :=
  match n.decode c with
  | .ok i => successors c.map i hints
  | .error _ => .empty

theorem Node.edges_of_ok {i : Instruction} (h : n.decode c = .ok i) :
    n.edges c hints = successors c.map i hints := by
  simp only [edges, h]

theorem Node.edges_of_error {fault : DecodeFault} (h : n.decode c = .error fault) :
    n.edges c hints = .empty := by
  simp only [edges, h]

/-- The nodes, cross references or conflicts that follow a node are those of its instruction. -/
theorem Node.mem_edges {α : Type} (part : Edges → List α) (hp : part .empty = []) {x : α} :
    x ∈ part (n.edges c hints) ↔
      ∃ i, n.decode c = .ok i ∧ x ∈ part (successors c.map i hints) := by
  cases h : n.decode c with
  | ok i => simp [edges_of_ok h]
  | error fault => simp [edges_of_error h, hp]

theorem Node.mem_nodes_edges :
    k ∈ (n.edges c hints).nodes ↔
      ∃ i, n.decode c = .ok i ∧ k ∈ (successors c.map i hints).nodes :=
  Node.mem_edges Edges.nodes rfl

theorem Reachable.edges (hn : Reachable c hints seeds n) (hk : k ∈ (n.edges c hints).nodes) :
    Reachable c hints seeds k := by
  obtain ⟨i, hi, hk⟩ := Node.mem_nodes_edges.1 hk
  exact .next hn hi hk

namespace Edges

@[simp]
theorem nodes_append (e f : Edges) : (e ++ f).nodes = e.nodes ++ f.nodes := rfl

theorem xrefs_append (e f : Edges) : (e ++ f).xrefs = e.xrefs ++ f.xrefs := rfl

theorem conflicts_append (e f : Edges) : (e ++ f).conflicts = e.conflicts ++ f.conflicts := rfl

@[simp]
theorem nodes_empty : empty.nodes = [] := rfl

end Edges

section

variable {m : AddressMap} {i : Instruction} {states : List WidthState}

/-- Control may go on behind an instruction: it does not jump, leave or halt, and if it is a direct
call, no hint says where it goes or a hint says that it returns. -/
def Instruction.FallsThrough (m : AddressMap) (hints : CheckedHints) (i : Instruction) : Prop :=
  i.flow = .sequential ∨ i.flow = .branch ∨ i.flow = .indirectCall ∨
    i.flow = .call ∧ (hints.hintedTargets (m.canonical i.address) = [] ∨
      m.canonical i.address ∈ hints.returningSites)

/-- Where control can go from an instruction: behind it, to a target that it names, or to one that a
hint names. Only targets that show a byte of the image count. -/
@[mk_iff]
inductive Instruction.GoesTo (m : AddressMap) (hints : CheckedHints) (i : Instruction) :
    Int → Prop
  | next : i.FallsThrough m hints → GoesTo m hints i i.next
  | direct {a : Int} : i.flow.isDirect = true → a ∈ i.targets → m.shows a = true →
      GoesTo m hints i a
  | hinted {a : Int} : i.flow = .jump ∨ i.flow.isCall = true ∨ i.flow.isIndirect = true →
      a ∈ hints.hintedTargets (m.canonical i.address) → m.shows a = true → GoesTo m hints i a

theorem mem_nodes_fallThrough :
    k ∈ (fallThrough i states).nodes ↔ k.state ∈ states ∧ k.address = i.next := by
  refine List.mem_map.trans ⟨?_, ?_⟩
  · rintro ⟨s, hs, rfl⟩
    exact ⟨hs, rfl⟩
  · rintro ⟨hs, haddress⟩
    exact ⟨k.state, hs, by rw [← haddress]⟩

theorem mem_nodes_transferTo {kind : XrefKind} {targets : List Int} :
    k ∈ (transferTo m i states kind targets).nodes ↔
      k.state ∈ states ∧ k.address ∈ targets ∧ m.shows k.address = true := by
  refine List.mem_flatMap.trans ⟨?_, ?_⟩
  · rintro ⟨t, ht, hk⟩
    obtain ⟨s, hs, rfl⟩ := List.mem_map.1 hk
    exact ⟨hs, List.mem_filter.1 ht⟩
  · rintro ⟨hs, ht⟩
    exact ⟨k.address, List.mem_filter.2 ht, List.mem_map.2 ⟨k.state, hs, rfl⟩⟩

theorem nodes_uncertainWidth : (uncertainWidth i states).nodes = [] := by
  unfold uncertainWidth
  split <;> rfl

/-- An indirect transfer goes to the places that a hint names, and nowhere without a hint. -/
theorem mem_nodes_indirect {targets : List Int} :
    k ∈ (if !targets.isEmpty then transferTo m i states .jumpTable targets
      else unresolved m i).nodes ↔
      k.state ∈ states ∧ k.address ∈ targets ∧ m.shows k.address = true := by
  cases targets with
  | nil => exact iff_of_false List.not_mem_nil fun h => List.not_mem_nil h.2.1
  | cons => exact mem_nodes_transferTo

theorem mem_nodes_returning {returns : Bool} :
    k ∈ (if returns then fallThrough i states else .empty).nodes ↔
      returns = true ∧ k.state ∈ states ∧ k.address = i.next := by
  cases returns with
  | false => exact iff_of_false List.not_mem_nil nofun
  | true => simp [mem_nodes_fallThrough]

/-- **Which nodes follow an instruction.** It goes to each of its places in each state that is
possible after it, and nowhere else. -/
theorem mem_nodes_successors : k ∈ (successors m i hints).nodes ↔
    k.state ∈ i.state.possibleAfter i ∧ i.GoesTo m hints k.address := by
  unfold successors transfers
  rw [Edges.nodes_append, nodes_uncertainWidth, List.nil_append, Instruction.goesTo_iff]
  unfold Instruction.FallsThrough
  cases hf : i.flow with
  | leave => simp [Flow.isDirect, Flow.isCall, Flow.isIndirect]
  | halt => simp [Flow.isDirect, Flow.isCall, Flow.isIndirect]
  | sequential => simp [mem_nodes_fallThrough, Flow.isDirect, Flow.isCall, Flow.isIndirect]
  | branch =>
    simp [mem_nodes_fallThrough, mem_nodes_transferTo, Flow.isDirect, Flow.isCall,
      Flow.isIndirect, and_or_left]
  | branchAlways =>
    simp [mem_nodes_transferTo, Flow.isDirect, Flow.isCall, Flow.isIndirect]
  | jump =>
    simp [mem_nodes_transferTo, Flow.isDirect, Flow.isCall, Flow.isIndirect, and_or_left]
  | indirectJump =>
    dsimp only
    rw [mem_nodes_indirect]
    simp [Flow.isDirect, Flow.isCall, Flow.isIndirect]
  | indirectCall =>
    dsimp only
    rw [Edges.nodes_append, List.mem_append, mem_nodes_indirect, mem_nodes_fallThrough]
    simp [Flow.isDirect, Flow.isCall, Flow.isIndirect, and_or_left, or_comm]
  | call =>
    -- whether the call returns is a condition on the hints alone
    have hback : (!!(hints.hintedTargets (m.canonical i.address)).isEmpty ||
        hints.returningSites.contains (m.canonical i.address)) = true ↔
        hints.hintedTargets (m.canonical i.address) = [] ∨
          m.canonical i.address ∈ hints.returningSites := by simp
    dsimp only
    rw [Edges.nodes_append, Edges.nodes_append, List.mem_append, List.mem_append,
      mem_nodes_transferTo, mem_nodes_transferTo, mem_nodes_returning, hback]
    constructor
    · rintro ((⟨hs, ht, hshown⟩ | ⟨hs, ht, hshown⟩) | ⟨hreturns, hs, hnext⟩)
      · exact ⟨hs, .inr (.inl ⟨rfl, ht, hshown⟩)⟩
      · exact ⟨hs, .inr (.inr ⟨.inr (.inl rfl), ht, hshown⟩)⟩
      · exact ⟨hs, .inl ⟨.inr (.inr (.inr ⟨rfl, hreturns⟩)), hnext⟩⟩
    · rintro ⟨hs, ⟨hfalls, hnext⟩ | ⟨-, ht, hshown⟩ | ⟨-, ht, hshown⟩⟩
      · simp only [reduceCtorEq, true_and, false_or] at hfalls
        exact .inr ⟨hfalls, hs, hnext⟩
      · exact .inl (.inl ⟨hs, ht, hshown⟩)
      · exact .inl (.inr ⟨hs, ht, hshown⟩)

/-- **What follows an instruction is put together from few parts.** What holds of nothing, of the
next instruction, of transfers to the targets that the instruction or a hint names, of an indirect
transfer without a hint and of a mode switch, and of two edges together if it holds of each, holds
of all that follows. -/
theorem successors_parts {P : Edges → Prop} (hempty : P .empty)
    (happend : ∀ e f, P e → P f → P (e ++ f))
    (hnext : P (fallThrough i (i.state.possibleAfter i)))
    (hwidth : P (uncertainWidth i (i.state.possibleAfter i)))
    (htransfer : ∀ kind targets, kind ≠ .interruptVector → kind ≠ .indirectUnresolved →
      targets = i.targets ∨ targets = hints.hintedTargets (m.canonical i.address) →
      P (transferTo m i (i.state.possibleAfter i) kind targets))
    (hunresolved : i.flow.isIndirect = true → hints.hintedTargets (m.canonical i.address) = [] →
      P (unresolved m i)) : P (successors m i hints) := by
  have hown : ∀ kind, kind ≠ .interruptVector → kind ≠ .indirectUnresolved →
      P (transferTo m i (i.state.possibleAfter i) kind i.targets) :=
    fun kind h h' => htransfer kind _ h h' (.inl rfl)
  have htable : P (transferTo m i (i.state.possibleAfter i) .jumpTable
      (hints.hintedTargets (m.canonical i.address))) :=
    htransfer _ _ (by decide) (by decide) (.inr rfl)
  -- an indirect transfer goes where a hint says, if there is one
  have hindirect : i.flow.isIndirect = true →
      P (if !(hints.hintedTargets (m.canonical i.address)).isEmpty then
        transferTo m i (i.state.possibleAfter i) .jumpTable
          (hints.hintedTargets (m.canonical i.address)) else unresolved m i) := by
    intro hflow
    split
    · exact htable
    · next hnone => exact hunresolved hflow (by simpa using hnone)
  unfold successors
  refine happend _ _ hwidth ?_
  unfold transfers
  cases hf : i.flow <;> dsimp only
  case leave => exact hempty
  case halt => exact hempty
  case sequential => exact hnext
  case branch => exact happend _ _ hnext (hown _ (by decide) (by decide))
  case branchAlways => exact hown _ (by decide) (by decide)
  case jump => exact happend _ _ (hown _ (by decide) (by decide)) htable
  case call =>
    refine happend _ _ (happend _ _ (hown _ (by decide) (by decide)) htable) ?_
    split
    · exact hnext
    · exact hempty
  case indirectJump => exact hindirect (by rw [hf]; rfl)
  case indirectCall => exact happend _ _ (hindirect (by rw [hf]; rfl)) hnext

end

section

variable {initial : WidthState}

/-- What holds of the edges of each vector, whatever nodes come with them, and of two edges together
if it holds of each, holds of all edges of a scan. -/
theorem scanVectors_parts {P : Edges → Prop} (happend : ∀ e f, P e → P f → P (e ++ f))
    (hnodes : ∀ e nodes, P e → P { e with nodes := nodes })
    (hvector : ∀ slot name target, P (vectorEdge c.map initial slot name target)) {found : Edges}
    (hfound : P found) (slots : List (Int × String)) : P (scanVectors c initial found slots) := by
  induction slots generalizing found with
  | nil => exact hfound
  | cons slot slots ih =>
    unfold scanVectors
    split
    · exact hnodes _ _ hfound
    · exact ih (happend _ _ hfound (hvector _ _ _))

/-- **The seeds of a trace are put together from few parts**, of which only the vectors have cross
references and conflicts. -/
theorem seedEdges_parts {P : Edges → Prop} (hempty : P .empty)
    (happend : ∀ e f, P e → P f → P (e ++ f))
    (hnodes : ∀ e nodes, P e → P { e with nodes := nodes })
    (hvector : ∀ slot name target, P (vectorEdge c.map initial slot name target))
    (useVectors : Bool) : P (seedEdges c hints initial useVectors) := by
  unfold seedEdges
  refine happend _ _ ?_ (hnodes .empty _ hempty)
  split
  · exact scanVectors_parts happend hnodes hvector hempty _
  · exact hempty

end

end RomAtlas
