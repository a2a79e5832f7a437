import RomAtlas.Cpu.Effect
import RomAtlas.Hint.Checked
import RomAtlas.Trace.Node

/-!
# Where control goes

The nodes that follow an instruction, the cross references that it makes and the conflicts that it
raises (`successors`), and the same for the hardware vectors from which a trace starts
(`vectorEdges`).
-/

namespace RomAtlas

/-- Nodes to visit, with the cross references and conflicts that come with them. -/
structure Edges where
  nodes : List Node
  xrefs : List Xref
  conflicts : List Conflict

namespace Edges

/-- Nothing follows. -/
def empty : Edges := ⟨[], [], []⟩

instance : Append Edges :=
  ⟨fun e f => ⟨e.nodes ++ f.nodes, e.xrefs ++ f.xrefs, e.conflicts ++ f.conflicts⟩⟩

end Edges

section

variable (m : AddressMap) (i : Instruction)

/-- A mode switch after which several states are possible. -/
def uncertainWidth (states : List WidthState) : Edges :=
  if 1 < states.length then
    ⟨[], [], [⟨some i.address, .uncertainWidth,
      i.text ++ " with unknown carry from " ++ i.state.name ++
        ": widths after the mode switch are not statically known",
      states.map fun s => s.name ++ " afterwards"⟩]⟩
  else .empty

/-- The next instruction in each state. -/
def fallThrough (states : List WidthState) : Edges := ⟨states.map (Node.mk i.next), [], []⟩

/-- Targets of an instruction: each is a cross reference; the mapped ones are visited in each state,
the others are conflicts. -/
def transferTo (states : List WidthState) (kind : XrefKind) (targets : List Int) : Edges where
  nodes := (targets.filter m.shows).flatMap fun t => states.map (Node.mk t)
  xrefs := targets.map fun t => ⟨i.address, some t, kind⟩
  conflicts := (targets.filter (!m.shows ·)).map fun t =>
    ⟨some i.address, .unmappedTarget,
      i.text ++ " transfers to " ++ Hex.address t ++ " outside mapped ROM", []⟩

/-- An indirect transfer for which there is no hint. -/
def unresolved : Edges :=
  ⟨[], [⟨i.address, none, .indirectUnresolved⟩],
    [⟨some i.address, .indirectUnresolved,
      i.text ++ ": indirect " ++ (if i.flow.isCall then "call" else "jump") ++
        " target is not statically known",
      ["add a jump_tables hint for site " ++ Hex.address (m.canonical i.address)]⟩]⟩

/-- Where an instruction goes in each of its states. Whether a call comes back is not known, so the
instruction after it is visited too, unless a jump table says where the call goes and does not say
that it returns. -/
def transfers (hints : CheckedHints) (states : List WidthState) : Edges :=
  let site := m.canonical i.address
  let hinted := hints.hintedTargets site
  let known := !hinted.isEmpty
  let table := transferTo m i states .jumpTable hinted
  let next := fallThrough i states
  match i.flow with
  | .leave | .halt => .empty
  | .sequential => next
  | .branch => next ++ transferTo m i states .branch i.targets
  | .branchAlways => transferTo m i states .branch i.targets
  | .jump => transferTo m i states .jump i.targets ++ table
  | .call =>
    transferTo m i states .call i.targets ++ table ++
      (if !known || hints.returningSites.contains site then next else .empty)
  | .indirectJump => if known then table else unresolved m i
  | .indirectCall => (if known then table else unresolved m i) ++ next

/-- What follows an instruction. -/
def successors (hints : CheckedHints) : Edges :=
  let states := i.state.possibleAfter i
  uncertainWidth i states ++ transfers m i hints states

end

/-- The slots of the hardware vectors, in bank zero. -/
def hardwareVectors : List (Int × String) :=
  [(0xFFE4, "native COP"), (0xFFE6, "native BRK"), (0xFFE8, "native ABORT"),
    (0xFFEA, "native NMI"), (0xFFEE, "native IRQ"), (0xFFF4, "emulation COP"),
    (0xFFF8, "emulation ABORT"), (0xFFFA, "emulation NMI"), (0xFFFC, "emulation RESET"),
    (0xFFFE, "emulation IRQ/BRK")]

/-- Where one vector leads: nowhere if it holds one of the two fillers, all zeros and all ones. -/
def vectorEdge (m : AddressMap) (state : WidthState) (slot : Int) (name : String) (target : Nat) :
    Edges :=
  if target = 0 ∨ target = 0xFFFF then .empty
  else if m.shows target then
    ⟨[⟨target, state⟩], [⟨slot, some target, .interruptVector⟩], []⟩
  else
    ⟨[], [⟨slot, some target, .interruptVector⟩],
      [⟨some slot, .unmappedTarget,
        name ++ " vector points to " ++ Hex.address target ++ " outside mapped ROM", []⟩]⟩

/-- Where the vectors lead. A slot outside the image ends the scan: then no vector is a seed, though
the cross references and conflicts of the slots before it stay. -/
def scanVectors (c : Cartridge) (state : WidthState) (found : Edges) : List (Int × String) → Edges
  | [] => found
  | (slot, name) :: rest =>
    match c.word slot with
    | .error _ => { found with nodes := [] }
    | .ok target => scanVectors c state (found ++ vectorEdge c.map state slot name target) rest

/-- Where the hardware vectors lead. -/
def vectorEdges (c : Cartridge) (state : WidthState) : Edges :=
  scanVectors c state .empty hardwareVectors

/-- Where a trace starts: at the hardware vectors, if they are used, and at the entry points. -/
def seedEdges (c : Cartridge) (hints : CheckedHints) (initial : WidthState) (useVectors : Bool) :
    Edges :=
  let entries : Edges :=
    ⟨hints.entryPoints.map fun e => ⟨e.address, e.state.getD initial⟩, [], []⟩
  (if useVectors then vectorEdges c initial else .empty) ++ entries

end RomAtlas
