import RomAtlas.Fifo
import RomAtlas.Trace.Edges
import Std.Data.HashSet

/-!
# The tracing machine

A trace keeps a queue of entered nodes. A node is dispatched from the head of the queue and
completed by decoding it: its results are recorded, and those of its successors that nobody has
entered yet are entered and join the queue. A node is entered once, so it is dispatched and
completed once.
-/

namespace RomAtlas

/-- The state of a trace. -/
structure Machine where
  queue : Fifo Node
  /-- All nodes that were ever in the queue. -/
  entered : Std.HashSet Node
  instructions : List (Node × Instruction)
  failures : List (Node × DecodeFault)
  xrefs : List Xref
  conflicts : List Conflict
  /-- How many nodes were dispatched. -/
  steps : Nat

namespace Machine

/-- Nothing entered and nothing found. -/
def empty : Machine := ⟨.empty, ∅, [], [], [], [], 0⟩

/-- Enters a node, unless it is entered already. -/
def enter (m : Machine) (n : Node) : Machine :=
  if m.entered.contains n then m
  else { m with queue := m.queue.push n, entered := m.entered.insert n }

/-- Records cross references and conflicts, and enters the nodes in order. -/
def absorb (m : Machine) (e : Edges) : Machine :=
  e.nodes.foldl enter
    { m with xrefs := e.xrefs ++ m.xrefs, conflicts := e.conflicts ++ m.conflicts }

/-- Takes the head of the queue. -/
def dispatch? (m : Machine) : Option (Node × Machine) :=
  (m.queue.pop?).map fun (n, queue) => (n, { m with queue, steps := m.steps + 1 })

/-- Decodes a node and records what comes of it. -/
def complete (c : Cartridge) (hints : CheckedHints) (m : Machine) (n : Node) : Machine :=
  match n.decode c with
  | .error fault => { m with failures := (n, fault) :: m.failures }
  | .ok i =>
    { m with instructions := (n, i) :: m.instructions }.absorb (successors c.map i hints)

/-- A machine with its seeds entered. -/
def start (seeds : Edges) : Machine := empty.absorb seeds

end Machine

end RomAtlas
