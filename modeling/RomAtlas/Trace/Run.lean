import RomAtlas.Config.Basic
import RomAtlas.Trace.Machine

/-!
# Running a trace

`trace` dispatches and completes nodes, first in first out, until none is left or a limit stops it.
The nodes that can ever be entered are finitely many (`nodeBound`), so the run ends by itself.

* `Watch`: what the clock shows and whether the run is cancelled, before each dispatch.
* `Limits.stop?`: what stops a run, asked before each dispatch.
-/

namespace RomAtlas

/-- Why a run was stopped. -/
inductive Interruption where
  | cancelled
  | stepsUsed (budget : Int)
  | timeUsed (budget : Float)

/-- The words for a reason, unless it shows an integer that is too long. -/
def Interruption.text? : Interruption → Option String
  | cancelled => some "cancelled"
  | stepsUsed b => (Numeral.text? b).map fun n => "step budget of " ++ n ++ " exhausted"
  | timeUsed b => some ("time budget of " ++ Decimal.floatText b ++ "s exhausted")

/-- What a run learns while it goes on: the time at which it starts and, before each dispatch, the
time then and whether it was cancelled. It asks once for each number of nodes that were dispatched
before, so the answers are listed by that number. -/
structure Watch where
  start : Float
  now : Nat → Float
  cancelled : Nat → Bool

/-- No time passes, and the run is cancelled from the start on or never. -/
def Watch.still (cancelled : Bool) : Watch := ⟨0, fun _ => 0, fun _ => cancelled⟩

/-- What may stop a run: a cancellation, the number of steps and the time that has passed. -/
structure Limits where
  stepBudget : Option Int
  timeBudget : Option Float
  watch : Watch

/-- Whether a run that made some steps has to stop before the next one. -/
def Limits.stop? (l : Limits) (steps : Nat) : Option Interruption :=
  if l.watch.cancelled steps then some .cancelled
  else
    match l.stepBudget.filter fun b : Int => b ≤ steps with
    | some b => some (.stepsUsed b)
    | none =>
      (l.timeBudget.filter fun b => l.watch.start + b ≤ l.watch.now steps).map .timeUsed

/-- What a trace found. Instructions and failures stand in the order of their nodes, cross
references and conflicts in their own order, each once. -/
structure Trace where
  instructions : List (Node × Instruction)
  failures : List (Node × DecodeFault)
  xrefs : List Xref
  conflicts : List Conflict
  truncated : Bool
  steps : Nat

/-- Entries in the order of their nodes. -/
def sortByNode {α : Type} (entries : List (Node × α)) : List (Node × α) :=
  entries.mergeSort fun a b => (compare a.1 b.1).isLE

namespace Trace

/-- The decoded instructions at an address, in the order of their states. -/
def decodedAt (t : Trace) (address : Int) : List Instruction :=
  ((sortByNode t.instructions).filter (·.1.address = address)).map Prod.snd

end Trace

namespace Machine

/-- Dispatches and completes nodes until none is left or the limits stop the run, for at most as
many steps as there is fuel. -/
def drive (c : Cartridge) (hints : CheckedHints) (limits : Limits) :
    Nat → Machine → Machine × Option Interruption
  | 0, m => (m, none)
  | fuel + 1, m =>
    match m.dispatch? with
    | none => (m, none)
    | some (n, m') =>
      match limits.stop? m.steps with
      | some reason => (m, some reason)
      | none => drive c hints limits fuel (m'.complete c hints n)

/-- The conflict that notes a stopped run, with the words for its reason. -/
def budgetConflict (steps : Nat) (reason : String) : Conflict :=
  ⟨none, .budgetExhausted,
    "trace truncated after " ++ toString steps ++ " steps: " ++ reason,
    ["raise step_budget/time_budget", "add data_ranges hints for runaway regions"]⟩

/-- The results of a machine, and the words for why it was stopped. -/
def toTrace (m : Machine) (stopped : Option String) : Trace where
  instructions := sortByNode m.instructions
  failures := sortByNode m.failures
  xrefs := sortUnique m.xrefs
  conflicts := sortUnique ((stopped.map (budgetConflict m.steps)).toList ++ m.conflicts)
  truncated := stopped.isSome
  steps := m.steps

end Machine

/-- The number of lists of pairs of widths up to a length. -/
def savedBound : Nat → Nat
  | 0 => 1
  | n + 1 => 1 + 4 * savedBound n

/-- The number of width states that a trace can meet: two widths, the widths that are saved, and
what is known of the carry. -/
def stateBound : Nat := 4 * 3 * savedBound WidthState.maxSaved

/-- The number of nodes that a trace can enter: their addresses have 24 bits or are those of seeds
and hinted targets. -/
def nodeBound (seeds : Edges) (hints : CheckedHints) : Nat :=
  let hinted := hints.jumpTables.foldl (fun n _ targets => n + targets.length) 0
  (0x1000000 + seeds.nodes.length + hinted) * stateBound

/-- Follows the flow of control from the seeds. -/
def explore (c : Cartridge) (hints : CheckedHints) (settings : TraceSettings) (watch : Watch) :
    Machine × Option Interruption :=
  let seeds := seedEdges c hints ⟨settings.initial, [], none⟩ settings.useVectors
  let limits : Limits := ⟨settings.stepBudget, settings.timeBudget, watch⟩
  (Machine.start seeds).drive c hints limits (nodeBound seeds hints + 1)

/-- The trace of a run, which went on to its end or was stopped. It fails only if the step budget
stopped the run and has too many digits to be shown. -/
def Machine.conclude : Machine × Option Interruption → Except Fault Trace
  | (m, none) => .ok (m.toTrace none)
  | (m, some reason) =>
    match reason.text? with
    | some text => .ok (m.toTrace (some text))
    | none => .error .integerTooLong

/-- Traces the flow of control from the seeds. -/
def trace (c : Cartridge) (hints : CheckedHints) (settings : TraceSettings) (watch : Watch) :
    Except Fault Trace :=
  Machine.conclude (explore c hints settings watch)

end RomAtlas
