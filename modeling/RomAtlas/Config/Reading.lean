import RomAtlas.Config.Basic
import RomAtlas.Document.Yaml

/-!
# Reading project settings

`Config.ofValue` reads the settings from a document; the first fault in reading order is reported:
the trace settings, then entry points, jump tables, data ranges and code ranges. `Config.ofText`
reads them from a text.
-/

namespace RomAtlas

/-- A mapping's entry, or another value if it has none. -/
def Value.getD (key : String) (entries : List (Value × Value)) (default : Value) : Value :=
  (find? key entries).getD default

/-- A value as it is shown by itself. It may be nested to any depth: no bound on the depth of what
can be shown is modelled. -/
def Value.display (v : Value) : Except ConfigFault String :=
  match v.shown? with
  | some shown => .ok shown
  | none => .error .integerTooLong

/-- Refuses a value with a fault that shows it. -/
def Value.refuse {α : Type} (v : Value) (fault : String → ConfigFault) : Except ConfigFault α := do
  .error (fault (← v.display))

/-- An integer, or a text that spells one. -/
def Value.toInteger (v : Value) : Except ConfigFault Int :=
  match v with
  | .int n => .ok n
  | .text t =>
    match t.string?.bind Numeral.ofText? with
    | some n => .ok n
    | none => v.refuse .badInteger
  | _ => v.refuse .badInteger

/-- A number as a floating-point number. -/
def Value.toNumber (v : Value) : Except ConfigFault Float :=
  match v with
  | .int n =>
    let x := Decimal.toFloat (n < 0) n.natAbs 0
    if x.isInf then .error .numberTooLarge else .ok x
  | .float x => .ok x
  | _ => v.refuse .badNumber

/-- Widths in short form, such as `m16x8`; case and spaces do not count. -/
def Widths.ofName? (name : String) : Option Widths :=
  let bare := (name.toList.filter (· ≠ ' ')).map Char.toLower
  [⟨false, false⟩, ⟨false, true⟩, ⟨true, false⟩, ⟨true, true⟩].find? fun w =>
    w.name.toList = bare

/-- Widths in short form or as a mapping; nothing stands for no widths. -/
def Value.toWidths (v : Value) : Except ConfigFault (Option Widths) :=
  match v with
  | .null => .ok none
  | .text t =>
    match t.string?.bind Widths.ofName? with
    | some w => .ok (some w)
    | none => v.refuse .badWidths
  | .mapping entries =>
    .ok (some ⟨(getD "m16" entries (.bool false)).isGiven,
      (getD "x16" entries (.bool false)).isGiven⟩)
  | _ => v.refuse .badWidths

/-- The entries of a mapping; a value that is not given counts as an empty one. -/
def Value.toEntries (v : Value) : Except ConfigFault (List (Value × Value)) :=
  if v.isGiven then
    match v with
    | .mapping entries => .ok entries
    | _ => .error .noEntries
  else .ok []

/-- The values that a value lists: items, code points or keys. -/
def Value.toItems : Value → Except ConfigFault (List Value)
  | .list items => .ok items
  | .text t => .ok (t.points.map fun p => .text ⟨[p]⟩)
  | .mapping entries => .ok (entries.map Prod.fst)
  | _ => .error .notIterable

/-- A value that may be nothing. -/
def Value.optional {α : Type} (read : Value → Except ConfigFault α) (v : Value) :
    Except ConfigFault (Option α) :=
  match v with
  | .null => .ok none
  | _ => (read v).map some

/-- The list of mappings under a key; a value that is not given counts as an empty list. -/
def Value.mappingsAt (key : String) (entries : List (Value × Value)) :
    Except ConfigFault (List (List (Value × Value))) :=
  let v := getD key entries .null
  let mapping? : Value → Option (List (Value × Value))
    | .mapping es => some es
    | _ => none
  if v.isGiven then
    match v with
    | .list items =>
      match items.mapM mapping? with
      | some mappings => .ok mappings
      | none => .error (.notMappings key)
    | _ => .error (.notMappings key)
  else .ok []

/-- The settings of a trace. -/
def TraceSettings.ofEntries (entries : List (Value × Value)) :
    Except ConfigFault TraceSettings := do
  let initial ← (Value.getD "initial_state" entries .null).toWidths
  let workers ← (Value.getD "worker_count" entries (.int 4)).toInteger
  let stepBudget ← (Value.getD "step_budget" entries (.int 1000000)).optional Value.toInteger
  let timeBudget ← (Value.getD "time_budget" entries .null).optional Value.toNumber
  let useVectors := (Value.getD "use_vectors" entries (.bool true)).isGiven
  return ⟨initial.getD Widths.narrow, useVectors, workers, stepBudget, timeBudget⟩

/-- An entry point. -/
def EntryHint.ofEntries (entries : List (Value × Value)) : Except ConfigFault EntryHint := do
  let address ← (Value.getD "address" entries .null).toInteger
  let widths ← (Value.getD "state" entries .null).toWidths
  return ⟨address, Value.getD "name" entries (.text ""), widths⟩

/-- A range. -/
def RangeHint.ofEntries (entries : List (Value × Value)) : Except ConfigFault RangeHint := do
  let first ← (Value.getD "start" entries .null).toInteger
  let last ← (Value.getD "end" entries .null).toInteger
  return ⟨first, last, Value.getD "label" entries (.text "")⟩

/-- A jump table. -/
def JumpTableHint.ofEntries (entries : List (Value × Value)) :
    Except ConfigFault JumpTableHint := do
  let site ← (Value.getD "site" entries .null).toInteger
  let items ← (Value.getD "targets" entries (.list [])).toItems
  let targets ← items.mapM Value.toInteger
  let table ← (Value.getD "table" entries .null).optional Value.toInteger
  let count ← (Value.getD "count" entries (.int 0)).toInteger
  let longPointers := (Value.getD "long_pointers" entries (.bool false)).isGiven
  let returns := (Value.getD "returns" entries (.bool false)).isGiven
  return ⟨site, targets, table, count, longPointers, returns, Value.getD "label" entries (.text "")⟩

/-- The hints of a project. -/
def Hints.ofEntries (entries : List (Value × Value)) : Except ConfigFault Hints := do
  let entryPoints ← (← Value.mappingsAt "entry_points" entries).mapM EntryHint.ofEntries
  let jumpTables ← (← Value.mappingsAt "jump_tables" entries).mapM JumpTableHint.ofEntries
  let dataRanges ← (← Value.mappingsAt "data_ranges" entries).mapM RangeHint.ofEntries
  let codeRanges ← (← Value.mappingsAt "code_ranges" entries).mapM RangeHint.ofEntries
  return ⟨entryPoints, dataRanges, codeRanges, jumpTables⟩

namespace Config

/-- The settings that a document holds. -/
def ofValue (v : Value) : Except ConfigFault Config :=
  match v with
  | .mapping entries => do
    let trace ← TraceSettings.ofEntries (← (Value.getD "trace" entries .null).toEntries)
    let hints ← Hints.ofEntries (← (Value.getD "hints" entries .null).toEntries)
    let layout ← (Value.getD "mapping" entries (.text "LOROM")).display
    let speed ← (Value.getD "speed" entries (.text "SLOW")).display
    return ⟨layout, speed, trace, hints⟩
  | _ => .error (.notMapping v)

/-- The settings that a text holds; a text without a value stands for no settings. -/
def ofText (text : String) : Except ConfigFault Config :=
  match Yaml.read text with
  | .error fault => .error (.unreadable fault)
  | .ok v => ofValue (if v.isGiven then v else .mapping [])

end Config

end RomAtlas
