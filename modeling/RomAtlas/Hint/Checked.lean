import RomAtlas.Cartridge
import RomAtlas.Conflict
import RomAtlas.Cpu.Instruction
import RomAtlas.Hint.Basic
import RomAtlas.Extent
import RomAtlas.Text.Identifier
import Std.Data.TreeMap

/-!
# Checked hints

A hint is checked against the image before it is used: its addresses must show bytes of the image,
its range must run forward, its pointer table must be contiguous, its name must be a new identifier
that no generated label can have. A hint that fails is rejected with a reason and has no other
effect. A rejection shows all that the hint says, so checking ends if that holds an integer with too
many digits.

* `EntryHint.verdict`, `RangeHint.verdict`, `JumpTableHint.read` with `Reading.verdict`: what is
  checked of one hint.
* `HintLedger.addEntry`, `HintLedger.addTable`, `HintLedger.addRange`: one hint at a time.
* `Hints.check`: all hints, in the order of entry points, jump tables, data ranges and code ranges.
-/

namespace RomAtlas

/-- Where a hint stands in the project. -/
inductive HintSource where
  | entryPoint (index : Nat)
  | jumpTable (index : Nat)
  | dataRange (index : Nat)
  | codeRange (index : Nat)
deriving DecidableEq, Repr

/-- The text by which a hint is known. -/
def HintSource.name : HintSource → String
  | entryPoint i => "entry_points[" ++ toString i ++ "]"
  | jumpTable i => "jump_tables[" ++ toString i ++ "]"
  | dataRange i => "data_ranges[" ++ toString i ++ "]"
  | codeRange i => "code_ranges[" ++ toString i ++ "]"

/-- A place where code starts. Without a state it starts in that of the trace. -/
structure CodeStart where
  address : Int
  state : Option WidthState
  name : Value

/-- A range of bytes declared to be of one class; of overlapping ranges of one size the later in
order wins. -/
structure DeclaredRange where
  range : Extent
  cls : ByteClass
  order : Nat
  label : Value
  address : Int
  source : HintSource

/-- Hints that were checked. Jump targets are listed by the canonical address of the jump. -/
structure CheckedHints where
  entryPoints : List CodeStart
  jumpTables : Std.TreeMap Int (List Int)
  returningSites : List Int
  ranges : List DeclaredRange

namespace CheckedHints

/-- No hints. -/
def empty : CheckedHints := ⟨[], ∅, [], []⟩

/-- The ranges of data. -/
def dataRanges (h : CheckedHints) : List DeclaredRange := h.ranges.filter (·.cls = .data)

/-- The ranges of code. -/
def codeRanges (h : CheckedHints) : List DeclaredRange := h.ranges.filter (·.cls = .code)

/-- Where the jump at a canonical address can go, in ascending order. -/
def hintedTargets (h : CheckedHints) (site : Int) : List Int := (h.jumpTables[site]?).getD []

end CheckedHints

/-- The parts that an address plays in a hint. -/
inductive HintRole where
  | entryPoint
  | rangeStart
  | rangeEnd
  | site
  | target
  | table
deriving DecidableEq, Repr

/-- The words for a part. -/
def HintRole.name : HintRole → String
  | entryPoint => "entry point"
  | rangeStart => "range start"
  | rangeEnd => "range end"
  | site => "jump-table site"
  | target => "jump-table target"
  | table => "pointer table"

/-- Why a hint, or a pointer of its table, is rejected. -/
inductive HintReason where
  | unmapped (role : HintRole) (address : Int)
  | backward (first last : Int)
  | countNotPositive
  | notContiguous
  | pointerUnmapped (index : Nat) (pointer : Int)
  | noTargets
  | notIdentifier (name : String)
  | generatedName (name : String)
  | nameTaken (name : String)
deriving DecidableEq, Repr

/-- The wording of a reason. -/
def HintReason.message : HintReason → String
  | unmapped role a => role.name ++ " " ++ Hex.address (wrapAddress a) ++ " is not mapped to ROM"
  | backward first last =>
    "range end " ++ Hex.address last ++ " precedes start " ++ Hex.address first
  | countNotPositive => "pointer table count must be positive"
  | notContiguous => "pointer table is not contiguous in ROM"
  | pointerUnmapped i p =>
    "pointer #" ++ toString i ++ " -> " ++ Hex.address p ++ " is not mapped to ROM"
  | noTargets => "jump table declares neither targets nor a pointer table"
  | notIdentifier name => "label '" ++ name ++ "' is not a valid symbol name"
  | generatedName name => "label '" ++ name ++ "' collides with generated label names"
  | nameTaken name => "label '" ++ name ++ "' is already declared"

/-- A rejection, with the address that it concerns. -/
structure Rejection where
  reason : HintReason
  address : Int
deriving DecidableEq, Repr

/-- A hint is rejected by itself; a fault ends the checking. A rejection is the reason alone. It is
put into words with all parts of the hint (`HintLedger.reject`), and this ends the checking too if
one of them is too long to be shown. -/
inductive Refusal where
  | rejected (rejection : Rejection)
  | broken (fault : Fault)

/-- The offset of an address that must show a byte. -/
def offsetFor (m : AddressMap) (role : HintRole) (address : Int) : Except Refusal Nat :=
  match m.offset? address with
  | some o => .ok o
  | none => .error (.rejected ⟨.unmapped role address, address⟩)

/-- Whether a name has the form of a generated label: a word for its kind and six hexadecimal
digits. -/
def isGeneratedName (name : String) : Bool :=
  let isHexDigit (c : Char) : Bool :=
    ('0' ≤ c && c ≤ '9') || ('A' ≤ c && c ≤ 'F') || ('a' ≤ c && c ≤ 'f')
  ["SUB_", "CODE_", "DATA_"].any fun word =>
    let digits := name.toList.drop word.length
    name.toList.take word.length = word.toList && digits.length = 6 && digits.all isHexDigit

/-- Adds a name to those that are taken. A value that is not given is no name. -/
def takeName (taken : List String) (name : Value) (address : Int) :
    Except Refusal (List String) :=
  if name.isGiven then
    match name.text? with
    | none => .error (.broken .nameNotText)
    | some t =>
      let s := t.shown
      if !t.string?.any Text.isIdentifier then .error (.rejected ⟨.notIdentifier s, address⟩)
      else if isGeneratedName s then .error (.rejected ⟨.generatedName s, address⟩)
      else if s ∈ taken then .error (.rejected ⟨.nameTaken s, address⟩)
      else .ok (s :: taken)
  else .ok taken

/-- The names that are taken after an entry point, if it holds. -/
def EntryHint.verdict (c : Cartridge) (taken : List String) (h : EntryHint) :
    Except Refusal (List String) := do
  discard <| offsetFor c.map .entryPoint h.address
  takeName taken h.name h.address

/-- The names that are taken after a range, and its bytes, if it holds: both ends must be mapped and
stand in order. -/
def RangeHint.verdict (c : Cartridge) (taken : List String) (h : RangeHint) :
    Except Refusal (List String × Extent) := do
  let first ← offsetFor c.map .rangeStart h.first
  let last ← offsetFor c.map .rangeEnd h.last
  if last < first then .error (.rejected ⟨.backward h.first h.last, h.first⟩)
  let taken ← takeName taken h.label h.first
  return (taken, ⟨first, last + 1⟩)

/-- The pointers of two bytes that bytes spell, in a bank. -/
def nearPointers (bank : Int) : List UInt8 → List Int
  | low :: high :: rest => (bank + littleEndian [low, high]) :: nearPointers bank rest
  | _ => []

/-- The pointers of three bytes that bytes spell. -/
def farPointers : List UInt8 → List Int
  | low :: mid :: high :: rest => (littleEndian [low, mid, high] : Int) :: farPointers rest
  | _ => []

namespace JumpTableHint

/-- Bytes of one pointer. -/
def pointerWidth (h : JumpTableHint) : Nat := if h.longPointers then 3 else 2

/-- The pointers of the table at an address, and the offsets that it takes. -/
def readPointers (c : Cartridge) (h : JumpTableHint) (table : Int) :
    Except Refusal (List Int × Extent) := do
  if h.count ≤ 0 then .error (.rejected ⟨.countNotPositive, table⟩)
  let size := h.count * h.pointerWidth
  let first ← offsetFor c.map .table table
  if (c.map.offset? (table + size - 1)).map Int.ofNat ≠ some (first + size - 1) then
    .error (.rejected ⟨.notContiguous, table⟩)
  let bytes := (c.image.slice first size).toList
  let pointers := if h.longPointers then farPointers bytes else nearPointers (bankBase h.site) bytes
  return (pointers, ⟨first, first + size⟩)

/-- A jump table before its name is taken: the listed targets and mapped pointers, the rejections
of unmapped pointers, and the range of the pointer table. -/
structure Reading where
  site : Int
  targets : List Int
  rejections : List Rejection
  table : Option (Int × Extent)

/-- The names that are taken after a jump table that was read. Only the bytes of a pointer table have
a name. -/
def Reading.verdict (reading : Reading) (taken : List String) (label : Value) :
    Except Refusal (List String) :=
  match reading.table with
  | none => .ok taken
  | some (table, _) => takeName taken label table

/-- Checks the site and the targets, and reads the pointer table. -/
def read (c : Cartridge) (h : JumpTableHint) : Except Refusal Reading := do
  discard <| offsetFor c.map .site h.site
  discard <| h.targets.mapM (offsetFor c.map .target)
  let site := c.map.canonical h.site
  match h.table with
  | some table =>
    let (pointers, range) ← h.readPointers c table
    let rejections := pointers.zipIdx.filterMap fun (p, i) =>
      if c.map.shows p then none else some ⟨.pointerUnmapped i p, table⟩
    return ⟨site, h.targets ++ pointers.filter c.map.shows, rejections, some (table, range)⟩
  | none =>
    if h.targets.isEmpty then .error (.rejected ⟨.noTargets, h.site⟩)
    return ⟨site, h.targets, [], none⟩

end JumpTableHint

/-- What has been checked so far, the names that are taken and the rejections. -/
structure HintLedger where
  hints : CheckedHints
  taken : List String
  order : Nat
  rejected : List Conflict

namespace HintLedger

/-- Nothing checked yet. -/
def start : HintLedger := ⟨CheckedHints.empty, [], 0, []⟩

/-- Notes the rejection of a hint that says the given values. -/
def reject (r : HintLedger) (source : HintSource) (parts : List Value) (x : Rejection) :
    Except Fault HintLedger :=
  let conflict : Conflict :=
    ⟨some x.address, .invalidHint, source.name ++ ": " ++ x.reason.message, []⟩
  if (Value.inners? parts).isSome then .ok { r with rejected := r.rejected ++ [conflict] }
  else .error .integerTooLong

/-- Goes on with the value of a check, or notes why it was refused. -/
def guard {α : Type} (r : HintLedger) (source : HintSource) (parts : List Value)
    (check : Except Refusal α) (use : α → Except Fault HintLedger) : Except Fault HintLedger :=
  match check with
  | .ok a => use a
  | .error (.rejected x) => r.reject source parts x
  | .error (.broken fault) => .error fault

/-- Adds a range with the next order number. -/
def addDeclared (r : HintLedger) (m : AddressMap) (range : Extent) (cls : ByteClass) (label : Value)
    (source : HintSource) : Except Fault HintLedger := do
  let address ← m.addressOf range.start
  let spec : DeclaredRange := ⟨range, cls, r.order, label, address, source⟩
  return { r with
    hints := { r.hints with ranges := r.hints.ranges ++ [spec] }, order := r.order + 1 }

/-- Checks an entry point. -/
def addEntry (c : Cartridge) (r : HintLedger) (h : EntryHint) (source : HintSource) :
    Except Fault HintLedger :=
  r.guard source h.parts (h.verdict c r.taken) fun taken =>
    let seed : CodeStart := ⟨h.address, h.widths.map fun w => ⟨w, [], none⟩, h.name⟩
    .ok { r with
      hints := { r.hints with entryPoints := r.hints.entryPoints ++ [seed] }, taken := taken }

/-- Checks a range. -/
def addRange (c : Cartridge) (cls : ByteClass) (r : HintLedger) (h : RangeHint)
    (source : HintSource) : Except Fault HintLedger :=
  r.guard source h.parts (h.verdict c r.taken) fun (taken, range) =>
    { r with taken := taken }.addDeclared c.map range cls h.label source

/-- Notes where a jump can go and whether it comes back. -/
def addTargets (r : HintLedger) (site : Int) (targets : List Int) (returns : Bool) : HintLedger :=
  let tables :=
    if targets.isEmpty then r.hints.jumpTables
    else r.hints.jumpTables.insert site (sortUnique (r.hints.hintedTargets site ++ targets))
  let sites :=
    if returns then sortUnique (site :: r.hints.returningSites) else r.hints.returningSites
  { r with hints := { r.hints with jumpTables := tables, returningSites := sites } }

/-- Checks a jump table. Pointers that are not mapped are rejected one by one, before the name of the
table is taken. -/
def addTable (c : Cartridge) (r : HintLedger) (h : JumpTableHint) (source : HintSource) :
    Except Fault HintLedger :=
  r.guard source h.parts (h.read c) fun reading => do
    let r ← reading.rejections.foldlM (·.reject source h.parts ·) r
    r.guard source h.parts (reading.verdict r.taken h.label) fun taken =>
      let r := { r with taken := taken }.addTargets reading.site reading.targets h.returns
      match reading.table with
      | none => .ok r
      | some (_, range) => r.addDeclared c.map range .data h.label source

end HintLedger

namespace Hints

/-- Checks all hints against an image: those that hold, and the rejections in order. -/
def check (c : Cartridge) (h : Hints) : Except Fault (CheckedHints × List Conflict) := do
  let r ← h.entryPoints.zipIdx.foldlM (fun r (x, i) => r.addEntry c x (.entryPoint i))
    HintLedger.start
  let r ← h.jumpTables.zipIdx.foldlM (fun r (x, i) => r.addTable c x (.jumpTable i)) r
  let r ← h.dataRanges.zipIdx.foldlM (fun r (x, i) => r.addRange c .data x (.dataRange i)) r
  let r ← h.codeRanges.zipIdx.foldlM (fun r (x, i) => r.addRange c .code x (.codeRange i)) r
  return (r.hints, r.rejected)

end Hints

end RomAtlas
