import RomAtlas.Hint.Checked
import RomAtlas.Region.Partition
import RomAtlas.Trace.Node

/-!
# Labels

A label is the name of a canonical address: the target of a cross reference, an entry point, the
start of a data range, or the start of a named code range. A label without a declared name is named
for its kind and address, so that no two labels have the same name.
-/

namespace RomAtlas

/-- What a label stands at. -/
inductive LabelKind where
  | subroutine
  | branchTarget
  | dataBlock
deriving DecidableEq, Repr

namespace LabelKind

/-- The word that stands for a kind. -/
def name : LabelKind → String
  | subroutine => "SUBROUTINE"
  | branchTarget => "BRANCH_TARGET"
  | dataBlock => "DATA_BLOCK"

/-- All kinds. -/
def all : List LabelKind := [subroutine, branchTarget, dataBlock]

/-- The kind that a word stands for. -/
def ofName? (word : String) : Option LabelKind := all.find? fun k => k.name = word

/-- The word in generated names. -/
def stem : LabelKind → String
  | subroutine => "SUB"
  | branchTarget => "CODE"
  | dataBlock => "DATA"

/-- The generated name of an address. -/
def nameAt (k : LabelKind) (address : Int) : String := k.stem ++ "_" ++ Hex.padded 6 address

/-- The kind that a cross reference gives to its target. -/
def ofXref (x : Xref) : LabelKind :=
  match x.kind with
  | .call | .interruptVector | .jumpTable => subroutine
  | .branch | .jump | .indirectUnresolved => branchTarget

end LabelKind

/-- The name of an address, and the cross references that lead there. -/
structure Label where
  name : String
  address : Int
  kind : LabelKind
  provenance : List Xref
deriving DecidableEq, Repr

/-- A label before all evidence is in. -/
structure LabelDraft where
  kind : LabelKind
  name : Option String
  provenance : List Xref

/-- Labels by address. -/
abbrev Labels := Std.TreeMap Int Label

namespace LabelDraft

/-- Sets the kind, and the name if one is declared. -/
def declare (draft : Option LabelDraft) (kind : LabelKind) (name : Option String) : LabelDraft :=
  match draft with
  | none => ⟨kind, name, []⟩
  | some d => ⟨kind, name.or d.name, d.provenance⟩

/-- Adds a cross reference. A subroutine stays one. -/
def refer (draft : Option LabelDraft) (x : Xref) : LabelDraft :=
  match draft with
  | none => ⟨.ofXref x, none, [x]⟩
  | some d => ⟨if d.kind = .subroutine then d.kind else .ofXref x, d.name, x :: d.provenance⟩

end LabelDraft

/-- Label drafts by address. -/
abbrev LabelDrafts := Std.TreeMap Int LabelDraft

namespace LabelDrafts

/-- Notes the target of a cross reference. -/
def addXref (m : AddressMap) (t : LabelDrafts) (x : Xref) : LabelDrafts :=
  match x.target.filter m.shows with
  | none => t
  | some target => t.alter (m.canonical target) fun d => some (LabelDraft.refer d x)

/-- Notes an entry point. -/
def addEntry (m : AddressMap) (t : LabelDrafts) (e : CodeStart) : LabelDrafts :=
  t.alter (m.canonical e.address) fun d => some (LabelDraft.declare d .subroutine e.name.symbol?)

/-- Notes a data range. -/
def addData (t : LabelDrafts) (s : DeclaredRange) : LabelDrafts :=
  t.alter s.address fun d => some (LabelDraft.declare d .dataBlock s.label.symbol?)

/-- Notes a code range that has a name. It does not change the kind of a label. -/
def addCode (t : LabelDrafts) (s : DeclaredRange) : LabelDrafts :=
  match s.label.symbol? with
  | none => t
  | some name => t.alter s.address fun d =>
      some (LabelDraft.declare d ((d.map (·.kind)).getD .branchTarget) (some name))

end LabelDrafts

/-- Finishes a label: in a data region it stands at a data block. -/
def LabelDraft.finish (regions : Option Partition) (address : Int) (d : LabelDraft) : Label :=
  let inData := (regions.bind (·.classOf? address)) = some .data
  let kind := if inData then .dataBlock else d.kind
  ⟨d.name.getD (kind.nameAt address), address, kind, sortUnique d.provenance⟩

/-- The labels of an image. -/
def labelsFor (m : AddressMap) (xrefs : List Xref) (hints : CheckedHints)
    (regions : Option Partition) : Labels :=
  let t := xrefs.foldl (LabelDrafts.addXref m) ∅
  let t := hints.entryPoints.foldl (LabelDrafts.addEntry m) t
  let t := hints.dataRanges.foldl LabelDrafts.addData t
  let t := hints.codeRanges.foldl LabelDrafts.addCode t
  t.map (LabelDraft.finish regions)

/-- The addresses of labels by name. -/
def symbols (labels : Labels) : Std.TreeMap String Int :=
  labels.foldl (fun t address label => t.insert label.name address) ∅

end RomAtlas
