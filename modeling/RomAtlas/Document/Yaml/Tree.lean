import RomAtlas.Document.Scalar
import RomAtlas.Document.Yaml.Node

/-!
# Trees of values

A node in which each scalar has its value, or the fault that it has none, and each mapping holds the
entries that are merged into it, in front of its own. The first fault counts, where a list or
mapping is read after all that is less deep.

* `Tree.ofNode`: the tree of a node.
* `Tree.read`: its value, or its first fault.
-/

namespace RomAtlas.Yaml

/-- A scalar, list or mapping with the values of its scalars. -/
inductive Tree where
  | scalar (v : Except DocumentFault Value)
  | list (items : List Tree)
  /-- A mapping, and whether all that is merged into it is a mapping. -/
  | mapping (sound : Bool) (entries : List (Except DocumentFault Value × Tree))

namespace Tree

/-- The entries of a mapping, and whether all that is merged into it is a mapping. -/
structure Entries where
  sound : Bool
  entries : List (Except DocumentFault Value × Tree)

/-- No entries. -/
def Entries.empty : Entries := ⟨true, []⟩

/-- Entries followed by others. -/
def Entries.append (a b : Entries) : Entries := ⟨a.sound && b.sound, a.entries ++ b.entries⟩

/-- What a tree adds to the mapping into which it is merged, if it is a mapping. -/
def mappingEntries : Tree → Entries
  | mapping sound entries => ⟨sound, entries⟩
  | _ => ⟨false, []⟩

/-- What a tree adds to the mapping into which it is merged: its entries, or those of its items, the
last first. -/
def mergedEntries : Tree → Entries
  | list items => (items.reverse.map mappingEntries).foldl .append .empty
  | t => t.mappingEntries

/-- The key of a node, or nothing if its value is merged. Lists and mappings are no keys. -/
def key? : Node → Option (Except DocumentFault Value)
  | .plain cs =>
    match Meaning.ofPlain cs with
    | .value v => some v
    | .equals => some (.ok (.text (.ofChars cs)))
    | .merge => none
  | .quoted t => some (.ok (.text t))
  | _ => some (.error .malformed)

/-- The value of a plain scalar. -/
def plainValue (cs : List Char) : Except DocumentFault Value :=
  match Meaning.ofPlain cs with
  | .value v => v
  | _ => .error .malformed

mutual

/-- The tree of a node. -/
def ofNode : Node → Tree
  | .plain cs => scalar (plainValue cs)
  | .quoted t => scalar (.ok (.text t))
  | .list items => list (ofNodes items)
  | .mapping entries =>
    let merged := mergedOf entries
    mapping merged.sound (merged.entries ++ ownOf entries)

/-- The trees of some nodes. -/
def ofNodes : List Node → List Tree
  | [] => []
  | n :: ns => ofNode n :: ofNodes ns

/-- The entries that are merged into a mapping. -/
def mergedOf : List (Node × Node) → Entries
  | [] => .empty
  | (k, v) :: rest =>
    match key? k with
    | none => (ofNode v).mergedEntries.append (mergedOf rest)
    | some _ => mergedOf rest

/-- The entries of a mapping itself. -/
def ownOf : List (Node × Node) → List (Except DocumentFault Value × Tree)
  | [] => []
  | (k, v) :: rest =>
    match key? k with
    | none => ownOf rest
    | some key => (key, ofNode v) :: ownOf rest

end

mutual

/-- The value of a tree without faults. -/
def value : Tree → Value
  | scalar (.ok v) => v
  | scalar (.error _) => .null
  | list items => .list (values items)
  | mapping _ entries => .ofEntries (entryValues entries)

/-- The values of some trees. -/
def values : List Tree → List Value
  | [] => []
  | t :: ts => value t :: values ts

/-- The values of some entries. -/
def entryValues : List (Except DocumentFault Value × Tree) → List (Value × Value)
  | [] => []
  | (.ok k, t) :: rest => (k, value t) :: entryValues rest
  | (.error _, _) :: rest => entryValues rest

end

/-- The fault of a key or scalar. -/
def faultsOf : Except DocumentFault Value → List DocumentFault
  | .ok _ => []
  | .error fault => [fault]

/-- The fault of a tree that is a scalar. -/
def scalarFaults : Tree → List DocumentFault
  | scalar v => faultsOf v
  | _ => []

/-- Faults by depth, followed by others at each depth. -/
def joinLevels : List (List DocumentFault) → List (List DocumentFault) → List (List DocumentFault)
  | [], levels => levels
  | levels, [] => levels
  | a :: as, b :: bs => (a ++ b) :: joinLevels as bs

mutual

/-- The faults inside a list or mapping by depth, those of its own scalars first. -/
def faults : Tree → List (List DocumentFault)
  | scalar _ => []
  | list items => items.flatMap scalarFaults :: itemFaults items
  | mapping sound entries =>
    ((if sound then [] else [.malformed]) ++
      entries.flatMap fun entry => faultsOf entry.1 ++ scalarFaults entry.2) :: entryFaults entries

/-- The faults inside the items of a list by depth. -/
def itemFaults : List Tree → List (List DocumentFault)
  | [] => []
  | t :: ts => joinLevels (faults t) (itemFaults ts)

/-- The faults inside the values of a mapping by depth. -/
def entryFaults : List (Except DocumentFault Value × Tree) → List (List DocumentFault)
  | [] => []
  | (_, t) :: rest => joinLevels (faults t) (entryFaults rest)

end

/-- The value of a tree, or its first fault. -/
def read (t : Tree) : Except DocumentFault Value :=
  match t.scalarFaults ++ t.faults.flatten with
  | fault :: _ => .error fault
  | [] => .ok t.value

end Tree

end RomAtlas.Yaml
