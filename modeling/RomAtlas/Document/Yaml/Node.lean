import RomAtlas.Document.Yaml.Token

/-!
# Nodes

The tree that a list of tokens spells: scalars, lists and mappings, in blocks or in brackets. An
item or value that is left out is an empty scalar. A text holds at most one document.

* `Node.ofTokens?`: the node of the document, or nothing for an empty text.
-/

namespace RomAtlas.Yaml

/-- A scalar, list or mapping of a document. -/
inductive Node where
  | plain (cs : List Char)
  | quoted (t : Text)
  | list (items : List Node)
  | mapping (entries : List (Node × Node))

namespace Node

/-- What stands for an item or value that is left out. -/
def absent : Node := .plain []

/-- The fault of tokens that do not fit. -/
def unfit {α : Type} : List Token → Except DocumentFault α
  | .broken fault :: _ => .error fault
  | _ => .error .malformed

/-- Whether a block goes on or ends, so that nothing stands here. -/
def isBlockMark : List Token → Bool
  | .key :: _ | .value :: _ | .blockEnd :: _ => true
  | _ => false

/-- Whether a list in a block goes on or ends, so that nothing stands here. -/
def isItemMark : List Token → Bool
  | .item :: _ | .blockEnd :: _ => true
  | _ => false

/-- Whether brackets go on or end, so that nothing stands here. -/
def isFlowEnd : List Token → Bool
  | .comma :: _ | .listClose :: _ | .mappingClose :: _ => true
  | _ => false

mutual

/-- The node at the start of the tokens. Blocks stand only in blocks, and as the value of a key a
list may stand without a block of its own. Each call takes one unit of fuel. -/
def parse (block loose : Bool) : Nat → List Token → Except DocumentFault (Node × List Token)
  | 0, _ => .error .malformed
  | fuel + 1, tokens =>
    match tokens with
    | .plain cs :: rest => .ok (.plain cs, rest)
    | .quoted t :: rest => .ok (.quoted t, rest)
    | .listOpen :: rest => flowItems fuel true [] rest
    | .mappingOpen :: rest => flowEntries fuel true [] rest
    | .blockList :: rest => if block then blockItems fuel [] rest else .error .malformed
    | .blockMapping :: rest => if block then blockEntries fuel [] rest else .error .malformed
    | .item :: _ => if loose then looseItems fuel [] tokens else .error .malformed
    | _ => unfit tokens

/-- The items of a list in a block of its own, after those that were read. -/
def blockItems : Nat → List Node → List Token → Except DocumentFault (Node × List Token)
  | fuel + 1, read, .item :: rest =>
    if isItemMark rest then blockItems fuel (absent :: read) rest
    else do
      let (item, rest) ← parse true false fuel rest
      blockItems fuel (item :: read) rest
  | _, read, .blockEnd :: rest => .ok (.list read.reverse, rest)
  | _, _, tokens => unfit tokens

/-- The items of a list without a block of its own. -/
def looseItems : Nat → List Node → List Token → Except DocumentFault (Node × List Token)
  | fuel + 1, read, .item :: rest =>
    if isItemMark rest || isBlockMark rest then looseItems fuel (absent :: read) rest
    else do
      let (item, rest) ← parse true false fuel rest
      looseItems fuel (item :: read) rest
  | _, read, tokens => .ok (.list read.reverse, tokens)

/-- A key or value in a block, or nothing. -/
def blockPart : Nat → List Token → Except DocumentFault (Node × List Token)
  | 0, _ => .error .malformed
  | fuel + 1, tokens =>
    if isBlockMark tokens then .ok (absent, tokens) else parse true true fuel tokens

/-- The entries of a mapping in a block. -/
def blockEntries :
    Nat → List (Node × Node) → List Token → Except DocumentFault (Node × List Token)
  | fuel + 1, read, .key :: rest => do
    let (key, rest) ← blockPart fuel rest
    let (value, rest) ← match rest with
      | .value :: rest => blockPart fuel rest
      | rest => .ok (absent, rest)
    blockEntries fuel ((key, value) :: read) rest
  | _, read, .blockEnd :: rest => .ok (.mapping read.reverse, rest)
  | _, _, tokens => unfit tokens

/-- The key and value of an entry in brackets, after the mark of the key. -/
def flowEntry : Nat → List Token → Except DocumentFault ((Node × Node) × List Token)
  | 0, _ => .error .malformed
  | fuel + 1, tokens => do
    let (key, rest) ← match tokens with
      | .value :: _ => .ok (absent, tokens)
      | _ => flowPart fuel tokens
    let (value, rest) ← match rest with
      | .value :: rest => flowPart fuel rest
      | rest => .ok (absent, rest)
    return ((key, value), rest)

/-- A key or value in brackets, or nothing. -/
def flowPart : Nat → List Token → Except DocumentFault (Node × List Token)
  | 0, _ => .error .malformed
  | fuel + 1, tokens =>
    if isFlowEnd tokens then .ok (absent, tokens) else parse false false fuel tokens

/-- The items of a list in brackets. An entry among them is a mapping of one entry. -/
def flowItems (fuel : Nat) (first : Bool) (read : List Node) (tokens : List Token) :
    Except DocumentFault (Node × List Token) :=
  match fuel, first, tokens with
  | _, _, .listClose :: rest => .ok (.list read.reverse, rest)
  | fuel + 1, false, .comma :: rest => flowItems fuel true read rest
  | fuel + 1, true, .key :: rest => do
    let (entry, rest) ← flowEntry fuel rest
    flowItems fuel false (.mapping [entry] :: read) rest
  | fuel + 1, true, tokens => do
    let (item, rest) ← parse false false fuel tokens
    flowItems fuel false (item :: read) rest
  | _, _, tokens => unfit tokens

/-- The entries of a mapping in brackets. A key by itself has no value. -/
def flowEntries (fuel : Nat) (first : Bool) (read : List (Node × Node)) (tokens : List Token) :
    Except DocumentFault (Node × List Token) :=
  match fuel, first, tokens with
  | _, _, .mappingClose :: rest => .ok (.mapping read.reverse, rest)
  | fuel + 1, false, .comma :: rest => flowEntries fuel true read rest
  | fuel + 1, true, .key :: rest => do
    let (entry, rest) ← flowEntry fuel rest
    flowEntries fuel false (entry :: read) rest
  | fuel + 1, true, tokens => do
    let (key, rest) ← parse false false fuel tokens
    flowEntries fuel false ((key, absent) :: read) rest
  | _, _, tokens => unfit tokens

end

/-- The node of a document after its start, or nothing. -/
def content (explicit : Bool) (fuel : Nat) (tokens : List Token) :
    Except DocumentFault (Node × List Token) :=
  match explicit, tokens with
  | true, .documentStart :: _ | true, .documentEnd :: _ | true, .textEnd :: _ =>
    .ok (absent, tokens)
  | _, _ => parse true false fuel tokens

/-- Checks that a document ends the text. Its end may be marked more than once. -/
def ending : List Token → Except DocumentFault Unit
  | .documentEnd :: rest => ending rest
  | .textEnd :: _ => .ok ()
  | tokens => unfit tokens

/-- The node of the document that some tokens spell. -/
def ofTokens? (tokens : List Token) : Except DocumentFault (Option Node) :=
  let fuel := 4 * tokens.length + 4
  match tokens with
  | .textEnd :: _ => .ok none
  | .documentStart :: rest => do
    let (node, rest) ← content true fuel rest
    ending rest
    return some node
  | _ => do
    let (node, rest) ← content false fuel tokens
    ending rest
    return some node

end Node

end RomAtlas.Yaml
