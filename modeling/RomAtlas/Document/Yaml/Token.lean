import RomAtlas.Document.Yaml.Plain
import RomAtlas.Document.Yaml.Quoted

/-!
# Tokens

A text as a list of tokens, in which the blocks that indentation makes are opened and closed
explicitly. A scalar or bracket may turn out to be a key only when the colon behind it is met, so a
place for its mark is remembered (`PendingKey`); such a key stands on one line and is not longer
than 1024 characters.

* `Token.ofChars`: the tokens of a text. What cannot be read ends them as `Token.broken`.
-/

namespace RomAtlas.Yaml

/-- A token. -/
inductive Token where
  | documentStart
  | documentEnd
  | blockList
  | blockMapping
  | blockEnd
  | listOpen
  | listClose
  | mappingOpen
  | mappingClose
  /-- The dash of an item. -/
  | item
  | comma
  | key
  | value
  | plain (cs : List Char)
  | quoted (t : Text)
  | textEnd
  /-- The text cannot be read on from here. -/
  | broken (fault : DocumentFault)

/-- A token that is a key if a colon follows it. -/
structure PendingKey where
  token : Nat
  /-- Whether it can be nothing else. -/
  required : Bool
  index : Nat
  line : Nat
  column : Nat

/-- The tokens read so far. -/
structure Scan where
  cursor : Cursor
  tokens : Array Token
  /-- The column of the current block, `-1` outside all blocks. -/
  indent : Int
  outer : List Int
  /-- What may be a key here and, for each pair of brackets around this place, outside of it. -/
  pending : Option PendingKey
  pendingOuter : List (Option PendingKey)
  allowKey : Bool

namespace Scan

/-- Nothing read yet. -/
def start (cs : List Char) : Scan := ⟨.start cs, #[], -1, [], none, [], true⟩

/-- Whether this place is inside brackets. -/
def inFlow (s : Scan) : Bool := !s.pendingOuter.isEmpty

/-- Adds a token. -/
def push (s : Scan) (t : Token) : Scan := { s with tokens := s.tokens.push t }

/-- Moves on to a rest. -/
def goTo (s : Scan) (rest : List Char) : Scan := { s with cursor := s.cursor.goTo rest }

/-- Adds a token of a number of characters. -/
def take (s : Scan) (t : Token) (length : Nat) : Scan :=
  { s.push t with cursor := s.cursor.skip length }

/-- Skips to the next token. A byte order mark may start the text. Behind a line end outside
brackets a key may stand. -/
def toNextToken (s : Scan) : Scan :=
  let start := if s.cursor.index = 0 ∧ s.cursor.rest.head? = some byteOrderMark then s.cursor.next
    else s.cursor
  let (count, crossed) := gapLength false start.rest
  { s with cursor := start.skip count, allowKey := s.allowKey || (crossed && !s.inFlow) }

/-- Drops what cannot be a key because it is too far away. -/
def dropStale (s : Scan) : Except DocumentFault Scan := do
  let check : Option PendingKey → Except DocumentFault (Option PendingKey)
    | none => .ok none
    | some k =>
      if k.line ≠ s.cursor.line ∨ 1024 < s.cursor.index - k.index then
        if k.required then .error .malformed else .ok none
      else .ok (some k)
  let pending ← check s.pending
  let pendingOuter ← s.pendingOuter.mapM check
  return { s with pending, pendingOuter }

/-- Drops what may be a key here. -/
def dropKey (s : Scan) : Except DocumentFault Scan :=
  if s.pending.any (·.required) then .error .malformed else .ok { s with pending := none }

/-- Notes that the next token may be a key. It must be one if it stands where the keys of the block
stand. -/
def noteKey (s : Scan) : Except DocumentFault Scan :=
  if s.allowKey then do
    let s ← s.dropKey
    let c := s.cursor
    let required := !s.inFlow && s.indent == c.column
    return { s with pending := some ⟨s.tokens.size, required, c.index, c.line, c.column⟩ }
  else .ok s

/-- Closes the blocks that are indented deeper than a column. -/
def closeBlocks (column : Int) (indent : Int) (outer : List Int) (tokens : Array Token) :
    Int × List Int × Array Token :=
  if column < indent then
    match outer with
    | [] => (indent, [], tokens)
    | i :: rest => closeBlocks column i rest (tokens.push .blockEnd)
  else (indent, outer, tokens)

/-- Closes the blocks that are indented deeper than a column, unless inside brackets. -/
def unwind (s : Scan) (column : Int) : Scan :=
  if s.inFlow then s
  else
    let (indent, outer, tokens) := closeBlocks column s.indent s.outer s.tokens
    { s with indent, outer, tokens }

/-- Opens a block at a column deeper than the current one, whose token stands at a given place. -/
def openBlock (s : Scan) (t : Token) (column place : Nat) : Scan :=
  if s.indent < column then
    { s with
      indent := column
      outer := s.indent :: s.outer
      tokens := s.tokens.insertIdxIfInBounds place t }
  else s

/-- Opens a block, if outside brackets. A block starts only where a key may stand. -/
def startBlock (s : Scan) (t : Token) : Except DocumentFault Scan :=
  if s.inFlow then .ok s
  else if s.allowKey then .ok (s.openBlock t s.cursor.column s.tokens.size)
  else .error .malformed

/-- Ends all blocks, for the end of a document or of the text. -/
def endBlocks (s : Scan) : Except DocumentFault Scan := do
  let s ← (s.unwind (-1)).dropKey
  return { s with allowKey := false }

/-- An opening bracket. -/
def openBracket (s : Scan) (t : Token) : Except DocumentFault Scan := do
  let s ← s.noteKey
  return { s.take t 1 with
    pending := none, pendingOuter := s.pending :: s.pendingOuter, allowKey := true }

/-- A closing bracket. -/
def closeBracket (s : Scan) (t : Token) : Except DocumentFault Scan := do
  let s ← s.dropKey
  match s.pendingOuter with
  | [] => .error .malformed
  | key :: rest =>
    return { s.take t 1 with pending := key, pendingOuter := rest, allowKey := false }

/-- A comma. -/
def comma (s : Scan) : Except DocumentFault Scan := do
  let s ← s.dropKey
  return { s.take .comma 1 with allowKey := true }

/-- The dash of an item. -/
def item (s : Scan) : Except DocumentFault Scan := do
  let s ← (← s.startBlock .blockList).dropKey
  return { s.take .item 1 with allowKey := true }

/-- The mark of a key. -/
def key (s : Scan) : Except DocumentFault Scan := do
  let s ← (← s.startBlock .blockMapping).dropKey
  return { s.take .key 1 with allowKey := !s.inFlow }

/-- A colon. What may be a key becomes one. -/
def value (s : Scan) : Except DocumentFault Scan := do
  match s.pending with
  | some k =>
    let s := { s with
      pending := none, allowKey := false, tokens := s.tokens.insertIdxIfInBounds k.token .key }
    let s := if s.inFlow then s else s.openBlock .blockMapping k.column k.token
    return s.take .value 1
  | none =>
    let s ← s.startBlock .blockMapping
    return { s.take .value 1 with allowKey := !s.inFlow }

/-- A quoted scalar. -/
def quoted (s : Scan) (double : Bool) : Except DocumentFault Scan := do
  let s ← s.noteKey
  let (text, rest) ← quotedScalar double (s.cursor.rest.drop 1)
  return { (s.push (.quoted text)).goTo rest with allowKey := false }

/-- A plain scalar. -/
def plain (s : Scan) : Except DocumentFault Scan := do
  let s ← s.noteKey
  let p := plainScalar s.inFlow s.indent s.cursor.rest
  return { (s.push (.plain p.chars)).goTo p.rest with allowKey := p.crossed }

/-- Reads the next token, which starts at the cursor. -/
def token (s : Scan) : Except DocumentFault Scan :=
  let cs := s.cursor.rest
  let lineStart := s.cursor.column = 0
  let ends := isGap (cs.drop 1)
  match cs with
  | [] => do return (← s.endBlocks).push .textEnd
  | c :: _ =>
    if lineStart ∧ isMark '-' cs then do return (← s.endBlocks).take .documentStart 3
    else if lineStart ∧ isMark '.' cs then do return (← s.endBlocks).take .documentEnd 3
    else if c = '[' then s.openBracket .listOpen
    else if c = '\x7b' then s.openBracket .mappingOpen
    else if c = ']' then s.closeBracket .listClose
    else if c = '\x7d' then s.closeBracket .mappingClose
    else if c = ',' then s.comma
    else if c = '-' ∧ ends then s.item
    else if c = '?' ∧ (s.inFlow ∨ ends) then s.key
    else if c = ':' ∧ (s.inFlow ∨ ends) then s.value
    else if c = '\x27' then s.quoted false
    else if c = '\x22' then s.quoted true
    else if startsPlain s.inFlow cs then s.plain
    else .error .malformed

/-- Skips to the next token and reads it. -/
def step (s : Scan) : Except DocumentFault Scan := do
  let s ← s.toNextToken.dropStale
  let s ← (s.unwind s.cursor.column).token
  s.dropStale

/-- The tokens in front of all that may still become a key. -/
def settled (s : Scan) : Array Token :=
  let limit := (s.pending :: s.pendingOuter).reverse.findSome? (·.map (·.token))
  s.tokens.extract 0 (limit.getD s.tokens.size)

/-- Whether the end of the text was read. -/
def isFinished (s : Scan) : Bool :=
  match s.tokens.back? with
  | some .textEnd => true
  | _ => false

/-- Reads the tokens up to the end of the text. -/
def run (s : Scan) : Array Token :=
  match s.step with
  | .error fault => s.settled.push (.broken fault)
  | .ok next =>
    if next.isFinished then next.tokens
    else if next.cursor.rest.length < s.cursor.rest.length then next.run
    else next.tokens.push (.broken .malformed)
termination_by s.cursor.rest.length

end Scan

/-- The tokens of a text. -/
def Token.ofChars (cs : List Char) : List Token := (Scan.start cs).run.toList

end RomAtlas.Yaml
