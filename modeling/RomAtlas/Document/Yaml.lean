import RomAtlas.Document.Yaml.Tree

/-!
# Reading YAML

Project files are written in a part of YAML 1.1: block and flow lists and mappings, plain and quoted
scalars, and comments. A text is read as tokens, these as a node, and the node as a value.

Anchors, aliases, tags, directives and block scalars are refused.

This is the outermost layer: it stands in for a reader of all of YAML and covers only the part that
project files need. No result rests on it. What is proved about settings is proved of the value that
was read (`Config.ofValue`), wherever it came from.
-/

namespace RomAtlas.Yaml

/-- The value of a text; an empty text has the value nothing. -/
def read (text : String) : Except DocumentFault Value :=
  let cs := text.toList
  if cs.all isAllowed then do
    match ← Node.ofTokens? (Token.ofChars cs) with
    | none => .ok .null
    | some node => (Tree.ofNode node).read
  else .error .malformed

end RomAtlas.Yaml
