/-!
# Upper-casing onto the Latin alphabet

The words that select a bank layout or a memory speed are read without regard to case, where case is
that of the full upper-case mapping: a character may become several letters. Only the characters
whose upper-case form lies in `A` to `Z` can take part in a match, so only those are mapped and all
other characters stay as they are.
-/

namespace RomAtlas.Text

/-- The upper-case form of a character, where that form is a string of letters `A` to `Z`. -/
def upperForm (c : Char) : List Char :=
  if 'a' ≤ c ∧ c ≤ 'z' then [Char.ofNat (c.toNat - 32)]
  else match c.toNat with
    | 0xDF => ['S', 'S']
    | 0x131 => ['I']
    | 0x17F => ['S']
    | 0xFB00 => ['F', 'F']
    | 0xFB01 => ['F', 'I']
    | 0xFB02 => ['F', 'L']
    | 0xFB03 => ['F', 'F', 'I']
    | 0xFB04 => ['F', 'F', 'L']
    | 0xFB05 => ['S', 'T']
    | 0xFB06 => ['S', 'T']
    | _ => [c]

/-- Whether a text becomes the given word of capital letters when it is upper-cased. -/
def uppercasesTo (text word : String) : Bool := text.toList.flatMap upperForm = word.toList

end RomAtlas.Text
