/-!
# Texts

A text of a project file is a list of code points. An escape can name any code point, also a
surrogate, which is no character. A text with a surrogate can be compared and quoted, but it is no
string.

* `Text.string?_ofString`: the text of a string has that string.
-/

namespace RomAtlas

/-- A code point: a character or a surrogate. -/
structure CodePoint where
  val : Nat
  val_lt : val < 0x110000
deriving DecidableEq, Repr

namespace CodePoint

/-- The code point of a character. -/
def ofChar (c : Char) : CodePoint where
  val := c.toNat
  val_lt := by
    have h := c.valid
    simp only [UInt32.isValidChar, Nat.isValidChar] at h
    simp only [Char.toNat]
    omega

/-- The code point of a number. -/
def ofNat? (n : Nat) : Option CodePoint := if h : n < 0x110000 then some ⟨n, h⟩ else none

/-- The character of a code point, unless it is a surrogate. -/
def char? (p : CodePoint) : Option Char :=
  if p.val.isValidChar then some (Char.ofNat p.val) else none

theorem char?_ofChar (c : Char) : (ofChar c).char? = some c := by
  have h : c.toNat.isValidChar := c.valid
  simp only [char?, ofChar, if_pos h, Char.ofNat_toNat]

end CodePoint

/-- A list of code points. -/
structure Text where
  points : List CodePoint
deriving DecidableEq, Repr

namespace Text

/-- The text of some characters. -/
def ofChars (cs : List Char) : Text := ⟨cs.map CodePoint.ofChar⟩

/-- The text of a string. -/
def ofString (s : String) : Text := ofChars s.toList

instance : Coe String Text := ⟨ofString⟩

/-- The string of a text without surrogates. -/
def string? (t : Text) : Option String := (t.points.mapM CodePoint.char?).map String.ofList

theorem mapM_char?_map_ofChar (cs : List Char) :
    (cs.map CodePoint.ofChar).mapM CodePoint.char? = some cs := by
  induction cs with
  | nil => rfl
  | cons c cs ih => simp [List.mapM_cons, CodePoint.char?_ofChar, ih]

/-- The text of a string has that string. -/
theorem string?_ofString (s : String) : (ofString s).string? = some s := by
  unfold string? ofString ofChars
  rw [mapM_char?_map_ofChar, Option.map_some, String.ofList_toList]

/-- A text as a string in which each surrogate is replaced. -/
def shown (t : Text) : String :=
  String.ofList (t.points.map fun p => p.char?.getD (Char.ofNat 0xFFFD))

end Text

end RomAtlas
