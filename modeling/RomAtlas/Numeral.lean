import RomAtlas.Text.Blank
import RomAtlas.Text.Digit

/-!
# Spellings of integers

An integer may be written as a text: in base ten, in base sixteen behind `0x`, or in base sixteen
behind a dollar sign. Blanks around it do not count, digits may be of any script, and single
underscores may divide the digits.

* `Numeral.read`: a numeral in a base, with sign and blanks.
* `Numeral.ofText?`: any of the three spellings.
-/

namespace RomAtlas.Numeral

/-- A character as it counts in a numeral: white space beyond the basic characters counts as a
space, a digit of any script as the basic digit, and any other character beyond them not at all. -/
def plain? (c : Char) : Option Char :=
  if c.toNat < 0x7F then some c
  else if Text.isWhiteSpace c then some ' '
  else (Text.decimalValue? c).map fun d => Char.ofNat (48 + d)

/-- The value of a digit in a base up to sixteen. -/
def digit? (base : Nat) (c : Char) : Option Nat :=
  let value :=
    if '0' ≤ c ∧ c ≤ '9' then some (c.toNat - 48)
    else if 'a' ≤ c ∧ c ≤ 'f' then some (c.toNat - 87)
    else if 'A' ≤ c ∧ c ≤ 'F' then some (c.toNat - 55)
    else none
  value.filter (· < base)

/-- The digits of a digit string in which single underscores may stand between digits; `inside` says
that a digit came just before. -/
def digits? (base : Nat) (inside : Bool) : List Char → Option (List Nat)
  | [] => if inside then some [] else none
  | c :: cs =>
    if inside ∧ c = '_' then digits? base false cs
    else match digit? base c with
      | some d => (digits? base true cs).map (d :: ·)
      | none => none

/-- The number that digits spell in a base. -/
def ofDigits (base : Nat) (ds : List Nat) : Nat := ds.foldl (fun n d => n * base + d) 0

/-- The most digits that a numeral in base ten may have. -/
def maxDecimalDigits : Nat := 4300

/-- The decimal text of an integer that does not have too many digits. -/
def text? (n : Int) : Option String :=
  if Nat.pow 10 maxDecimalDigits ≤ n.natAbs then none else some (toString n)

/-- A number without its sign. In base sixteen it may have `0x` in front, and then also one
underscore. -/
def magnitude? (base : Nat) (cs : List Char) : Option Nat :=
  let body :=
    match base, cs with
    | 16, '0' :: 'x' :: '_' :: rest => rest
    | 16, '0' :: 'X' :: '_' :: rest => rest
    | 16, '0' :: 'x' :: rest => rest
    | 16, '0' :: 'X' :: rest => rest
    | _, _ => cs
  match digits? base false body with
  | some ds => if base = 10 ∧ maxDecimalDigits < ds.length then none else some (ofDigits base ds)
  | none => none

/-- A numeral in a base: blanks around it, a sign, and the magnitude. -/
def read (base : Nat) (cs : List Char) : Option Int := do
  let plain ← cs.mapM plain?
  match Text.trim Text.isWhiteSpace plain with
  | '-' :: rest => (magnitude? base rest).map fun n => -(n : Int)
  | '+' :: rest => (magnitude? base rest).map Int.ofNat
  | rest => (magnitude? base rest).map Int.ofNat

/-- The integer that a text spells. -/
def ofText? (text : String) : Option Int :=
  match Text.trim Text.isBlank text.toList with
  | '$' :: rest => read 16 rest
  | '0' :: 'x' :: rest => read 16 ('0' :: 'x' :: rest)
  | '0' :: 'X' :: rest => read 16 ('0' :: 'X' :: rest)
  | cs => read 10 cs

end RomAtlas.Numeral
