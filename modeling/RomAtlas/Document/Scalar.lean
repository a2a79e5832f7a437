import RomAtlas.Decimal.Reading
import RomAtlas.Document.Fault
import RomAtlas.Document.Value

/-!
# Plain scalars

A scalar without quotes is nothing, a truth value, a number, a day or a time if it is spelled like
one, and a text otherwise. `Meaning.ofPlain` reads the spellings of the YAML 1.1 types. A spelling
may have no value: the thirtieth of February is spelled like a day.
-/

namespace RomAtlas.Scalar

/-- The spellings of nothing. -/
def nullWords : List String := ["", "~", "null", "Null", "NULL"]

/-- The spellings of truth. -/
def trueWords : List String :=
  ["yes", "Yes", "YES", "true", "True", "TRUE", "on", "On", "ON"]

/-- The spellings of falsehood. -/
def falseWords : List String :=
  ["no", "No", "NO", "false", "False", "FALSE", "off", "Off", "OFF"]

/-- A sign and what follows it. -/
def splitSign : List Char → Bool × List Char
  | '-' :: cs => (true, cs)
  | '+' :: cs => (false, cs)
  | cs => (false, cs)

/-- Whether a text has characters, all of which are digits of a base or underscores. -/
def isSpelledIn (base : Nat) (cs : List Char) : Bool :=
  !cs.isEmpty && cs.all fun c => c = '_' || (Numeral.digit? base c).isSome

/-- Whether a text is a digit and further digits and underscores. -/
def startsWithDigit (cs : List Char) : Bool := isSpelledIn 10 cs && cs.head? ≠ some '_'

/-- Whether a text is a number of digits. -/
def isDigits (cs : List Char) : Bool := isSpelledIn 10 cs && !cs.contains '_'

/-- The values of the digits in a text. -/
def digitsIn (base : Nat) (cs : List Char) : List Nat := cs.filterMap (Numeral.digit? base)

/-- The number that the digits of a text spell. -/
def number (base : Nat) (cs : List Char) : Nat := Numeral.ofDigits base (digitsIn base cs)

/-- The number that the digits of a text spell, of which there must be one, and in base ten not too
many. -/
def numberIn (base : Nat) (cs : List Char) : Except DocumentFault Nat :=
  let digits := digitsIn base cs
  if digits.isEmpty then .error (.noDigits base)
  else if base = 10 ∧ Numeral.maxDecimalDigits < digits.length then
    .error (.tooManyDigits digits.length)
  else .ok (Numeral.ofDigits base digits)

/-- The parts of a text between colons. -/
def colonParts : List Char → List (List Char)
  | [] => [[]]
  | c :: cs =>
    match colonParts cs with
    | [] => [[c]]
    | part :: parts => if c = ':' then [] :: part :: parts else (c :: part) :: parts

/-- Whether a text is a later part of a number in base sixty: one or two digits below sixty. -/
def isSixtieth (cs : List Char) : Bool := isDigits cs && cs.length ≤ 2 && number 10 cs < 60

/-- An integer without its sign: base two, sixteen or eight by its first characters, and otherwise
base ten or, with colons, base sixty. -/
def magnitude? : List Char → Option (Except DocumentFault Nat)
  | ['0'] => some (.ok 0)
  | '0' :: 'b' :: cs => if isSpelledIn 2 cs then some (numberIn 2 cs) else none
  | '0' :: 'x' :: cs => if isSpelledIn 16 cs then some (numberIn 16 cs) else none
  | '0' :: cs => if isSpelledIn 8 cs then some (numberIn 8 ('0' :: cs)) else none
  | cs =>
    match colonParts cs with
    | [] => none
    | head :: parts =>
      if startsWithDigit head && parts.all isSixtieth then
        some ((numberIn 10 head).map (parts.foldl fun n part => n * 60 + number 10 part))
      else none

/-- An integer. -/
def integer? (cs : List Char) : Option (Except DocumentFault Int) :=
  let (negative, body) := splitSign cs
  (magnitude? body).map (·.map fun n => if negative then -(n : Int) else n)

/-- The exponent of a number with a point: none, or a letter, a sign and digits. -/
def exponent? : List Char → Option Int
  | [] => some 0
  | e :: sign :: cs =>
    if (e = 'e' ∨ e = 'E') ∧ (sign = '-' ∨ sign = '+') ∧ isDigits cs then
      some (if sign = '-' then -(number 10 cs : Int) else number 10 cs)
    else none
  | _ => none

/-- Whether a character may stand among the digits of a number with a point. -/
def isDigitOrMark (c : Char) : Bool := ('0' ≤ c && c ≤ '9') || c = '_'

/-- The number of a whole part, a fraction and an exponent. -/
def pointed (negative : Bool) (whole fraction : List Char) (power : Int) : Float :=
  Decimal.toFloat negative (number 10 (whole ++ fraction)) (power - (digitsIn 10 fraction).length)

/-- A number with a point in base ten. A number that starts with the point has no sign. -/
def decimal? (signed negative : Bool) (body : List Char) : Option Float :=
  let whole := body.takeWhile isDigitOrMark
  match body.dropWhile isDigitOrMark with
  | '.' :: rest =>
    let fraction := rest.takeWhile isDigitOrMark
    if startsWithDigit whole || (whole.isEmpty && !signed && startsWithDigit fraction) then
      (exponent? (rest.dropWhile isDigitOrMark)).map (pointed negative whole fraction)
    else none
  | _ => none

/-- The sum of numbers, each of which counts sixty times as much as the one before. -/
def sumSixties : Nat → Float → List Float → Except DocumentFault Float
  | _, total, [] => .ok total
  | power, total, x :: xs =>
    let scale := Decimal.toFloat false power 0
    if scale.isInf then .error .powerTooLarge else sumSixties (power * 60) (total + x * scale) xs

/-- A number with a point and colons, in base sixty. -/
def sexagesimal? (negative : Bool) (body : List Char) : Option (Except DocumentFault Float) :=
  let whole := body.takeWhile (· ≠ '.')
  let fraction := (body.dropWhile (· ≠ '.')).drop 1
  match (colonParts whole).reverse with
  | last :: middle :: rest =>
    let upper := middle :: rest
    if '.' ∈ body ∧ fraction.all isDigitOrMark ∧ isSixtieth last ∧
        upper.dropLast.all isSixtieth ∧ (upper.getLast?.any startsWithDigit) then
      let parts := pointed false last fraction 0 :: upper.map fun part => pointed false part [] 0
      some ((sumSixties 1 0 parts).map fun x => if negative then -x else x)
    else none
  | _ => none

/-- A number with a point, an infinite number, or what is not a number. -/
def float? (cs : List Char) : Option (Except DocumentFault Float) :=
  let (negative, body) := splitSign cs
  if [".inf", ".Inf", ".INF"].contains (String.ofList body) then
    some (.ok (if negative then -1.0 / 0.0 else 1.0 / 0.0))
  else if [".nan", ".NaN", ".NAN"].contains (String.ofList cs) then some (.ok (0.0 / 0.0))
  else
    match decimal? (body.length ≠ cs.length) negative body with
    | some x => some (.ok x)
    | none => sexagesimal? negative body

/-- A number of digits at the start of a text, and what follows them. -/
def leading? (least most : Nat) (cs : List Char) : Option (List Char × List Char) :=
  let digits := (cs.take most).takeWhile fun c => (Numeral.digit? 10 c).isSome
  if least ≤ digits.length then some (digits, cs.drop digits.length) else none

/-- What follows a character at the start of a text. -/
def after? (mark : Char) : List Char → Option (List Char)
  | [] => none
  | c :: cs => if c = mark then some cs else none

/-- What follows the mark between a day and a time: a letter, or blanks. -/
def afterDay? : List Char → Option (List Char)
  | c :: cs =>
    if c = 'T' ∨ c = 't' then some cs
    else if c = ' ' ∨ c = '\t' then some (cs.dropWhile fun c => c = ' ' || c = '\t')
    else none
  | [] => none

/-- Digits after a point as millionths. -/
def millionths (digits : List Char) : Nat :=
  let kept := digits.take 6
  number 10 (kept ++ List.replicate (6 - kept.length) '0')

/-- The distance from universal time, in minutes, at the end of a time: nothing, or after blanks a
letter for zero, or a sign with hours and perhaps minutes. -/
def offset? (cs : List Char) : Option (Option Int) :=
  match cs.dropWhile fun c => c = ' ' || c = '\t' with
  | [] => if cs.isEmpty then some none else none
  | ['Z'] => some (some 0)
  | sign :: rest => do
    if sign ≠ '+' ∧ sign ≠ '-' then none
    else
      let (hours, rest) ← leading? 1 2 rest
      let minutes ← match rest with
        | [] => some []
        | ':' :: rest => if rest.length = 2 ∧ isDigits rest then some rest else none
        | _ => none
      let distance : Int := (number 10 hours * 60 + number 10 minutes : Nat)
      some (some (if sign = '-' then -distance else distance))

/-- A day, or a day with a time. A day by itself has two digits for month and day. -/
def time? (cs : List Char) : Option (Except CalendarFault Value) := do
  let (year, cs) ← leading? 4 4 cs
  let (month, cs) ← leading? 1 2 (← after? '-' cs)
  let (day, cs) ← leading? 1 2 (← after? '-' cs)
  let (year, fullMonth, fullDay) := (number 10 year, number 10 month, number 10 day)
  if cs.isEmpty then
    if month.length = 2 ∧ day.length = 2 then
      some ((Date.ofNumbers year fullMonth fullDay).map .date)
    else none
  else
    let (hour, cs) ← leading? 1 2 (← afterDay? cs)
    let (minute, cs) ← leading? 2 2 (← after? ':' cs)
    let (second, cs) ← leading? 2 2 (← after? ':' cs)
    let isDigit (c : Char) : Bool := (Numeral.digit? 10 c).isSome
    let (fraction, cs) := match cs with
      | '.' :: cs => (cs.takeWhile isDigit, cs.dropWhile isDigit)
      | cs => ([], cs)
    let offset ← offset? cs
    some ((Moment.ofNumbers year fullMonth fullDay (number 10 hour) (number 10 minute)
      (number 10 second) (millionths fraction) offset).map .moment)

end RomAtlas.Scalar

namespace RomAtlas

/-- What a scalar without quotes stands for. -/
inductive Meaning where
  | value (v : Except DocumentFault Value)
  /-- As a key, the entries of another mapping. -/
  | merge
  /-- As a key, itself. -/
  | equals

/-- What a scalar without quotes stands for. -/
def Meaning.ofPlain (cs : List Char) : Meaning :=
  let word := String.ofList cs
  if Scalar.nullWords.contains word then .value (.ok .null)
  else if Scalar.trueWords.contains word then .value (.ok (.bool true))
  else if Scalar.falseWords.contains word then .value (.ok (.bool false))
  else if word = "<<" then .merge
  else if word = "=" then .equals
  else match Scalar.float? cs with
    | some x => .value (x.map .float)
    | none =>
      match Scalar.integer? cs with
      | some n => .value (n.map .int)
      | none =>
        match Scalar.time? cs with
        | some v => .value (v.mapError .noSuchTime)
        | none => .value (.ok (.text (.ofChars cs)))

end RomAtlas
