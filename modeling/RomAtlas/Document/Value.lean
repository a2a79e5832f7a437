import RomAtlas.Calendar
import RomAtlas.Decimal.Whole
import RomAtlas.Numeral
import RomAtlas.Text.Quoted

/-!
# Document values

A project file is a tree of values: nothing, truth values, numbers, texts, days and times, lists and
mappings. Settings are read from such a tree; a symbol name may be any value until the hint that
carries it is checked.
-/

namespace RomAtlas

/-- A value of a project file. A mapping holds its entries in order of first appearance. -/
inductive Value where
  | null
  | bool (b : Bool)
  | int (n : Int)
  | float (x : Float)
  | text (t : Text)
  | date (d : Date)
  | moment (m : Moment)
  | list (items : List Value)
  | mapping (entries : List (Value × Value))

namespace Value

/-- The word for the kind of a value in messages. -/
def kindName : Value → String
  | null => "NoneType"
  | bool _ => "bool"
  | int _ => "int"
  | float _ => "float"
  | text _ => "str"
  | date _ => "date"
  | moment _ => "datetime"
  | list _ => "list"
  | mapping _ => "dict"

/-- Whether a value counts as given: nothing, falsehood, zero and all that is empty do not. -/
def isGiven : Value → Bool
  | null => false
  | bool b => b
  | int n => n != 0
  | float x => x != 0
  | text t => !t.points.isEmpty
  | date _ | moment _ => true
  | list items => !items.isEmpty
  | mapping entries => !entries.isEmpty

mutual

/-- A value as it is shown inside a list or mapping, unless it holds an integer that is too long. -/
def inner? : Value → Option String
  | null => some "None"
  | bool true => some "True"
  | bool false => some "False"
  | int n => Numeral.text? n
  | float x => some (Decimal.floatText x)
  | text t => some t.quoted
  | date d => some d.inner
  | moment m => some m.inner
  | list items => (inners? items).map fun parts => "[" ++ ", ".intercalate parts ++ "]"
  | mapping entries =>
    (innerEntries? entries).map fun parts => "\x7b" ++ ", ".intercalate parts ++ "\x7d"

/-- The items of a list as they are shown. -/
def inners? : List Value → Option (List String)
  | [] => some []
  | v :: vs => do return (← inner? v) :: (← inners? vs)

/-- The entries of a mapping as they are shown. -/
def innerEntries? : List (Value × Value) → Option (List String)
  | [] => some []
  | (k, v) :: rest => do return ((← inner? k) ++ ": " ++ (← inner? v)) :: (← innerEntries? rest)

end

/-- A value as it is shown by itself: a text, day or time without any mark of its kind. -/
def shown? : Value → Option String
  | text t => some t.shown
  | date d => some d.text
  | moment m => some m.text
  | v => inner? v

/-- The text of a value that is one. -/
def text? : Value → Option Text
  | text t => some t
  | _ => none

/-- The entry of a mapping under a text key. -/
def find? (key : String) (entries : List (Value × Value)) : Option Value :=
  (entries.find? fun entry => entry.1.text? = some (Text.ofString key)).map Prod.snd

/-- The number of a value that counts as one when keys are compared. -/
def keyNumber? : Value → Option (Int ⊕ Float)
  | bool b => some (.inl (if b then 1 else 0))
  | int n => some (.inl n)
  | float x => some (.inr x)
  | _ => none

/-- Whether two keys are the same key: equal texts, days or times, both nothing, both not a number,
or exactly equal numbers, truth values counting as one and zero. Lists and mappings are no keys. -/
def sameKey : Value → Value → Bool
  | null, null => true
  | text s, text t => s = t
  | date d, date e => d = e
  | moment m, moment n => m.same n
  | v, w =>
    match v.keyNumber?, w.keyNumber? with
    | some (.inl m), some (.inl n) => m = n
    | some (.inr x), some (.inr y) => x == y || (x.isNaN && y.isNaN)
    | some (.inl m), some (.inr y) => Decimal.whole? y = some m
    | some (.inr x), some (.inl n) => Decimal.whole? x = some n
    | _, _ => false

/-- Sets an entry: in the place of an entry with the same key, or at the end. -/
def setEntry (key v : Value) : List (Value × Value) → List (Value × Value)
  | [] => [(key, v)]
  | entry :: rest =>
    if key.sameKey entry.1 then (entry.1, v) :: rest else entry :: setEntry key v rest

/-- A mapping of entries in which a later entry overrides an earlier one of the same key. -/
def ofEntries (entries : List (Value × Value)) : Value :=
  mapping (entries.foldl (fun done entry => setEntry entry.1 entry.2 done) [])

end Value

end RomAtlas
