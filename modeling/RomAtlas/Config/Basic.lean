import RomAtlas.Fault
import RomAtlas.AddressMap
import RomAtlas.Document.Fault
import RomAtlas.Hint.Basic

/-!
# Project settings

What a project file says: how the image is mapped, how far a trace may go, and the hints.
`ConfigFault` lists what can be wrong with a project file.
-/

namespace RomAtlas

/-- The settings of a trace. Without a budget a trace runs to its end. -/
structure TraceSettings where
  initial : Widths
  useVectors : Bool
  workers : Int
  stepBudget : Option Int
  timeBudget : Option Float

/-- The settings of a trace for which a project file says nothing. -/
def TraceSettings.standard : TraceSettings := ⟨Widths.narrow, true, 4, some 1000000, none⟩

/-- The settings of a project. Layout and speed are kept as they were written. -/
structure Config where
  layout : String
  speed : String
  trace : TraceSettings
  hints : Hints

/-- What can be wrong with a project file. -/
inductive ConfigFault where
  /-- The file has no value. -/
  | unreadable (fault : DocumentFault)
  /-- The file holds something else than a mapping. -/
  | notMapping (v : Value)
  /-- A mapping was needed to look up a setting. -/
  | noEntries
  /-- A list of targets was needed. -/
  | notIterable
  | badInteger (shown : String)
  | badNumber (shown : String)
  /-- An integer exceeds the range of floating-point numbers. -/
  | numberTooLarge
  | badWidths (shown : String)
  /-- A value to be shown holds an integer with too many digits. -/
  | integerTooLong
  | notMappings (key : String)
  | tooFewWorkers (count : String)
  | negativeBudget (steps : String)
  | badLayout (fault : Fault)
  | badSpeed (text : String)
  | unmappable (layout : Layout) (fault : Fault)

/-- The wording of a fault, for those that have one. -/
def ConfigFault.message? : ConfigFault → Option String
  | unreadable fault => fault.message?
  | noEntries | notIterable | numberTooLarge => none
  | notMapping v => some ("Project configuration must be a mapping, got " ++ v.kindName)
  | badInteger t => some ("Invalid integer format: " ++ t)
  | badNumber t => some ("Invalid number format: " ++ t)
  | badWidths t => some ("Invalid width state: " ++ t)
  | integerTooLong => some Fault.integerTooLong.message
  | notMappings key => some ("'" ++ key ++ "' must be a list of mappings")
  | tooFewWorkers n => some ("worker_count must be at least 1, got " ++ n)
  | negativeBudget n => some ("step_budget must not be negative, got " ++ n)
  | badLayout fault => some fault.message
  | badSpeed t => some ("Unknown ROM speed: " ++ t)
  | unmappable layout fault =>
    some ("ROM image cannot be mapped as " ++ layout.name ++ ": " ++ fault.message)

end RomAtlas
