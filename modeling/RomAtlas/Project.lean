import RomAtlas.Atlas
import RomAtlas.Config.Reading

/-!
# Projects

A cartridge with its hints and trace settings, made from project settings and the contents of the
cartridge.
-/

namespace RomAtlas

/-- What a survey needs. -/
structure Project where
  cartridge : Cartridge
  hints : Hints
  trace : TraceSettings

namespace Config

/-- The cartridge that the settings describe. -/
def cartridge (c : Config) (dump : Dump) : Except ConfigFault Cartridge := do
  let layout ← (Layout.ofText c.layout).mapError .badLayout
  match Speed.ofText? c.speed with
  | none => .error (.badSpeed c.speed)
  | some speed => (Cartridge.ofDump dump layout speed).mapError (.unmappable layout)

/-- The project that the settings describe. There must be a worker, and the step budget, if there is
one, must not be negative. -/
def project (c : Config) (dump : Dump) : Except ConfigFault Project := do
  if c.trace.workers < 1 then (Value.int c.trace.workers).refuse .tooFewWorkers
  match c.trace.stepBudget.filter (· < 0) with
  | some budget => (Value.int budget).refuse .negativeBudget
  | none =>
    let cartridge ← c.cartridge dump
    return ⟨cartridge, c.hints, c.trace⟩

end Config

namespace Project

/-- A project without hints, under the standard settings. -/
def ofDump (dump : Dump) (layout : Layout) : Except Fault Project := do
  let cartridge ← Cartridge.ofDump dump layout .slow
  return ⟨cartridge, Hints.empty, TraceSettings.standard⟩

/-- Makes the atlas of a project. -/
def survey (p : Project) (watch : Watch) : Except Fault Atlas :=
  RomAtlas.survey p.cartridge p.hints p.trace watch

end Project

end RomAtlas
