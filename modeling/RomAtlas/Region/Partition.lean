import RomAtlas.AddressMap

/-!
# Partitions

A partition divides an image into regions that follow each other without gaps from its first byte
to its last (`Tiles`). The region of an offset is found by bisection.

* `Partition.ofRegions`: accepts exactly the lists of regions that tile the image.
* `Partition.ofClasses`: the runs of equal classes of a class array.
* `Partition.ofRuns`: runs with the numbers of their classes.
-/

namespace RomAtlas

/-- The class of a number. -/
def ByteClass.ofNumber (n : Int) : Except Fault ByteClass :=
  match ofNumber? n with
  | some cls => .ok cls
  | none => .error (.unknownClass n)

/-- Regions that are not empty and follow each other from one offset to another. -/
def Tiles : Int → List Region → Int → Prop
  | start, [], stop => start = stop
  | start, r :: rs, stop => r.start = start ∧ r.start < r.stop ∧ Tiles r.stop rs stop

/-- Finds the first region that breaks the tiling, or a wrong end. -/
def checkTiles (size : Nat) : Int → List Region → Except Fault Unit
  | expected, [] => if expected = size then .ok () else .error (.wrongEnd expected size)
  | expected, r :: rs =>
    if r.start ≠ expected ∨ r.stop ≤ r.start then .error (.gapAt expected r)
    else checkTiles size r.stop rs

theorem tiles_of_checkTiles {size : Nat} {expected : Int} {rs : List Region}
    (h : checkTiles size expected rs = .ok ()) : Tiles expected rs size := by
  induction rs generalizing expected with
  | nil =>
    unfold checkTiles at h
    split at h
    · assumption
    · cases h
  | cons r rs ih =>
    unfold checkTiles at h
    split at h
    · cases h
    · next hr => exact ⟨by omega, by omega, ih h⟩

/-- The regions of an image, which tile it. -/
structure Partition where
  map : AddressMap
  regions : Array Region
  tiles : Tiles 0 regions.toList map.size

namespace Partition

/-- A partition into regions that tile the image. -/
def ofRegions (map : AddressMap) (regions : Array Region) : Except Fault Partition :=
  match h : checkTiles map.size 0 regions.toList with
  | .ok () => .ok ⟨map, regions, tiles_of_checkTiles h⟩
  | .error fault => .error fault

/-- The runs of a class array up to some position: the finished ones, and the one that is still
open. -/
structure Runs where
  finished : Array Region
  current : Option Region

/-- Adds the class of the next byte. -/
def Runs.push (runs : Runs) (cls : ByteClass) : Runs :=
  match runs.current with
  | none => ⟨runs.finished, some ⟨0, 1, cls⟩⟩
  | some r =>
    if r.cls = cls then ⟨runs.finished, some { r with stop := r.stop + 1 }⟩
    else ⟨runs.finished.push r, some ⟨r.stop, r.stop + 1, cls⟩⟩

/-- All runs, the open one included. -/
def Runs.close (runs : Runs) : Array Region :=
  match runs.current with
  | none => runs.finished
  | some r => runs.finished.push r

/-- The runs of equal classes. -/
def runsOf (classes : Array ByteClass) : Array Region := (classes.foldl Runs.push ⟨#[], none⟩).close

/-- The partition of a class array, which must have a class for each byte. -/
def ofClasses (map : AddressMap) (classes : Array ByteClass) : Except Fault Partition :=
  ofRegions map (runsOf classes)

/-- The partition of runs, each given by its length and the number of its class, which must be a
byte. A run whose length is not positive is empty. -/
def ofRuns (map : AddressMap) (runs : List (Int × Int)) : Except Fault Partition := do
  if runs.any fun run => run.2 < 0 || 255 < run.2 then .error .notAByte
  let classes ← (runs.filter (0 < ·.1)).foldlM (fun classes run => do
    return classes ++ Array.replicate run.1.toNat (← ByteClass.ofNumber run.2)) #[]
  ofClasses map classes

/-- The number of regions between two indices, counted from the first region, that start at or
before an offset; found by bisection. -/
def startsBefore (regions : Array Region) (offset : Int) (low high : Nat) : Nat :=
  if low < high then
    let middle := (low + high) / 2
    if (regions[middle]?).any (·.start ≤ offset) then startsBefore regions offset (middle + 1) high
    else startsBefore regions offset low middle
  else low
termination_by high - low

/-- The region of an offset, which must lie in the image. -/
def regionOf (r : Partition) (offset : Int) : Except Fault Region :=
  if 0 ≤ offset ∧ offset < r.map.size then
    match r.regions[startsBefore r.regions offset 0 r.regions.size - 1]? with
    | some region => .ok region
    | none => .error (.pastEnd offset r.map.size)
  else .error (.pastEnd offset r.map.size)

/-- The region of the byte that an address shows. -/
def region? (r : Partition) (address : Int) : Option Region :=
  (r.map.offset? address).bind fun offset => (r.regionOf offset).toOption

/-- The class of the byte that an address shows. -/
def classOf? (r : Partition) (address : Int) : Option ByteClass :=
  (r.region? address).map (·.cls)

/-- The regions of one class. -/
def ofClass (r : Partition) (cls : ByteClass) : List Region := r.regions.toList.filter (·.cls = cls)

/-- A short text of a partition. -/
def text (r : Partition) : String :=
  "RegionMap(" ++ toString r.regions.size ++ " regions over " ++ Hex.literal r.map.size ++ " bytes)"

/-- Partitions are equal if their regions and address maps are. -/
instance : BEq Partition := ⟨fun r s => r.regions = s.regions && r.map = s.map⟩

end Partition

end RomAtlas
