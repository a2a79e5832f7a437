import RomAtlas.Proofs.Mirrors
import RomAtlas.Proofs.Region.Tiling

/-!
# Classes and regions

A partition and a class for each byte say the same. The runs of equal classes spell the classes they
were made from, and the regions of a partition are found again by offset and by address.

* `Partition.Runs.Paved.spell_push`: one more byte adds its class to what the runs spell.
* `tiles_iff_inRow`: the check of regions looks at nothing but neighbours and the two ends.
* `partition_round_trip`: **classes come back from their regions, regions are accepted exactly if
  they stand in a row, and each offset and address finds the one region that contains it.**
-/

namespace RomAtlas

variable {start stop : Int} {l : List Region} {r : Region} {size : Nat}

/-! ## Regions in a row -/

/-- Regions that are not empty and stand in a row without gaps, from one offset to another. -/
structure InRow (start : Int) (l : List Region) (stop : Int) : Prop where
  nonempty : ∀ r ∈ l, r.start < r.stop
  first : l.head?.map Region.start = some start
  next : l.IsChain fun r s => r.stop = s.start
  last : l.getLast?.map Region.stop = some stop

theorem tiles_cons_iff : Tiles start (r :: l) stop ↔ InRow start (r :: l) stop := by
  induction l generalizing start r with
  | nil =>
    constructor
    · rintro ⟨hstart, hlt, hstop⟩
      exact ⟨by simpa using hlt, congrArg some hstart, .singleton r, congrArg some hstop⟩
    · intro h
      exact ⟨Option.some.inj h.first, h.nonempty r (List.mem_singleton_self r),
        Option.some.inj h.last⟩
  | cons s l ih =>
    constructor
    · rintro ⟨hstart, hlt, hrest⟩
      obtain ⟨hnonempty, hfirst, hnext, hlast⟩ := ih.1 hrest
      refine ⟨List.forall_mem_cons.2 ⟨hlt, hnonempty⟩, congrArg some hstart, ?_, ?_⟩
      · exact List.isChain_cons_cons.2 ⟨(Option.some.inj hfirst).symm, hnext⟩
      · rwa [List.getLast?_cons_cons]
    · rintro ⟨hnonempty, hfirst, hnext, hlast⟩
      obtain ⟨hlt, hnonempty⟩ := List.forall_mem_cons.1 hnonempty
      obtain ⟨hmeet, hnext⟩ := List.isChain_cons_cons.1 hnext
      rw [List.getLast?_cons_cons] at hlast
      exact ⟨Option.some.inj hfirst, hlt,
        ih.2 ⟨hnonempty, congrArg some hmeet.symm, hnext, hlast⟩⟩

/-- **Regions tile an image if they stand in a row** from its first byte to its last. -/
theorem tiles_iff_inRow (hsize : 0 < size) : Tiles 0 l size ↔ InRow 0 l size := by
  cases l with
  | nil =>
    constructor
    · intro h
      have hzero : (0 : Int) = size := h
      omega
    · intro h
      cases h.first
  | cons r l => exact tiles_cons_iff

namespace Partition

theorem exists_ofRegions_iff {map : AddressMap} {regions : Array Region} :
    (∃ p, ofRegions map regions = .ok p) ↔ InRow 0 regions.toList map.size := by
  rw [← tiles_iff_inRow map.size_pos]
  constructor
  · rintro ⟨p, hp⟩
    unfold ofRegions at hp
    split at hp
    · next hcheck => exact tiles_of_checkTiles hcheck
    · cases hp
  · intro h
    exact ⟨_, ofRegions_eq_ok h⟩

theorem ofRegions_eq_ok_iff {map : AddressMap} {regions : Array Region} {p : Partition} :
    ofRegions map regions = .ok p ↔ p.map = map ∧ p.regions = regions := by
  constructor
  · intro h
    unfold ofRegions at h
    split at h
    · cases h
      exact ⟨rfl, rfl⟩
    · cases h
  · rintro ⟨rfl, rfl⟩
    exact ofRegions_eq_ok p.tiles

/-! ## The classes that regions spell -/

/-- The classes of the bytes of some regions, one after the other. -/
def spell (regions : Array Region) : List ByteClass :=
  regions.toList.flatMap fun r => List.replicate r.size.toNat r.cls

theorem spell_push (regions : Array Region) (r : Region) :
    spell (regions.push r) = spell regions ++ List.replicate r.size.toNat r.cls := by
  simp [spell]

/-- **One more byte adds its class** to what the runs spell. -/
theorem Runs.Paved.spell_push {count : Nat} {runs : Runs} (h : runs.Paved count)
    (cls : ByteClass) : spell (runs.push cls).close = spell runs.close ++ [cls] := by
  cases hcur : runs.current with
  | none =>
    have hfin := h.empty hcur
    simp [Runs.push, Runs.close, hcur, hfin, spell, Region.size]
  | some last =>
    have hclose := close_of_some hcur
    have hlt : last.start < last.stop := by
      refine (h.tiles.bounds ?_).2.1
      rw [hclose, Array.toList_push]
      exact List.mem_append_right _ (List.mem_singleton_self last)
    rw [hclose, Partition.spell_push]
    by_cases hcls : last.cls = cls
    · -- the open run gets one byte longer
      have hp : runs.push cls = ⟨runs.finished, some { last with stop := last.stop + 1 }⟩ := by
        simp only [Runs.push, hcur, if_pos hcls]
      have hsize : Region.size { last with stop := last.stop + 1 } = last.size + 1 := by
        unfold Region.size
        dsimp only
        omega
      have hgrow : (last.size + 1).toNat = last.size.toNat + 1 := by
        unfold Region.size
        omega
      rw [hp, close_of_some rfl, Partition.spell_push, hsize, hgrow, List.replicate_succ', hcls,
        List.append_assoc]
    · -- a run of one byte is opened
      have hp : runs.push cls =
          ⟨runs.finished.push last, some ⟨last.stop, last.stop + 1, cls⟩⟩ := by
        simp only [Runs.push, hcur, if_neg hcls]
      have hone : (Region.size ⟨last.stop, last.stop + 1, cls⟩).toNat = 1 := by
        unfold Region.size
        dsimp only
        omega
      rw [hp, close_of_some rfl, Partition.spell_push, Partition.spell_push, hone]
      rfl

theorem Runs.Paved.spell_foldl {count : Nat} {runs : Runs} (h : runs.Paved count)
    (l : List ByteClass) : spell (l.foldl Runs.push runs).close = spell runs.close ++ l := by
  induction l generalizing count runs with
  | nil => simp
  | cons cls l ih =>
    rw [List.foldl_cons, ih (h.push cls), h.spell_push, List.append_assoc, List.singleton_append]

/-- **The runs of classes spell the classes.** -/
theorem spell_runsOf (classes : Array ByteClass) : spell (runsOf classes) = classes.toList := by
  have hstart : Runs.Paved 0 ⟨#[], none⟩ := ⟨rfl, .nil, fun _ => rfl⟩
  unfold runsOf
  rw [← Array.foldl_toList, hstart.spell_foldl]
  rfl

/-! ## Classes by number -/

theorem ofNumber_number (cls : ByteClass) : ByteClass.ofNumber cls.number = .ok cls := by
  unfold ByteClass.ofNumber
  rw [cls.ofNumber?_number]

/-- Runs of one byte each, with the numbers of their classes. -/
def singleRuns (classes : Array ByteClass) : List (Int × Int) :=
  classes.toList.map fun cls => (1, cls.number)

theorem foldlM_singleRuns (l : List ByteClass) (done : Array ByteClass) :
    (l.map fun cls => ((1, cls.number) : Int × Int)).foldlM (fun classes run => do
      return classes ++ Array.replicate run.1.toNat (← ByteClass.ofNumber run.2)) done =
        Except.ok (ε := Fault) (done ++ l.toArray) := by
  induction l generalizing done with
  | nil => exact congrArg Except.ok (Array.append_empty).symm
  | cons cls l ih =>
    rw [List.map_cons, List.foldlM_cons, ofNumber_number]
    refine (ih (done ++ Array.replicate 1 cls)).trans ?_
    congr 1
    simp

theorem ofRuns_singleRuns (map : AddressMap) (classes : Array ByteClass) :
    ofRuns map (singleRuns classes) = ofClasses map classes := by
  have hbytes : ((singleRuns classes).any fun run => run.2 < 0 || 255 < run.2) = false := by
    rw [List.any_eq_false]
    intro run hrun
    obtain ⟨cls, -, rfl⟩ := List.mem_map.1 hrun
    cases cls <;> decide
  have hfilter : (singleRuns classes).filter (0 < ·.1) = singleRuns classes := by
    rw [List.filter_eq_self]
    intro run hrun
    obtain ⟨cls, -, rfl⟩ := List.mem_map.1 hrun
    rfl
  unfold ofRuns
  rw [hbytes, hfilter, singleRuns, foldlM_singleRuns, Array.empty_append, Array.toArray_toList]
  rfl

/-! ## Regions by offset and by address -/

/-- A region that contains an offset, as no other of some regions does. -/
structure OnlyAt (regions : Array Region) (o : Int) (r : Region) : Prop where
  mem : r ∈ regions
  contains : r.contains o = true
  unique : ∀ s ∈ regions, s.contains o = true → s = r

variable {p : Partition} {o : Int}

theorem exists_regionOf_onlyAt (hlow : 0 ≤ o) (hhigh : o < p.map.size) :
    ∃ r, p.regionOf o = .ok r ∧ OnlyAt p.regions o r := by
  obtain ⟨r, hr, hmem, hcontains⟩ := exists_regionOf hlow hhigh
  refine ⟨r, hr, hmem, hcontains, fun s hs hso => ?_⟩
  exact p.tiles.unique (Array.mem_toList_iff.2 hs) (Array.mem_toList_iff.2 hmem) hso hcontains

/-- **An address finds the region of the byte that it shows.** -/
theorem exists_region?_onlyAt {a : Int} {o : Nat} (ho : p.map.offset? a = some o) :
    ∃ r, p.region? a = some r ∧ OnlyAt p.regions o r := by
  have hlt := AddressMap.lt_size_of_offset? ho
  obtain ⟨r, hr, honly⟩ := exists_regionOf_onlyAt (p := p) (o := o) (by omega) (by omega)
  refine ⟨r, ?_, honly⟩
  unfold region?
  rw [ho, Option.bind_some, hr]
  rfl

end Partition

open RomAtlas.Partition

/-- **Classes and regions round trip.** A class for each byte always gives a partition, from whose
regions the classes can be read again, and whose neighbouring regions are of different classes; it
is the same if the classes are given by their numbers. Regions are accepted as a partition exactly
if they stand in a row from the first byte to the last. In a partition each offset finds the one
region that contains it, and each address the region of the byte that it shows, if it shows one. -/
theorem partition_round_trip (map : AddressMap) :
    (∀ classes : Array ByteClass, classes.size = map.size → ∃ p,
      ofClasses map classes = .ok p ∧ ofRuns map (singleRuns classes) = .ok p ∧ p.map = map ∧
        spell p.regions = classes.toList ∧ p.Alternating) ∧
    (∀ regions, (∃ p, ofRegions map regions = .ok p) ↔ InRow 0 regions.toList map.size) ∧
    ∀ regions p, ofRegions map regions = .ok p →
      (∀ o : Int, 0 ≤ o → o < map.size → ∃ r, p.regionOf o = .ok r ∧ OnlyAt regions o r) ∧
      (∀ a, map.offset? a = none → p.region? a = none) ∧
      ∀ a (o : Nat), map.offset? a = some o → ∃ r, p.region? a = some r ∧ OnlyAt regions o r := by
  refine ⟨fun classes hsize => ?_, fun regions => exists_ofRegions_iff, fun regions p hp => ?_⟩
  · obtain ⟨p, hp, halternating⟩ := exists_ofClasses hsize
    obtain ⟨hmap, hregions⟩ := regions_of_ofClasses hp
    refine ⟨p, hp, ?_, hmap, ?_, halternating⟩
    · rw [ofRuns_singleRuns, hp]
    · rw [hregions, spell_runsOf]
  · obtain ⟨rfl, rfl⟩ := ofRegions_eq_ok_iff.1 hp
    refine ⟨fun o hlow hhigh => exists_regionOf_onlyAt hlow hhigh, fun a ha => ?_,
      fun a o ho => exists_region?_onlyAt ho⟩
    unfold region?
    rw [ha, Option.bind_none]

/-- Code in all bytes of the largest image but the last one, which is data. -/
def dataAtEnd : Array ByteClass := (Array.replicate 0x3FFFFF .code).push .data

/-- The last byte of the largest image is found at its offset and at the last address. -/
theorem partition_round_trip_dataAtEnd :
    dataAtEnd.size = AddressMap.wholeLoRom.size ∧
      ∃ p, ofClasses AddressMap.wholeLoRom dataAtEnd = .ok p ∧ spell p.regions = dataAtEnd.toList ∧
        (∃ r, p.regionOf 0x3FFFFF = .ok r ∧ OnlyAt p.regions 0x3FFFFF r) ∧
        ∃ r, p.region? (-1) = some r ∧ OnlyAt p.regions 0x3FFFFF r := by
  have hsize : dataAtEnd.size = AddressMap.wholeLoRom.size := by
    unfold dataAtEnd
    rw [Array.size_push, Array.size_replicate]
    rfl
  obtain ⟨hclasses, -, hfind⟩ := partition_round_trip AddressMap.wholeLoRom
  obtain ⟨p, hp, -, hmap, hspell, -⟩ := hclasses dataAtEnd hsize
  obtain ⟨hoffset, -, haddress⟩ := hfind p.regions p (ofRegions_eq_ok_iff.2 ⟨hmap, rfl⟩)
  exact ⟨hsize, p, hp, hspell, hoffset 0x3FFFFF (by decide) (by decide),
    haddress (-1) 0x3FFFFF (by decide +kernel)⟩

end RomAtlas
