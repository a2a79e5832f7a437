import Mathlib.Data.List.Chain
import RomAtlas.Proofs.Region.Lookup

/-!
# Runs tile an image

A class array with a class for each byte of an image always gives a partition of it.

* `Partition.ofRegions_eq_ok`: regions that tile the image are accepted.
* `Partition.exists_ofClasses`: **the runs of equal classes tile the image, and neighbouring runs
  are of different classes.**
-/

namespace RomAtlas

variable {start stop : Int} {l : List Region} {r : Region}

/-- Tiles can be laid from the end as well. -/
theorem tiles_concat : Tiles start (l ++ [r]) stop ↔
    Tiles start l r.start ∧ r.start < r.stop ∧ r.stop = stop := by
  induction l generalizing start with
  | nil =>
    constructor
    · rintro ⟨hstart, hlt, hend⟩
      exact ⟨hstart.symm, hlt, hend⟩
    · rintro ⟨hstart, hlt, hend⟩
      exact ⟨hstart.symm, hlt, hend⟩
  | cons first rest ih =>
    constructor
    · rintro ⟨hstart, hlt, hrest⟩
      obtain ⟨htiles, hr⟩ := ih.1 hrest
      exact ⟨⟨hstart, hlt, htiles⟩, hr⟩
    · rintro ⟨⟨hstart, hlt, htiles⟩, hr⟩
      exact ⟨hstart, hlt, ih.2 ⟨htiles, hr⟩⟩

/-- **The check accepts all tilings.** -/
theorem checkTiles_of_tiles {size : Nat} (h : Tiles start l size) :
    checkTiles size start l = .ok () := by
  induction l generalizing start with
  | nil =>
    unfold checkTiles
    exact if_pos h
  | cons first rest ih =>
    obtain ⟨hstart, hlt, hrest⟩ := h
    unfold checkTiles
    rw [if_neg (by omega)]
    exact ih hrest

namespace Partition

theorem ofRegions_eq_ok {map : AddressMap} {regions : Array Region}
    (h : Tiles 0 regions.toList map.size) : ofRegions map regions = .ok ⟨map, regions, h⟩ := by
  unfold ofRegions
  split
  · rfl
  · next hfault =>
    rw [checkTiles_of_tiles h] at hfault
    cases hfault

/-- Neighbouring regions are of different classes. -/
def Alternating (p : Partition) : Prop := p.regions.toList.IsChain fun r s => r.cls ≠ s.cls

/-- The runs up to some position tile the bytes before it and alternate in class. -/
structure Runs.Paved (count : Nat) (runs : Runs) : Prop where
  tiles : Tiles 0 runs.close.toList count
  alternate : (runs.close.toList.map Region.cls).IsChain (· ≠ ·)
  empty : runs.current = none → runs.finished = #[]

theorem Runs.Paved.push {count : Nat} {runs : Runs} (h : runs.Paved count) (cls : ByteClass) :
    (runs.push cls).Paved (count + 1) := by
  cases hcur : runs.current with
  | none =>
    have hfin := h.empty hcur
    have hcount : (0 : Int) = count := by
      have htiles := h.tiles
      unfold Runs.close at htiles
      rw [hcur, hfin] at htiles
      exact htiles
    have hp : runs.push cls = ⟨#[], some ⟨0, 1, cls⟩⟩ := by simp only [Runs.push, hcur, hfin]
    rw [hp]
    refine ⟨⟨rfl, Int.one_pos, ?_⟩, .singleton cls, fun hnone => by cases hnone⟩
    show (1 : Int) = (count + 1 : Nat)
    omega
  | some last =>
    have hclose : runs.close.toList = runs.finished.toList ++ [last] := by
      rw [close_of_some hcur, Array.toList_push]
    have htiles := h.tiles
    have halt := h.alternate
    rw [hclose] at htiles halt
    obtain ⟨hbefore, hlt, hstop⟩ := tiles_concat.1 htiles
    by_cases hcls : last.cls = cls
    · -- the open run grows and keeps its class
      have hp : runs.push cls = ⟨runs.finished, some { last with stop := last.stop + 1 }⟩ := by
        simp only [Runs.push, hcur, if_pos hcls]
      rw [hp]
      refine ⟨?_, ?_, fun hnone => by cases hnone⟩
      · rw [close_of_some rfl, Array.toList_push]
        refine tiles_concat.2 ⟨hbefore, ?_, ?_⟩ <;> dsimp only <;> omega
      · rw [close_of_some rfl, Array.toList_push, List.map_append]
        rw [List.map_append] at halt
        exact halt
    · -- the open run is finished, and a run of another class is opened behind it
      have hp : runs.push cls =
          ⟨runs.finished.push last, some ⟨last.stop, last.stop + 1, cls⟩⟩ := by
        simp only [Runs.push, hcur, if_neg hcls]
      rw [hp]
      refine ⟨?_, ?_, fun hnone => by cases hnone⟩
      · rw [close_of_some rfl, Array.toList_push, Array.toList_push]
        refine tiles_concat.2 ⟨tiles_concat.2 ⟨hbefore, hlt, rfl⟩, ?_, ?_⟩ <;> dsimp only <;> omega
      · rw [close_of_some rfl, Array.toList_push, Array.toList_push, List.map_append]
        refine halt.append (.singleton cls) ?_
        intro x hx y hy
        rw [List.map_append, List.map_singleton, List.getLast?_concat] at hx
        cases hx
        cases hy
        exact hcls

theorem Runs.Paved.foldl {count : Nat} {runs : Runs} (h : runs.Paved count) (l : List ByteClass) :
    (l.foldl Runs.push runs).Paved (count + l.length) := by
  induction l generalizing count runs with
  | nil => exact h
  | cons cls l ih =>
    rw [List.foldl_cons, List.length_cons, Nat.add_comm l.length, ← Nat.add_assoc]
    exact ih (h.push cls)

/-- **The runs of equal classes tile the image, and neighbouring runs are of different classes.** -/
theorem exists_ofClasses {map : AddressMap} {classes : Array ByteClass}
    (h : classes.size = map.size) : ∃ p, ofClasses map classes = .ok p ∧ p.Alternating := by
  have hstart : Runs.Paved 0 ⟨#[], none⟩ := ⟨rfl, .nil, fun _ => rfl⟩
  have hpaved := hstart.foldl classes.toList
  rw [Nat.zero_add, Array.length_toList, h, Array.foldl_toList] at hpaved
  refine ⟨⟨map, runsOf classes, hpaved.tiles⟩, ofRegions_eq_ok hpaved.tiles, ?_⟩
  exact (List.isChain_map Region.cls).1 hpaved.alternate

end Partition

end RomAtlas
