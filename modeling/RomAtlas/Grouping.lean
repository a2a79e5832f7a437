import Std.Data.HashMap
import Std.Data.HashSet

/-!
# Grouping by a key

`groupBy` collects the members of a list under their keys, in the order of the list. `firstOfEach`
keeps the first member of each key.
-/

namespace RomAtlas

variable {α κ : Type} [BEq κ] [Hashable κ]

/-- The members of a list by their keys. -/
def groupBy (key : α → κ) (l : List α) : Std.HashMap κ (List α) :=
  l.foldr (fun a groups => groups.alter (key a) fun group => some (a :: group.getD [])) ∅

/-- The members of a list whose keys have not come before. -/
def firstOfEach (key : α → κ) (l : List α) : List α :=
  (l.foldl (fun (seen, kept) a =>
    if seen.contains (key a) then (seen, kept) else (seen.insert (key a), kept.push a))
    ((∅ : Std.HashSet κ), (#[] : Array α))).2.toList

/-- The group of a key holds the members with that key, in order. -/
theorem getD_groupBy [LawfulBEq κ] [LawfulHashable κ] (key : α → κ) (l : List α) (k : κ) :
    (groupBy key l).getD k [] = l.filter fun a => key a == k := by
  induction l with
  | nil => simp [groupBy]
  | cons a l ih =>
    rw [groupBy, List.foldr_cons, ← groupBy, Std.HashMap.getD_alter]
    by_cases h : key a == k
    · have hk : key a = k := beq_iff_eq.1 h
      subst hk
      simp [← ih, Std.HashMap.getD_eq_getD_getElem?]
    · simp [h, ih]

end RomAtlas
