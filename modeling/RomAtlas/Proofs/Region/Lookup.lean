import RomAtlas.Region.Partition

/-!
# Regions by offset

* `Partition.regionOf_eq_ok_iff`: **bisection finds the region of an offset**, which is the only one
  that contains it.
* `getElem?_of_mem_runsOf`: the runs of a class array give each byte its class.
-/

namespace RomAtlas

variable {start stop o : Int} {l : List Region} {r s : Region}

theorem Region.contains_iff : r.contains o = true ↔ r.start ≤ o ∧ o < r.stop := by
  unfold contains
  rw [Bool.and_eq_true, decide_eq_true_iff, decide_eq_true_iff]

/-! ## Tiles -/

namespace Tiles

theorem bounds (h : Tiles start l stop) (hr : r ∈ l) :
    start ≤ r.start ∧ r.start < r.stop ∧ r.stop ≤ stop := by
  induction l generalizing start r with
  | nil => cases hr
  | cons first rest ih =>
    obtain ⟨hstart, hlt, hrest⟩ := h
    have hend : first.stop ≤ stop := by
      cases rest with
      | nil => exact Int.le_of_eq hrest
      | cons next rest =>
        have hnext := ih hrest List.mem_cons_self
        omega
    rcases List.mem_cons.1 hr with rfl | hr
    · exact ⟨Int.le_of_eq hstart.symm, hlt, hend⟩
    · have := ih hrest hr
      omega

/-- Regions stand in the order of their offsets. -/
theorem pairwise (h : Tiles start l stop) : l.Pairwise fun r s => r.stop ≤ s.start := by
  induction l generalizing start with
  | nil => exact .nil
  | cons first rest ih =>
    obtain ⟨-, -, hrest⟩ := h
    exact List.pairwise_cons.2 ⟨fun s hs => (hrest.bounds hs).1, ih hrest⟩

/-- A region ends where the next one starts, or at the end. -/
theorem next {i : Nat} (h : Tiles start l stop) (hr : l[i]? = some r) :
    (∃ s, l[i + 1]? = some s ∧ s.start = r.stop) ∨ r.stop = stop := by
  induction l generalizing start i with
  | nil => cases hr
  | cons first rest ih =>
    obtain ⟨-, -, hrest⟩ := h
    cases i with
    | zero =>
      obtain rfl := Option.some.inj hr
      cases rest with
      | nil => exact .inr hrest
      | cons s rest => exact .inl ⟨s, rfl, hrest.1⟩
    | succ i => exact ih hrest hr

/-- **At most one region contains an offset.** -/
theorem unique (h : Tiles start l stop) (hr : r ∈ l) (hs : s ∈ l) (hro : r.contains o = true)
    (hso : s.contains o = true) : r = s := by
  rw [Region.contains_iff] at hro hso
  rcases List.mem_iff_getElem.1 hr with ⟨i, hi, rfl⟩
  rcases List.mem_iff_getElem.1 hs with ⟨j, hj, rfl⟩
  have hlt := List.pairwise_iff_getElem.1 h.pairwise
  rcases Nat.lt_trichotomy i j with hij | rfl | hij
  · have := hlt i j hi hj hij
    omega
  · rfl
  · have := hlt j i hj hi hij
    omega

end Tiles

/-! ## Bisection -/

namespace Partition

/-- The region at an index starts at or before an offset. -/
def StartsBy (regions : Array Region) (o : Int) (i : Nat) : Prop :=
  (regions[i]?).any (·.start ≤ o) = true

/-- If the regions that start by an offset are an initial piece, bisection counts them. -/
theorem startsBefore_spec {regions : Array Region}
    (hdown : ∀ i j, i ≤ j → StartsBy regions o j → StartsBy regions o i) {low high : Nat}
    (hle : low ≤ high) (hlow : ∀ i < low, StartsBy regions o i)
    (hhigh : ∀ i, high ≤ i → ¬ StartsBy regions o i) :
    (∀ i < startsBefore regions o low high, StartsBy regions o i) ∧
      ∀ i, startsBefore regions o low high ≤ i → ¬ StartsBy regions o i := by
  fun_induction startsBefore regions o low high with
  | case1 low high hlt middle hmiddle ih =>
    exact ih (by omega) (fun i hi => hdown i middle (by omega) hmiddle) hhigh
  | case2 low high hlt middle hmiddle ih =>
    exact ih (by omega) hlow fun i hi hby => hmiddle (hdown middle i hi hby)
  | case3 low high hge =>
    have heq : low = high := by omega
    subst heq
    exact ⟨hlow, hhigh⟩

theorem startsBy_iff {regions : Array Region} {i : Nat} :
    StartsBy regions o i ↔ ∃ r, regions[i]? = some r ∧ r.start ≤ o := by
  unfold StartsBy
  rw [Option.any_eq_true]
  simp only [decide_eq_true_iff]

variable {p : Partition}

theorem startsBy_of_le {i j : Nat} (hij : i ≤ j) (h : StartsBy p.regions o j) :
    StartsBy p.regions o i := by
  rw [startsBy_iff] at h ⊢
  obtain ⟨s, hs, hso⟩ := h
  obtain ⟨hj, hsj⟩ := Array.getElem?_eq_some_iff.1 hs
  have hi : i < p.regions.size := Nat.lt_of_le_of_lt hij hj
  refine ⟨p.regions[i], Array.getElem?_eq_getElem hi, ?_⟩
  rcases Nat.lt_or_eq_of_le hij with hlt | rfl
  · have hstop := List.pairwise_iff_getElem.1 p.tiles.pairwise i j (by simpa) (by simpa) hlt
    have hpos := (p.tiles.bounds (Array.getElem_mem_toList hi)).2.1
    rw [Array.getElem_toList, Array.getElem_toList, hsj] at hstop
    omega
  · rw [hsj]
    exact hso

/-- **Bisection finds a region that contains the offset.** -/
theorem exists_regionOf (hlow : 0 ≤ o) (hhigh : o < p.map.size) :
    ∃ r, p.regionOf o = .ok r ∧ r ∈ p.regions ∧ r.contains o = true := by
  obtain ⟨hbelow, habove⟩ := startsBefore_spec (fun i j => startsBy_of_le (p := p) (o := o))
    (Nat.zero_le p.regions.size) (fun i hi => absurd hi (Nat.not_lt_zero i))
    (fun i hi hby => by
      obtain ⟨r, hr, -⟩ := startsBy_iff.1 hby
      rw [Array.getElem?_eq_none hi] at hr
      cases hr)
  generalize hn : startsBefore p.regions o 0 p.regions.size = n at hbelow habove
  -- the first region starts at 0, so at least one is counted
  have hpos : n ≠ 0 := by
    rintro rfl
    refine habove 0 (Nat.le_refl 0) (startsBy_iff.2 ?_)
    have htiles := p.tiles
    cases hl : p.regions.toList with
    | nil =>
      rw [hl] at htiles
      have := p.map.size_pos
      have : (0 : Int) = p.map.size := htiles
      omega
    | cons first rest =>
      rw [hl] at htiles
      refine ⟨first, ?_, by rw [htiles.1]; exact hlow⟩
      rw [← Array.getElem?_toList, hl]
      rfl
  obtain ⟨r, hr, hro⟩ := startsBy_iff.1 (hbelow (n - 1) (by omega))
  refine ⟨r, ?_, Array.mem_of_getElem? hr, Region.contains_iff.2 ⟨hro, ?_⟩⟩
  · unfold regionOf
    rw [if_pos ⟨hlow, hhigh⟩, hn, hr]
  · -- the next region, if there is one, is not counted, so it starts behind the offset
    rw [← Array.getElem?_toList] at hr
    rcases p.tiles.next hr with ⟨s, hs, hsr⟩ | hend
    · have hnot := habove (n - 1 + 1) (by omega)
      rw [startsBy_iff, ← Array.getElem?_toList, hs] at hnot
      have : ¬ s.start ≤ o := fun h => hnot ⟨s, rfl, h⟩
      omega
    · omega

/-- **The region of an offset is the one that contains it.** -/
theorem regionOf_eq_ok_iff :
    p.regionOf o = .ok r ↔ r ∈ p.regions ∧ r.contains o = true := by
  have key : ∀ s ∈ p.regions, s.contains o = true → p.regionOf o = .ok s := by
    intro s hs hso
    have hbounds := p.tiles.bounds (Array.mem_toList_iff.2 hs)
    have hcont := Region.contains_iff.1 hso
    obtain ⟨q, hq, hmem, hqo⟩ := exists_regionOf (p := p) (o := o) (by omega) (by omega)
    rw [hq, p.tiles.unique (Array.mem_toList_iff.2 hmem) (Array.mem_toList_iff.2 hs) hqo hso]
  refine ⟨fun h => ?_, fun h => key r h.1 h.2⟩
  have hrange : 0 ≤ o ∧ o < p.map.size := by
    unfold regionOf at h
    split at h
    · assumption
    · cases h
  obtain ⟨q, hq, hmem⟩ := exists_regionOf hrange.1 hrange.2
  rw [hq] at h
  cases h
  exact hmem

/-! ## Runs of classes -/

/-- The runs found so far give the bytes so far their classes, and the open run goes on to the
last of them. -/
structure Runs.Spell (done : List ByteClass) (runs : Runs) : Prop where
  cls : ∀ r ∈ runs.close, ∀ o : Nat, r.contains o = true → done[o]? = some r.cls
  empty : runs.current = none → runs.finished = #[] ∧ done = []
  stop : ∀ r, runs.current = some r → r.stop = done.length

namespace Runs

variable {done : List ByteClass} {runs : Runs}

theorem close_of_some (h : runs.current = some r) : runs.close = runs.finished.push r := by
  unfold close
  rw [h]

theorem Spell.append (h : runs.Spell done) (more : List ByteClass) {r : Region}
    (hr : r ∈ runs.close) {o : Nat} (ho : r.contains o = true) :
    (done ++ more)[o]? = some r.cls := by
  have hdone := h.cls r hr o ho
  rw [List.getElem?_append_left (List.getElem?_eq_some_iff.1 hdone).1]
  exact hdone

/-- A region of one byte behind the bytes so far. -/
theorem getElem?_of_contains_last {cls : ByteClass} {o : Nat}
    (ho : Region.contains ⟨done.length, done.length + 1, cls⟩ o = true) :
    (done ++ [cls])[o]? = some cls := by
  have hbounds := Region.contains_iff.1 ho
  have heq : o = done.length := by
    dsimp only at hbounds
    omega
  rw [heq, List.getElem?_append_right (Nat.le_refl _), Nat.sub_self]
  rfl

theorem Spell.push (h : runs.Spell done) (cls : ByteClass) :
    (runs.push cls).Spell (done ++ [cls]) := by
  cases hcur : runs.current with
  | none =>
    obtain ⟨hfin, rfl⟩ := h.empty hcur
    have hp : runs.push cls = ⟨#[], some ⟨0, 1, cls⟩⟩ := by simp only [Runs.push, hcur, hfin]
    rw [hp]
    refine ⟨fun r hr o ho => ?_, nofun, fun r hr => ?_⟩
    · rw [close_of_some rfl, Array.mem_push] at hr
      rcases hr with hr | rfl
      · exact absurd hr (Array.not_mem_empty r)
      · exact getElem?_of_contains_last ho
    · cases hr
      rfl
  | some last =>
    have hstop := h.stop last hcur
    have hclose := close_of_some hcur
    by_cases hcls : last.cls = cls
    · -- the open run grows
      have hp : runs.push cls = ⟨runs.finished, some { last with stop := last.stop + 1 }⟩ := by
        simp only [Runs.push, hcur, if_pos hcls]
      rw [hp]
      refine ⟨fun r hr o ho => ?_, nofun, fun r hr => ?_⟩
      · rw [close_of_some rfl, Array.mem_push] at hr
        rcases hr with hr | rfl
        · exact h.append _ (by rw [hclose]; exact Array.mem_push_of_mem last hr) ho
        · have hbounds := Region.contains_iff.1 ho
          dsimp only at hbounds ⊢
          by_cases hlt : (o : Int) < last.stop
          · exact h.append _ (by rw [hclose]; exact Array.mem_push_self)
              (Region.contains_iff.2 ⟨hbounds.1, hlt⟩)
          · rw [hcls]
            refine getElem?_of_contains_last (Region.contains_iff.2 ?_)
            dsimp only
            omega
      · cases hr
        rw [List.length_append, List.length_singleton]
        dsimp only
        omega
    · -- the open run is finished, and the byte opens the next one
      have hp : runs.push cls =
          ⟨runs.finished.push last, some ⟨last.stop, last.stop + 1, cls⟩⟩ := by
        simp only [Runs.push, hcur, if_neg hcls]
      rw [hp]
      refine ⟨fun r hr o ho => ?_, nofun, fun r hr => ?_⟩
      · rw [close_of_some rfl, Array.mem_push] at hr
        rcases hr with hr | rfl
        · exact h.append _ (by rw [hclose]; exact hr) ho
        · rw [hstop] at ho
          exact getElem?_of_contains_last ho
      · cases hr
        rw [List.length_append, List.length_singleton]
        dsimp only
        omega

theorem Spell.foldl (h : runs.Spell done) (l : List ByteClass) :
    (l.foldl Runs.push runs).Spell (done ++ l) := by
  induction l generalizing done runs with
  | nil => simpa using h
  | cons cls l ih =>
    rw [List.foldl_cons, List.append_cons]
    exact ih (h.push cls)

end Runs

/-- **The runs of a class array give each byte its class.** -/
theorem getElem?_of_mem_runsOf {classes : Array ByteClass} (hr : r ∈ runsOf classes) {o : Nat}
    (ho : r.contains o = true) : classes[o]? = some r.cls := by
  have hstart : Runs.Spell [] ⟨#[], none⟩ :=
    ⟨fun r hr => absurd hr (Array.not_mem_empty r), fun _ => ⟨rfl, rfl⟩, nofun⟩
  have hspell := hstart.foldl classes.toList
  unfold runsOf at hr
  rw [← Array.foldl_toList] at hr
  have hcls := hspell.cls r hr o ho
  rwa [List.nil_append, Array.getElem?_toList] at hcls

theorem regions_of_ofClasses {map : AddressMap} {classes : Array ByteClass}
    (h : ofClasses map classes = .ok p) : p.map = map ∧ p.regions = runsOf classes := by
  unfold ofClasses ofRegions at h
  split at h
  · cases h
    exact ⟨rfl, rfl⟩
  · cases h

theorem classOf?_of_regionOf {a : Int} {o : Nat} (ho : p.map.offset? a = some o)
    (hr : p.regionOf o = .ok r) : p.classOf? a = some r.cls := by
  unfold classOf? region?
  rw [ho, Option.bind_some, hr]
  rfl

theorem exists_regionOf_of_ofClasses {map : AddressMap} {classes : Array ByteClass}
    (h : ofClasses map classes = .ok p) {o : Nat} (ho : o < map.size) :
    ∃ r, p.regionOf o = .ok r := by
  rw [← (regions_of_ofClasses h).1] at ho
  obtain ⟨r, hr, -⟩ := p.exists_regionOf (o := o) (by omega) (by omega)
  exact ⟨r, hr⟩

/-- The region of an offset has the class of its byte. -/
theorem getElem?_of_regionOf {map : AddressMap} {classes : Array ByteClass}
    (h : ofClasses map classes = .ok p) {o : Nat} (hr : p.regionOf o = .ok r) :
    classes[o]? = some r.cls := by
  obtain ⟨hmem, ho⟩ := regionOf_eq_ok_iff.1 hr
  rw [(regions_of_ofClasses h).2] at hmem
  exact getElem?_of_mem_runsOf hmem ho

end Partition

end RomAtlas
