import RomAtlas.Hint.Checked
import RomAtlas.Proofs.Fallible
import RomAtlas.Proofs.Image

/-!
# What checking guarantees

A hint that passes the check has these properties, whatever the author wrote (`check_sound`):

* an entry point starts with no saved widths;
* a range is not empty and lies in the image;
* a range of code was given as one.

`Hints.check_invariant` is the way to such properties: what each hint keeps holds after the check.
-/

namespace RomAtlas

/-- A range that is not empty and lies in an image of a size. -/
structure Extent.Within (size : Nat) (r : Extent) : Prop where
  start_nonneg : 0 ≤ r.start
  start_lt : r.start < r.stop
  stop_le : r.stop ≤ size

/-- Checked hints that fit an image and the hints that they were made from. -/
structure CheckedHints.Sound (m : AddressMap) (given : Hints) (h : CheckedHints) : Prop where
  unsaved : ∀ e ∈ h.entryPoints, ∀ s, e.state = some s → s.saved = []
  within : ∀ s ∈ h.ranges, s.range.Within m.size
  cls : ∀ s ∈ h.ranges, s.cls = .data ∨ s.cls = .code ∧ given.codeRanges ≠ []

variable {c : Cartridge} {m : AddressMap} {given : Hints} {r r' : HintLedger} {source : HintSource}

theorem offsetFor_eq_ok {role : HintRole} {a : Int} {o : Nat} :
    offsetFor m role a = .ok o ↔ m.offset? a = some o := by
  unfold offsetFor
  cases m.offset? a with
  | none => exact ⟨fun h => (by cases h), fun h => (by cases h)⟩
  | some p => exact ⟨fun h => (by cases h; rfl), fun h => (by cases h; rfl)⟩

/-- The pointers that the bytes of a table spell. -/
def JumpTableHint.pointersOf (h : JumpTableHint) (bytes : List UInt8) : List Int :=
  if h.longPointers then farPointers bytes else nearPointers (bankBase h.site) bytes

theorem JumpTableHint.pointerWidth_pos (h : JumpTableHint) : 0 < h.pointerWidth := by
  unfold pointerWidth
  split <;> decide

/-- **A pointer table is read if the offsets of its first and its last byte are as far apart as
their addresses.** It takes the bytes that it declares. -/
theorem JumpTableHint.readPointers_eq_ok_iff {h : JumpTableHint} {table : Int}
    {pointers : List Int} {range : Extent} :
    h.readPointers c table = .ok (pointers, range) ↔
      ∃ first size : Nat, (size : Int) = h.count * h.pointerWidth ∧ 0 < size ∧
        c.map.offset? table = some first ∧
        c.map.offset? (table + (size - 1 : Nat)) = some (first + (size - 1)) ∧
        range = ⟨first, first + size⟩ ∧
        pointers = h.pointersOf (c.image.between first (first + size)) := by
  have hwidth : 0 < (h.pointerWidth : Int) := by exact_mod_cast h.pointerWidth_pos
  -- the last offset is in the image, so the slice has all bytes of the table
  have hslice : ∀ {a : Int} {first size : Nat}, 0 < size →
      c.map.offset? a = some (first + (size - 1)) →
      (c.image.slice first size).toList = c.image.between first (first + size) := by
    intro a first size hpos hlast
    have hlt := AddressMap.lt_size_of_offset? hlast
    rw [c.size_eq] at hlt
    exact Image.toList_slice (by omega)
  unfold readPointers
  dsimp only
  constructor
  · intro hr
    split at hr
    · cases hr
    next hpos =>
    obtain ⟨first, hfirst, hr⟩ := bind_eq_ok.1 hr
    split at hr
    · cases hr
    next hlast =>
    have hpositive : 0 < h.count * (h.pointerWidth : Int) := Int.mul_pos (by omega) hwidth
    obtain ⟨size, hsize⟩ := Int.eq_ofNat_of_zero_le (Int.le_of_lt hpositive)
    rw [hsize] at hpositive hlast hr
    rw [ne_eq, not_not] at hlast
    obtain ⟨last, hl, he⟩ := Option.map_eq_some_iff.1 hlast
    have hend : table + size - 1 = table + (size - 1 : Nat) := by omega
    have hlastOffset : last = first + (size - 1) := by
      rw [Int.ofNat_eq_natCast] at he
      omega
    rw [hend, hlastOffset] at hl
    rw [hslice (by omega) hl] at hr
    cases hr
    exact ⟨first, size, hsize.symm, by omega, offsetFor_eq_ok.1 hfirst, hl, rfl, rfl⟩
  · rintro ⟨first, size, hsize, hpos, hfirst, hlast, rfl, rfl⟩
    have hcount : ¬ h.count ≤ 0 := by
      intro hle
      have hneg := Int.mul_nonpos_of_nonpos_of_nonneg hle (Int.le_of_lt hwidth)
      omega
    have hend : table + size - 1 = table + (size - 1 : Nat) := by omega
    have hlastOffset : ((first + (size - 1) : Nat) : Int) = first + size - 1 := by omega
    rw [if_neg hcount, ← hsize, ← hslice hpos hlast, hend, hlast]
    refine bind_eq_ok.2 ⟨first, offsetFor_eq_ok.2 hfirst, if_neg ?_⟩
    rw [Option.map_some, Int.ofNat_eq_natCast, hlastOffset, ne_eq, not_not]

/-- The range of a pointer table lies in the image. -/
theorem JumpTableHint.readPointers_within {h : JumpTableHint} {table : Int} {pointers : List Int}
    {range : Extent} (hr : h.readPointers c table = .ok (pointers, range)) :
    range.Within c.map.size := by
  obtain ⟨first, size, -, hsize, -, hlast, rfl, -⟩ := readPointers_eq_ok_iff.1 hr
  have hlt := AddressMap.lt_size_of_offset? hlast
  exact ⟨Int.natCast_nonneg _, by dsimp only; omega, by dsimp only; omega⟩

theorem length_nearPointers (bank : Int) (bytes : List UInt8) :
    (nearPointers bank bytes).length = bytes.length / 2 := by
  fun_induction nearPointers bank bytes with
  | case1 low high rest ih => simp only [List.length_cons, ih]; omega
  | case2 bytes hshort =>
    match bytes, hshort with
    | [], _ => rfl
    | [_], _ => simp
    | low :: high :: rest, h => exact (h low high rest rfl).elim

theorem length_farPointers (bytes : List UInt8) :
    (farPointers bytes).length = bytes.length / 3 := by
  fun_induction farPointers bytes with
  | case1 low mid high rest ih => simp only [List.length_cons, ih]; omega
  | case2 bytes hshort =>
    match bytes, hshort with
    | [], _ => rfl
    | [_], _ => simp
    | [_, _], _ => simp
    | low :: mid :: high :: rest, h => exact (h low mid high rest rfl).elim

theorem JumpTableHint.length_pointersOf (h : JumpTableHint) (bytes : List UInt8) :
    (h.pointersOf bytes).length = bytes.length / h.pointerWidth := by
  unfold pointersOf pointerWidth
  split
  · exact length_farPointers bytes
  · exact length_nearPointers _ bytes

/-- **All pointers that a table declares are read.** -/
theorem JumpTableHint.length_of_readPointers {h : JumpTableHint} {table : Int}
    {pointers : List Int} {range : Extent}
    (hr : h.readPointers c table = .ok (pointers, range)) : (pointers.length : Int) = h.count := by
  obtain ⟨first, size, hsize, hpos, -, hlast, -, rfl⟩ := readPointers_eq_ok_iff.1 hr
  have hlt := AddressMap.lt_size_of_offset? hlast
  rw [c.size_eq] at hlt
  rw [length_pointersOf, Image.length_between_add (by omega)]
  unfold pointerWidth at hsize ⊢
  by_cases hlong : h.longPointers = true
  · rw [if_pos hlong] at hsize ⊢
    omega
  · rw [if_neg hlong] at hsize ⊢
    omega

/-- The range of a jump table is that of its pointer table. -/
theorem JumpTableHint.exists_readPointers {h : JumpTableHint} {reading : Reading}
    (hr : h.read c = .ok reading) {table : Int} {range : Extent}
    (ht : reading.table = some (table, range)) :
    h.table = some table ∧ ∃ pointers, h.readPointers c table = .ok (pointers, range) := by
  unfold read at hr
  obtain ⟨-, -, hr⟩ := bind_eq_ok.1 hr
  obtain ⟨-, -, hr⟩ := bind_eq_ok.1 hr
  split at hr
  · next table' htable =>
    obtain ⟨⟨pointers, range'⟩, hp, hr⟩ := bind_eq_ok.1 hr
    cases hr
    cases ht
    exact ⟨htable, pointers, hp⟩
  · dsimp only at hr
    split at hr
    · cases hr
    · cases hr
      cases ht

theorem JumpTableHint.read_table_within {h : JumpTableHint} {reading : Reading}
    (hr : h.read c = .ok reading) {table : Int} {range : Extent}
    (ht : reading.table = some (table, range)) : range.Within c.map.size := by
  obtain ⟨-, pointers, hpointers⟩ := exists_readPointers hr ht
  exact readPointers_within hpointers

namespace HintLedger

/-! ## One hint at a time -/

theorem hints_of_reject {parts : List Value} {x : Rejection}
    (h : r.reject source parts x = .ok r') : r'.hints = r.hints := by
  unfold reject at h
  dsimp only at h
  split at h
  · cases h; rfl
  · cases h

/-- A guarded check that passes goes on; one that is rejected leaves the hints as they were. -/
theorem guard_eq_ok {α : Type} {parts : List Value} {check : Except Refusal α}
    {use : α → Except Fault HintLedger} (h : r.guard source parts check use = .ok r') :
    (∃ a, check = .ok a ∧ use a = .ok r') ∨ r'.hints = r.hints := by
  unfold guard at h
  split at h
  · next a => exact .inl ⟨a, rfl, h⟩
  · exact .inr (hints_of_reject h)
  · cases h

theorem hints_of_addDeclared {range : Extent} {cls : ByteClass} {label : Value}
    (h : r.addDeclared m range cls label source = .ok r') :
    ∃ spec : DeclaredRange, spec.range = range ∧ spec.cls = cls ∧ spec.source = source ∧
      r'.hints = { r.hints with ranges := r.hints.ranges ++ [spec] } := by
  unfold addDeclared at h
  obtain ⟨address, -, h⟩ := bind_eq_ok.1 h
  cases h
  exact ⟨⟨range, cls, r.order, label, address, source⟩, rfl, rfl, rfl, rfl⟩

theorem sound_addRanges (h : r.hints.Sound m given) {spec : DeclaredRange}
    (hw : spec.range.Within m.size)
    (hc : spec.cls = .data ∨ spec.cls = .code ∧ given.codeRanges ≠ []) :
    { r.hints with ranges := r.hints.ranges ++ [spec] : CheckedHints }.Sound m given := by
  refine ⟨h.unsaved, fun s hs => ?_, fun s hs => ?_⟩
  · rcases List.mem_append.1 hs with hs | hs
    · exact h.within s hs
    · rw [List.mem_singleton.1 hs]; exact hw
  · rcases List.mem_append.1 hs with hs | hs
    · exact h.cls s hs
    · rw [List.mem_singleton.1 hs]; exact hc

theorem sound_addEntry (h : r.hints.Sound c.map given) {e : EntryHint}
    (hr : r.addEntry c e source = .ok r') : r'.hints.Sound c.map given := by
  unfold addEntry at hr
  rcases guard_eq_ok hr with ⟨taken, -, hr⟩ | hr
  · cases hr
    refine ⟨fun x hx s hs => ?_, h.within, h.cls⟩
    rcases List.mem_append.1 hx with hx | hx
    · exact h.unsaved x hx s hs
    · rw [List.mem_singleton.1 hx] at hs
      obtain ⟨w, -, rfl⟩ := Option.map_eq_some_iff.1 hs
      rfl
  · rw [hr]; exact h

/-- A range that passes its checks takes its name and lies in the image. -/
theorem range_of_verdict {e : RangeHint} {taken names : List String} {range : Extent}
    (h : e.verdict c taken = .ok (names, range)) :
    takeName taken e.label e.first = .ok names ∧ range.Within c.map.size := by
  unfold RangeHint.verdict at h
  obtain ⟨first, -, h⟩ := bind_eq_ok.1 h
  obtain ⟨last, hlast, h⟩ := bind_eq_ok.1 h
  dsimp only at h
  split at h
  · cases h
  next hle =>
  obtain ⟨names, htaken, h⟩ := bind_eq_ok.1 h
  cases h
  have hlt := AddressMap.lt_size_of_offset? (offsetFor_eq_ok.1 hlast)
  refine ⟨htaken, ?_⟩
  constructor <;> dsimp only <;> omega

theorem sound_addRange (h : r.hints.Sound c.map given) {cls : ByteClass} {e : RangeHint}
    (hc : cls = .data ∨ cls = .code ∧ given.codeRanges ≠ [])
    (hr : r.addRange c cls e source = .ok r') : r'.hints.Sound c.map given := by
  unfold addRange at hr
  rcases guard_eq_ok hr with ⟨⟨taken, range⟩, hcheck, hr⟩ | hr
  · obtain ⟨spec, hrange, hcls, -, hh⟩ := hints_of_addDeclared hr
    rw [hh]
    refine sound_addRanges h ?_ (hcls ▸ hc)
    rw [hrange]
    exact (range_of_verdict hcheck).2
  · rw [hr]; exact h

theorem sound_addTargets (h : r.hints.Sound m given) (site : Int) (targets : List Int)
    (returns : Bool) : (r.addTargets site targets returns).hints.Sound m given :=
  ⟨h.unsaved, h.within, h.cls⟩

theorem sound_addTable (h : r.hints.Sound c.map given) {e : JumpTableHint}
    (hr : r.addTable c e source = .ok r') : r'.hints.Sound c.map given := by
  unfold addTable at hr
  rcases guard_eq_ok hr with ⟨reading, hread, hr⟩ | hr
  · obtain ⟨r₁, hfold, hr⟩ := bind_eq_ok.1 hr
    have h₁ : r₁.hints.Sound c.map given := by
      refine foldlM_invariant (P := fun r => r.hints.Sound c.map given) ?_ h hfold
      intro x _ b b' hb hx
      rw [hints_of_reject hx]; exact hb
    rcases guard_eq_ok hr with ⟨taken, -, hr⟩ | hr
    · have h₂ := sound_addTargets (r := { r₁ with taken := taken }) h₁ reading.site
        reading.targets e.returns
      split at hr
      · cases hr
        exact h₂
      · next table range htable =>
        obtain ⟨spec, hrange, hcls, -, hh⟩ := hints_of_addDeclared hr
        rw [hh]
        refine sound_addRanges h₂ ?_ (.inl hcls)
        rw [hrange]
        exact JumpTableHint.read_table_within hread htable
    · rw [hr]; exact h₁
  · rw [hr]; exact h

end HintLedger

section

variable {checked : CheckedHints} {rejected : List Conflict}
  (h : given.check c = .ok (checked, rejected))
include h

/-- **What each hint keeps holds after the check.** -/
theorem Hints.check_invariant {P : HintLedger → Prop} (hstart : P .start)
    (hentry : ∀ {r r' e s}, P r → r.addEntry c e s = .ok r' → P r')
    (htable : ∀ {r r' e s}, P r → r.addTable c e s = .ok r' → P r')
    (hrange : ∀ {r r' cls e s}, P r → cls = .data ∨ cls = .code ∧ given.codeRanges ≠ [] →
      r.addRange c cls e s = .ok r' → P r') :
    ∃ r, P r ∧ r.hints = checked := by
  unfold check at h
  obtain ⟨r₁, h₁, h⟩ := bind_eq_ok.1 h
  obtain ⟨r₂, h₂, h⟩ := bind_eq_ok.1 h
  obtain ⟨r₃, h₃, h⟩ := bind_eq_ok.1 h
  obtain ⟨r₄, h₄, h⟩ := bind_eq_ok.1 h
  cases h
  have p₁ : P r₁ := foldlM_invariant (fun _ _ _ _ hp hr => hentry hp hr) hstart h₁
  have p₂ : P r₂ := foldlM_invariant (fun _ _ _ _ hp hr => htable hp hr) p₁ h₂
  have p₃ : P r₃ := foldlM_invariant (fun _ _ _ _ hp hr => hrange hp (.inl rfl) hr) p₂ h₃
  refine ⟨r₄, foldlM_invariant (fun x hx _ _ hp hr => ?_) p₃ h₄, rfl⟩
  have hgiven : given.codeRanges ≠ [] := by
    rintro he
    rw [he] at hx
    cases hx
  exact hrange hp (.inr ⟨rfl, hgiven⟩) hr

/-- **Accepted hints fit the image.** -/
theorem Hints.check_sound : checked.Sound c.map given := by
  have hstart : HintLedger.start.hints.Sound c.map given := by
    constructor <;> intro x hx <;> cases hx
  obtain ⟨r, hr, rfl⟩ := check_invariant (P := fun r => r.hints.Sound c.map given) h hstart
    (fun hr hadd => HintLedger.sound_addEntry hr hadd)
    (fun hr hadd => HintLedger.sound_addTable hr hadd)
    fun hr hcls hadd => HintLedger.sound_addRange hr hcls hadd
  exact hr

end

end RomAtlas
