import RomAtlas.Proofs.Decode

/-!
# Mirrors

The same byte is seen at several addresses. The canonical address of a mapped address tells which
byte it shows, and nothing else.

* `AddressMap.offset?_shownAt`: **an offset is seen at the address where it is shown.**
* `AddressMap.offset?_of_canonical_eq`: addresses with one canonical address show the same byte, so
  an address that shows none has none in common with one that shows one.
* `AddressMap.bijection_up_to_mirrors`: **offsets and canonical addresses that show a byte
  correspond one to one**, and nothing but the low 24 bits of an address counts.
-/

namespace RomAtlas.AddressMap

variable {m : AddressMap} {a b : Int} {o : Nat}

/-- The upper half of a bank that is not work RAM shows 32 KiB of the image. -/
theorem place?_loRom_of_upper {bank pos : Nat} (hbank : bank < 0x100) (hpos : pos < 0x8000)
    (hram : bank ≠ 0x7E ∧ bank ≠ 0x7F) :
    place? .loRom ((bank * 0x10000 + 0x8000 + pos : Nat) : Int) =
      some (bank % 0x80 * 0x8000 + pos) := by
  have hw : (wrapAddress ((bank * 0x10000 + 0x8000 + pos : Nat) : Int)).toNat =
      bank * 0x10000 + 0x8000 + pos := by
    unfold wrapAddress
    omega
  have hdiv : (bank * 0x10000 + 0x8000 + pos) / 0x10000 = bank := by omega
  have hhigh : ¬ (bank * 0x10000 + 0x8000 + pos) % 0x10000 < 0x8000 := by omega
  have hmod : (bank * 0x10000 + 0x8000 + pos) % 0x8000 = pos := by omega
  unfold place?
  simp only [hw, hdiv, hhigh, hmod]
  rw [if_neg (by omega), if_neg fun h => h.2, if_neg fun h => h.2]

/-- The upper quarter of the address space shows the whole image. -/
theorem place?_hiRom_of_upper (ho : o < 0x400000) :
    place? .hiRom ((0xC00000 + o : Nat) : Int) = some o := by
  have hw : (wrapAddress ((0xC00000 + o : Nat) : Int)).toNat = 0xC00000 + o := by
    unfold wrapAddress
    omega
  unfold place?
  simp only [hw]
  rw [if_neg (by omega), if_neg (by omega)]
  congr 1
  omega

/-- **An offset is seen at the address where it is shown.** -/
theorem offset?_shownAt (ho : o < m.size) : m.offset? (m.shownAt o) = some o := by
  have hmax : o < 0x400000 := Nat.lt_of_lt_of_le ho m.size_le
  have hplace : place? m.layout (m.shownAt o) = some o := by
    unfold shownAt
    cases m.layout with
    | loRom =>
      dsimp only
      split
      · rw [place?_loRom_of_upper (by omega) (by omega) (by omega)]
        congr 1
        omega
      · rw [place?_loRom_of_upper (by omega) (by omega) (by omega)]
        congr 1
        omega
    | hiRom => exact place?_hiRom_of_upper hmax
  unfold offset?
  rw [hplace]
  exact Option.filter_eq_some_iff.2 ⟨rfl, by simpa using ho⟩

theorem addressOf_eq_ok {offset : Int} (hlow : 0 ≤ offset) (hhigh : offset < m.size) :
    m.addressOf offset = .ok (m.shownAt offset.toNat) := by
  unfold addressOf
  rw [if_pos ⟨hlow, hhigh⟩]

theorem addressOf_natCast (ho : o < m.size) : m.addressOf o = .ok (m.shownAt o) :=
  addressOf_eq_ok (Int.natCast_nonneg o) (by omega)

theorem canonical_eq_shownAt (h : m.offset? a = some o) : m.canonical a = m.shownAt o := by
  unfold canonical
  rw [h]

theorem canonical_congr (ha : m.offset? a = some o) (hb : m.offset? b = some o) :
    m.canonical a = m.canonical b := by
  rw [canonical_eq_shownAt ha, canonical_eq_shownAt hb]

theorem offset?_canonical (h : m.offset? a = some o) : m.offset? (m.canonical a) = some o := by
  rw [canonical_eq_shownAt h]
  exact offset?_shownAt (lt_size_of_offset? h)

theorem wrapAddress_wrapAddress (a : Int) : wrapAddress (wrapAddress a) = wrapAddress a := by
  unfold wrapAddress
  omega

theorem canonical_of_none (h : m.offset? a = none) : m.canonical a = wrapAddress a := by
  unfold canonical
  rw [h]

/-- An address shows what its canonical address shows, also if that is nothing. -/
theorem offset?_canonical_eq (m : AddressMap) (a : Int) :
    m.offset? (m.canonical a) = m.offset? a := by
  cases h : m.offset? a with
  | some o => exact offset?_canonical h
  | none =>
    -- an address without a byte stands for itself
    rw [canonical_of_none h, offset?_congr (wrapAddress_wrapAddress a)]
    exact h

/-- **Addresses with one canonical address show the same byte.** -/
theorem offset?_of_canonical_eq (ha : m.offset? a = some o) (h : m.canonical b = m.canonical a) :
    m.offset? b = some o := by
  rw [← offset?_canonical_eq m b, h, offset?_canonical_eq, ha]

/-! ## One address for each byte -/

theorem canonical_canonical (m : AddressMap) (a : Int) :
    m.canonical (m.canonical a) = m.canonical a := by
  cases h : m.offset? a with
  | some o => exact canonical_congr (offset?_canonical h) h
  | none =>
    have hnone : m.offset? (m.canonical a) = none := (m.offset?_canonical_eq a).trans h
    rw [canonical_of_none hnone, canonical_of_none h, wrapAddress_wrapAddress]

/-- An offset of the largest image is shown at an address of 24 bits: the last bank of `loRom` is
`$FF`, where `$7F` would stand. -/
theorem shownAt_bounds (m : AddressMap) (ho : o < maxImageSize) :
    0 ≤ m.shownAt o ∧ m.shownAt o < 0x1000000 := by
  have hmax : o < 0x400000 := ho
  unfold shownAt
  cases m.layout with
  | loRom =>
    dsimp only
    split <;> omega
  | hiRom =>
    dsimp only
    omega

theorem canonical_bounds (m : AddressMap) (a : Int) :
    0 ≤ m.canonical a ∧ m.canonical a < 0x1000000 := by
  cases h : m.offset? a with
  | some o =>
    rw [canonical_eq_shownAt h]
    exact m.shownAt_bounds (Nat.lt_of_lt_of_le (lt_size_of_offset? h) m.size_le)
  | none =>
    rw [canonical_of_none h]
    unfold wrapAddress
    omega

/-- Addresses that show bytes are mirrors of each other exactly if they show the same one. -/
theorem canonical_eq_iff (ha : m.shows a = true) :
    m.canonical a = m.canonical b ↔ m.offset? a = m.offset? b := by
  obtain ⟨o, ho⟩ := Option.isSome_iff_exists.1 ha
  constructor
  · intro h
    rw [ho, offset?_of_canonical_eq ho h.symm]
  · intro h
    exact canonical_congr ho (h ▸ ho)

/-- **Offsets and addresses correspond up to mirrors.** Each offset of the image has an address that
shows it. Each address shows an offset of the image or none, which depends on its low 24 bits only
and is what its canonical address shows. Canonical addresses stand for themselves and have 24 bits,
and two addresses that show bytes have the same one exactly if they show the same byte. -/
theorem bijection_up_to_mirrors (m : AddressMap) :
    (∀ o : Int, 0 ≤ o → o < m.size →
      ∃ a, m.addressOf o = .ok a ∧ m.offset? a = some o.toNat) ∧
    (∀ a, m.offset? a = none ∨ ∃ o < m.size, m.offset? a = some o) ∧
    (∀ a b : Int, a % 0x1000000 = b % 0x1000000 → m.offset? a = m.offset? b) ∧
    (∀ a, m.offset? (m.canonical a) = m.offset? a) ∧
    (∀ a, m.canonical (m.canonical a) = m.canonical a ∧
      0 ≤ m.canonical a ∧ m.canonical a < 0x1000000) ∧
    ∀ a b, m.shows a = true → m.shows b = true →
      (m.canonical a = m.canonical b ↔ m.offset? a = m.offset? b) := by
  refine ⟨fun o hlow hhigh => ?_, fun a => ?_, fun a b h => offset?_congr h,
    m.offset?_canonical_eq, fun a => ⟨m.canonical_canonical a, m.canonical_bounds a⟩,
    fun a b ha _ => canonical_eq_iff ha⟩
  · have hlt : o.toNat < m.size := by omega
    exact ⟨m.shownAt o.toNat, addressOf_eq_ok hlow hhigh, offset?_shownAt hlt⟩
  · cases h : m.offset? a with
    | none => exact .inl rfl
    | some o => exact .inr ⟨o, lt_size_of_offset? h, rfl⟩

/-- The largest image, in the layout that has to step aside for work RAM. -/
def wholeLoRom : AddressMap := ⟨.loRom, maxImageSize, .slow, by decide, by decide⟩

/-- Bank `$FE` shows the offset `$3F0000`, since `$7E` is work RAM. The lower half of bank `$40`
shows what the upper half of bank `$C0` does. -/
theorem bijection_up_to_mirrors_wholeLoRom :
    (∃ a, wholeLoRom.addressOf 0x3F0000 = .ok a ∧ wholeLoRom.offset? a = some 0x3F0000) ∧
      wholeLoRom.offset? (-1) = wholeLoRom.offset? 0xFFFFFF ∧
      wholeLoRom.canonical 0x400000 = wholeLoRom.canonical 0xC08000 := by
  obtain ⟨hround, -, hwrap, -, -, hiff⟩ := bijection_up_to_mirrors wholeLoRom
  refine ⟨hround 0x3F0000 (by decide) (by decide), hwrap _ _ (by decide), ?_⟩
  exact (hiff 0x400000 0xC08000 (by decide +kernel) (by decide +kernel)).2 (by decide +kernel)

end RomAtlas.AddressMap
