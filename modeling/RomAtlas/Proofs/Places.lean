import RomAtlas.Proofs.Decode

/-!
# Places of addresses

Both layouts place an address by the number of its bank and its position in the bank. Banks `$80`
and up repeat those from `$00` on, except where work RAM is, and in `hiRom` banks `$40` and up
repeat them once more.

* `place?_loRom_eq_some_iff`, `place?_hiRom_eq_some_iff`: whether and where an address is placed.
* `place?_stepInBank_of_loRom`: **in `loRom` mirrors show the same bytes around them.**
* `offset?_add`: **addresses in a row show offsets in a row** if their ends do, except where `hiRom`
  hides the lower half of a system bank between them.
-/

namespace RomAtlas

/-! ## Banks and positions -/

/-- The number of the bank of an address. -/
def bankNumber (a : Int) : Nat := (a / 0x10000 % 0x100).toNat

/-- The position of an address in its bank. -/
def bankPosition (a : Int) : Nat := (a % 0x10000).toNat

theorem bankNumber_lt (a : Int) : bankNumber a < 0x100 := by
  unfold bankNumber
  omega

theorem bankPosition_lt (a : Int) : bankPosition a < 0x10000 := by
  unfold bankPosition
  omega

theorem wrapAddress_eq (a : Int) :
    wrapAddress a = ((bankNumber a * 0x10000 + bankPosition a : Nat) : Int) := by
  unfold wrapAddress bankNumber bankPosition
  omega

theorem bankBase_eq (a : Int) : bankBase a = ((bankNumber a * 0x10000 : Nat) : Int) := by
  unfold bankBase wrapAddress bankNumber
  omega

/-- The address of a position in a bank. -/
theorem bank_and_position {a : Int} {p : Nat} (hp : p < 0x10000) :
    bankNumber (bankBase a + p) = bankNumber a ∧ bankPosition (bankBase a + p) = p := by
  have hn := bankNumber_lt a
  rw [bankBase_eq]
  generalize bankNumber a = n at hn ⊢
  unfold bankNumber bankPosition
  omega

theorem bankNumber_stepInBank (a d : Int) : bankNumber (stepInBank a d) = bankNumber a := by
  have hp : ((a + d) % 0x10000).toNat < 0x10000 := by omega
  have hstep : stepInBank a d = bankBase a + (((a + d) % 0x10000).toNat : Int) := by
    unfold stepInBank
    omega
  rw [hstep]
  exact (bank_and_position hp).1

theorem bankPosition_stepInBank (a d : Int) :
    bankPosition (stepInBank a d) = ((bankPosition a + d) % 0x10000).toNat := by
  have hp : ((a + d) % 0x10000).toNat < 0x10000 := by omega
  have hstep : stepInBank a d = bankBase a + (((a + d) % 0x10000).toNat : Int) := by
    unfold stepInBank
    omega
  rw [hstep, (bank_and_position hp).2]
  unfold bankPosition
  omega

theorem bankPosition_add (a : Int) (k : Nat) :
    bankPosition (a + k) = (bankPosition a + k) % 0x10000 := by
  unfold bankPosition
  omega

theorem bankNumber_add (a : Int) (k : Nat) :
    bankNumber (a + k) = (bankNumber a + (bankPosition a + k) / 0x10000) % 0x100 := by
  unfold bankNumber bankPosition
  omega

namespace AddressMap

variable {a b : Int} {o d k : Nat}

/-! ## Where an address is placed -/

/-- **Where `loRom` places an address**: a bank shows 32 KiB in its upper half, and again in its
lower half if it is neither a system bank nor one with save RAM. -/
theorem place?_loRom_eq_some_iff : place? .loRom a = some o ↔
    (bankNumber a ≠ 0x7E ∧ bankNumber a ≠ 0x7F) ∧
    (bankPosition a < 0x8000 → 0x40 ≤ bankNumber a % 0x80 ∧ bankNumber a % 0x80 < 0x70) ∧
    o = bankNumber a % 0x80 * 0x8000 + bankPosition a % 0x8000 := by
  have hp := bankPosition_lt a
  unfold place?
  rw [wrapAddress_eq, Int.toNat_natCast]
  generalize bankNumber a = n
  generalize bankPosition a = p at hp ⊢
  have hbank : (n * 0x10000 + p) / 0x10000 = n := by omega
  have hpos : (n * 0x10000 + p) % 0x10000 = p := by omega
  have hhalf : (n * 0x10000 + p) % 0x8000 = p % 0x8000 := by omega
  dsimp only
  rw [hbank, hpos, hhalf]
  split
  · next hram => exact ⟨nofun, fun h => absurd hram (not_or.2 h.1)⟩
  next hram =>
  split
  · next hsystem => exact ⟨nofun, fun h => absurd (h.2.1 hsystem.2).1 (Nat.not_le.2 hsystem.1)⟩
  next hsystem =>
  split
  · next hsave => exact ⟨nofun, fun h => absurd (h.2.1 hsave.2).2 (Nat.not_lt.2 hsave.1)⟩
  next hsave =>
  rw [Option.some.injEq, eq_comm]
  refine ⟨fun h => ⟨not_or.1 hram, fun hlow => ⟨?_, ?_⟩, h⟩, fun h => h.2.2⟩
  · exact Nat.le_of_not_lt fun hlt => hsystem ⟨hlt, hlow⟩
  · exact Nat.lt_of_not_le fun hle => hsave ⟨hle, hlow⟩

/-- **Where `hiRom` places an address**: a bank shows 64 KiB, but a system bank shows only the upper
half of them. -/
theorem place?_hiRom_eq_some_iff : place? .hiRom a = some o ↔
    (bankNumber a ≠ 0x7E ∧ bankNumber a ≠ 0x7F) ∧
    (bankPosition a < 0x8000 → 0x40 ≤ bankNumber a % 0x80) ∧
    o = bankNumber a % 0x40 * 0x10000 + bankPosition a := by
  have hp := bankPosition_lt a
  unfold place?
  rw [wrapAddress_eq, Int.toNat_natCast]
  generalize bankNumber a = n
  generalize bankPosition a = p at hp ⊢
  have hbank : (n * 0x10000 + p) / 0x10000 = n := by omega
  have hpos : (n * 0x10000 + p) % 0x10000 = p := by omega
  have hsize : (n * 0x10000 + p) % 0x400000 = n % 0x40 * 0x10000 + p := by omega
  dsimp only
  rw [hbank, hpos, hsize]
  split
  · next hram => exact ⟨nofun, fun h => absurd hram (not_or.2 h.1)⟩
  next hram =>
  split
  · next hsystem => exact ⟨nofun, fun h => absurd (h.2.1 hsystem.2) (Nat.not_le.2 hsystem.1)⟩
  next hsystem =>
  rw [Option.some.injEq, eq_comm]
  refine ⟨fun h => ⟨not_or.1 hram, fun hlow => ?_, h⟩, fun h => h.2.2⟩
  exact Nat.le_of_not_lt fun hlt => hsystem ⟨hlt, hlow⟩

/-! ## Mirrors -/

/-- **In `loRom` mirrors show the same bytes around them**, and show none at the same distances. -/
theorem place?_stepInBank_of_loRom (ha : place? .loRom a = some o) (hb : place? .loRom b = some o)
    (d : Int) : place? .loRom (stepInBank a d) = place? .loRom (stepInBank b d) := by
  obtain ⟨hrama, hlowa, hoa⟩ := place?_loRom_eq_some_iff.1 ha
  obtain ⟨hramb, hlowb, hob⟩ := place?_loRom_eq_some_iff.1 hb
  have hpa := bankPosition_lt a
  have hpb := bankPosition_lt b
  have hnumber : bankNumber a % 0x80 = bankNumber b % 0x80 := by omega
  have hhalf : bankPosition a % 0x8000 = bankPosition b % 0x8000 := by omega
  ext p
  rw [place?_loRom_eq_some_iff, place?_loRom_eq_some_iff, bankNumber_stepInBank,
    bankNumber_stepInBank, bankPosition_stepInBank, bankPosition_stepInBank, hnumber]
  refine and_congr (iff_of_true hrama hramb) ?_
  by_cases hboth : 0x40 ≤ bankNumber b % 0x80 ∧ bankNumber b % 0x80 < 0x70
  · -- a bank that shows its 32 KiB twice
    have hsame : ((bankPosition a + d) % 0x10000).toNat % 0x8000 =
        ((bankPosition b + d) % 0x10000).toNat % 0x8000 := by omega
    rw [hsame]
    exact and_congr_left' (iff_of_true (fun _ => hboth) fun _ => hboth)
  · -- in any other bank both addresses are in the upper half
    have hsame : bankPosition a = bankPosition b := by
      have hupa : ¬ bankPosition a < 0x8000 := fun hlow => hboth (hnumber ▸ hlowa hlow)
      have hupb : ¬ bankPosition b < 0x8000 := fun hlow => hboth (hlowb hlow)
      omega
    rw [hsame]

/-! ## Addresses in a row -/

/-- An address in the lower half of a system bank, which `hiRom` does not show though the offsets of
the bank have a place for it. -/
def Hidden (l : Layout) (a : Int) : Prop :=
  l = .hiRom ∧ bankNumber a % 0x80 < 0x40 ∧ bankPosition a < 0x8000

theorem place?_of_hidden {l : Layout} (h : Hidden l a) : place? l a = none := by
  obtain ⟨rfl, hbank, hposition⟩ := h
  refine Option.eq_none_iff_forall_ne_some.2 fun o ho => ?_
  have hle := (place?_hiRom_eq_some_iff.1 ho).2.1 hposition
  omega

/-- **In `loRom` addresses in a row show offsets in a row** if their ends do. They stay in one half
of a bank, or go from the upper half of a bank to the lower half of the next one. -/
theorem place?_add_of_loRom (ha : place? .loRom a = some o)
    (hend : place? .loRom (a + d) = some (o + d)) (hk : k ≤ d) :
    place? .loRom (a + k) = some (o + k) := by
  obtain ⟨hram, hlow, ho⟩ := place?_loRom_eq_some_iff.1 ha
  obtain ⟨hram', hlow', ho'⟩ := place?_loRom_eq_some_iff.1 hend
  refine place?_loRom_eq_some_iff.2 ?_
  have hp := bankPosition_lt a
  have hn := bankNumber_lt a
  simp only [bankNumber_add, bankPosition_add] at hram' hlow' ho' ⊢
  generalize bankNumber a = n at *
  generalize bankPosition a = p at *
  subst ho
  have hreach : p + d < 0x8000 ∨ 0x8000 ≤ p ∧ p + d < 0x18000 := by omega
  by_cases hnext : p + k < 0x10000
  · have hsame : (n + (p + k) / 0x10000) % 0x100 = n := by omega
    rw [hsame]
    exact ⟨hram, fun hlow₁ => hlow (by omega), by omega⟩
  · have hsame : (p + k) / 0x10000 = (p + d) / 0x10000 := by omega
    rw [hsame]
    have hupper := hlow' (by omega)
    exact ⟨hram', fun _ => hupper, by omega⟩

theorem place?_add_of_hiRom (ha : place? .hiRom a = some o)
    (hend : place? .hiRom (a + d) = some (o + d)) (hk : k ≤ d) (hidden : ¬ Hidden .hiRom (a + k)) :
    place? .hiRom (a + k) = some (o + k) := by
  obtain ⟨hram, hlow, ho⟩ := place?_hiRom_eq_some_iff.1 ha
  obtain ⟨hram', hlow', ho'⟩ := place?_hiRom_eq_some_iff.1 hend
  refine place?_hiRom_eq_some_iff.2 ?_
  have hp := bankPosition_lt a
  have hn := bankNumber_lt a
  have hshown : bankPosition (a + k) < 0x8000 → 0x40 ≤ bankNumber (a + k) % 0x80 :=
    fun hposition => Nat.le_of_not_lt fun hbank => hidden ⟨rfl, hbank, hposition⟩
  refine ⟨?_, hshown, ?_⟩
  all_goals
    simp only [bankNumber_add, bankPosition_add] at hram' ho' ⊢
    generalize bankNumber a = n at *
    generalize bankPosition a = p at *
    subst ho
    have hreach : n % 0x40 + (p + d) / 0x10000 < 0x40 := by omega
    have hle : (p + k) / 0x10000 ≤ (p + d) / 0x10000 := by omega
    omega

/-- A row that stays in its bank has no hidden address. -/
theorem not_hidden_of_bankNumber_eq {l : Layout} (ha : place? l a = some o)
    (hend : place? l (a + d) = some (o + d)) (hk : k ≤ d)
    (hbank : bankNumber (a + d) = bankNumber a) : ¬ Hidden l (a + k) := by
  rintro ⟨rfl, hsystem, hposition⟩
  obtain ⟨-, hlow, ho⟩ := place?_hiRom_eq_some_iff.1 ha
  obtain ⟨-, -, ho'⟩ := place?_hiRom_eq_some_iff.1 hend
  have hp := bankPosition_lt a
  have hn := bankNumber_lt a
  rw [hbank, bankPosition_add] at ho'
  rw [bankNumber_add] at hsystem
  rw [bankPosition_add] at hposition
  have hle := hlow (by omega)
  omega

variable {m : AddressMap}

theorem place?_of_offset? (h : m.offset? a = some o) : place? m.layout a = some o :=
  (Option.filter_eq_some_iff.1 h).1

theorem offset?_of_hidden (h : Hidden m.layout a) : m.offset? a = none := by
  unfold offset?
  rw [place?_of_hidden h]
  rfl

/-- **Addresses in a row show offsets in a row** if their ends do and none of them is hidden. -/
theorem offset?_add (ha : m.offset? a = some o) (hend : m.offset? (a + d) = some (o + d))
    (hk : k ≤ d) (hidden : ¬ Hidden m.layout (a + k)) : m.offset? (a + k) = some (o + k) := by
  have hlt := lt_size_of_offset? hend
  have hpa := place?_of_offset? ha
  have hpend := place?_of_offset? hend
  refine Option.filter_eq_some_iff.2 ⟨?_, decide_eq_true (by omega)⟩
  cases hl : m.layout with
  | loRom =>
    rw [hl] at hpa hpend
    exact place?_add_of_loRom hpa hpend hk
  | hiRom =>
    rw [hl] at hpa hpend hidden
    exact place?_add_of_hiRom hpa hpend hk hidden

end AddressMap

end RomAtlas
