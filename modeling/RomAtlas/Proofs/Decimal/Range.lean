import Mathlib.Algebra.Group.Nat.Defs
import Mathlib.Algebra.Ring.Int.Defs
import RomAtlas.Decimal.Reading

/-!
# The range of floating-point numbers

A floating-point number has 53 binary digits and an exponent of at most 971. An integer that rounds
to more has none.

* `Decimal.isInf_toFloat`: **an integer has no floating-point number exactly if it is not below the
  middle between the greatest one and the next power of two.**
-/

namespace RomAtlas.Decimal

open Float.Model Float.Model.UnpackedFloat
open Float.Model.Format (binary64)

/-! ## Shifting and rounding -/

theorem mantissa_shift (em : ExtendedMantissa) (k : Nat) :
    (em >>> k).mantissa = em.mantissa / 2 ^ k := by
  induction k with
  | zero => exact (Nat.div_one _).symm
  | succ k ih =>
    have hstep : (em >>> (k + 1)).mantissa = (em >>> k).mantissa / 2 := rfl
    rw [hstep, ih, Nat.div_div_eq_div_mul, Nat.pow_succ]

/-- The round bit is the last digit that was shifted out. -/
theorem roundBit_shift (em : ExtendedMantissa) (k : Nat) :
    (em >>> (k + 1)).roundBit = (em.mantissa / 2 ^ k % 2 != 0) := by
  have hstep : (em >>> (k + 1)).roundBit = ((em >>> k).mantissa % 2 != 0) := rfl
  rw [hstep, mantissa_shift]

/-- Rounding adds at most one, and only behind a round bit; an odd mantissa it rounds up there. -/
theorem roundedMantissa_cases (em : ExtendedMantissa) :
    (em.roundedMantissa = em.mantissa ∧ (em.roundBit = true → em.mantissa % 2 = 0)) ∨
      em.roundedMantissa = em.mantissa + 1 ∧ em.roundBit = true := by
  obtain ⟨m, round, sticky⟩ := em
  cases round with
  | false => exact Or.inl ⟨by cases sticky <;> rfl, by simp⟩
  | true =>
    cases sticky with
    | false =>
      have htie : (ExtendedMantissa.mk m true false).roundedMantissa = m + m % 2 := rfl
      rcases Nat.mod_two_eq_zero_or_one m with hm | hm
      · exact Or.inl ⟨by rw [htie, hm, Nat.add_zero], fun _ => hm⟩
      · exact Or.inr ⟨by rw [htie, hm], rfl⟩
    | true => exact Or.inr ⟨rfl, rfl⟩

/-- How many binary digits rounding drops, so that 53 are left and the exponent is not below the
least one. -/
def dropped (m : Nat) (e : Int) : Nat := (max ((m.log2 : Int) + e - 52) (-1074) - e).toNat

/-- A mantissa rounded to the digits that are left; it may have got one digit more. -/
def rounded (m k : Nat) : Nat := (ExtendedMantissa.mk m false false >>> k).roundedMantissa

/-- What decides is the last digit that is dropped. -/
theorem rounded_succ_cases (m k : Nat) :
    (rounded m (k + 1) = m / 2 ^ k / 2 ∧ (m / 2 ^ k % 2 = 1 → m / 2 ^ k / 2 % 2 = 0)) ∨
      rounded m (k + 1) = m / 2 ^ k / 2 + 1 ∧ m / 2 ^ k % 2 = 1 := by
  have hmantissa : (ExtendedMantissa.mk m false false >>> (k + 1)).mantissa = m / 2 ^ k / 2 := by
    rw [mantissa_shift, Nat.div_div_eq_div_mul, Nat.pow_succ]
  have hbit : (ExtendedMantissa.mk m false false >>> (k + 1)).roundBit = true ↔
      m / 2 ^ k % 2 = 1 := by
    rw [roundBit_shift, bne_iff_ne]
    exact Nat.mod_two_ne_zero
  have hcases := roundedMantissa_cases (ExtendedMantissa.mk m false false >>> (k + 1))
  rwa [hmantissa, hbit] at hcases

/-- Nothing is rounded where only zeros are dropped. -/
theorem rounded_of_dvd {m k : Nat} (h : 2 ^ k ∣ m) : rounded m k = m / 2 ^ k := by
  cases k with
  | zero => exact (Nat.div_one m).symm
  | succ k =>
    obtain ⟨c, rfl⟩ := h
    have heven : 2 ^ (k + 1) * c / 2 ^ k = 2 * c := by
      rw [Nat.pow_succ, Nat.mul_assoc, Nat.mul_div_cancel_left _ (Nat.two_pow_pos k)]
    have hcases := rounded_succ_cases (2 ^ (k + 1) * c) k
    rw [heven] at hcases
    rw [Nat.mul_div_cancel_left _ (Nat.two_pow_pos (k + 1))]
    omega

theorem div_dropped_lt (m : Nat) (e : Int) : m / 2 ^ dropped m e < 2 ^ 53 := by
  rw [Nat.div_lt_iff_lt_mul (Nat.two_pow_pos _), ← Nat.pow_add]
  refine Nat.lt_of_lt_of_le Nat.lt_log2_self (Nat.pow_le_pow_right (by decide) ?_)
  unfold dropped
  omega

theorem shiftToTargetExponent_eq (m : Nat) (e : Int) :
    shiftToTargetExponent binary64 m e .exact =
      (ExtendedMantissa.mk m false false >>> dropped m e, e + dropped m e) := by
  have htarget : binary64.targetExponent (totalExponent m e) =
      max ((m.log2 : Int) + e - 52) (-1074) := by
    show max ((m.log2 : Int) + 1 + e - 53) (-1074) = _
    omega
  unfold shiftToTargetExponent shiftToExponent
  rw [htarget]
  rfl

/-- **What is rounded to.** One digit too many goes into the exponent. -/
theorem roundWithAccuracy_cases (s : Sign) {m k r : Nat} {e : Int} (hk : dropped m e = k)
    (hr : rounded m k = r) :
    (r = 0 ∧ roundWithAccuracy binary64 s m e .exact = .zero s) ∨
      ∃ m' hm', roundWithAccuracy binary64 s m e .exact =
        .finite s m' (e + k + (r.log2 - 52 : Nat)) hm' := by
  -- the result is shifted once more, by the digit that it may have too many
  have hcarry : dropped r (e + k) = r.log2 - 52 := by
    unfold dropped at hk ⊢
    omega
  unfold roundWithAccuracy
  rw [shiftToTargetExponent_eq, hk]
  dsimp only
  rw [show (ExtendedMantissa.mk m false false >>> k).roundedMantissa = r from hr,
    shiftToTargetExponent_eq, hcarry]
  dsimp only
  by_cases hzero : (ExtendedMantissa.mk r false false >>> (r.log2 - 52)).mantissa = 0
  · rw [dif_pos hzero]
    refine Or.inl ⟨?_, rfl⟩
    by_contra hne
    have hpow : 2 ^ (r.log2 - 52) ≤ 2 ^ r.log2 := Nat.pow_le_pow_right (by decide) (by omega)
    have hpos := Nat.div_pos (Nat.le_trans hpow (Nat.log2_self_le hne)) (Nat.two_pow_pos _)
    rw [mantissa_shift] at hzero
    exact absurd hzero (Nat.ne_of_gt hpos)
  · rw [dif_neg hzero]
    exact Or.inr ⟨_, Nat.pos_of_ne_zero hzero, rfl⟩

theorem log2_mul_two_pow {m : Nat} (hm : m ≠ 0) (k : Nat) : (m * 2 ^ k).log2 = m.log2 + k := by
  induction k with
  | zero => rw [Nat.pow_zero, Nat.mul_one, Nat.add_zero]
  | succ k ih =>
    have hne : m * 2 ^ k ≠ 0 := Nat.mul_ne_zero hm (Nat.ne_of_gt (Nat.two_pow_pos k))
    rw [Nat.pow_succ, ← Nat.mul_assoc, Nat.mul_comm, Nat.log2_two_mul hne, ih, Nat.add_assoc]

theorem log2_le_of_lt {r k : Nat} (h : r < 2 ^ (k + 1)) : r.log2 ≤ k := by
  rcases Nat.eq_zero_or_pos r with rfl | hpos
  · exact Nat.zero_le k
  · exact Nat.le_of_lt_succ ((Nat.log2_lt (Nat.ne_of_gt hpos)).2 h)

/-! ## Packing -/

theorem isInf_unpack_iff {spec : Float.Model.Format} {b : BitVec spec.numBits} :
    (UnpackedFloat.unpack spec b).isInf = true ↔
      unpackExponent b = -BitVec.ofNat _ 1 ∧ unpackMantissa b = BitVec.ofNat _ 0 := by
  unfold UnpackedFloat.unpack
  dsimp only
  by_cases he : unpackExponent b = -BitVec.ofNat _ 1
  · rw [if_pos he]
    by_cases hm : unpackMantissa b = BitVec.ofNat _ 0
    · rw [if_pos hm]
      exact iff_of_true rfl ⟨he, hm⟩
    · rw [if_neg hm]
      exact iff_of_false Bool.false_ne_true fun h => hm h.2
  · rw [if_neg he]
    refine iff_of_false ?_ fun h => he h.1
    by_cases hzero : unpackExponent b = BitVec.ofNat _ 0
    · rw [if_pos hzero]
      by_cases hm : unpackMantissa b = BitVec.ofNat _ 0
      · rw [dif_pos hm]
        exact Bool.false_ne_true
      · rw [dif_neg hm]
        exact Bool.false_ne_true
    · rw [if_neg hzero]
      exact Bool.false_ne_true

/-- A finite number is too large for the format exactly if its exponent is. -/
theorem isInf_pack_finite {s : Sign} {m : Nat} {e : Int} {hm : 0 < m} :
    (Float.Model.pack (.finite s m e hm)).isInf = true ↔ 972 ≤ e := by
  have hbound : 2 ^ binary64.exponentBits ≤
      (e + binary64.exponentBias + binary64.mantissaBitsWithoutImplicit).toNat + 1 ↔
        972 ≤ e := by
    show 2048 ≤ (e + (1023 : Nat) + (52 : Nat)).toNat + 1 ↔ 972 ≤ e
    omega
  show (UnpackedFloat.unpack _ (UnpackedFloat.pack _ _)).isInf = true ↔ _
  unfold UnpackedFloat.pack
  dsimp only
  split
  · next h =>
    rw [packedInfinity, isInf_unpack_iff, unpackExponent_packComponents,
      unpackMantissa_packComponents]
    exact iff_of_true ⟨rfl, rfl⟩ (hbound.1 h)
  · next h =>
    refine iff_of_false ?_ fun he => h (hbound.2 he)
    split
    · rw [isInf_unpack_iff, unpackExponent_packComponents]
      rintro ⟨he, -⟩
      have hbits : (e + (1023 : Nat) + (52 : Nat)).toNat % 2048 = 2047 := congrArg BitVec.toNat he
      have hsmall : ¬ 2048 ≤ (e + (1023 : Nat) + (52 : Nat)).toNat + 1 := h
      omega
    · rw [isInf_unpack_iff, unpackExponent_packComponents]
      rintro ⟨he, -⟩
      exact absurd he (by decide)

/-- The finite numbers of the format. -/
theorem bounds_of_unpack {x : Float.Model} {s : Sign} {m : Nat} {e : Int} {hm : 0 < m}
    (h : x.unpack = .finite s m e hm) : m < 2 ^ 53 ∧ -1074 ≤ e ∧ e ≤ 971 := by
  have hmantissa : (@unpackMantissa binary64 x.toBits.toBitVec).toNat < 2 ^ 52 :=
    BitVec.isLt _
  unfold Float.Model.unpack UnpackedFloat.unpack at h
  dsimp only at h
  generalize @unpackExponent binary64 x.toBits.toBitVec = exponent at h
  have hexponent : exponent.toNat < 2 ^ 11 := exponent.isLt
  by_cases hones : exponent = -BitVec.ofNat 11 1
  · rw [if_pos hones] at h
    by_cases hzero : @unpackMantissa binary64 x.toBits.toBitVec = BitVec.ofNat 52 0
    · rw [if_pos hzero] at h
      cases h
    · rw [if_neg hzero] at h
      cases h
  have hne : exponent.toNat ≠ 2047 := fun heq => hones (BitVec.eq_of_toNat_eq heq)
  rw [if_neg hones] at h
  by_cases hleast : exponent = BitVec.ofNat 11 0
  · have he : (exponent.toNat : Int) - (binary64.exponentBias + (52 : Nat)) + 1 = -1074 := by
      rw [hleast]
      rfl
    rw [if_pos hleast] at h
    by_cases hzero : @unpackMantissa binary64 x.toBits.toBitVec = BitVec.ofNat 52 0
    · rw [dif_pos hzero] at h
      cases h
    · rw [dif_neg hzero] at h
      cases h
      exact ⟨by omega, by omega, by omega⟩
  · have hpos : exponent.toNat ≠ 0 := fun heq => hleast (BitVec.eq_of_toNat_eq heq)
    have hbias : ((binary64.exponentBias : Nat) : Int) = 1023 := rfl
    rw [if_neg hleast] at h
    cases h
    exact ⟨BitVec.isLt _, by omega, by omega⟩

/-! ## Operations -/

/-- Rounding gives a number that is too large exactly if the exponent comes out too large. -/
theorem isInf_pack_round (s : Sign) {m k r : Nat} {e : Int} (hk : dropped m e = k)
    (hr : rounded m k = r) (hpos : r ≠ 0) :
    (Float.Model.pack (roundWithAccuracy binary64 s m e .exact)).isInf = true ↔
      972 ≤ e + k + (r.log2 - 52 : Nat) := by
  rcases roundWithAccuracy_cases s hk hr with ⟨hzero, -⟩ | ⟨m', hm', hround⟩
  · exact absurd hzero hpos
  · rw [hround, isInf_pack_finite]

theorem isInf_neg (x : Float) : (-x).isInf = x.isInf := by
  show (Float.Model.pack x.toModel.unpack.neg).isInf = x.toModel.unpack.isInf
  cases hx : x.toModel.unpack with
  | infinity s => cases s <;> rfl
  | notANumber => rfl
  | zero s => cases s <;> rfl
  | finite s m e hm =>
    have hbounds := bounds_of_unpack hx
    show (Float.Model.pack (.finite (-s) m e hm)).isInf = false
    rw [← Bool.not_eq_true, isInf_pack_finite]
    omega

theorem unpack_one : Float.exactlyRepresentablePowersOfTen[0].toModel.unpack =
    .finite .positive (2 ^ 52) (-52) (by decide) := rfl

/-- Multiplying by one is exact, so nothing finite becomes too large. -/
theorem isInf_mul_one {x : Float.Model} (h : x.isInf = false) :
    (x * Float.exactlyRepresentablePowersOfTen[0].toModel).isInf = false := by
  have hmul : ∀ y : Float.Model,
      (x * y).isInf = (Float.Model.pack (UnpackedFloat.mul binary64 x.unpack y.unpack)).isInf :=
    fun _ => rfl
  have hfinite : x.unpack.isInf = false := h
  rw [hmul, unpack_one]
  cases hx : x.unpack with
  | infinity s =>
    rw [hx] at hfinite
    cases hfinite
  | notANumber => rfl
  | zero s => cases s <;> rfl
  | finite s m e hm =>
    obtain ⟨hlt, hlow, hhigh⟩ := bounds_of_unpack hx
    have hne : m ≠ 0 := Nat.ne_of_gt hm
    have hlog : (m * 2 ^ 52).log2 = m.log2 + 52 := log2_mul_two_pow hne 52
    have hdigits : m.log2 ≤ 52 := log2_le_of_lt hlt
    -- at most the 52 zeros are dropped
    obtain ⟨k, hk⟩ : ∃ k, dropped (m * 2 ^ 52) (e + -52) = k := ⟨_, rfl⟩
    have hle : k ≤ 52 := by
      unfold dropped at hk
      omega
    have hdvd : 2 ^ k ∣ m * 2 ^ 52 := Nat.dvd_mul_left_of_dvd (Nat.pow_dvd_pow 2 hle) m
    have hr := rounded_of_dvd hdvd
    have hsmall := hk ▸ div_dropped_lt (m * 2 ^ 52) (e + -52)
    have hpos : m * 2 ^ 52 / 2 ^ k ≠ 0 :=
      Nat.ne_of_gt (Nat.div_pos (Nat.le_of_dvd (by omega) hdvd) (Nat.two_pow_pos k))
    have hcarry := log2_le_of_lt hsmall
    show (Float.Model.pack (roundWithAccuracy binary64 (s * .positive) (m * 2 ^ 52) (e + -52)
      .exact)).isInf = false
    rw [← Bool.not_eq_true, isInf_pack_round _ hk hr hpos]
    unfold dropped at hk
    omega

/-- An integer with at most 53 digits is converted without overflow. -/
theorem isInf_ofUInt64 {n : Nat} (hpos : 0 < n) (hn : n < 2 ^ 53) :
    (Float.Model.ofUInt64 n.toUInt64).isInf = false := by
  have hdigits : n.log2 ≤ 52 := log2_le_of_lt hn
  have hround : Float.Model.ofUInt64 n.toUInt64 = Float.Model.pack (roundWithAccuracy binary64
      .positive (n * 2 ^ (52 - n.log2)) (0 - (52 - n.log2 : Nat)) .exact) := by
    have hvalue : n.toUInt64.toNat = n := 
      UInt64.toNat_ofNat_of_lt (Nat.lt_of_lt_of_le hn (by decide))
    have hgt : compare (n : Int) 0 = .gt := Int.compare_eq_gt.2 (by omega)
    have htarget : (0 - binary64.targetExponent (totalExponent n 0)).toNat = 52 - n.log2 := by
      show (0 - max ((n.log2 : Int) + 1 + 0 - 53) (-1074)).toNat = _
      omega
    show Float.Model.pack
      (UnpackedFloat.normalize binary64 (n.toUInt64.toNat : Int) 0 .positive) = _
    rw [hvalue, UnpackedFloat.normalize, hgt]
    dsimp only
    rw [Int.toNat_natCast, UnpackedFloat.round, decreaseExponent, htarget]
    dsimp only
    rw [Nat.shiftLeft_eq]
  have hlog : (n * 2 ^ (52 - n.log2)).log2 = 52 := by
    rw [log2_mul_two_pow (Nat.ne_of_gt hpos)]
    omega
  have hk : dropped (n * 2 ^ (52 - n.log2)) (0 - (52 - n.log2 : Nat)) = 0 := by
    unfold dropped
    omega
  have hr : rounded (n * 2 ^ (52 - n.log2)) 0 = n * 2 ^ (52 - n.log2) := rfl
  have hmantissa : 0 < n * 2 ^ (52 - n.log2) := Nat.mul_pos hpos (Nat.two_pow_pos _)
  rw [hround, ← Bool.not_eq_true, isInf_pack_round _ hk hr (Nat.ne_of_gt hmantissa)]
  omega

/-! ## Integers -/

/-- The least integer without a floating-point number: the middle between the greatest one and the
next power of two. -/
def overflow : Nat := 2 ^ 1024 - 2 ^ 970

theorem overflow_eq : overflow = (2 ^ 54 - 1) * 2 ^ 970 := by
  rw [overflow, Nat.sub_mul, ← Nat.pow_add, Nat.one_mul]

/-- The first 54 digits of an integer. -/
theorem leading_bounds {n j : Nat} (hne : n ≠ 0) (hj : n.log2 = 53 + j) :
    2 ^ 53 ≤ n / 2 ^ j ∧ n / 2 ^ j < 2 ^ 54 := by
  have hlow := Nat.log2_self_le hne
  have hhigh : n < 2 ^ (n.log2 + 1) := Nat.lt_log2_self
  rw [hj, Nat.pow_add] at hlow
  rw [hj, Nat.add_right_comm, Nat.pow_add] at hhigh
  exact ⟨(Nat.le_div_iff_mul_le (Nat.two_pow_pos j)).2 hlow,
    (Nat.div_lt_iff_lt_mul (Nat.two_pow_pos j)).2 hhigh⟩

/-- An integer reaches 54 ones and `t` zeros if it has more digits, or as many and starts so. -/
theorem ones_le_iff {n j : Nat} (hne : n ≠ 0) (hj : n.log2 = 53 + j) (t : Nat) :
    (2 ^ 54 - 1) * 2 ^ t ≤ n ↔ t < j ∨ j = t ∧ n / 2 ^ j = 2 ^ 54 - 1 := by
  obtain ⟨hlow, hhigh⟩ := leading_bounds hne hj
  rw [Nat.le_div_iff_mul_le (Nat.two_pow_pos j)] at hlow
  rcases Nat.lt_trichotomy j t with hlt | rfl | hgt
  · have hpow : 2 ^ (j + 1) ≤ 2 ^ t := Nat.pow_le_pow_right (by decide) hlt
    rw [Nat.div_lt_iff_lt_mul (Nat.two_pow_pos j)] at hhigh
    rw [Nat.pow_succ] at hpow
    omega
  · rw [← Nat.le_div_iff_mul_le (Nat.two_pow_pos j)]
    omega
  · have hpow : 2 ^ (t + 1) ≤ 2 ^ j := Nat.pow_le_pow_right (by decide) hgt
    rw [Nat.pow_succ] at hpow
    omega

/-- Which integers of more than 53 digits are too large. Only those of 1024 digits depend on the
rounding, which carries into one more digit if the first 54 are ones. -/
theorem isInf_pack_round_iff {s : Sign} {n : Nat} (hn : 2 ^ 53 ≤ n) :
    (Float.Model.pack (roundWithAccuracy binary64 s (n * 2 ^ 53) (-53) .exact)).isInf = true ↔
      overflow ≤ n := by
  have hne : n ≠ 0 := by omega
  have hlog : (n * 2 ^ 53).log2 = n.log2 + 53 := log2_mul_two_pow hne 53
  obtain ⟨j, hj⟩ : ∃ j, n.log2 = 53 + j := Nat.exists_eq_add_of_le ((Nat.le_log2 hne).2 hn)
  have hk : dropped (n * 2 ^ 53) (-53) = 53 + j + 1 := by
    unfold dropped
    omega
  have hquot : n * 2 ^ 53 / 2 ^ (53 + j) = n / 2 ^ j := by
    rw [Nat.pow_add, Nat.mul_comm, Nat.mul_div_mul_left _ _ (Nat.two_pow_pos 53)]
  obtain ⟨hlow, hhigh⟩ := leading_bounds hne hj
  have hcases := rounded_succ_cases (n * 2 ^ 53) (53 + j)
  rw [hquot] at hcases
  obtain ⟨r, hr⟩ : ∃ r, rounded (n * 2 ^ 53) (53 + j + 1) = r := ⟨_, rfl⟩
  rw [hr] at hcases
  rw [isInf_pack_round s hk hr (by omega), overflow_eq,
    ones_le_iff hne hj]
  by_cases hones : n / 2 ^ j = 2 ^ 54 - 1
  · have hcarry : r = 2 ^ 53 := by omega
    have hdigits : r.log2 = 53 := by
      rw [hcarry]
      exact Nat.log2_two_pow
    omega
  · have hdigits : r.log2 ≤ 52 := log2_le_of_lt (by omega)
    omega

theorem ofScientific_eq {n : Nat} (hne : n ≠ 0) :
    Float.Model.ofScientific n 0 =
      Float.Model.pack (roundWithAccuracy binary64 .positive (n * 2 ^ 53) (-53) .exact) := by
  unfold Float.Model.ofScientific UnpackedFloat.ofScientific
  have hsmall : ¬ (0 : Int) < -(2 ^ binary64.exponentBits + (n.log2 : Int)) := by
    show ¬ (0 : Int) < -(2 ^ 11 + (n.log2 : Int))
    omega
  rw [dif_neg hne, if_neg (by decide), if_neg hsmall, if_pos (Int.le_refl 0)]
  show Float.Model.pack (roundWithAccuracy binary64 .positive (n <<< 53 * 1) (-53) .exact) = _
  rw [Nat.mul_one, Nat.shiftLeft_eq]

theorem isInf_ofScientific {n : Nat} (hpos : 0 < n) :
    (Float.ofScientific n false 0).isInf = true ↔ overflow ≤ n := by
  unfold Float.ofScientific
  split
  · next hsmall =>
    -- a short integer is converted as a word and multiplied by one
    have hbound : 2 ^ 53 ≤ overflow := by decide +kernel
    have hfinite := isInf_mul_one (isInf_ofUInt64 hpos hsmall.1)
    exact iff_of_false (Bool.eq_false_iff.1 hfinite) (by omega)
  · next hlong =>
    show (Float.Model.ofScientific n 0).isInf = true ↔ _
    rw [ofScientific_eq (Nat.ne_of_gt hpos)]
    exact isInf_pack_round_iff (by omega)

/-- **An integer has no floating-point number exactly if it is not below the middle between the
greatest one and the next power of two.** -/
theorem isInf_toFloat (negative : Bool) (n : Nat) :
    (toFloat negative n 0).isInf = true ↔ overflow ≤ n := by
  have hsign : ∀ x : Float, (if negative then -x else x).isInf = x.isInf := by
    intro x
    cases negative with
    | false => rfl
    | true => exact isInf_neg x
  have hlength : ∀ k, 0 < k → k < (Nat.toDigits 10 n).length → 10 ^ k ≤ n := by
    intro k hpos hk
    by_contra hlt
    have hle := (Nat.length_toDigits_le_iff (by decide) hpos).2 (Nat.not_le.1 hlt)
    omega
  unfold toFloat
  dsimp only
  rw [hsign]
  split
  · next h =>
    obtain rfl : n = 0 := by omega
    exact iff_of_false (by decide) (by decide +kernel)
  · next hsome =>
    split
    · next h =>
      have hlarge : overflow ≤ 10 ^ 400 := by decide +kernel
      have hpow := hlength 400 (by decide) (by omega)
      exact iff_of_true (by decide +kernel) (Nat.le_trans hlarge hpow)
    · exact isInf_ofScientific (by omega)

end RomAtlas.Decimal
