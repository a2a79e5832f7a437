import Mathlib.Algebra.Group.Nat.Defs
import Mathlib.Algebra.Ring.Int.Defs
import RomAtlas.Numeral
import RomAtlas.Text.Hex

/-!
# Reading hexadecimal text

Padded upper-case digits are read back as the number that they spell, so texts that hold them tell
their numbers.

* `Hex.ofDigits_padded`: the digits read back as the number.
* `Hex.length_padded`: a number that fits has exactly the digits of the width.
* `Hex.padded_inj`: **padded texts tell their numbers.**
-/

namespace RomAtlas.Hex

theorem digit?_upperDigit {d : Nat} (h : d < 16) : Numeral.digit? 16 (upperDigit d) = some d := by
  have hall : ∀ d < 16, Numeral.digit? 16 (upperDigit d) = some d := by decide
  exact hall d h

/-- Upper-case digits read back as the number that they spell. -/
theorem ofDigits_digits (n : Nat) :
    Numeral.ofDigits 16 ((digits upperDigit n).filterMap (Numeral.digit? 16)) = n := by
  fun_induction digits upperDigit n with
  | case1 n hn =>
    simp [digit?_upperDigit hn, Numeral.ofDigits]
  | case2 n hn ih =>
    have hlast : n % 16 < 16 := Nat.mod_lt _ (by decide)
    unfold Numeral.ofDigits at ih ⊢
    rw [List.filterMap_append, List.foldl_append, ih]
    simp only [List.filterMap_cons, digit?_upperDigit hlast, List.filterMap_nil, List.foldl_cons,
      List.foldl_nil]
    omega

theorem length_digits_le {n k : Nat} (hk : 0 < k) (h : n < 16 ^ k) :
    (digits upperDigit n).length ≤ k := by
  induction k generalizing n with
  | zero => omega
  | succ k ih =>
    unfold digits
    split
    · exact hk
    · next hn =>
      have hk : 0 < k := by
        rcases Nat.eq_zero_or_pos k with rfl | hk
        · omega
        · exact hk
      have hdiv : n / 16 < 16 ^ k := by
        rw [Nat.div_lt_iff_lt_mul (by decide), ← Nat.pow_succ]
        exact h
      rw [List.length_append, List.length_singleton]
      exact Nat.succ_le_succ (ih hk hdiv)

theorem exists_of_mem_digits {n : Nat} {ch : Char} (h : ch ∈ digits upperDigit n) :
    ∃ d < 16, ch = upperDigit d := by
  fun_induction digits upperDigit n with
  | case1 n hn => exact ⟨n, hn, List.mem_singleton.1 h⟩
  | case2 n hn ih =>
    rcases List.mem_append.1 h with h | h
    · exact ih h
    · exact ⟨n % 16, Nat.mod_lt _ (by decide), List.mem_singleton.1 h⟩

theorem toList_padded {width : Nat} {a : Int} (h : 0 ≤ a) :
    (padded width a).toList = fill width (digits upperDigit a.toNat) := by
  unfold padded
  dsimp only
  rw [String.toList_ofList, if_neg (by omega), ← Int.toNat_natCast a.natAbs, Int.natAbs_of_nonneg h]

/-- The zeros in front do not change the number. -/
theorem ofDigits_padded {width : Nat} {a : Int} (h : 0 ≤ a) :
    Numeral.ofDigits 16 ((padded width a).toList.filterMap (Numeral.digit? 16)) = a.toNat := by
  have hzeros : ∀ k, (List.replicate k '0').filterMap (Numeral.digit? 16) = List.replicate k 0 :=
    fun k => List.filterMap_replicate_of_some rfl
  have hfold : ∀ k, (List.replicate k 0).foldl (fun n d => n * 16 + d) 0 = 0 := by
    intro k
    induction k with
    | zero => rfl
    | succ k ih => exact ih
  have hdigits := ofDigits_digits a.toNat
  unfold Numeral.ofDigits at hdigits ⊢
  rw [toList_padded h, fill, List.filterMap_append, hzeros, List.foldl_append, hfold, hdigits]

theorem length_padded {width : Nat} (hw : 0 < width) {a : Int} (hlow : 0 ≤ a)
    (hhigh : a < 16 ^ width) : (padded width a).toList.length = width := by
  have hlt : a.toNat < 16 ^ width := (Int.toNat_lt hlow).2 (by exact_mod_cast hhigh)
  have hle := length_digits_le hw hlt
  rw [toList_padded hlow, fill, List.length_append, List.length_replicate]
  omega

theorem exists_of_mem_padded {width : Nat} {a : Int} (h : 0 ≤ a) {ch : Char}
    (hch : ch ∈ (padded width a).toList) : ∃ d < 16, ch = upperDigit d := by
  rw [toList_padded h, fill] at hch
  rcases List.mem_append.1 hch with hch | hch
  · exact ⟨0, by decide, List.eq_of_mem_replicate hch⟩
  · exact exists_of_mem_digits hch

/-- **Padded texts tell their numbers.** -/
theorem padded_inj {width width' : Nat} {a b : Int} (ha : 0 ≤ a) (hb : 0 ≤ b)
    (h : padded width a = padded width' b) : a = b := by
  have hvalue : a.toNat = b.toNat :=
    calc a.toNat
      _ = Numeral.ofDigits 16 ((padded width a).toList.filterMap (Numeral.digit? 16)) :=
        (ofDigits_padded ha).symm
      _ = Numeral.ofDigits 16 ((padded width' b).toList.filterMap (Numeral.digit? 16)) := by rw [h]
      _ = b.toNat := ofDigits_padded hb
  omega

theorem address_inj {a b : Int} (ha : 0 ≤ a) (hb : 0 ≤ b) (h : address a = address b) : a = b := by
  unfold address at h
  have hlist := congrArg String.toList h
  rw [String.toList_append, String.toList_append] at hlist
  exact padded_inj ha hb (String.toList_inj.1 (List.append_cancel_left hlist))

theorem length_byte (b : UInt8) : (byte b).toList.length = 2 := by
  have hb := b.toNat_lt
  exact length_padded (by decide) (Int.natCast_nonneg _) (by omega)

theorem byte_inj {b b' : UInt8} (h : byte b = byte b') : b = b' := by
  have hvalue := padded_inj (Int.natCast_nonneg _) (Int.natCast_nonneg _) h
  exact UInt8.toNat_inj.1 (Int.ofNat_inj.1 hvalue)

end RomAtlas.Hex
