import Mathlib.Tactic.Ring
import RomAtlas.Config.Reading
import RomAtlas.Proofs.Hex

/-!
# Spellings of integers

A spelling is described by itself: digits, each worth its power of the base, with single underscores
between them, then a mark of the base or a sign in front, then blanks around. Every spelling is
read as the integer that it spells.

* `Numeral.Spells`: the positional value of a digit string.
* `Numeral.Spelling`: the spellings of an integer without the blanks.
* `Value.toInteger_spelling`: **a spelling is read as its integer, and so decimal texts, `0x` texts
  and dollar texts are read back as the integers they were written for.**
-/

namespace RomAtlas

namespace Numeral

variable {base d k n : Nat} {c : Char} {cs ps : List Char}

/-! ## Digits -/

/-- A digit of a base: in lower or upper case, or the decimal digit of any script. -/
inductive DigitOf (base : Nat) : Char → Nat → Prop
  | lower {d : Nat} : d < base → DigitOf base (Hex.lowerDigit d) d
  | upper {d : Nat} : d < base → DigitOf base (Hex.upperDigit d) d
  | script {c : Char} {d : Nat} : Text.decimalValue? c = some d → d < base → DigitOf base c d

/-- A digit string with its number of digits and its value: each digit counts the power of the base
that belongs to its place. An underscore may follow any digit but the last. -/
inductive Spells (base : Nat) : List Char → Nat → Nat → Prop
  | last {c : Char} {d : Nat} : DigitOf base c d → Spells base [c] 1 d
  | digit {c : Char} {d k n : Nat} {cs : List Char} : DigitOf base c d → Spells base cs k n →
      Spells base (c :: cs) (k + 1) (d * base ^ k + n)
  | gap {c : Char} {d k n : Nat} {cs : List Char} : DigitOf base c d → Spells base cs k n →
      Spells base (c :: '_' :: cs) (k + 1) (d * base ^ k + n)

/-- The basic characters of digit strings. -/
def IsMark (p : Char) : Prop := p = '_' ∨ ∃ d < 16, p = Hex.lowerDigit d ∨ p = Hex.upperDigit d

instance {p : Char} : Decidable (IsMark p) := inferInstanceAs (Decidable (_ ∨ _))

theorem IsMark.of_forall {P : Char → Prop} (hgap : P '_')
    (hdigit : ∀ d < 16, P (Hex.lowerDigit d) ∧ P (Hex.upperDigit d)) {p : Char} (h : IsMark p) :
    P p := by
  rcases h with rfl | ⟨d, hd, rfl | rfl⟩
  · exact hgap
  · exact (hdigit d hd).1
  · exact (hdigit d hd).2

theorem digit?_of_lt (hbase : base ≤ 16) (h : d < base) :
    digit? base (Hex.lowerDigit d) = some d ∧ digit? base (Hex.upperDigit d) = some d := by
  have hall : ∀ base ≤ 16, ∀ d < base,
      digit? base (Hex.lowerDigit d) = some d ∧ digit? base (Hex.upperDigit d) = some d := by decide
  exact hall base hbase d h

/-- A character that no range of the table holds is no blank. -/
theorem isBlank_eq_false (hlow : 0x20 < c.toNat)
    (h : ∀ range ∈ Text.whiteSpaceTable.toList, c.toNat < range.1 ∨ range.2 < c.toNat) :
    Text.isBlank c = false := by
  have hspace : Text.isWhiteSpace c = false := by
    rw [Text.isWhiteSpace, Text.inRanges, Array.any_eq_false']
    intro range hrange
    have hapart := h range (Array.mem_toList_iff.2 hrange)
    simp only [Bool.and_eq_true, decide_eq_true_eq]
    omega
  simp only [Text.isBlank, hspace, Bool.false_or, Bool.and_eq_false_iff, decide_eq_false_iff_not]
  omega

/-- A basic character that is printed, as a numeral may hold it. -/
def IsBasic (c : Char) : Prop := 0x20 < c.toNat ∧ c.toNat < 0x7F

instance : Decidable (IsBasic c) := inferInstanceAs (Decidable (_ ∧ _))

theorem IsBasic.isBlank (h : IsBasic c) : Text.isBlank c = false := by
  have hranges : ∀ range ∈ Text.whiteSpaceTable.toList, range.2 ≤ 0x20 ∨ 0x7F ≤ range.1 := by decide
  refine isBlank_eq_false h.1 fun range hrange => ?_
  have hlow := h.1
  have hhigh := h.2
  have hapart := hranges range hrange
  omega

theorem IsBasic.plain? (h : IsBasic c) : plain? c = some c := if_pos h.2

theorem IsMark.isBasic {p : Char} (h : IsMark p) : IsBasic p :=
  h.of_forall (P := IsBasic) (by decide) (by decide)

/-- The digits of a script are ten characters in a row from its zero on. -/
theorem exists_first_of_decimalValue? (h : Text.decimalValue? c = some d) :
    ∃ first ∈ Text.zeroTable.toList, d < 10 ∧ c.toNat = first + d := by
  obtain ⟨first, hfind, hd⟩ := Option.map_eq_some_iff.1 h
  have hrange := Array.find?_some hfind
  simp only [Bool.and_eq_true, decide_eq_true_eq] at hrange
  exact ⟨first, Array.mem_toList_iff.2 (Array.mem_of_find?_eq_some hfind), by omega, by omega⟩

/-- No digit of a script is a blank. -/
theorem isBlank_of_decimalValue? (h : Text.decimalValue? c = some d) : Text.isBlank c = false := by
  obtain ⟨first, hfirst, hd, hc⟩ := exists_first_of_decimalValue? h
  have hrows : ∀ first ∈ Text.zeroTable.toList, 0x20 < first ∧
      ∀ range ∈ Text.whiteSpaceTable.toList, first + 10 ≤ range.1 ∨ range.2 < first := by decide
  obtain ⟨hlow, hranges⟩ := hrows first hfirst
  refine isBlank_eq_false (by omega) fun range hrange => ?_
  have hapart := hranges range hrange
  omega

/-- The digit of a script counts as the basic digit of its value. -/
theorem plain?_of_decimalValue? (h : Text.decimalValue? c = some d) :
    plain? c = some (Hex.lowerDigit d) := by
  obtain ⟨first, hfirst, hd, hc⟩ := exists_first_of_decimalValue? h
  have hrows : ∀ first ∈ Text.zeroTable.toList, first = 48 ∨ 0x7F ≤ first := by decide
  have hspace := isBlank_of_decimalValue? h
  simp only [Text.isBlank, Bool.or_eq_false_iff] at hspace
  rw [Hex.lowerDigit, if_pos hd]
  rcases hrows first hfirst with rfl | hhigh
  · rw [plain?, if_pos (by omega), ← hc, Char.ofNat_toNat]
  · rw [plain?, if_neg (by omega), hspace.1, if_neg Bool.false_ne_true, h, Option.map_some]

/-- A digit is no blank, and it counts as a basic digit of its value. -/
theorem DigitOf.exists_plain (h : DigitOf base c d) (hbase : base ≤ 16) :
    Text.isBlank c = false ∧
      ∃ p, plain? c = some p ∧ IsMark p ∧ p ≠ '_' ∧ digit? base p = some d := by
  have hdigit : ∀ {d}, d < base → ∀ p, p = Hex.lowerDigit d ∨ p = Hex.upperDigit d →
      IsMark p ∧ p ≠ '_' ∧ digit? base p = some d := by
    intro d hd p hp
    have hgap : ∀ d < 16, Hex.lowerDigit d ≠ '_' ∧ Hex.upperDigit d ≠ '_' := by decide
    have hlt : d < 16 := Nat.lt_of_lt_of_le hd hbase
    refine ⟨Or.inr ⟨d, hlt, hp⟩, ?_⟩
    rcases hp with rfl | rfl
    · exact ⟨(hgap d hlt).1, (digit?_of_lt hbase hd).1⟩
    · exact ⟨(hgap d hlt).2, (digit?_of_lt hbase hd).2⟩
  cases h with
  | lower hd =>
    have hp := hdigit hd _ (Or.inl rfl)
    exact ⟨hp.1.isBasic.isBlank, _, hp.1.isBasic.plain?, hp⟩
  | upper hd =>
    have hp := hdigit hd _ (Or.inr rfl)
    exact ⟨hp.1.isBasic.isBlank, _, hp.1.isBasic.plain?, hp⟩
  | script hvalue hd =>
    exact ⟨isBlank_of_decimalValue? hvalue, _, plain?_of_decimalValue? hvalue,
      hdigit hd _ (Or.inl rfl)⟩

/-! ## Digit strings -/

/-- What a digit string counts as: basic characters `ps` that read as `k` digits of the value `n`,
after a digit or at the start. -/
structure CountsAs (base : Nat) (inside : Bool) (cs : List Char) (k n : Nat) (ps : List Char) :
    Prop where
  plain : cs.mapM plain? = some ps
  marks : ∀ p ∈ ps, IsMark p
  solid : ∀ c ∈ cs, Text.isBlank c = false ∧ (IsBasic c → IsMark c)
  digits : ∃ ds, digits? base inside ps = some ds ∧ ds.length = k ∧
    ∀ m, ds.foldl (fun n d => n * base + d) m = m * base ^ k + n

theorem countsAs_nil : CountsAs base true [] 0 0 [] where
  plain := rfl
  marks := by simp
  solid := by simp
  digits := ⟨[], rfl, rfl, by simp⟩

/-- A digit in front counts the power of the base that belongs to its place. -/
theorem CountsAs.cons {inside : Bool} (h : CountsAs base true cs k n ps) (hc : DigitOf base c d)
    (hbase : base ≤ 16) : ∃ ps, CountsAs base inside (c :: cs) (k + 1) (d * base ^ k + n) ps := by
  obtain ⟨hblank, p, hplain, hmark, hgap, hvalue⟩ := hc.exists_plain hbase
  have hsolid : IsBasic c → IsMark c := by
    intro hbasic
    rw [hbasic.plain?, Option.some_inj] at hplain
    exact hplain ▸ hmark
  obtain ⟨ds, hds, hlength, hfold⟩ := h.digits
  refine ⟨p :: ps, ?_, List.forall_mem_cons.2 ⟨hmark, h.marks⟩,
    List.forall_mem_cons.2 ⟨⟨hblank, hsolid⟩, h.solid⟩, d :: ds, ?_, ?_, ?_⟩
  · simp [List.mapM_cons, hplain, h.plain]
  · simp [digits?, hgap, hvalue, hds]
  · rw [List.length_cons, hlength]
  · intro m
    rw [List.foldl_cons, hfold, Nat.pow_succ]
    ring

/-- An underscore after a digit does not count. -/
theorem CountsAs.gap (h : CountsAs base false cs k n ps) :
    CountsAs base true ('_' :: cs) k n ('_' :: ps) where
  plain := by
    have hgap : plain? '_' = some '_' := rfl
    simp [List.mapM_cons, hgap, h.plain]
  marks := List.forall_mem_cons.2 ⟨Or.inl rfl, h.marks⟩
  solid := by
    have hmark : IsMark '_' := Or.inl rfl
    exact List.forall_mem_cons.2 ⟨⟨hmark.isBasic.isBlank, fun _ => hmark⟩, h.solid⟩
  digits := by
    obtain ⟨ds, hds, hrest⟩ := h.digits
    exact ⟨ds, by simp [digits?, hds], hrest⟩

/-- **Every digit string is read as its digits,** and their folding is its positional value. -/
theorem Spells.exists_countsAs (h : Spells base cs k n) (hbase : base ≤ 16) (inside : Bool) :
    ∃ ps, CountsAs base inside cs k n ps := by
  induction h generalizing inside with
  | last hc => simpa using countsAs_nil.cons hc hbase
  | digit hc _ ih =>
    obtain ⟨ps, hps⟩ := ih true
    exact hps.cons hc hbase
  | gap hc _ ih =>
    obtain ⟨ps, hps⟩ := ih false
    exact hps.gap.cons hc hbase

theorem CountsAs.ofDigits (h : CountsAs base false cs k n ps) :
    ∃ ds, digits? base false ps = some ds ∧ ds.length = k ∧ Numeral.ofDigits base ds = n := by
  obtain ⟨ds, hds, hlength, hfold⟩ := h.digits
  exact ⟨ds, hds, hlength, by rw [Numeral.ofDigits, hfold, Nat.zero_mul, Nat.zero_add]⟩

/-! ## Numerals -/

theorem magnitude?_ten (h : CountsAs 10 false cs k n ps) (hk : k ≤ maxDecimalDigits) :
    magnitude? 10 ps = some n := by
  obtain ⟨ds, hds, hlength, hvalue⟩ := h.ofDigits
  simp [magnitude?, hds, hvalue, hlength, hk]

theorem magnitude?_sixteen (h : CountsAs 16 false cs k n ps) : magnitude? 16 ps = some n := by
  obtain ⟨ds, hds, hlength, hvalue⟩ := h.ofDigits
  -- no digit is an `x`, so nothing is taken for the mark of the base
  have hx : ∀ p ∈ ps, p ≠ 'x' ∧ p ≠ 'X' := fun p hp =>
    (h.marks p hp).of_forall (P := fun p => p ≠ 'x' ∧ p ≠ 'X') (by decide) (by decide)
  rcases ps with _ | ⟨a, _ | ⟨b, rest⟩⟩
  · simp [magnitude?, hds, hvalue]
  · simp [magnitude?, hds, hvalue]
  · obtain ⟨hb, hb'⟩ := hx b (by simp)
    simp [magnitude?, hds, hvalue, hb, hb']

/-- The mark of the base in front does not count. -/
theorem magnitude?_marked (h : CountsAs 16 false cs k n ps) {x : Char} (hx : x = 'x' ∨ x = 'X') :
    magnitude? 16 ('0' :: x :: ps) = some n := by
  obtain ⟨ds, hds, hlength, hvalue⟩ := h.ofDigits
  cases ps with
  | nil => rcases hx with rfl | rfl <;> simp [magnitude?, hds, hvalue]
  | cons p rest =>
    -- an underscore behind the mark would be skipped, but digits do not start with one
    have hgap : p ≠ '_' := by
      rintro rfl
      cases hds
    rcases hx with rfl | rfl <;> simp [magnitude?, hds, hvalue, hgap]

end Numeral

/-! ## Blanks -/

theorem Text.dropWhile_of_forall {drop : Char → Bool} {cs : List Char}
    (h : ∀ c ∈ cs, drop c = false) : cs.dropWhile drop = cs := by
  cases cs with
  | nil => rfl
  | cons c cs => exact List.dropWhile_cons_of_neg (by simp [h c])

/-- Only what is dropped around a text is lost. -/
theorem Text.trim_append {drop : Char → Bool} {before core after : List Char}
    (hbefore : ∀ c ∈ before, drop c = true) (hcore : ∀ c ∈ core, drop c = false)
    (hafter : ∀ c ∈ after, drop c = true) : trim drop (before ++ core ++ after) = core := by
  rw [trim, List.append_assoc, List.dropWhile_append_of_pos hbefore]
  cases core with
  | nil =>
    rw [List.nil_append, ← List.append_nil after, List.dropWhile_append_of_pos hafter]
    rfl
  | cons c cs =>
    have hfront : ((c :: cs) ++ after).dropWhile drop = (c :: cs) ++ after :=
      List.dropWhile_cons_of_neg (by simp [hcore c])
    rw [hfront, List.reverse_append, List.dropWhile_append_of_pos (by simpa using hafter),
      dropWhile_of_forall fun c hc => hcore c (List.mem_reverse.1 hc), List.reverse_reverse]

theorem Text.trim_of_forall {drop : Char → Bool} {cs : List Char}
    (h : ∀ c ∈ cs, drop c = false) : trim drop cs = cs := by
  have hnone : ∀ c ∈ ([] : List Char), drop c = true := by simp
  simpa using trim_append hnone h hnone

namespace Numeral

theorem trim_of_isBasic {ps : List Char} (h : ∀ p ∈ ps, IsBasic p) :
    Text.trim Text.isWhiteSpace ps = ps := by
  refine Text.trim_of_forall fun p hp => ?_
  have hblank := (h p hp).isBlank
  rw [Text.isBlank, Bool.or_eq_false_iff] at hblank
  exact hblank.1

theorem read_signed {base : Nat} {cs ps : List Char} (hplain : cs.mapM plain? = some ps)
    (hps : ∀ p ∈ ps, IsBasic p) {n : Nat} (hn : magnitude? base ps = some n) :
    read base ('+' :: cs) = some (n : Int) ∧ read base ('-' :: cs) = some (-(n : Int)) := by
  have hplus : plain? '+' = some '+' := rfl
  have hminus : plain? '-' = some '-' := rfl
  have htrim : ∀ sign, IsBasic sign →
      Text.trim Text.isWhiteSpace (sign :: ps) = sign :: ps :=
    fun sign hsign => trim_of_isBasic (List.forall_mem_cons.2 ⟨hsign, hps⟩)
  refine ⟨?_, ?_⟩
  · simp [read, List.mapM_cons, hplus, hplain, htrim '+' (by decide), hn]
  · simp [read, List.mapM_cons, hminus, hplain, htrim '-' (by decide), hn]

theorem read_unsigned {base : Nat} {cs ps : List Char} (hplain : cs.mapM plain? = some ps)
    (hps : ∀ p ∈ ps, IsBasic p ∧ p ≠ '-' ∧ p ≠ '+') {n : Nat} (hn : magnitude? base ps = some n) :
    read base cs = some (n : Int) := by
  have htrim := trim_of_isBasic fun p hp => (hps p hp).1
  cases ps with
  | nil => simp [read, hplain, htrim, hn]
  | cons p rest =>
    obtain ⟨-, hminus, hplus⟩ := hps p List.mem_cons_self
    simp [read, hplain, htrim, hn, hminus, hplus]

theorem CountsAs.isBasic {inside : Bool} (h : CountsAs base inside cs k n ps) :
    ∀ p ∈ ps, IsBasic p :=
  fun p hp => (h.marks p hp).isBasic

theorem CountsAs.unsigned {inside : Bool} (h : CountsAs base inside cs k n ps) :
    ∀ p ∈ ps, IsBasic p ∧ p ≠ '-' ∧ p ≠ '+' :=
  fun p hp => (h.marks p hp).of_forall (P := fun p => IsBasic p ∧ p ≠ '-' ∧ p ≠ '+')
    (by decide) (by decide)

theorem CountsAs.read_sixteen (h : CountsAs 16 false cs k n ps) : read 16 cs = some (n : Int) :=
  read_unsigned h.plain h.unsigned (magnitude?_sixteen h)

theorem CountsAs.read_marked (h : CountsAs 16 false cs k n ps) {x : Char} (hx : x = 'x' ∨ x = 'X') :
    read 16 ('0' :: x :: cs) = some (n : Int) := by
  have hmark : plain? x = some x ∧ IsBasic x ∧ x ≠ '-' ∧ x ≠ '+' := by
    rcases hx with rfl | rfl <;> decide
  have hplain : ('0' :: x :: cs).mapM plain? = some ('0' :: x :: ps) := by
    have hzero : plain? '0' = some '0' := rfl
    simp [List.mapM_cons, hzero, hmark.1, h.plain]
  have hunsigned : ∀ p ∈ '0' :: x :: ps, IsBasic p ∧ p ≠ '-' ∧ p ≠ '+' :=
    List.forall_mem_cons.2 ⟨by decide, List.forall_mem_cons.2 ⟨hmark.2, h.unsigned⟩⟩
  exact read_unsigned hplain hunsigned (magnitude?_marked h hx)

theorem CountsAs.read_ten (h : CountsAs 10 false cs k n ps) (hk : k ≤ maxDecimalDigits) :
    read 10 cs = some (n : Int) :=
  read_unsigned h.plain h.unsigned (magnitude?_ten h hk)

theorem CountsAs.read_signed (h : CountsAs 10 false cs k n ps) (hk : k ≤ maxDecimalDigits) :
    read 10 ('+' :: cs) = some (n : Int) ∧ read 10 ('-' :: cs) = some (-(n : Int)) :=
  Numeral.read_signed h.plain h.isBasic (magnitude?_ten h hk)

/-! ## Spellings -/

/-- The spellings of an integer, without blanks around them. In base ten there is a limit to the
number of digits. -/
inductive Spelling : List Char → Int → Prop
  | marked {x : Char} {cs : List Char} {k n : Nat} : x = 'x' ∨ x = 'X' → Spells 16 cs k n →
      Spelling ('0' :: x :: cs) n
  | dollar {cs : List Char} {k n : Nat} : Spells 16 cs k n → Spelling ('$' :: cs) n
  | decimal {cs : List Char} {k n : Nat} : Spells 10 cs k n → k ≤ maxDecimalDigits → Spelling cs n
  | plus {cs : List Char} {k n : Nat} : Spells 10 cs k n → k ≤ maxDecimalDigits →
      Spelling ('+' :: cs) n
  | minus {cs : List Char} {k n : Nat} : Spells 10 cs k n → k ≤ maxDecimalDigits →
      Spelling ('-' :: cs) (-n)

/-- A text spells an integer: blanks, a spelling, blanks. -/
def SpelledBy (n : Int) (s : String) : Prop :=
  ∃ before core after, s.toList = before ++ core ++ after ∧ Spelling core n ∧
    (∀ c ∈ before, Text.isBlank c = true) ∧ ∀ c ∈ after, Text.isBlank c = true

theorem Spells.isBlank (h : Spells base cs k n) (hbase : base ≤ 16) :
    ∀ c ∈ cs, Text.isBlank c = false := by
  obtain ⟨ps, hps⟩ := h.exists_countsAs hbase false
  exact fun c hc => (hps.solid c hc).1

/-- The characters that are basic but no digit do not stand among digits. -/
theorem Spells.notMem (h : Spells base cs k n) (hbase : base ≤ 16) (hc : IsBasic c)
    (hmark : ¬ IsMark c) : c ∉ cs := by
  obtain ⟨ps, hps⟩ := h.exists_countsAs hbase false
  exact fun hmem => hmark ((hps.solid c hmem).2 hc)

theorem Spelling.isBlank {core : List Char} {i : Int} (h : Spelling core i) :
    ∀ c ∈ core, Text.isBlank c = false := by
  have hcons : ∀ {c cs}, IsBasic c → (∀ c ∈ cs, Text.isBlank c = false) →
      ∀ c' ∈ c :: cs, Text.isBlank c' = false :=
    fun hc hcs => List.forall_mem_cons.2 ⟨hc.isBlank, hcs⟩
  cases h with
  | marked hx hcs =>
    have hbasic : ∀ x, x = 'x' ∨ x = 'X' → IsBasic x := by
      rintro x (rfl | rfl) <;> decide
    exact hcons (by decide) (hcons (hbasic _ hx) (hcs.isBlank (by decide)))
  | dollar hcs => exact hcons (by decide) (hcs.isBlank (by decide))
  | decimal hcs _ => exact hcs.isBlank (by decide)
  | plus hcs _ => exact hcons (by decide) (hcs.isBlank (by decide))
  | minus hcs _ => exact hcons (by decide) (hcs.isBlank (by decide))

/-- A spelling without blanks is read as its integer. -/
theorem Spelling.ofText?_eq {core : List Char} {i : Int} (h : Spelling core i) {s : String}
    (hs : Text.trim Text.isBlank s.toList = core) : ofText? s = some i := by
  rw [ofText?, hs]
  cases h with
  | marked hx hcs =>
    obtain ⟨ps, hps⟩ := hcs.exists_countsAs (by decide) false
    rcases hx with rfl | rfl
    · exact hps.read_marked (Or.inl rfl)
    · exact hps.read_marked (Or.inr rfl)
  | dollar hcs =>
    obtain ⟨ps, hps⟩ := hcs.exists_countsAs (by decide) false
    exact hps.read_sixteen
  | decimal hcs hk =>
    obtain ⟨ps, hps⟩ := hcs.exists_countsAs (by decide) false
    have hdollar := hcs.notMem (c := '$') (by decide) (by decide) (by decide)
    have hx := hcs.notMem (c := 'x') (by decide) (by decide) (by decide)
    have hx' := hcs.notMem (c := 'X') (by decide) (by decide) (by decide)
    split
    · exact absurd List.mem_cons_self hdollar
    · exact absurd (List.mem_cons_of_mem _ List.mem_cons_self) hx
    · exact absurd (List.mem_cons_of_mem _ List.mem_cons_self) hx'
    · exact hps.read_ten hk
  | plus hcs hk =>
    obtain ⟨ps, hps⟩ := hcs.exists_countsAs (by decide) false
    exact (hps.read_signed hk).1
  | minus hcs hk =>
    obtain ⟨ps, hps⟩ := hcs.exists_countsAs (by decide) false
    exact (hps.read_signed hk).2

/-- A text is read as the integer that it spells. -/
theorem ofText?_of_spelledBy {i : Int} {s : String} (h : SpelledBy i s) : ofText? s = some i := by
  obtain ⟨before, core, after, hs, hcore, hbefore, hafter⟩ := h
  exact hcore.ofText?_eq (hs ▸ Text.trim_append hbefore hcore.isBlank hafter)

/-! ## Written integers -/

/-- Digit strings in a row: the first one moves up by the places of the second. -/
theorem Spells.append {cs' : List Char} {k' n' : Nat} (h : Spells base cs k n)
    (h' : Spells base cs' k' n') : Spells base (cs ++ cs') (k + k') (n * base ^ k' + n') := by
  have hvalue : ∀ d k n,
      (d * base ^ k + n) * base ^ k' + n' = d * base ^ (k + k') + (n * base ^ k' + n') := by
    intro d k n
    ring
  induction h with
  | last hc =>
    rw [Nat.add_comm]
    exact .digit hc h'
  | digit hc _ ih =>
    rw [Nat.add_right_comm, hvalue]
    exact .digit hc ih
  | gap hc _ ih =>
    rw [Nat.add_right_comm, hvalue]
    exact .gap hc ih

theorem Spells.snoc (h : Spells base cs k n) (hc : DigitOf base c d) :
    Spells base (cs ++ [c]) (k + 1) (n * base + d) := by
  simpa using h.append (.last hc)

theorem spells_toDigits (n : Nat) : Spells 10 (Nat.toDigits 10 n) (Nat.toDigits 10 n).length n := by
  have hdigit : ∀ d < 10, DigitOf 10 (Nat.digitChar d) d := by
    have hlower : ∀ d < 10, Nat.digitChar d = Hex.lowerDigit d := by decide
    exact fun d hd => hlower d hd ▸ .lower hd
  induction n using Nat.strongRecOn with
  | ind n ih =>
    rcases Nat.lt_or_ge n 10 with hn | hn
    · rw [Nat.toDigits_of_lt_base hn]
      exact .last (hdigit n hn)
    · have hrest := (ih (n / 10) (by omega)).snoc (hdigit (n % 10) (Nat.mod_lt _ (by decide)))
      rw [Nat.toDigits_of_base_le (by decide) hn, List.length_append, List.length_singleton]
      rwa [Nat.div_add_mod'] at hrest

theorem exists_spells_digits {digit : Nat → Char} (hdigit : ∀ d < 16, DigitOf 16 (digit d) d)
    (n : Nat) : ∃ k, Spells 16 (Hex.digits digit n) k n := by
  fun_induction Hex.digits digit n with
  | case1 n hn => exact ⟨1, .last (hdigit n hn)⟩
  | case2 n hn ih =>
    obtain ⟨k, hk⟩ := ih
    have hrest := hk.snoc (hdigit (n % 16) (Nat.mod_lt _ (by decide)))
    rw [Nat.div_add_mod'] at hrest
    exact ⟨k + 1, hrest⟩

/-- Zeros in front do not change a value. -/
theorem Spells.zeros (h : Spells base cs k n) (hbase : 0 < base) (j : Nat) :
    ∃ k, Spells base (List.replicate j '0' ++ cs) k n := by
  induction j with
  | zero => exact ⟨k, h⟩
  | succ j ih =>
    obtain ⟨k, hk⟩ := ih
    have hzero : DigitOf base '0' 0 := .lower hbase
    have hnext := Spells.digit hzero hk
    rw [Nat.zero_mul, Nat.zero_add] at hnext
    exact ⟨k + 1, hnext⟩

theorem Spelling.spelledBy {s : String} {i : Int} (h : Spelling s.toList i) : SpelledBy i s :=
  ⟨[], s.toList, [], by simp, h, by simp, by simp⟩

theorem spelledBy_toString {i : Int} (h : i.natAbs < 10 ^ maxDecimalDigits) :
    SpelledBy i (toString i) := by
  have hdigits := spells_toDigits i.natAbs
  have hlength : (Nat.toDigits 10 i.natAbs).length ≤ maxDecimalDigits :=
    (Nat.length_toDigits_le_iff (by decide) (by decide)).2 h
  refine Spelling.spelledBy ?_
  cases i with
  | ofNat n =>
    have htext : (toString (Int.ofNat n)).toList = Nat.toDigits 10 n := Nat.toList_repr
    rw [htext]
    exact .decimal hdigits hlength
  | negSucc n =>
    have htext : (toString (Int.negSucc n)).toList = '-' :: Nat.toDigits 10 (n + 1) := by
      show ("-" ++ (n + 1).repr).toList = _
      rw [String.toList_append, Nat.toList_repr]
      rfl
    rw [htext]
    exact .minus hdigits hlength

theorem spelledBy_literal (n : Nat) : SpelledBy n (Hex.literal n) := by
  obtain ⟨k, hk⟩ := exists_spells_digits (fun _ hd => DigitOf.lower hd) n
  have htext : (Hex.literal n).toList = '0' :: 'x' :: Hex.digits Hex.lowerDigit n := by
    simp [Hex.literal]
  exact Spelling.spelledBy (htext ▸ .marked (Or.inl rfl) hk)

theorem spelledBy_padded (width n : Nat) : SpelledBy n ("$" ++ Hex.padded width n) := by
  obtain ⟨k, hk⟩ := exists_spells_digits (fun _ hd => DigitOf.upper hd) n
  have htext : ("$" ++ Hex.padded width n).toList =
      '$' :: Hex.fill width (Hex.digits Hex.upperDigit n) := by
    rw [String.toList_append, Hex.toList_padded (Int.natCast_nonneg n)]
    rfl
  obtain ⟨k', hk'⟩ := hk.zeros (by decide) (width - (Hex.digits Hex.upperDigit n).length)
  exact Spelling.spelledBy (htext ▸ .dollar hk')

end Numeral

theorem Value.toInteger_text {s : String} {n : Int} (h : Numeral.SpelledBy n s) :
    Value.toInteger (.text (Text.ofString s)) = .ok n := by
  simp only [toInteger, Text.string?_ofString, Option.bind_some, Numeral.ofText?_of_spelledBy h]

/-- **A spelling is read as its integer:** base sixteen behind `0x`, `0X` or a dollar sign, base ten
with or without a sign, with blanks around. So an integer is read back from its decimal text, from
its `0x` text and from its dollar text of any width. -/
theorem Value.toInteger_spelling :
    (∀ (n : Int) (s : String), Numeral.SpelledBy n s →
      Value.toInteger (.text (Text.ofString s)) = .ok n) ∧
    (∀ n : Int, n.natAbs < 10 ^ Numeral.maxDecimalDigits →
      Value.toInteger (.text (Text.ofString (toString n))) = .ok n) ∧
    (∀ n : Nat, Value.toInteger (.text (Text.ofString (Hex.literal n))) = .ok (n : Int)) ∧
    ∀ width n : Nat,
      Value.toInteger (.text (Text.ofString ("$" ++ Hex.padded width n))) = .ok (n : Int) := by
  refine ⟨?_, ?_, ?_, ?_⟩
  · intro n s h
    exact toInteger_text h
  · intro n hn
    exact toInteger_text (Numeral.spelledBy_toString hn)
  · intro n
    exact toInteger_text (Numeral.spelledBy_literal n)
  · intro width n
    exact toInteger_text (Numeral.spelledBy_padded width n)

/-- Zeros, both cases, an underscore and blanks; an Arabic digit; a written integer. -/
theorem Value.toInteger_spelling_mixed :
    Value.toInteger (.text (Text.ofString " 0X0a_Fe\n")) = .ok 0xAFE ∧
      Value.toInteger (.text (Text.ofString "-\u0664_2")) = .ok (-42) ∧
      Value.toInteger (.text (Text.ofString (toString (-65536 : Int)))) = .ok (-65536) := by
  have hspace : Text.isBlank ' ' = true := by decide +kernel
  have hbreak : Text.isBlank '\n' = true := by decide +kernel
  refine ⟨?_, ?_, ?_⟩
  · refine toInteger_spelling.1 _ _ ⟨[' '], "0X0a_Fe".toList, ['\n'], rfl, ?_, ?_, ?_⟩
    · have hdigits : Numeral.Spells 16 "0a_Fe".toList 4 0xAFE :=
        .digit (.lower (d := 0) (by decide)) (.gap (.lower (d := 10) (by decide))
          (.digit (.upper (d := 15) (by decide)) (.last (.lower (d := 14) (by decide)))))
      exact .marked (Or.inr rfl) hdigits
    · simpa using hspace
    · simpa using hbreak
  · refine toInteger_spelling.1 _ _ ⟨[], "-\u0664_2".toList, [], rfl, ?_, by simp, by simp⟩
    have hdigits : Numeral.Spells 10 "\u0664_2".toList 2 42 :=
      .gap (.script (d := 4) (by decide) (by decide)) (.last (.lower (d := 2) (by decide)))
    exact .minus hdigits (by decide)
  · have hsmall : 65536 < 10 ^ 5 := by decide
    have hpow : 10 ^ 5 ≤ 10 ^ Numeral.maxDecimalDigits :=
      Nat.pow_le_pow_right (by decide) (by decide)
    exact toInteger_spelling.2.1 _ (Nat.lt_of_lt_of_le hsmall hpow)

end RomAtlas
