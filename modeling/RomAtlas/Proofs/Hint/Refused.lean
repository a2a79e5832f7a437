import RomAtlas.Proofs.Hint.Accepted
import RomAtlas.Proofs.Mirrors

/-!
# Refused hints

A hint that does not hold is rejected by itself and the checking goes on. Only two things end it: a
name that is given and no text, and a rejection of a hint that cannot be shown because one of its
integers is too long.

* `Hints.check_ends`: **checking returns, with a rejection for each refused hint, or it ends for one
  of these two reasons.**
* `Hints.exists_long_of_breaks`: if all names are texts, the integer is one of the hints' own.
* `Hints.exists_check`: checking returns if all names are texts and all integers can be shown.
-/

namespace RomAtlas

/-! ## Values -/

/-- A value that can stand for a name: a text, or one that does not count as given. -/
def Value.IsName (v : Value) : Prop := v.isGiven = true → ∃ t, v.text? = some t

/-- An integer has more digits than a numeral may have. -/
def Numeral.IsLong (n : Int) : Prop := Nat.pow 10 maxDecimalDigits ≤ n.natAbs

theorem Numeral.text?_eq_none {n : Int} : text? n = none ↔ IsLong n := by
  simp only [text?, IsLong, ite_eq_left_iff, reduceCtorEq, imp_false, Decidable.not_not]

/-- Ten digits are not too many. -/
theorem Numeral.not_isLong {n : Int} (h : n.natAbs < 10000000000) : ¬ IsLong n := by
  have hpow : ∀ d, 10 ≤ d → Nat.pow 10 10 ≤ Nat.pow 10 d :=
    fun d hd => Nat.pow_le_pow_right (by decide) hd
  exact Nat.not_le.2 (Nat.lt_of_lt_of_le h (hpow maxDecimalDigits (by decide)))

/-- A name can be shown. -/
theorem Value.IsName.inner?_ne_none {v : Value} (h : v.IsName) : v.inner? ≠ none := by
  cases v with
  | null => simp [inner?]
  | bool b => cases b <;> simp [inner?]
  | int n =>
    by_cases hn : n = 0
    · rw [hn, inner?, ne_eq, Numeral.text?_eq_none]
      exact Numeral.not_isLong (by decide)
    · obtain ⟨t, ht⟩ := h (by simpa [isGiven] using hn)
      cases ht
  | float x => simp [inner?]
  | text t => simp [inner?]
  | date d => simp [inner?]
  | moment m => simp [inner?]
  | list items =>
    cases items with
    | nil => simp [inner?, inners?]
    | cons item items =>
      obtain ⟨t, ht⟩ := h rfl
      cases ht
  | mapping entries =>
    cases entries with
    | nil => simp [inner?, innerEntries?]
    | cons entry entries =>
      obtain ⟨t, ht⟩ := h rfl
      cases ht

theorem Value.inners?_eq_none {parts : List Value} :
    inners? parts = none ↔ ∃ v ∈ parts, v.inner? = none := by
  induction parts with
  | nil => simp [inners?]
  | cons v rest ih =>
    rw [List.exists_mem_cons_iff, ← ih]
    cases hv : v.inner? with
    | none => simp [inners?, hv]
    | some s => cases hrest : inners? rest <;> simp [inners?, hv, hrest]

/-! ## What ends the checking -/

/-- The faults that end the checking of hints that say some values and have some names. -/
inductive Breaks (parts names : List Value) : Fault → Prop
  | integerTooLong {v : Value} (hv : v ∈ parts) (h : v.inner? = none) :
      Breaks parts names .integerTooLong
  | nameNotText {v : Value} (hv : v ∈ names) (h : ¬ v.IsName) : Breaks parts names .nameNotText

theorem Breaks.mono {parts parts' names names' : List Value} {fault : Fault}
    (h : Breaks parts names fault) (hp : parts ⊆ parts') (hn : names ⊆ names') :
    Breaks parts' names' fault := by
  cases h with
  | integerTooLong hv h => exact .integerTooLong (hp hv) h
  | nameNotText hv h => exact .nameNotText (hn hv) h

/-- A refusal of a hint with some name: a rejection, unless the name is no text. -/
def Refusal.Allowed (name : Value) : Refusal → Prop
  | .rejected _ => True
  | .broken fault => fault = .nameNotText ∧ ¬ name.IsName

variable {c : Cartridge} {m : AddressMap} {name : Value}

theorem offsetFor_ends (role : HintRole) (a : Int) :
    Ends (fun o => m.offset? a = some o) (Refusal.Allowed name) (offsetFor m role a) := by
  unfold offsetFor
  split
  · next o ho => exact ho
  · trivial

theorem takeName_ends (taken : List String) (a : Int) :
    Ends (fun _ => True) (Refusal.Allowed name) (takeName taken name a) := by
  unfold takeName
  split
  · next hgiven =>
    split
    · next hnone =>
      refine ⟨rfl, fun hname => ?_⟩
      obtain ⟨t, ht⟩ := hname hgiven
      rw [hnone] at ht
      cases ht
    · dsimp only
      split
      · trivial
      split
      · trivial
      split
      · trivial
      · trivial
  · trivial

theorem JumpTableHint.Reading.verdict_ends (reading : Reading) (taken : List String) :
    Ends (fun _ => True) (Refusal.Allowed name) (reading.verdict taken name) := by
  unfold verdict
  split
  · trivial
  · exact takeName_ends _ _

theorem JumpTableHint.readPointers_ends (h : JumpTableHint) (table : Int) :
    Ends (fun _ => True) (Refusal.Allowed name) (h.readPointers c table) := by
  unfold readPointers
  dsimp only
  split
  · trivial
  refine (offsetFor_ends .table table).bind fun first _ => ?_
  split
  · trivial
  · trivial

theorem JumpTableHint.read_ends (h : JumpTableHint) :
    Ends (fun reading => ∀ table range, reading.table = some (table, range) →
      range.Within c.map.size) (Refusal.Allowed name) (h.read c) := by
  suffices hends : Ends (fun _ => True) (Refusal.Allowed name) (h.read c) from
    hends.of_eq_ok fun reading hr table range => read_table_within hr
  unfold read
  refine (offsetFor_ends .site h.site).discard.bind fun _ _ => ?_
  refine (ends_mapM fun a _ => offsetFor_ends .target a).discard.bind fun _ _ => ?_
  dsimp only
  split
  · exact (readPointers_ends h _).bind fun found _ => trivial
  · split
    · trivial
    · trivial

/-! ## One hint at a time -/

namespace HintLedger

variable {r : HintLedger} {source : HintSource} {parts names : List Value}

/-- All that was noted so far are rejections of hints, each at an address. -/
def Tidy (r : HintLedger) : Prop :=
  ∀ k ∈ r.rejected, k.kind = .invalidHint ∧ k.address ≠ none

theorem reject_ends (h : r.Tidy) (x : Rejection) :
    Ends Tidy (Breaks parts names) (r.reject source parts x) := by
  unfold reject
  dsimp only
  split
  · intro k hk
    rcases List.mem_append.1 hk with hk | hk
    · exact h k hk
    · rw [List.mem_singleton.1 hk]
      exact ⟨rfl, nofun⟩
  · next hlong =>
    rw [Bool.not_eq_true, Option.isSome_eq_false_iff, Option.isNone_iff_eq_none] at hlong
    obtain ⟨v, hv, hnone⟩ := Value.inners?_eq_none.1 hlong
    exact .integerTooLong hv hnone

theorem guard_ends {α : Type} (good : α → Prop) {check : Except Refusal α}
    {use : α → Except Fault HintLedger} (h : r.Tidy) (hname : name ∈ names)
    (hcheck : Ends good (Refusal.Allowed name) check)
    (huse : ∀ a, good a → Ends Tidy (Breaks parts names) (use a)) :
    Ends Tidy (Breaks parts names) (r.guard source parts check use) := by
  unfold guard
  split
  · exact huse _ hcheck
  · exact reject_ends h _
  · obtain ⟨rfl, hno⟩ := hcheck
    exact .nameNotText hname hno

theorem addDeclared_ends (h : r.Tidy) {range : Extent} (hw : range.Within m.size) (cls : ByteClass)
    (label : Value) (bad : Fault → Prop) :
    Ends Tidy bad (r.addDeclared m range cls label source) := by
  have hlow := hw.start_nonneg
  have hhigh : range.start < m.size := Int.lt_of_lt_of_le hw.start_lt hw.stop_le
  unfold addDeclared
  rw [AddressMap.addressOf_eq_ok hlow hhigh]
  exact h

theorem addEntry_ends (h : r.Tidy) (e : EntryHint) :
    Ends Tidy (Breaks e.parts [e.name]) (r.addEntry c e source) := by
  unfold addEntry
  refine guard_ends (fun _ => True) h List.mem_cons_self ?_ fun taken _ => h
  exact (offsetFor_ends .entryPoint e.address).discard.bind fun _ _ => takeName_ends _ _

theorem addRange_ends (h : r.Tidy) (cls : ByteClass) (e : RangeHint) :
    Ends Tidy (Breaks e.parts [e.label]) (r.addRange c cls e source) := by
  unfold addRange
  refine guard_ends (fun a => a.2.Within c.map.size) h List.mem_cons_self ?_
    fun a hw => addDeclared_ends (r := { r with taken := a.1 }) h hw _ _ _
  refine (offsetFor_ends .rangeStart e.first).bind fun first _ => ?_
  refine (offsetFor_ends .rangeEnd e.last).bind fun last hlast => ?_
  have hlt := AddressMap.lt_size_of_offset? hlast
  dsimp only
  split
  · trivial
  · refine (takeName_ends _ _).bind fun taken _ => ?_
    constructor <;> dsimp only <;> omega

theorem addTable_ends (h : r.Tidy) (e : JumpTableHint) :
    Ends Tidy (Breaks e.parts [e.label]) (r.addTable c e source) := by
  unfold addTable
  refine guard_ends _ h List.mem_cons_self e.read_ends fun reading hread => ?_
  refine (ends_foldlM Tidy (fun x _ r hr => reject_ends hr x) h).bind fun r₁ h₁ => ?_
  refine guard_ends (fun _ => True) h₁ List.mem_cons_self (reading.verdict_ends _) fun taken _ => ?_
  dsimp only
  split
  · exact h₁
  · next table range htable =>
    exact addDeclared_ends (r := { r₁ with taken := taken }.addTargets _ _ _) h₁
      (hread table range htable) _ _ _

end HintLedger

/-! ## All hints -/

/-- All that the hints of a project say. -/
def Hints.parts (h : Hints) : List Value :=
  h.entryPoints.flatMap EntryHint.parts ++ h.jumpTables.flatMap JumpTableHint.parts ++
    (h.dataRanges ++ h.codeRanges).flatMap RangeHint.parts

/-- The names in the hints of a project. -/
def Hints.names (h : Hints) : List Value :=
  h.entryPoints.map EntryHint.name ++ h.jumpTables.map JumpTableHint.label ++
    (h.dataRanges ++ h.codeRanges).map RangeHint.label

/-- **Checking hints returns**, and all that it notes are rejections of hints at an address, unless a
rejection cannot be shown or a name is no text. -/
theorem Hints.check_ends (given : Hints) :
    Ends (fun found => ∀ k ∈ found.2, k.kind = .invalidHint ∧ k.address ≠ none)
      (Breaks given.parts given.names) (given.check c) := by
  have hrange : ∀ {ranges : List RangeHint}, ranges ⊆ given.dataRanges ++ given.codeRanges →
      ∀ (cls : ByteClass) (source : Nat → HintSource), ∀ x ∈ ranges.zipIdx, ∀ r : HintLedger,
        r.Tidy → Ends HintLedger.Tidy (Breaks given.parts given.names)
          (r.addRange c cls x.1 (source x.2)) := by
    intro ranges hsub cls source x hx r hr
    have hmem := hsub (List.fst_mem_of_mem_zipIdx hx)
    refine (HintLedger.addRange_ends hr cls x.1).imp (fun _ h => h) fun fault h => h.mono ?_ ?_
    · intro v hv
      exact List.mem_append_right _ (List.mem_flatMap.2 ⟨x.1, hmem, hv⟩)
    · intro v hv
      rw [List.mem_singleton.1 hv]
      exact List.mem_append_right _ (List.mem_map_of_mem hmem)
  unfold check
  have h₀ : HintLedger.start.Tidy := fun k hk => absurd hk List.not_mem_nil
  refine (ends_foldlM HintLedger.Tidy ?_ h₀).bind fun r₁ h₁ => ?_
  · intro x hx r hr
    have hmem := List.fst_mem_of_mem_zipIdx hx
    refine (HintLedger.addEntry_ends hr x.1).imp (fun _ h => h) fun fault h => h.mono ?_ ?_
    · intro v hv
      exact List.mem_append_left _ (List.mem_append_left _ (List.mem_flatMap.2 ⟨x.1, hmem, hv⟩))
    · intro v hv
      rw [List.mem_singleton.1 hv]
      exact List.mem_append_left _ (List.mem_append_left _ (List.mem_map_of_mem hmem))
  refine (ends_foldlM HintLedger.Tidy ?_ h₁).bind fun r₂ h₂ => ?_
  · intro x hx r hr
    have hmem := List.fst_mem_of_mem_zipIdx hx
    refine (HintLedger.addTable_ends hr x.1).imp (fun _ h => h) fun fault h => h.mono ?_ ?_
    · intro v hv
      exact List.mem_append_left _ (List.mem_append_right _ (List.mem_flatMap.2 ⟨x.1, hmem, hv⟩))
    · intro v hv
      rw [List.mem_singleton.1 hv]
      exact List.mem_append_left _ (List.mem_append_right _ (List.mem_map_of_mem hmem))
  refine (ends_foldlM _ (hrange (List.subset_append_left _ _) .data .dataRange) h₂).bind
    fun r₃ h₃ => ?_
  refine (ends_foldlM _ (hrange (List.subset_append_right _ _) .code .codeRange) h₃).bind
    fun r₄ h₄ => ?_
  exact h₄

/-- What hints say are names and integers. -/
theorem Hints.mem_names_or_int {given : Hints} {v : Value} (hv : v ∈ given.parts) :
    v ∈ given.names ∨ ∃ n, v = .int n := by
  unfold names
  simp only [parts, List.mem_append, List.mem_flatMap] at hv
  simp only [List.mem_append, List.mem_map]
  rcases hv with (⟨e, he, hv⟩ | ⟨e, he, hv⟩) | ⟨e, he, hv⟩
  · simp only [EntryHint.parts, List.mem_cons, List.not_mem_nil, or_false] at hv
    rcases hv with rfl | rfl
    · exact .inr ⟨_, rfl⟩
    · exact .inl (.inl (.inl ⟨e, he, rfl⟩))
  · simp only [JumpTableHint.parts, List.mem_append, List.mem_cons, List.not_mem_nil, or_false,
      List.mem_map] at hv
    rcases hv with (rfl | rfl | rfl) | ⟨n, -, rfl⟩
    · exact .inr ⟨_, rfl⟩
    · exact .inr ⟨_, rfl⟩
    · exact .inl (.inl (.inr ⟨e, he, rfl⟩))
    · exact .inr ⟨n, rfl⟩
  · simp only [RangeHint.parts, List.mem_cons, List.not_mem_nil, or_false] at hv
    rcases hv with rfl | rfl | rfl
    · exact .inr ⟨_, rfl⟩
    · exact .inr ⟨_, rfl⟩
    · exact .inl (.inr ⟨e, he, rfl⟩)

/-- If all names are texts, what ends the checking is an integer of a hint. -/
theorem Hints.exists_long_of_breaks {given : Hints} (hnames : ∀ v ∈ given.names, v.IsName)
    {fault : Fault} (h : Breaks given.parts given.names fault) :
    fault = .integerTooLong ∧
      ∃ n, .int n ∈ given.parts ∧ Numeral.IsLong n := by
  cases h with
  | integerTooLong hv hnone =>
    rcases Hints.mem_names_or_int hv with hname | ⟨n, rfl⟩
    · exact absurd hnone (hnames _ hname).inner?_ne_none
    · exact ⟨rfl, n, hv, Numeral.text?_eq_none.1 hnone⟩
  | nameNotText hv hno => exact absurd (hnames _ hv) hno

/-- Checking returns if all names are texts and all integers can be shown. -/
theorem Hints.exists_check {given : Hints} (hnames : ∀ v ∈ given.names, v.IsName)
    (hshort : ∀ n, .int n ∈ given.parts → ¬ Numeral.IsLong n) :
    ∃ checked rejected, given.check c = .ok (checked, rejected) := by
  rcases (given.check_ends (c := c)).ok_or_error with ⟨found, hc, -⟩ | ⟨fault, -, hbreaks⟩
  · exact ⟨found.1, found.2, hc⟩
  · obtain ⟨-, n, hn, hlong⟩ := Hints.exists_long_of_breaks hnames hbreaks
    exact absurd hlong (hshort n hn)

end RomAtlas
