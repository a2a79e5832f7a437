import RomAtlas.Proofs.Decode.Faithful
import RomAtlas.Proofs.Hint.Growth
import RomAtlas.Proofs.Order
import RomAtlas.Proofs.Region.HintConflicts
import RomAtlas.Proofs.Region.Painting

/-!
# Which range hint wins

Range hints may nest and cross in any way. They are laid down one after the other, the larger first
and of one size the earlier first, so who wins at a byte is decided by what is laid down last.
Overlaps are looked for elsewhere, pair by pair. Both follow one order of the ranges, and as ranges
are numbered it is a strict one.

* `pairwise_layers`: each range overrides those that were laid down before it.
* `winsAt_of_find?`: **the last range over a byte is the smallest**, and of that size the latest.
* `HintOverlap.mem_find_layers`: each pair of ranges that contradict each other is found, the
  overriding one as such.
* `smallest_range_wins`: both for the ranges of checked hints, and **one conflict for each pair.**
-/

namespace RomAtlas

variable {c : Cartridge} {m : AddressMap} {ranges l : List DeclaredRange} {a b s : DeclaredRange}
  {o : Nat}

/-! ## One range over another -/

namespace DeclaredRange

/-- A range is smaller than another, or of its size and later. -/
def Overrides (a b : DeclaredRange) : Prop :=
  a.range.size < b.range.size ∨ a.range.size = b.range.size ∧ b.order < a.order

/-- Two ranges declare different classes for a byte. -/
def Contradicts (a b : DeclaredRange) : Prop :=
  a.cls ≠ b.cls ∧ ∃ o : Nat, a.range.contains o = true ∧ b.range.contains o = true

/-- Of the ranges that cover an offset one has the least size, and the greatest order among those of
this size. -/
structure WinsAt (ranges : List DeclaredRange) (o : Nat) (s : DeclaredRange) : Prop where
  mem : s ∈ ranges
  covers : s.range.contains o = true
  smallest : ∀ r ∈ ranges, r.range.contains o = true → s.range.size ≤ r.range.size
  latest : ∀ r ∈ ranges, r.range.contains o = true → r.range.size = s.range.size →
    r.order ≤ s.order

/-- No range that covers an offset overrides the one that wins there. -/
theorem WinsAt.not_overrides {ranges : List DeclaredRange} {o : Nat} (h : WinsAt ranges o a)
    (hb : b ∈ ranges) (hin : b.range.contains o = true) : ¬ b.Overrides a := by
  have hsize := h.smallest b hb hin
  have horder := h.latest b hb hin
  unfold Overrides
  omega

theorem Overrides.asymm (h : a.Overrides b) : ¬ b.Overrides a := by
  unfold Overrides at *
  omega

theorem overrides_or_overrides (h : a.order ≠ b.order) : a.Overrides b ∨ b.Overrides a := by
  unfold Overrides
  omega

theorem below_iff : a.below b = true ↔
    b.range.size < a.range.size ∨ a.range.size = b.range.size ∧ a.order ≤ b.order := by
  unfold below
  simp

/-- Ranges that are not empty share an offset exactly if they overlap. -/
theorem contradicts_iff (ha : a.range.Within m.size) (hb : b.range.Within m.size) :
    a.Contradicts b ↔ a.cls ≠ b.cls ∧ a.range.overlaps b.range = true := by
  have hastart := ha.start_nonneg
  have halt := ha.start_lt
  have hblt := hb.start_lt
  unfold Contradicts
  rw [and_congr_right_iff]
  intro _
  rw [Extent.overlaps_iff]
  constructor
  · rintro ⟨o, hao, hbo⟩
    have hao := Extent.contains_iff.1 hao
    have hbo := Extent.contains_iff.1 hbo
    omega
  · rintro ⟨hab, hba⟩
    refine ⟨(max a.range.start b.range.start).toNat, ?_, ?_⟩
    · rw [Extent.contains_iff]
      omega
    · rw [Extent.contains_iff]
      omega

theorem Contradicts.symm (h : a.Contradicts b) : b.Contradicts a := by
  obtain ⟨hcls, o, ha, hb⟩ := h
  exact ⟨hcls.symm, o, hb, ha⟩

end DeclaredRange

/-! ## The order in which ranges are laid down -/

theorem pairwise_layers_below (ranges : List DeclaredRange) :
    (layers ranges).Pairwise fun a b => a.below b = true := by
  unfold layers
  apply List.pairwise_mergeSort
  · intro a b r hab hbr
    rw [DeclaredRange.below_iff] at *
    omega
  · intro a b
    rw [Bool.or_eq_true, DeclaredRange.below_iff, DeclaredRange.below_iff]
    omega

section

variable (hn : (ranges.map (·.order)).Nodup)
include hn

/-- **Each range overrides those that were laid down before it.** -/
theorem pairwise_layers : (layers ranges).Pairwise fun a b => b.Overrides a := by
  have hperm : (layers ranges).Perm ranges := List.mergeSort_perm _ _
  have hne : (layers ranges).Pairwise fun a b => a.order ≠ b.order :=
    List.pairwise_map.1 ((hperm.map _).nodup_iff.2 hn)
  refine ((pairwise_layers_below ranges).and hne).imp ?_
  rintro a b ⟨hbelow, hab⟩
  rw [DeclaredRange.below_iff] at hbelow
  unfold DeclaredRange.Overrides
  omega

theorem nodup_layers : (layers ranges).Nodup := by
  refine (pairwise_layers hn).imp fun {a b} hba hab => ?_
  subst hab
  exact hba.asymm hba

/-- **The range that was laid over a byte last wins there.** -/
theorem winsAt_of_find?
    (h : (layers ranges).reverse.find? (·.range.contains o) = some s) :
    DeclaredRange.WinsAt ranges o s := by
  have hsorted : (layers ranges).reverse.Pairwise fun a b => a.Overrides b :=
    List.pairwise_reverse.2 (pairwise_layers hn)
  have hover : ∀ r ∈ ranges, r.range.contains o = true → r = s ∨ s.Overrides r := by
    intro r hr hin
    exact eq_or_rel_of_find? hsorted h (List.mem_reverse.2 (mem_layers.2 hr)) hin
  have hcovers := List.find?_some h
  refine ⟨mem_layers.1 (List.mem_reverse.1 (List.mem_of_find?_eq_some h)), hcovers,
    fun r hr hin => ?_, fun r hr hin hsize => ?_⟩
  · rcases hover r hr hin with rfl | hover
    · exact Int.le_refl _
    · unfold DeclaredRange.Overrides at hover
      omega
  · rcases hover r hr hin with rfl | hover
    · exact Nat.le_refl _
    · unfold DeclaredRange.Overrides at hover
      omega

theorem DeclaredRange.WinsAt.unique (ha : WinsAt ranges o a) (hb : WinsAt ranges o b) : a = b := by
  have hab := ha.smallest b hb.mem hb.covers
  have hba := hb.smallest a ha.mem ha.covers
  have hsize : a.range.size = b.range.size := Int.le_antisymm hab hba
  have horder : a.order = b.order := Nat.le_antisymm (hb.latest a ha.mem ha.covers hsize)
    (ha.latest b hb.mem hb.covers hsize.symm)
  exact List.inj_on_of_nodup_map hn ha.mem hb.mem horder

/-- A byte that a range covers gets the class of the range that wins there. -/
theorem exists_winsAt_overlay {traced : Array ByteClass}
    (hw : ∀ s ∈ ranges, s.range.Within traced.size)
    (ho : ∃ s ∈ ranges, s.range.contains o = true) :
    ∃ s, DeclaredRange.WinsAt ranges o s ∧ (∀ r, DeclaredRange.WinsAt ranges o r → r = s) ∧
      (overlay traced (layers ranges))[o]? = some s.cls := by
  obtain ⟨r, hr, hin⟩ := ho
  obtain ⟨top, hfind⟩ : ∃ top, (layers ranges).reverse.find? (·.range.contains o) = some top := by
    rw [← Option.isSome_iff_exists, List.find?_isSome]
    exact ⟨r, List.mem_reverse.2 (mem_layers.2 hr), hin⟩
  have hlow : ∀ s ∈ layers ranges, 0 ≤ s.range.start :=
    fun s hs => (hw s (mem_layers.1 hs)).start_nonneg
  have hlt : o < traced.size := by
    have hstop := (hw r hr).stop_le
    have hin := Extent.contains_iff.1 hin
    omega
  have htop := winsAt_of_find? hn hfind
  refine ⟨top, htop, fun r hr => hr.unique hn htop, ?_⟩
  rw [getElem?_overlay hlow, hfind]
  simp [hlt]

end

/-! ## Hints by their texts -/

/-- A list is split in one way where a condition ends. -/
theorem append_inj_of_takeWhile {α : Type} {p : α → Bool} {l l' k k' : List α}
    (h : l ++ k = l' ++ k') (hl : ∀ x ∈ l, p x = true) (hl' : ∀ x ∈ l', p x = true)
    (hk : k.takeWhile p = []) (hk' : k'.takeWhile p = []) : l = l' ∧ k = k' := by
  have hfirst := congrArg (List.takeWhile p) h
  rw [List.takeWhile_append_of_pos hl, List.takeWhile_append_of_pos hl', hk, hk',
    List.append_nil, List.append_nil] at hfirst
  subst hfirst
  exact ⟨rfl, List.append_cancel_left h⟩

namespace HintSource

/-- The parts of the text of a hint. -/
def label : HintSource → String × Nat
  | entryPoint i => ("entry_points[", i)
  | jumpTable i => ("jump_tables[", i)
  | dataRange i => ("data_ranges[", i)
  | codeRange i => ("code_ranges[", i)

theorem toList_name_append (s : HintSource) (r : String) : (s.name ++ r).toList =
    s.label.1.toList ++ (Nat.toDigits 10 s.label.2 ++ ']' :: r.toList) := by
  have hname : s.name = s.label.1 ++ Nat.repr s.label.2 ++ "]" := by cases s <;> rfl
  rw [hname]
  simp only [String.toList_append, Nat.toList_repr, List.append_assoc]
  rfl

theorem label_inj {s s' : HintSource} (h : s.label = s'.label) : s = s' := by
  cases s <;> cases s' <;> simp_all [label]

theorem not_isDigit_of_mem_label (s : HintSource) :
    ∀ x ∈ s.label.1.toList, (!x.isDigit) = true := by
  rw [← List.all_eq_true]
  cases s <;> dsimp only [label] <;> decide +kernel

/-- **A text starts with one hint at most**: the number of a hint ends where its bracket does. -/
theorem name_append_inj {s s' : HintSource} {r r' : String} (h : s.name ++ r = s'.name ++ r') :
    s = s' := by
  have hdigits : ∀ i, ∀ x ∈ Nat.toDigits 10 i, x.isDigit = true :=
    fun i x hx => Nat.isDigit_of_mem_toDigits (by decide) (by decide) hx
  have hnumber : ∀ i (rest : List Char),
      (Nat.toDigits 10 i ++ rest).takeWhile (fun x => !x.isDigit) = [] := by
    intro i rest
    cases hi : Nat.toDigits 10 i with
    | nil => exact absurd hi Nat.toDigits_ne_nil
    | cons x digits =>
      have hx := hdigits i x (by rw [hi]; exact List.mem_cons_self)
      simp [hx]
  have hlist := congrArg String.toList h
  rw [toList_name_append, toList_name_append] at hlist
  -- the word ends at the first digit, and the number at the first character that is none
  obtain ⟨hword, hlist⟩ := append_inj_of_takeWhile hlist (not_isDigit_of_mem_label s)
    (not_isDigit_of_mem_label s') (hnumber _ _) (hnumber _ _)
  obtain ⟨hindex, -⟩ := append_inj_of_takeWhile hlist (hdigits _) (hdigits _) rfl rfl
  refine label_inj (Prod.ext (String.toList_inj.1 hword) ?_)
  rw [← Nat.ofDigitChars_ten_toDigits (n := s.label.2), hindex, Nat.ofDigitChars_ten_toDigits]

end HintSource

theorem DeclaredRange.source_congr {text : String} (ha : a.summary m = .ok text)
    (hb : b.summary m = .ok text) : a.source = b.source := by
  unfold summary at ha hb
  obtain ⟨_, -, ha⟩ := bind_eq_ok.1 ha
  obtain ⟨_, -, hb⟩ := bind_eq_ok.1 hb
  have hsame := pure_eq_ok.1 (ha.trans hb.symm)
  simp only [String.append_assoc] at hsame
  exact HintSource.name_append_inj hsame

/-! ## Pairs of ranges -/

namespace HintOverlap

variable {x : HintOverlap} {k : Conflict}

/-- The pairs are those of ranges of different classes that overlap, and the later of them overrides
the other. -/
theorem mem_find (hl : l.Pairwise fun a b => b.Overrides a) :
    x ∈ find l ↔ x.low ∈ l ∧ x.high ∈ l ∧ x.high.Overrides x.low ∧
      x.low.cls ≠ x.high.cls ∧ x.low.range.overlaps x.high.range = true := by
  induction l with
  | nil => simp [find]
  | cons low rest ih =>
    obtain ⟨hfirst, hrest⟩ := List.pairwise_cons.1 hl
    unfold find
    rw [List.mem_append, ih hrest]
    constructor
    · rintro (hx | ⟨hlow, hhigh, hpair⟩)
      · obtain ⟨high, hhigh, rfl⟩ := List.mem_map.1 hx
        obtain ⟨hmem, hpair⟩ := List.mem_filter.1 hhigh
        obtain ⟨hcls, hover⟩ := Bool.and_eq_true_iff.1 hpair
        exact ⟨List.mem_cons_self, List.mem_cons_of_mem _ hmem, hfirst high hmem,
          of_decide_eq_true hcls, hover⟩
      · exact ⟨List.mem_cons_of_mem _ hlow, List.mem_cons_of_mem _ hhigh, hpair⟩
    · rintro ⟨hlow, hhigh, hwins, hcls, hover⟩
      rcases List.mem_cons.1 hhigh with hhead | hhigh
      · -- the first range overrides no other, and not itself
        rcases List.mem_cons.1 hlow with hsame | hlow
        · rw [hhead, hsame] at hwins
          exact absurd hwins hwins.asymm
        · have hback := hfirst x.low hlow
          rw [← hhead] at hback
          exact absurd hback hwins.asymm
      · rcases List.mem_cons.1 hlow with hhead | hlow
        · refine .inl (List.mem_map.2 ⟨x.high, List.mem_filter.2 ⟨hhigh, ?_⟩, ?_⟩)
          · rw [← hhead, Bool.and_eq_true_iff]
            exact ⟨decide_eq_true hcls, hover⟩
          · rw [← hhead]
        · exact .inr ⟨hlow, hhigh, hwins, hcls, hover⟩

theorem nodup_find (hl : l.Nodup) : (find l).Nodup := by
  induction l with
  | nil => exact List.nodup_nil
  | cons low rest ih =>
    obtain ⟨hlow, hrest⟩ := List.nodup_cons.1 hl
    unfold find
    refine List.nodup_append'.2 ⟨?_, ih hrest, ?_⟩
    · refine (hrest.filter _).map ?_
      intro a b hab
      exact (HintOverlap.mk.inj hab).2
    · intro x hx hx'
      obtain ⟨high, -, rfl⟩ := List.mem_map.1 hx
      exact hlow (of_mem_find hx').1

section

variable (hn : (ranges.map (·.order)).Nodup) (hw : ∀ s ∈ ranges, s.range.Within m.size)
include hn hw

/-- **The pairs are those of ranges that contradict each other**, the overriding one as such. -/
theorem mem_find_layers : x ∈ find (layers ranges) ↔ x.low ∈ ranges ∧ x.high ∈ ranges ∧
    x.high.Overrides x.low ∧ x.low.Contradicts x.high := by
  rw [mem_find (pairwise_layers hn), mem_layers, mem_layers]
  constructor
  · rintro ⟨hlow, hhigh, hwins, hpair⟩
    exact ⟨hlow, hhigh, hwins, (DeclaredRange.contradicts_iff (hw _ hlow) (hw _ hhigh)).2 hpair⟩
  · rintro ⟨hlow, hhigh, hwins, hpair⟩
    exact ⟨hlow, hhigh, hwins, (DeclaredRange.contradicts_iff (hw _ hlow) (hw _ hhigh)).1 hpair⟩

/-- Two ranges that contradict each other are a pair in one of both ways. -/
theorem mk_mem_find_layers_iff (ha : a ∈ ranges) (hb : b ∈ ranges) (hab : a.Contradicts b) :
    ⟨a, b⟩ ∈ find (layers ranges) ↔ ⟨b, a⟩ ∉ find (layers ranges) := by
  rw [mem_find_layers hn hw, mem_find_layers hn hw]
  constructor
  · rintro ⟨-, -, hwins, -⟩ ⟨-, -, hback, -⟩
    exact hwins.asymm hback
  · intro hother
    -- they are two, so one of them was declared before the other
    have horder : a.order ≠ b.order := by
      intro horder
      have hsame := List.inj_on_of_nodup_map hn ha hb horder
      exact hab.1 (congrArg DeclaredRange.cls hsame)
    refine ⟨ha, hb, ?_, hab⟩
    rcases DeclaredRange.overrides_or_overrides horder with hwins | hwins
    · exact absurd ⟨hb, ha, hwins, hab.symm⟩ hother
    · exact hwins

end

/-- The conflict of a pair shows the hints that its ranges come from. -/
theorem source_congr {y : HintOverlap} (hx : x.conflict m = .ok k) (hy : y.conflict m = .ok k) :
    x.high.source = y.high.source ∧ x.low.source = y.low.source := by
  obtain ⟨_, high, low, -, hhigh, hlow, rfl⟩ := conflict_eq_ok hx
  obtain ⟨_, high', low', -, hhigh', hlow', hsame⟩ := conflict_eq_ok hy
  have htexts : high = high' ∧ low = low' := by
    simpa using congrArg Conflict.candidates hsame
  rw [← htexts.1] at hhigh'
  rw [← htexts.2] at hlow'
  exact ⟨DeclaredRange.source_congr hhigh hhigh', DeclaredRange.source_congr hlow hlow'⟩

end HintOverlap

/-- **No two pairs are noted by one conflict**, if each range comes from another hint. -/
theorem nodup_filter_hintConflicts {traced final : Array ByteClass} {conflicts : List Conflict}
    (h : hintConflicts m l traced final = .ok conflicts) (hl : l.Nodup)
    (hsource : ∀ a ∈ l, ∀ b ∈ l, a.source = b.source → a = b) :
    (conflicts.filter (·.kind = .hintOverlap)).Nodup := by
  refine nodup_of_mapM (mapM_conflict_find h) (HintOverlap.nodup_find hl) ?_
  intro x hx y hy k hxk hyk
  obtain ⟨hxlow, hxhigh, -⟩ := HintOverlap.of_mem_find hx
  obtain ⟨hylow, hyhigh, -⟩ := HintOverlap.of_mem_find hy
  obtain ⟨hhigh, hlow⟩ := HintOverlap.source_congr hxk hyk
  have hhigh := hsource _ hxhigh _ hyhigh hhigh
  have hlow := hsource _ hxlow _ hylow hlow
  cases x
  cases y
  cases hhigh
  cases hlow
  rfl

/-- **The smallest range wins, and of one size the latest.** Laid over any classes of an image, the
ranges of checked hints give each byte that they cover the class of the range of least size, and
among those of least size the one of greatest order; other bytes keep their classes. Each pair of
ranges that contradict each other is noted exactly once, at the first offset that they share, and
the range that is named as overriding is the smaller or the later one. -/
theorem smallest_range_wins {given : Hints} {checked : CheckedHints} {rejected : List Conflict}
    (hc : given.check c = .ok (checked, rejected)) {traced : Array ByteClass}
    (hsize : traced.size = c.map.size) :
    (overlay traced (layers checked.ranges)).size = traced.size ∧
    (∀ o : Nat, (∃ s ∈ checked.ranges, s.range.contains o = true) →
      ∃ s, DeclaredRange.WinsAt checked.ranges o s ∧
        (∀ r, DeclaredRange.WinsAt checked.ranges o r → r = s) ∧
        (overlay traced (layers checked.ranges))[o]? = some s.cls) ∧
    (∀ o : Nat, (∀ s ∈ checked.ranges, s.range.contains o = false) →
      (overlay traced (layers checked.ranges))[o]? = traced[o]?) ∧
    ∃ conflicts pairs,
      hintConflicts c.map (layers checked.ranges) traced
        (overlay traced (layers checked.ranges)) = .ok conflicts ∧
      List.Forall₂ (HintOverlap.NotedBy c.map) pairs
        (conflicts.filter (·.kind = .hintOverlap)) ∧
      pairs.Nodup ∧ (conflicts.filter (·.kind = .hintOverlap)).Nodup ∧
      (∀ x, x ∈ pairs ↔ x.low ∈ checked.ranges ∧ x.high ∈ checked.ranges ∧
        x.high.Overrides x.low ∧ x.low.Contradicts x.high) ∧
      ∀ a ∈ checked.ranges, ∀ b ∈ checked.ranges, a.Contradicts b →
        (⟨a, b⟩ ∈ pairs ↔ ⟨b, a⟩ ∉ pairs) := by
  obtain ⟨hnumbers, hsources⟩ := Hints.check_ranges hc
  have hn : (checked.ranges.map (·.order)).Nodup := by
    rw [hnumbers]
    exact List.nodup_range
  have hw := (Hints.check_sound hc).within
  have hw' : ∀ s ∈ layers checked.ranges, s.range.Within c.map.size :=
    fun s hs => hw s (mem_layers.1 hs)
  refine ⟨size_overlay _ _, fun o ho => ?_, fun o ho => ?_, ?_⟩
  · exact exists_winsAt_overlay hn (hsize ▸ hw) ho
  · exact getElem?_overlay_of_uncovered (fun s hs => (hw' s hs).start_nonneg)
      fun s hs => ho s (mem_layers.1 hs)
  · obtain ⟨conflicts, hconflicts, -⟩ := exists_hintConflicts hw' traced
      (overlay traced (layers checked.ranges))
    have hnodup := nodup_layers hn
    have hsource : ∀ a ∈ layers checked.ranges, ∀ b ∈ layers checked.ranges,
        a.source = b.source → a = b :=
      fun a ha b hb => List.inj_on_of_nodup_map hsources (mem_layers.1 ha) (mem_layers.1 hb)
    refine ⟨conflicts, _, hconflicts, forall₂_notedBy_find hconflicts hw',
      HintOverlap.nodup_find hnodup, nodup_filter_hintConflicts hconflicts hnodup hsource,
      fun x => HintOverlap.mem_find_layers hn hw, fun a ha b hb hab => ?_⟩
    exact HintOverlap.mk_mem_find_layers_iff hn hw ha hb hab

/-- The second byte of `truncatedLoad` in three ranges, two of them of one size. -/
def nestedRanges : List DeclaredRange :=
  [⟨⟨0, 3⟩, .data, 0, .null, 0x8000, .dataRange 0⟩,
    ⟨⟨1, 2⟩, .data, 1, .null, 0x8001, .dataRange 1⟩,
    ⟨⟨1, 2⟩, .code, 2, .null, 0x8001, .codeRange 0⟩]

/-- The hints that declare these ranges. -/
def nestedHints : Hints :=
  ⟨[], [⟨0x8000, 0x8002, .null⟩, ⟨0x8001, 0x8001, .null⟩], [⟨0x8001, 0x8001, .null⟩], []⟩

theorem smallest_range_wins_nested :
    nestedHints.check truncatedLoad =
        .ok ({ CheckedHints.empty with ranges := nestedRanges }, []) ∧
      (Array.replicate 3 ByteClass.unknown).size = truncatedLoad.map.size ∧
      (overlay (Array.replicate 3 .unknown) (layers nestedRanges))[1]? = some .code ∧
      ∃ conflicts pairs,
        hintConflicts truncatedLoad.map (layers nestedRanges) (Array.replicate 3 .unknown)
          (overlay (Array.replicate 3 .unknown) (layers nestedRanges)) = .ok conflicts ∧
        List.Forall₂ (HintOverlap.NotedBy truncatedLoad.map) pairs
          (conflicts.filter (·.kind = .hintOverlap)) ∧
        ∀ low ∈ nestedRanges, ∀ high ∈ nestedRanges, low.cls = .data → high.cls = .code →
          ⟨low, high⟩ ∈ pairs ∧ ⟨high, low⟩ ∉ pairs := by
  have hc : nestedHints.check truncatedLoad =
      .ok ({ CheckedHints.empty with ranges := nestedRanges }, []) := rfl
  have hsize : (Array.replicate 3 ByteClass.unknown).size = truncatedLoad.map.size := rfl
  obtain ⟨-, hcovered, -, conflicts, pairs, hconflicts, hnoted, -, -, hpairs, -⟩ :=
    smallest_range_wins hc hsize
  refine ⟨hc, hsize, ?_, conflicts, pairs, hconflicts, hnoted, ?_⟩
  · have hcode : DeclaredRange.WinsAt nestedRanges 1
        ⟨⟨1, 2⟩, .code, 2, .null, 0x8001, .codeRange 0⟩ := by
      refine ⟨?_, by decide, by decide, by decide⟩
      exact List.mem_cons_of_mem _ (List.mem_cons_of_mem _ List.mem_cons_self)
    obtain ⟨s, -, hunique, hclass⟩ := hcovered 1 ⟨_, hcode.mem, hcode.covers⟩
    rw [hclass, ← hunique _ hcode]
  · have hall : ∀ low ∈ nestedRanges, ∀ high ∈ nestedRanges, low.cls = .data →
        high.cls = .code → (high.range.size < low.range.size ∨
          high.range.size = low.range.size ∧ low.order < high.order) ∧
        low.range.contains (1 : Nat) = true ∧ high.range.contains (1 : Nat) = true := by
      decide
    intro low hlow high hhigh hdata hcode
    obtain ⟨hwins, hshared⟩ := hall low hlow high hhigh hdata hcode
    refine ⟨(hpairs _).2 ⟨hlow, hhigh, hwins, by simp [hdata, hcode], 1, hshared⟩, fun hother => ?_⟩
    exact DeclaredRange.Overrides.asymm hwins ((hpairs _).1 hother).2.2.1

end RomAtlas
