import RomAtlas.Region.Classify

/-!
# Class arrays byte by byte

What the passes over a class array do to the byte at one offset.

* `getElem?_tracedClasses`: the class that a trace gives to a byte, without the order of the passes.
* `tracedClasses_eq_code_iff`: **a byte is traced as code exactly if** an instruction covers it and
  no pass found a reason to doubt it.
* `getElem?_overlay`: of the range hints that cover a byte, the one laid down last gives its class.
-/

namespace RomAtlas

variable {cls : ByteClass} {classes : Array ByteClass} {o : Nat}

/-! ## Painting -/

theorem getElem?_setIfInBounds_eq (classes : Array ByteClass) (p : Nat) (cls : ByteClass) :
    (classes.setIfInBounds p cls)[o]? =
      if p = o then classes[o]?.map fun _ => cls else classes[o]? := by
  rw [Array.getElem?_setIfInBounds]
  by_cases h : p = o
  · subst h
    by_cases hp : p < classes.size
    · simp [hp]
    · simp [hp]
  · simp [h]

/-- Painting sets the offsets it is given and no other. -/
theorem getElem?_paint (cls : ByteClass) (classes : Array ByteClass) (offsets : List Nat) :
    (paint cls classes offsets)[o]? =
      if o ∈ offsets then classes[o]?.map fun _ => cls else classes[o]? := by
  unfold paint
  induction offsets generalizing classes with
  | nil => simp
  | cons p offsets ih =>
    rw [List.foldl_cons, ih, getElem?_setIfInBounds_eq]
    by_cases hp : p = o
    · subst hp
      by_cases ho : p ∈ offsets <;> simp [ho, Function.comp_def]
    · by_cases ho : o ∈ offsets <;> simp [ho, hp, Ne.symm hp]

/-- Painting piece by piece is painting all pieces. -/
theorem foldl_paint {α : Type} (f : α → List Nat) (l : List α) (classes : Array ByteClass) :
    l.foldl (fun cs x => paint cls cs (f x)) classes = paint cls classes (l.flatMap f) := by
  induction l generalizing classes with
  | nil => rfl
  | cons x l ih =>
    rw [List.foldl_cons, ih, List.flatMap_cons]
    unfold paint
    rw [List.foldl_append]

theorem getElem?_paint_of_some {before : ByteClass} (h : classes[o]? = some before)
    (offsets : List Nat) :
    (paint cls classes offsets)[o]? = some (if o ∈ offsets then cls else before) := by
  rw [getElem?_paint, h]
  split <;> rfl

@[simp]
theorem size_paint (cls : ByteClass) (classes : Array ByteClass) (offsets : List Nat) :
    (paint cls classes offsets).size = classes.size := by
  unfold paint
  induction offsets generalizing classes with
  | nil => rfl
  | cons p offsets ih => rw [List.foldl_cons, ih, Array.size_setIfInBounds]

theorem getElem?_paintRun (cls : ByteClass) (count start : Nat) (classes : Array ByteClass) :
    (paintRun cls count start classes)[o]? =
      if start ≤ o ∧ o < start + count then classes[o]?.map fun _ => cls else classes[o]? := by
  induction count generalizing start classes with
  | zero =>
    rw [paintRun, if_neg (by omega)]
  | succ count ih =>
    rw [paintRun, ih, getElem?_setIfInBounds_eq]
    by_cases hs : start = o
    · rw [if_neg (by omega), if_pos hs, if_pos (by omega)]
    · rw [if_neg hs]
      by_cases ho : start + 1 ≤ o ∧ o < start + 1 + count
      · rw [if_pos ho, if_pos (by omega)]
      · rw [if_neg ho, if_neg (by omega)]

@[simp]
theorem size_paintRun (cls : ByteClass) (count start : Nat) (classes : Array ByteClass) :
    (paintRun cls count start classes).size = classes.size := by
  induction count generalizing start classes with
  | zero => rfl
  | succ count ih => rw [paintRun, ih, Array.size_setIfInBounds]

@[simp]
theorem size_overlay (classes : Array ByteClass) (layers : List DeclaredRange) :
    (overlay classes layers).size = classes.size := by
  unfold overlay
  induction layers generalizing classes with
  | nil => rfl
  | cons s layers ih => rw [List.foldl_cons, ih, size_paintRun]

/-- **Of the ranges that cover a byte, the one laid down last gives its class.** -/
theorem getElem?_overlay {layers : List DeclaredRange} (hl : ∀ s ∈ layers, 0 ≤ s.range.start)
    (classes : Array ByteClass) :
    (overlay classes layers)[o]? =
      match layers.reverse.find? (·.range.contains o) with
      | some s => classes[o]?.map fun _ => s.cls
      | none => classes[o]? := by
  unfold overlay
  induction layers generalizing classes with
  | nil => rfl
  | cons s layers ih =>
    rw [List.foldl_cons, ih (fun r hr => hl r (List.mem_cons_of_mem s hr)), List.reverse_cons,
      List.find?_append, getElem?_paintRun]
    have hs := hl s List.mem_cons_self
    have hcov : (s.range.start.toNat ≤ o ∧ o < s.range.start.toNat + s.range.size.toNat) ↔
        s.range.contains o = true := by
      unfold Extent.contains Extent.size
      rw [Bool.and_eq_true, decide_eq_true_iff, decide_eq_true_iff]
      omega
    simp only [hcov]
    -- a later range that covers the byte hides what this one does to it
    cases layers.reverse.find? (·.range.contains o) with
    | some top => by_cases hc : s.range.contains o = true <;> simp [hc, Function.comp_def]
    | none => by_cases hc : s.range.contains o = true <;> simp [hc]

theorem getElem?_overlay_of_uncovered {layers : List DeclaredRange}
    (hl : ∀ s ∈ layers, 0 ≤ s.range.start) (h : ∀ s ∈ layers, s.range.contains o = false) :
    (overlay classes layers)[o]? = classes[o]? := by
  have hnone : layers.reverse.find? (·.range.contains o) = none := by
    rw [List.find?_eq_none]
    intro s hs
    rw [h s (List.mem_reverse.1 hs)]
    decide
  rw [getElem?_overlay hl, hnone]

/-- The layers are the ranges, in another order. -/
theorem mem_layers {ranges : List DeclaredRange} {s : DeclaredRange} :
    s ∈ layers ranges ↔ s ∈ ranges :=
  List.mem_mergeSort

/-! ## The trace -/

theorem getElem?_markUnreadable (m : AddressMap) (classes : Array ByteClass) (u : Unreadable) :
    (markUnreadable m classes u)[o]? =
      if m.offset? u.key.address = some o ∧
          (u.key.reason = .undefined ∨ classes[o]?.getD .unknown ≠ .unknown)
      then classes[o]?.map fun _ => .ambiguous else classes[o]? := by
  unfold markUnreadable
  cases m.offset? u.key.address with
  | none => rw [if_neg fun h => nomatch h.1]
  | some p =>
    dsimp only
    rw [Array.getD_eq_getD_getElem?]
    by_cases hp : p = o
    · subst hp
      split
      · next h => rw [getElem?_setIfInBounds_eq, if_pos rfl, if_pos ⟨rfl, h⟩]
      · next h => rw [if_neg fun hu => h hu.2]
    · have hne : ¬ some p = some o := fun h => hp (Option.some.inj h)
      rw [if_neg (c := some p = some o ∧ _) fun h => hne h.1]
      split
      · rw [getElem?_setIfInBounds_eq, if_neg hp]
      · rfl

@[simp]
theorem size_foldl_markUnreadable (m : AddressMap) (failures : List Unreadable)
    (classes : Array ByteClass) :
    (failures.foldl (markUnreadable m) classes).size = classes.size := by
  induction failures generalizing classes with
  | nil => rfl
  | cons u failures ih =>
    rw [List.foldl_cons, ih]
    unfold markUnreadable
    split
    · rfl
    · split
      · exact Array.size_setIfInBounds
      · rfl

open Classical in
/-- A failure at a byte makes it ambiguous, if its opcode has no meaning or the byte was part of an
instruction before. What the failures before it did makes no difference. -/
theorem getElem?_foldl_markUnreadable {m : AddressMap} {failures : List Unreadable}
    (h : classes[o]? = some cls) :
    (failures.foldl (markUnreadable m) classes)[o]? =
      some (if ∃ u ∈ failures, m.offset? u.key.address = some o ∧
        (u.key.reason = .undefined ∨ cls ≠ .unknown) then .ambiguous else cls) := by
  induction failures generalizing classes cls with
  | nil => simpa using h
  | cons u failures ih =>
    have hstep := getElem?_markUnreadable (o := o) m classes u
    simp only [h, Option.getD_some, Option.map_some] at hstep
    rw [List.foldl_cons]
    by_cases hu : m.offset? u.key.address = some o ∧ (u.key.reason = .undefined ∨ cls ≠ .unknown)
    · rw [if_pos hu] at hstep
      rw [ih hstep, ite_self, if_pos ⟨u, List.mem_cons_self, hu⟩]
    · rw [if_neg hu] at hstep
      rw [ih hstep]
      simp only [List.mem_cons, or_and_right, exists_or, exists_eq_left, hu, false_or]

/-- A pass over a trace found a reason to doubt the byte at an offset. -/
def Trace.Suspects (m : AddressMap) (t : Trace) (spans : List Span) (o : Nat) : Prop :=
  (∃ x ∈ Clash.find spans, o ∈ x.offsets) ∨ (∃ x ∈ Overlap.find spans, o ∈ x.offsets) ∨
    (∃ u ∈ Unreadable.find t.failures, m.offset? u.key.address = some o ∧
      (u.key.reason = .undefined ∨ ∃ s ∈ spans, o ∈ s.offsets)) ∨
    ∃ s ∈ unresolvedSpans t.xrefs spans, o ∈ s.offsets

variable {m : AddressMap} {t : Trace} {spans : List Span}

@[simp]
theorem size_tracedClasses : (tracedClasses m t spans).size = m.size := by
  unfold tracedClasses
  simp only [foldl_paint, size_paint, size_foldl_markUnreadable, Array.size_replicate]

open Classical in
/-- **The class that a trace gives to a byte**: ambiguous if a pass found a reason to doubt it, code
if an instruction covers it and no pass did, and unknown otherwise. -/
theorem getElem?_tracedClasses (ho : o < m.size) :
    (tracedClasses m t spans)[o]? = some (if t.Suspects m spans o then .ambiguous
      else if ∃ s ∈ spans, o ∈ s.offsets then .code else .unknown) := by
  have hblank : (Array.replicate m.size ByteClass.unknown)[o]? = some .unknown := by
    rw [Array.getElem?_replicate, if_pos ho]
  unfold tracedClasses
  simp only [foldl_paint]
  rw [getElem?_paint_of_some (getElem?_foldl_markUnreadable (getElem?_paint_of_some
    (getElem?_paint_of_some (getElem?_paint_of_some hblank _) _) _)) _]
  simp only [List.mem_flatMap, Trace.Suspects]
  -- the passes are undone from the last to the first
  by_cases hcover : ∃ s ∈ spans, o ∈ s.offsets <;>
    by_cases hclash : ∃ x ∈ Clash.find spans, o ∈ x.offsets <;>
    by_cases hoverlap : ∃ x ∈ Overlap.find spans, o ∈ x.offsets <;>
    by_cases hsite : ∃ s ∈ unresolvedSpans t.xrefs spans, o ∈ s.offsets <;>
    simp [hcover, hclash, hoverlap, hsite]

theorem tracedClasses_eq_ambiguous_iff :
    (tracedClasses m t spans)[o]? = some .ambiguous ↔ o < m.size ∧ t.Suspects m spans o := by
  constructor
  · intro h
    have ho : o < m.size := by simpa using (Array.getElem?_eq_some_iff.1 h).1
    rw [getElem?_tracedClasses ho] at h
    split at h
    · next hsuspect => exact ⟨ho, hsuspect⟩
    split at h <;> cases h
  · rintro ⟨ho, hsuspect⟩
    rw [getElem?_tracedClasses ho, if_pos hsuspect]

/-- **A byte is traced as code exactly if** an instruction covers it and no pass found a reason to
doubt it. -/
theorem tracedClasses_eq_code_iff :
    (tracedClasses m t spans)[o]? = some .code ↔
      (o < m.size ∧ ∃ s ∈ spans, o ∈ s.offsets) ∧
      (∀ x ∈ Clash.find spans, o ∉ x.offsets) ∧ (∀ x ∈ Overlap.find spans, o ∉ x.offsets) ∧
      (∀ u ∈ Unreadable.find t.failures, m.offset? u.key.address ≠ some o) ∧
      ∀ s ∈ unresolvedSpans t.xrefs spans, o ∉ s.offsets := by
  constructor
  · intro h
    have ho : o < m.size := by simpa using (Array.getElem?_eq_some_iff.1 h).1
    rw [getElem?_tracedClasses ho] at h
    split at h
    · cases h
    next hno =>
    split at h
    · next hcover =>
      refine ⟨⟨ho, hcover⟩, fun x hx hat => hno ?_, fun x hx hat => hno ?_,
        fun u hu hat => hno ?_, fun s hs hat => hno ?_⟩
      · exact .inl ⟨x, hx, hat⟩
      · exact .inr (.inl ⟨x, hx, hat⟩)
      · exact .inr (.inr (.inl ⟨u, hu, hat, .inr hcover⟩))
      · exact .inr (.inr (.inr ⟨s, hs, hat⟩))
    · cases h
  · rintro ⟨⟨ho, hcover⟩, hclash, hoverlap, hread, hsite⟩
    rw [getElem?_tracedClasses ho, if_neg, if_pos hcover]
    rintro (⟨x, hx, hat⟩ | ⟨x, hx, hat⟩ | ⟨u, hu, hat, -⟩ | ⟨s, hs, hat⟩)
    · exact hclash x hx hat
    · exact hoverlap x hx hat
    · exact hread u hu hat
    · exact hsite s hs hat

end RomAtlas
