import RomAtlas.Region.Classify

/-!
# Contradictions

What the search for contradictions in a trace finds: clashes of widths at one start, instructions
that start inside others, failures to decode, and jumps whose target is not known.

* `Clash.exists_mem_of_widths_ne`, `Overlap.exists_mem_of_start_mem_tail`,
  `Unreadable.exists_mem_find`: **nothing is missed.**
* `Clash.found_of_mem`, `Overlap.found_of_mem`, `Unreadable.exists_failure`,
  `mem_unresolvedSpans`: what is found is there.
-/

namespace RomAtlas

/-! ## Groups -/

section

variable {α κ : Type} [BEq κ] [Hashable κ] {key : α → κ} {a b : α} {l : List α}

/-- One step of `firstOfEach`. -/
def keepFirst (key : α → κ) (state : Std.HashSet κ × Array α) (a : α) : Std.HashSet κ × Array α :=
  if state.1.contains (key a) then state else (state.1.insert (key a), state.2.push a)

theorem firstOfEach_eq (key : α → κ) (l : List α) :
    firstOfEach key l = (l.foldl (keepFirst key) (∅, #[])).2.toList := rfl

variable [LawfulBEq κ] [LawfulHashable κ]

/-- What is kept comes from the list, and for each member one with its key is kept. -/
theorem foldl_keepFirst (key : α → κ) (l : List α) (state : Std.HashSet κ × Array α)
    (hs : ∀ k ∈ state.1, ∃ b ∈ state.2, key b = k) :
    (∀ b ∈ (l.foldl (keepFirst key) state).2, b ∈ state.2 ∨ b ∈ l) ∧
      (∀ b ∈ state.2, b ∈ (l.foldl (keepFirst key) state).2) ∧
      ∀ a ∈ l, ∃ b ∈ (l.foldl (keepFirst key) state).2, key b = key a := by
  induction l generalizing state with
  | nil => exact ⟨fun b hb => .inl hb, fun b hb => hb, fun a ha => by cases ha⟩
  | cons a l ih =>
    rw [List.foldl_cons]
    by_cases h : key a ∈ state.1
    · -- the key came before
      have hstep : keepFirst key state a = state := by simp [keepFirst, h]
      rw [hstep]
      obtain ⟨hmem, hkeep, hall⟩ := ih state hs
      refine ⟨fun b hb => (hmem b hb).imp id (List.mem_cons_of_mem a), hkeep, fun x hx => ?_⟩
      rcases List.mem_cons.1 hx with rfl | hx
      · obtain ⟨b, hb, hk⟩ := hs _ h
        exact ⟨b, hkeep b hb, hk⟩
      · exact hall x hx
    · have hstep : keepFirst key state a = (state.1.insert (key a), state.2.push a) := by
        simp [keepFirst, h]
      rw [hstep]
      have hs' : ∀ k ∈ state.1.insert (key a), ∃ b ∈ state.2.push a, key b = k := by
        intro k hk
        rcases Std.HashSet.mem_insert.1 hk with hk | hk
        · exact ⟨a, Array.mem_push_self, beq_iff_eq.1 hk⟩
        · obtain ⟨b, hb, hbk⟩ := hs k hk
          exact ⟨b, Array.mem_push_of_mem a hb, hbk⟩
      obtain ⟨hmem, hkeep, hall⟩ := ih (state.1.insert (key a), state.2.push a) hs'
      refine ⟨fun b hb => ?_, fun b hb => hkeep b (Array.mem_push_of_mem a hb), fun x hx => ?_⟩
      · rcases hmem b hb with hb | hb
        · rcases Array.mem_push.1 hb with hb | rfl
          · exact .inl hb
          · exact .inr List.mem_cons_self
        · exact .inr (List.mem_cons_of_mem a hb)
      · rcases List.mem_cons.1 hx with rfl | hx
        · exact ⟨x, hkeep x Array.mem_push_self, rfl⟩
        · exact hall x hx

theorem mem_of_mem_firstOfEach (h : b ∈ firstOfEach key l) : b ∈ l := by
  rw [firstOfEach_eq, Array.mem_toList_iff] at h
  have hall := (foldl_keepFirst key l (∅, #[]) (by simp)).1 b h
  simpa using hall

theorem exists_mem_firstOfEach (key : α → κ) (h : a ∈ l) :
    ∃ b ∈ firstOfEach key l, key b = key a := by
  rw [firstOfEach_eq]
  simp only [Array.mem_toList_iff]
  exact (foldl_keepFirst key l (∅, #[]) (by simp)).2.2 a h

/-- No group is empty. -/
theorem ne_nil_of_getElem?_groupBy {k : κ} {group : List α}
    (h : (groupBy key l)[k]? = some group) : group ≠ [] := by
  induction l generalizing group with
  | nil => simp [groupBy] at h
  | cons a l ih =>
    rw [groupBy, List.foldr_cons, ← groupBy, Std.HashMap.getElem?_alter] at h
    split at h
    · rw [← Option.some.inj h]
      exact List.cons_ne_nil _ _
    · exact ih h

theorem mem_group (key : α → κ) (l : List α) (k : κ) :
    a ∈ (groupBy key l).getD k [] ↔ a ∈ l ∧ key a = k := by
  rw [getD_groupBy, List.mem_filter, beq_iff_eq]

end

/-- A list with two different members has two different members to count. -/
theorem two_le_countDistinct {α : Type} [BEq α] [LawfulBEq α] {l : List α} {a b : α} (ha : a ∈ l)
    (hb : b ∈ l) (hne : a ≠ b) : 2 ≤ countDistinct l := by
  unfold countDistinct
  have ha := List.mem_eraseDups.2 ha
  have hb := List.mem_eraseDups.2 hb
  match h : l.eraseDups with
  | [] => rw [h] at ha; cases ha
  | [x] =>
    rw [h, List.mem_singleton] at ha hb
    exact absurd (ha.trans hb.symm) hne
  | _ :: _ :: _ => simp

/-- A list with two different members to count has one that differs from any given value. -/
theorem exists_ne_of_two_le_countDistinct {α : Type} [BEq α] [LawfulBEq α] {l : List α}
    (h : 2 ≤ countDistinct l) (a : α) : ∃ b ∈ l, b ≠ a := by
  cases l with
  | nil => simp [countDistinct] at h
  | cons b l =>
    by_cases hb : b = a
    · -- a member that differs from the first is left to count
      rw [countDistinct, List.eraseDups_cons, List.length_cons] at h
      obtain ⟨x, hx⟩ := List.exists_mem_of_length_pos
        (l := (l.filter fun x => !x == b).eraseDups) (by omega)
      obtain ⟨hmem, hne⟩ := List.mem_filter.1 (List.mem_eraseDups.1 hx)
      exact ⟨x, List.mem_cons_of_mem _ hmem, by simpa [hb] using hne⟩
    · exact ⟨b, List.mem_cons_self, hb⟩

variable {spans : List Span} {s r : Span}

/-! ## Clashes -/

/-- A clash holds all spans at its start, and they were decoded under several widths. -/
structure Clash.Found (spans : List Span) (x : Clash) : Prop where
  members : ∀ s, s ∈ x.members ↔ s ∈ spans ∧ s.start = x.start
  widths : ∀ w, ∃ s ∈ x.members, s.widths ≠ w

theorem Clash.found_of_mem {x : Clash} (h : x ∈ Clash.find spans) : x.Found spans := by
  obtain ⟨start, -, hx⟩ := List.mem_filterMap.1 h
  dsimp only at hx
  split at hx
  · next hcount =>
    cases hx
    refine ⟨fun s => mem_group Span.start spans start, fun w => ?_⟩
    obtain ⟨_, hother, hne⟩ := exists_ne_of_two_le_countDistinct hcount w
    obtain ⟨s, hs, rfl⟩ := List.mem_map.1 hother
    exact ⟨s, hs, hne⟩
  · cases hx

/-- **No clash is missed**: each span at an offset with several widths is a member of one. -/
theorem Clash.exists_mem_of_widths_ne (hs : s ∈ spans) (hr : r ∈ spans)
    (hstart : s.start = r.start) (hw : s.widths ≠ r.widths) :
    ∃ x ∈ Clash.find spans, s ∈ x.members := by
  have hsg := (mem_group Span.start spans s.start).2 ⟨hs, rfl⟩
  have hrg := (mem_group Span.start spans s.start).2 ⟨hr, hstart.symm⟩
  refine ⟨⟨s.start, (groupBy Span.start spans).getD s.start []⟩, ?_, hsg⟩
  refine List.mem_filterMap.2 ⟨s.start, mem_sortUnique.2 (List.mem_map_of_mem hs), ?_⟩
  exact if_pos (two_le_countDistinct (List.mem_map_of_mem hsg) (List.mem_map_of_mem hrg) hw)

/-! ## Overlaps -/

/-- An overlap holds a span, the start of another inside it, and all spans at that start. -/
structure Overlap.Found (spans : List Span) (x : Overlap) : Prop where
  outer : x.outer ∈ spans
  inner : x.inner ∈ x.outer.offsets.tail
  members : ∀ s, s ∈ x.members ↔ s ∈ spans ∧ s.start = x.inner
  nonempty : ∃ s, s ∈ x.members

theorem Overlap.found_of_mem {x : Overlap} (h : x ∈ Overlap.find spans) : x.Found spans := by
  obtain ⟨outer, houter, hx⟩ := List.mem_flatMap.1 (mem_of_mem_firstOfEach h)
  obtain ⟨inner, hinner, hx⟩ := List.mem_filterMap.1 hx
  obtain ⟨members, hg, rfl⟩ := Option.map_eq_some_iff.1 hx
  have hmembers : (groupBy Span.start spans).getD inner [] = members := by
    rw [Std.HashMap.getD_eq_getD_getElem?, hg]
    rfl
  refine ⟨houter, hinner, fun s => ?_, List.exists_mem_of_ne_nil _ (ne_nil_of_getElem?_groupBy hg)⟩
  rw [← mem_group Span.start spans inner, hmembers]

/-- **No overlap is missed**: each span that starts inside another is a member of one. The outer
span of that one may be another, with the same start. -/
theorem Overlap.exists_mem_of_start_mem_tail (hs : s ∈ spans) (hr : r ∈ spans)
    (hin : r.start ∈ s.offsets.tail) :
    ∃ x ∈ Overlap.find spans, x.outer.start = s.start ∧ r ∈ x.members := by
  have hrg := (mem_group Span.start spans r.start).2 ⟨hr, rfl⟩
  obtain ⟨members, hg⟩ : ∃ members, (groupBy Span.start spans)[r.start]? = some members := by
    rw [Std.HashMap.getD_eq_getD_getElem?] at hrg
    cases hg : (groupBy Span.start spans)[r.start]? with
    | none => rw [hg] at hrg; cases hrg
    | some members => exact ⟨members, rfl⟩
  have hpair : ⟨s, r.start, members⟩ ∈ spans.flatMap fun s => s.offsets.tail.filterMap
      fun inner => ((groupBy Span.start spans)[inner]?).map (Overlap.mk s inner) :=
    List.mem_flatMap.2 ⟨s, hs, List.mem_filterMap.2 ⟨r.start, hin, by rw [hg]; rfl⟩⟩
  obtain ⟨x, hx, hkey⟩ := exists_mem_firstOfEach (fun o => (o.outer.start, o.inner)) hpair
  obtain ⟨hstart, hinner⟩ := Prod.mk.inj hkey
  exact ⟨x, hx, hstart, ((found_of_mem hx).members r).2 ⟨hr, hinner.symm⟩⟩

/-! ## Failures and unresolved jumps -/

theorem Unreadable.exists_failure {failures : List (Node × DecodeFault)} {u : Unreadable}
    (h : u ∈ Unreadable.find failures) :
    ∃ n fault, (n, fault) ∈ failures ∧ u.key = ⟨n.address, fault.reason⟩ := by
  obtain ⟨key, hkey, rfl⟩ := List.mem_map.1 h
  obtain ⟨⟨n, fault⟩, hmem, rfl⟩ := List.mem_map.1 (mem_sortUnique.1 hkey)
  exact ⟨n, fault, hmem, rfl⟩

/-- **No failure is missed.** -/
theorem Unreadable.exists_mem_find {failures : List (Node × DecodeFault)} {n : Node}
    {fault : DecodeFault} (h : (n, fault) ∈ failures) :
    ∃ u ∈ Unreadable.find failures, u.key = ⟨n.address, fault.reason⟩ := by
  refine ⟨_, List.mem_map.2 ⟨⟨n.address, fault.reason⟩, mem_sortUnique.2 ?_, rfl⟩, rfl⟩
  exact List.mem_map.2 ⟨(n, fault), h, rfl⟩

theorem mem_unresolvedSpans {xrefs : List Xref} :
    s ∈ unresolvedSpans xrefs spans ↔
      s ∈ spans ∧ ∃ x ∈ xrefs, x.kind = .indirectUnresolved ∧ x.source = s.instr.address := by
  unfold unresolvedSpans
  simp [List.mem_filter, and_assoc]

end RomAtlas
