import RomAtlas.Proofs.Hint.Removal

/-!
# How the ledger of hints grows

Each hint adds at most the targets of one jump and one range. So what holds of all jump tables and
of all ranges is seen from one addition.

* `HintLedger.grows_add`: what one hint can do to jump tables and ranges.
* `Hints.check_tables`: **no jump table is without targets.**
* `Hints.check_ranges`: **ranges are numbered in their order**, and each comes from another hint.
-/

namespace RomAtlas

variable {c : Cartridge} {m : AddressMap} {r r' : HintLedger} {s : HintSource}

namespace HintLedger

/-! ## One hint -/

/-- Jump tables as they were, or with targets added to one of them. -/
def TablesGrow (r r' : HintLedger) : Prop :=
  r'.hints.jumpTables = r.hints.jumpTables ∨
    ∃ site targets, targets ≠ [] ∧ r'.hints.jumpTables =
      r.hints.jumpTables.insert site (sortUnique (r.hints.hintedTargets site ++ targets))

/-- Ranges as they were, or with one more behind them, which has the next number and is known by the
place of its hint. -/
def RangesGrow (s : HintSource) (r r' : HintLedger) : Prop :=
  r'.hints.ranges = r.hints.ranges ∧ r'.order = r.order ∨
    ∃ spec : DeclaredRange, spec.order = r.order ∧ spec.source = s ∧
      r'.hints.ranges = r.hints.ranges ++ [spec] ∧ r'.order = r.order + 1

/-- What one more hint does to jump tables and ranges. -/
structure Grows (s : HintSource) (r r' : HintLedger) : Prop where
  tables : r.TablesGrow r'
  ranges : r.RangesGrow s r'

theorem grows_note (xs : List Rejection) : r.Grows s (r.note s xs) :=
  ⟨.inl rfl, .inl ⟨rfl, rfl⟩⟩

/-- A hint that is rejected adds nothing, so only the use of its value is left to look at. -/
theorem Grows.guard {α : Type} {parts : List Value} {check : Except Refusal α}
    {use : α → Except Fault HintLedger} (h : r.guard s parts check use = .ok r')
    (huse : ∀ a, use a = .ok r' → r.Grows s r') : r.Grows s r' := by
  unfold HintLedger.guard at h
  split at h
  · exact huse _ h
  · rw [reject_eq_note h]
    exact grows_note _
  · cases h

theorem tablesGrow_addTargets (r : HintLedger) (site : Int) (targets : List Int) (returns : Bool) :
    r.TablesGrow (r.addTargets site targets returns) := by
  by_cases h : targets = []
  · left
    rw [h]
    rfl
  · right
    refine ⟨site, targets, h, ?_⟩
    unfold addTargets
    dsimp only
    rw [if_neg (by simpa using h)]

theorem grows_addDeclared {range : Extent} {cls : ByteClass} {label : Value}
    (h : r.addDeclared m range cls label s = .ok r') :
    r'.hints.jumpTables = r.hints.jumpTables ∧ r.RangesGrow s r' := by
  unfold addDeclared at h
  obtain ⟨address, -, h⟩ := bind_eq_ok.1 h
  cases h
  exact ⟨rfl, .inr ⟨⟨range, cls, r.order, label, address, s⟩, rfl, rfl, rfl, rfl⟩⟩

theorem grows_addEntry {e : EntryHint} (h : r.addEntry c e s = .ok r') : r.Grows s r' := by
  unfold addEntry at h
  refine Grows.guard h fun taken huse => ?_
  cases huse
  exact ⟨.inl rfl, .inl ⟨rfl, rfl⟩⟩

theorem grows_addRange {cls : ByteClass} {e : RangeHint} (h : r.addRange c cls e s = .ok r') :
    r.Grows s r' := by
  unfold addRange at h
  refine Grows.guard h fun (taken, range) huse => ?_
  obtain ⟨htables, hranges⟩ := grows_addDeclared huse
  exact ⟨.inl htables, hranges⟩

theorem grows_addTable {e : JumpTableHint} (h : r.addTable c e s = .ok r') : r.Grows s r' := by
  unfold addTable at h
  refine Grows.guard h fun reading huse => ?_
  obtain ⟨r₁, hnotes, huse⟩ := bind_eq_ok.1 huse
  -- rejected pointers are noted first, which changes neither tables nor ranges
  have hr₁ := foldlM_reject_eq_note hnotes
  subst hr₁
  have htargets : r.TablesGrow (r.addTargets reading.site reading.targets e.returns) :=
    tablesGrow_addTargets r _ _ _
  unfold HintLedger.guard at huse
  split at huse
  · dsimp only at huse
    split at huse
    · cases huse
      exact ⟨htargets, .inl ⟨rfl, rfl⟩⟩
    · obtain ⟨htables, hranges⟩ := grows_addDeclared huse
      refine ⟨?_, hranges⟩
      unfold TablesGrow at htargets ⊢
      rw [htables]
      exact htargets
  · rw [reject_eq_note huse, note_note]
    exact grows_note _
  · cases huse

/-- **What one hint can do** to jump tables and ranges. -/
theorem grows_add {x : AnyHint} (h : r.add c (x, s) = .ok r') : r.Grows s r' := by
  cases x with
  | entryPoint e => exact grows_addEntry h
  | jumpTable e => exact grows_addTable h
  | range cls e => exact grows_addRange h

/-! ## All hints -/

/-- No jump table is without targets. -/
def TablesFilled (r : HintLedger) : Prop :=
  ∀ (site : Int) (targets : List Int), r.hints.jumpTables[site]? = some targets → targets ≠ []

theorem TablesFilled.grow (h : r.TablesFilled) (hg : r.TablesGrow r') : r'.TablesFilled := by
  intro site targets hsite
  rcases hg with hsame | ⟨site', more, hmore, hinsert⟩
  · rw [hsame] at hsite
    exact h site targets hsite
  · rw [hinsert, Std.TreeMap.getElem?_insert] at hsite
    split at hsite
    · -- what was added is still a target
      obtain ⟨t, ht⟩ := List.exists_mem_of_ne_nil more hmore
      have hmem : t ∈ targets := by
        rw [← Option.some.inj hsite]
        exact mem_sortUnique.2 (List.mem_append_right _ ht)
      exact List.ne_nil_of_mem hmem
    · exact h site targets hsite

/-- The ranges that hints add have the numbers from the next one on, and the places of different
hints. -/
theorem exists_added {l : List (AnyHint × HintSource)} (h : l.foldlM (add c) r = .ok r') :
    ∃ added : List DeclaredRange, r'.hints.ranges = r.hints.ranges ++ added ∧
      added.map (·.order) = List.range' r.order added.length ∧
      (added.map (·.source)).Sublist (l.map Prod.snd) := by
  induction l generalizing r with
  | nil =>
    cases h
    exact ⟨[], (List.append_nil _).symm, rfl, .slnil⟩
  | cons x l ih =>
    obtain ⟨x, s⟩ := x
    rw [List.foldlM_cons] at h
    obtain ⟨r₁, h₁, h⟩ := bind_eq_ok.1 h
    obtain ⟨added, hranges, horder, hsource⟩ := ih h
    rcases (grows_add h₁).ranges with ⟨hsame, hnext⟩ | ⟨spec, hnumber, hplace, hmore, hnext⟩
    · refine ⟨added, by rw [hranges, hsame], by rw [horder, hnext], ?_⟩
      exact hsource.trans (List.sublist_cons_self _ _)
    · refine ⟨spec :: added, ?_, ?_, ?_⟩
      · rw [hranges, hmore, List.append_assoc, List.singleton_append]
      · rw [List.map_cons, horder, hnumber, hnext, List.length_cons, List.range'_succ]
      · rw [List.map_cons, List.map_cons, hplace]
        exact hsource.cons_cons s

end HintLedger

namespace Hints

variable {given : Hints} {checked : CheckedHints} {rejected : List Conflict}
  (h : given.check c = .ok (checked, rejected))
include h

/-- The check is one walk through all hints. -/
theorem exists_ledger_of_check :
    ∃ r, given.listed.foldlM (HintLedger.add c) .start = .ok r ∧ r.hints = checked := by
  rw [check_eq] at h
  obtain ⟨r, hr, h⟩ := bind_eq_ok.1 h
  cases h
  exact ⟨r, hr, rfl⟩

/-- **No jump table is without targets.** -/
theorem check_tables {site : Int} {targets : List Int}
    (ht : checked.jumpTables[site]? = some targets) : targets ≠ [] := by
  obtain ⟨r, hr, rfl⟩ := exists_ledger_of_check h
  have hstart : HintLedger.start.TablesFilled := by
    intro site targets hsite
    simp [HintLedger.start, CheckedHints.empty] at hsite
  have hfilled : r.TablesFilled :=
    foldlM_invariant (fun x _ _ _ hb hx => hb.grow (HintLedger.grows_add hx).tables) hstart hr
  exact hfilled site targets ht

/-- A jump without hinted targets has no table. -/
theorem hintedTargets_eq_nil_iff (site : Int) :
    checked.hintedTargets site = [] ↔ checked.jumpTables[site]? = none := by
  unfold CheckedHints.hintedTargets
  cases ht : checked.jumpTables[site]? with
  | none => simp
  | some targets => simp [check_tables h ht]

/-- **Ranges are numbered in their order**, and each comes from another hint. -/
theorem check_ranges :
    checked.ranges.map (·.order) = List.range checked.ranges.length ∧
      (checked.ranges.map (·.source)).Nodup := by
  obtain ⟨r, hr, rfl⟩ := exists_ledger_of_check h
  obtain ⟨added, hranges, horder, hsource⟩ := HintLedger.exists_added hr
  have hall : r.hints.ranges = added := hranges
  rw [hall]
  refine ⟨?_, hsource.nodup given.nodup_listed⟩
  rw [horder, List.range_eq_range']
  rfl

end Hints

end RomAtlas
