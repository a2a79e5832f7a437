import RomAtlas.Proofs.Hint.Accepted
import RomAtlas.Proofs.Mirrors

/-!
# The names of accepted hints

Hints of all kinds take their names from one stock. A name that is taken stays with the hint that
took it: what is rejected afterwards gives none back, and what is rejected itself takes none.

* `takeName_eq_ok`: a name is new when it is taken, and no generated label can have it.
* `CheckedHints.declarations`: the names of accepted hints, with the addresses that they name.
* `Hints.check_named`: **accepted hints declare each name once**, at canonical addresses.
-/

namespace RomAtlas

variable {c : Cartridge} {m : AddressMap} {r r' : HintLedger} {source : HintSource}

/-- A name is new when it is taken, and it has not the form of a generated one. -/
theorem takeName_eq_ok {taken taken' : List String} {name : Value} {a : Int}
    (h : takeName taken name a = .ok taken') :
    taken' = name.symbol?.toList ++ taken ∧
      ∀ s, name.symbol? = some s → s ∉ taken ∧ isGeneratedName s = false := by
  unfold takeName at h
  unfold Value.symbol?
  split at h
  · next hgiven =>
    rw [if_pos hgiven]
    split at h
    · cases h
    next t ht =>
    rw [ht]
    dsimp only at h
    split at h
    · cases h
    split at h
    · cases h
    next hgenerated =>
    split at h
    · cases h
    next htaken =>
    cases h
    refine ⟨rfl, fun s hs => ?_⟩
    cases hs
    exact ⟨htaken, eq_false_of_ne_true hgenerated⟩
  · next hgiven =>
    rw [if_neg hgiven]
    cases h
    exact ⟨rfl, nofun⟩

/-! ## Declarations -/

/-- An address that shows a byte and stands for all addresses of it. -/
def AddressMap.IsCanonical (m : AddressMap) (a : Int) : Prop := m.shows a = true ∧ m.canonical a = a

theorem AddressMap.isCanonical_shownAt {o : Nat} (h : o < m.size) :
    m.IsCanonical (m.shownAt o) := by
  have ho := offset?_shownAt h
  exact ⟨Option.isSome_of_eq_some ho, canonical_eq_shownAt ho⟩

theorem AddressMap.isCanonical_canonical {a : Int} (h : m.shows a = true) :
    m.IsCanonical (m.canonical a) := by
  refine ⟨?_, m.canonical_canonical a⟩
  unfold shows
  rwa [m.offset?_canonical_eq a]

/-- The name that an entry point declares, with the address that it names. -/
def CodeStart.declaration? (m : AddressMap) (e : CodeStart) : Option (String × Int) :=
  e.name.symbol?.map (·, m.canonical e.address)

/-- The name that a range declares, with the address that it names. -/
def DeclaredRange.declaration? (s : DeclaredRange) : Option (String × Int) :=
  s.label.symbol?.map (·, s.address)

/-- All names that accepted hints declare, with the addresses that they name. -/
def CheckedHints.declarations (m : AddressMap) (h : CheckedHints) : List (String × Int) :=
  h.entryPoints.filterMap (·.declaration? m) ++ h.ranges.filterMap (·.declaration?)

/-- Accepted hints with their names: the names that are taken are those that the hints declare, each
once and none of them of the form of a generated one. Entry points show bytes, and ranges are known
by their canonical addresses. -/
structure CheckedHints.Named (m : AddressMap) (taken : List String) (h : CheckedHints) : Prop where
  declared : ((h.declarations m).map Prod.fst).Perm taken
  nodup : taken.Nodup
  ungenerated : ∀ n ∈ taken, isGeneratedName n = false
  entryPoints : ∀ e ∈ h.entryPoints, m.shows e.address = true
  ranges : ∀ s ∈ h.ranges, m.IsCanonical s.address

namespace CheckedHints.Named

variable {h : CheckedHints} {taken : List String}

theorem empty : CheckedHints.empty.Named m [] where
  declared := .nil
  nodup := .nil
  ungenerated := nofun
  entryPoints := nofun
  ranges := nofun

/-- A new name may be added to those that are taken. -/
theorem cons_taken (hn : h.Named m taken) {name : Value} {taken' : List String} {a : Int}
    (ht : takeName taken name a = .ok taken') :
    taken' = name.symbol?.toList ++ taken ∧ taken'.Nodup ∧
      ∀ n ∈ taken', isGeneratedName n = false := by
  obtain ⟨rfl, hnew⟩ := takeName_eq_ok ht
  refine ⟨rfl, ?_⟩
  cases hs : name.symbol? with
  | none => exact ⟨hn.nodup, hn.ungenerated⟩
  | some s =>
    obtain ⟨hs, hungenerated⟩ := hnew s hs
    exact ⟨List.nodup_cons.2 ⟨hs, hn.nodup⟩, List.forall_mem_cons.2 ⟨hungenerated, hn.ungenerated⟩⟩

theorem addEntry (hn : h.Named m taken) {e : CodeStart} {taken' : List String} {a : Int}
    (ht : takeName taken e.name a = .ok taken') (he : m.shows e.address = true) :
    { h with entryPoints := h.entryPoints ++ [e] : CheckedHints }.Named m taken' := by
  obtain ⟨rfl, hnodup, hungenerated⟩ := hn.cons_taken ht
  refine ⟨?_, hnodup, hungenerated, List.forall_mem_append.2 ⟨hn.entryPoints, by simpa using he⟩,
    hn.ranges⟩
  have hdeclared := hn.declared
  unfold declarations at hdeclared ⊢
  simp only [List.filterMap_append, List.map_append] at hdeclared ⊢
  cases hs : e.name.symbol? with
  | none => simpa [CodeStart.declaration?, hs] using hdeclared
  | some s => simpa [CodeStart.declaration?, hs] using (List.perm_middle).trans (hdeclared.cons s)

theorem addRange (hn : h.Named m taken) {s : DeclaredRange} {taken' : List String} {a : Int}
    (ht : takeName taken s.label a = .ok taken') (hs : m.IsCanonical s.address) :
    { h with ranges := h.ranges ++ [s] : CheckedHints }.Named m taken' := by
  obtain ⟨rfl, hnodup, hungenerated⟩ := hn.cons_taken ht
  refine ⟨?_, hnodup, hungenerated, hn.entryPoints,
    List.forall_mem_append.2 ⟨hn.ranges, by simpa using hs⟩⟩
  have hdeclared := hn.declared
  unfold declarations at hdeclared ⊢
  rw [List.filterMap_append, ← List.append_assoc, List.map_append]
  cases hl : s.label.symbol? with
  | none => simpa [DeclaredRange.declaration?, hl] using hdeclared
  | some n =>
    simp only [DeclaredRange.declaration?, hl, List.filterMap_cons, List.filterMap_nil,
      Option.map_some, List.map_cons, List.map_nil]
    exact (List.perm_append_singleton n _).trans (hdeclared.cons n)

end CheckedHints.Named

/-! ## One hint at a time -/

namespace HintLedger

/-- A rejection leaves a note and nothing else. -/
theorem reject_eq_ok {parts : List Value} {x : Rejection}
    (h : r.reject source parts x = .ok r') :
    r' = { r with rejected := r.rejected ++
      [⟨some x.address, .invalidHint, source.name ++ ": " ++ x.reason.message, []⟩] } := by
  unfold reject at h
  dsimp only at h
  split at h
  · cases h
    rfl
  · cases h

/-- The names of a ledger are those of its hints. -/
def Named (m : AddressMap) (r : HintLedger) : Prop := r.hints.Named m r.taken

theorem Named.reject (hn : r.Named m) {parts : List Value} {x : Rejection}
    (h : r.reject source parts x = .ok r') : r'.Named m := by
  rw [reject_eq_ok h]
  exact hn

/-- A check that is refused keeps the names, so only the use of its value is left to look at. -/
theorem Named.guard (hn : r.Named m) {α : Type} {parts : List Value} {check : Except Refusal α}
    {use : α → Except Fault HintLedger} (h : r.guard source parts check use = .ok r')
    (huse : ∀ a, check = .ok a → use a = .ok r' → r'.Named m) : r'.Named m := by
  unfold HintLedger.guard at h
  split at h
  · next a => exact huse a rfl h
  · exact hn.reject h
  · cases h

/-- A range that takes its name is declared at the canonical address of its first byte. -/
theorem Named.addDeclared {hints : CheckedHints} {taken taken' : List String}
    (hn : hints.Named m taken) {label : Value} {a : Int}
    (ht : takeName taken label a = .ok taken') {range : Extent} (hw : range.Within m.size)
    {cls : ByteClass} {order : Nat} {rejected : List Conflict}
    (h : (⟨hints, taken', order, rejected⟩ : HintLedger).addDeclared m range cls label source =
      .ok r') : r'.Named m := by
  have hlow := hw.start_nonneg
  have hhigh : range.start < m.size := Int.lt_of_lt_of_le hw.start_lt hw.stop_le
  unfold HintLedger.addDeclared at h
  rw [AddressMap.addressOf_eq_ok hlow hhigh] at h
  cases h
  exact hn.addRange ht (AddressMap.isCanonical_shownAt (by omega))

theorem Named.addEntry (hn : r.Named c.map) {e : EntryHint}
    (h : r.addEntry c e source = .ok r') : r'.Named c.map := by
  unfold HintLedger.addEntry at h
  refine hn.guard h fun taken hcheck huse => ?_
  obtain ⟨_, hmapped, htaken⟩ := bind_eq_ok.1 hcheck
  cases huse
  obtain ⟨o, ho⟩ := discard_eq_ok.1 hmapped
  exact CheckedHints.Named.addEntry hn htaken (Option.isSome_of_eq_some (offsetFor_eq_ok.1 ho))

theorem Named.addRange (hn : r.Named c.map) {cls : ByteClass} {e : RangeHint}
    (h : r.addRange c cls e source = .ok r') : r'.Named c.map := by
  unfold HintLedger.addRange at h
  refine hn.guard h fun ⟨taken, range⟩ hcheck huse => ?_
  obtain ⟨htaken, hwithin⟩ := range_of_verdict hcheck
  exact Named.addDeclared hn htaken hwithin huse

theorem Named.addTable (hn : r.Named c.map) {e : JumpTableHint}
    (h : r.addTable c e source = .ok r') : r'.Named c.map := by
  unfold HintLedger.addTable at h
  refine hn.guard h fun reading hread huse => ?_
  obtain ⟨r₁, hfold, huse⟩ := bind_eq_ok.1 huse
  have hn₁ : r₁.Named c.map :=
    foldlM_invariant (P := Named c.map) (fun _ _ _ _ hb hx => hb.reject hx) hn hfold
  refine hn₁.guard huse fun taken htaken huse => ?_
  have htargets : (r₁.addTargets reading.site reading.targets e.returns).hints.Named c.map
      r₁.taken := ⟨hn₁.declared, hn₁.nodup, hn₁.ungenerated, hn₁.entryPoints, hn₁.ranges⟩
  unfold JumpTableHint.Reading.verdict at htaken
  dsimp only at huse
  cases htable : reading.table with
  | none =>
    rw [htable] at htaken huse
    cases htaken
    cases huse
    exact htargets
  | some found =>
    rw [htable] at htaken huse
    exact Named.addDeclared htargets htaken (JumpTableHint.read_table_within hread htable) huse

end HintLedger

/-- **Accepted hints declare each name once.** -/
theorem Hints.check_named {given : Hints} {checked : CheckedHints} {rejected : List Conflict}
    (h : given.check c = .ok (checked, rejected)) : ∃ taken, checked.Named c.map taken := by
  obtain ⟨r, hr, rfl⟩ := check_invariant (P := HintLedger.Named c.map) h CheckedHints.Named.empty
    (fun hn hadd => HintLedger.Named.addEntry hn hadd)
    (fun hn hadd => HintLedger.Named.addTable hn hadd)
    fun hn _ hadd => HintLedger.Named.addRange hn hadd
  exact ⟨r.taken, hr⟩

end RomAtlas
