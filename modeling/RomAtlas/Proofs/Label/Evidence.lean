import RomAtlas.Proofs.Hint.Growth
import RomAtlas.Proofs.Label.Drafts

/-!
# What labels are made of

Each label can be read off the evidence for its address: the cross references that lead there and
the hints that stand or start there. The order in which the evidence is noted does not matter, save
that of the names that are declared.

* `Hints.check_startsAt`: accepted ranges are known by the address of their first byte.
* `Labels.Describe`: the labels of some evidence, said without the order in which it is noted.
* `labels_described`: **the labels of an image are those that the evidence describes**, in whatever
  order and however often the cross references are given.
-/

namespace RomAtlas

variable {α : Type} {m : AddressMap} {k : Int}

/-! ## Ranges and where they start -/

/-- A range starts at an address: there its first byte is shown. -/
def DeclaredRange.StartsAt (m : AddressMap) (s : DeclaredRange) (k : Int) : Prop :=
  m.addressOf s.range.start = .ok k

namespace HintLedger

variable {c : Cartridge} {r r' : HintLedger} {source : HintSource}

/-- All ranges so far are known by the address of their first byte. -/
def Addressed (m : AddressMap) (r : HintLedger) : Prop :=
  ∀ s ∈ r.hints.ranges, s.StartsAt m s.address

theorem Addressed.of_hints (h : r.Addressed m) (hr : r'.hints.ranges = r.hints.ranges) :
    r'.Addressed m := by
  unfold Addressed
  rwa [hr]

theorem Addressed.addDeclared (h : r.Addressed m) {range : Extent} {cls : ByteClass} {label : Value}
    (hr : r.addDeclared m range cls label source = .ok r') : r'.Addressed m := by
  unfold HintLedger.addDeclared at hr
  obtain ⟨address, haddress, hr⟩ := bind_eq_ok.1 hr
  cases hr
  intro s hs
  rcases List.mem_append.1 hs with hs | hs
  · exact h s hs
  · rw [List.mem_singleton.1 hs]
    exact haddress

theorem Addressed.add (h : r.Addressed c.map) {x : AnyHint} (hr : r.add c (x, source) = .ok r') :
    r'.Addressed c.map := by
  cases x with
  | entryPoint e =>
    rcases guard_eq_ok hr with ⟨taken, -, hr⟩ | hr
    · cases hr
      exact h
    · exact h.of_hints (by rw [hr])
  | range cls e =>
    rcases guard_eq_ok hr with ⟨⟨taken, range⟩, -, hr⟩ | hr
    · exact Addressed.addDeclared (r := { r with taken := taken }) h hr
    · exact h.of_hints (by rw [hr])
  | jumpTable e =>
    rcases guard_eq_ok hr with ⟨reading, -, hr⟩ | hr
    · obtain ⟨r₁, hnotes, hr⟩ := bind_eq_ok.1 hr
      -- rejected pointers leave notes only
      have hr₁ := foldlM_reject_eq_note hnotes
      subst hr₁
      rcases guard_eq_ok hr with ⟨taken, -, hr⟩ | hr
      · dsimp only at hr
        split at hr
        · cases hr
          exact h
        · exact Addressed.addDeclared (r := { r.note source reading.rejections with
            taken := taken }.addTargets reading.site reading.targets e.returns) h hr
      · exact h.of_hints (by rw [hr]; rfl)
    · exact h.of_hints (by rw [hr])

end HintLedger

variable {c : Cartridge} {given : Hints} {checked : CheckedHints} {rejected : List Conflict}

/-- **Accepted ranges are known by the address of their first byte.** -/
theorem Hints.check_startsAt (h : given.check c = .ok (checked, rejected)) {s : DeclaredRange}
    (hs : s ∈ checked.ranges) : s.StartsAt c.map k ↔ s.address = k := by
  obtain ⟨r, hr, rfl⟩ := exists_ledger_of_check h
  have hstart : HintLedger.start.Addressed c.map := nofun
  have haddressed : r.Addressed c.map :=
    foldlM_invariant (fun x _ _ _ hb hx => hb.add hx) hstart hr
  unfold DeclaredRange.StartsAt
  rw [haddressed s hs, Except.ok.injEq]

/-! ## Labels from their evidence -/

/-- A cross reference leads to a byte that is shown, and to the one that stands at an address. -/
def Xref.LeadsTo (m : AddressMap) (x : Xref) (k : Int) : Prop :=
  ∃ a, x.target = some a ∧ m.shows a = true ∧ m.canonical a = k

theorem Xref.labelled?_eq_some_iff {x : Xref} : x.labelled? m = some k ↔ x.LeadsTo m k := by
  unfold labelled? LeadsTo
  simp only [Option.map_eq_some_iff, Option.filter_eq_some_iff, and_assoc]

/-- The order of cross references: by source, then target, then the word for the kind. -/
def Xref.Before (x y : Xref) : Prop :=
  x.source < y.source ∨ x.source = y.source ∧
    (x.place < y.place ∨ x.place = y.place ∧ x.kindName < y.kindName)

theorem Xref.Before.asymm {x y : Xref} (h : x.Before y) : ¬ y.Before x := by
  rintro (h' | ⟨hs', h' | ⟨hp', h'⟩⟩) <;> rcases h with h | ⟨hs, h | ⟨hp, h⟩⟩ <;> try omega
  exact String.lt_asymm h h'

/-- Cross references with targets are compared in this order. -/
theorem Xref.before_of_compare {x y : Xref} {a b : Int} (hx : x.target = some a)
    (hy : y.target = some b) (h : compare x y = .lt) : x.Before y := by
  have hname : ∀ s t : String, compare s t = .lt ↔ s < t := fun s t => compareOfLessAndEq_eq_lt
  have h : compareLex (compareOn source) (compareLex (compareOn place)
    (compareLex (compareOn kindName) (compareOn target))) x y = .lt := h
  simp only [compareLex, compareOn, Ordering.then_eq_lt, Int.compare_eq_lt, hname,
    Std.LawfulEqOrd.compare_eq_iff_eq] at h
  rcases h with h | ⟨hs, h | ⟨hp, h | ⟨-, h⟩⟩⟩
  · exact .inl h
  · exact .inr ⟨hs, .inl h⟩
  · exact .inr ⟨hs, .inr ⟨hp, h⟩⟩
  · -- the same place is the same target
    have hab : a = b := by simpa [place, hx, hy] using hp
    rw [hx, hy, hab, Std.ReflOrd.compare_self] at h
    cases h

/-- An entry point stands at an address. -/
def CheckedHints.EntersAt (m : AddressMap) (h : CheckedHints) (k : Int) : Prop :=
  ∃ e ∈ h.entryPoints, m.canonical e.address = k

/-- A data range starts at an address; a pointer table is one. -/
def CheckedHints.DataAt (m : AddressMap) (h : CheckedHints) (k : Int) : Prop :=
  ∃ s ∈ h.dataRanges, s.StartsAt m k

/-- A code range with a name starts at an address. -/
def CheckedHints.NamesCodeAt (m : AddressMap) (h : CheckedHints) (k : Int) : Prop :=
  ∃ s ∈ h.codeRanges, s.label.symbol?.isSome = true ∧ s.StartsAt m k

/-- The names that hints declare for an address, in their order. -/
def CheckedHints.namesAt (m : AddressMap) (h : CheckedHints) (k : Int) : List String :=
  (evidenceAt m [] h k).names

/-- The label of an address in some evidence: at the start of a data range or in a data region it is
a data block, otherwise a subroutine if there is an entry point or a call, and a branch target if
not. It comes from the cross references that lead there, each once and in their order, and has the
name that was declared last or a generated one. -/
structure Label.MadeOf (m : AddressMap) (xrefs : List Xref) (hints : CheckedHints)
    (regions : Option Partition) (k : Int) (l : Label) : Prop where
  address : l.address = k
  dataBlock : l.kind = .dataBlock ↔
    hints.DataAt m k ∨ regions.bind (·.classOf? k) = some .data
  subroutine : l.kind ≠ .dataBlock →
    (l.kind = .subroutine ↔ hints.EntersAt m k ∨ ∃ x ∈ xrefs, x.LeadsTo m k ∧ x.Calls)
  ascending : l.provenance.Pairwise Xref.Before
  provenance : ∀ x, x ∈ l.provenance ↔ x ∈ xrefs ∧ x.LeadsTo m k
  name : l.name = (hints.namesAt m k).getLast?.getD (l.kind.nameAt k)

/-- The labels of some evidence. -/
structure Labels.Describe (m : AddressMap) (xrefs : List Xref) (hints : CheckedHints)
    (regions : Option Partition) (labels : Labels) : Prop where
  labelled : ∀ k, k ∈ labels ↔ (∃ x ∈ xrefs, x.LeadsTo m k) ∨ hints.EntersAt m k ∨
    hints.DataAt m k ∨ hints.NamesCodeAt m k
  label : ∀ (k : Int) (l : Label), labels[k]? = some l → l.MadeOf m xrefs hints regions k

/-! ### The evidence for an address in words -/

theorem filter_ne_nil_iff {l : List α} {p : α → Prop} [DecidablePred p] :
    l.filter (fun x => p x) ≠ [] ↔ ∃ x ∈ l, p x := by
  simp [List.filter_eq_nil_iff]

theorem mem_references_iff {hints : CheckedHints} {xrefs : List Xref} {x : Xref} :
    x ∈ (evidenceAt m xrefs hints k).references ↔ x ∈ xrefs ∧ x.LeadsTo m k := by
  unfold evidenceAt
  simp only [List.mem_filter, decide_eq_true_eq, Xref.labelled?_eq_some_iff]

theorem references_ne_nil_iff {hints : CheckedHints} {xrefs : List Xref} :
    (evidenceAt m xrefs hints k).references ≠ [] ↔ ∃ x ∈ xrefs, x.LeadsTo m k := by
  refine filter_ne_nil_iff.trans ?_
  simp only [Xref.labelled?_eq_some_iff]

theorem entries_ne_nil_iff {hints : CheckedHints} {xrefs : List Xref} :
    (evidenceAt m xrefs hints k).entries ≠ [] ↔ hints.EntersAt m k := by
  refine filter_ne_nil_iff.trans ?_
  simp only [Option.some.injEq, CheckedHints.EntersAt]

section

variable (h : given.check c = .ok (checked, rejected)) (xrefs : List Xref)
include h

theorem data_ne_nil_iff :
    (evidenceAt c.map xrefs checked k).data ≠ [] ↔ checked.DataAt c.map k := by
  refine filter_ne_nil_iff.trans (exists_congr fun s => and_congr_right fun hs => ?_)
  rw [Hints.check_startsAt h (List.mem_of_mem_filter hs), Option.some.injEq]

theorem code_ne_nil_iff :
    (evidenceAt c.map xrefs checked k).code ≠ [] ↔ checked.NamesCodeAt c.map k := by
  refine filter_ne_nil_iff.trans (exists_congr fun s => and_congr_right fun hs => ?_)
  rw [Hints.check_startsAt h (List.mem_of_mem_filter hs), DeclaredRange.labelled?]
  cases s.label.symbol? <;> simp

/-- **A label says what its evidence says.** -/
theorem madeOf_finish {d : LabelDraft} (hd : (evidenceAt c.map xrefs checked k).draft = some d)
    (regions : Option Partition) :
    (d.finish regions k).MadeOf c.map xrefs checked regions k := by
  obtain ⟨hblock, hsub⟩ := LabelEvidence.kind_draft hd
  rw [data_ne_nil_iff h] at hblock
  have hkind : (d.finish regions k).kind =
      if regions.bind (·.classOf? k) = some .data then .dataBlock else d.kind := rfl
  have hreferences : d.provenance = (evidenceAt c.map xrefs checked k).references.reverse := by
    rw [← LabelEvidence.references_draft, hd]
    rfl
  have hmem : ∀ x, x ∈ (d.finish regions k).provenance ↔ x ∈ xrefs ∧ x.LeadsTo c.map k := by
    intro x
    rw [LabelDraft.finish, mem_sortUnique, hreferences, List.mem_reverse, mem_references_iff]
  refine ⟨rfl, ?_, fun hne => ?_, ?_, hmem, ?_⟩
  · rw [hkind, ← hblock]
    split
    · next hdata => simp [hdata]
    · next hdata => simp [hdata]
  · rw [hkind] at hne ⊢
    split at hne
    · exact absurd rfl hne
    next hdata =>
    have hnil : (evidenceAt c.map xrefs checked k).data = [] := by
      by_contra hdata
      exact hne (hblock.2 ((data_ne_nil_iff h xrefs).1 hdata))
    rw [if_neg hdata, hsub hnil, entries_ne_nil_iff]
    simp only [mem_references_iff, and_assoc]
  · refine (pairwise_sortUnique d.provenance).imp_of_mem fun {x y} hx hy hxy => ?_
    obtain ⟨-, a, ha, -⟩ := (hmem x).1 hx
    obtain ⟨-, b, hb, -⟩ := (hmem y).1 hy
    exact Xref.before_of_compare ha hb hxy
  · have hname : d.name = (checked.namesAt c.map k).getLast? := by
      have hdraft := LabelEvidence.declaredName_draft (evidenceAt c.map xrefs checked k)
      rw [hd] at hdraft
      exact hdraft
    rw [LabelDraft.name_finish, hname]

theorem describe_labelsFor (regions : Option Partition) :
    Labels.Describe c.map xrefs checked regions (labelsFor c.map xrefs checked regions) := by
  refine ⟨fun k => ?_, fun k l hl => ?_⟩
  · rw [labelsFor_eq, Std.TreeMap.mem_map, Std.TreeMap.mem_iff_isSome_getElem?,
      getElem?_labelDrafts, LabelEvidence.isSome_draft, references_ne_nil_iff, entries_ne_nil_iff,
      data_ne_nil_iff h, code_ne_nil_iff h]
  · rw [labelsFor_eq, Std.TreeMap.getElem?_map, getElem?_labelDrafts] at hl
    obtain ⟨d, hd, rfl⟩ := Option.map_eq_some_iff.1 hl
    exact madeOf_finish h xrefs hd regions

end

/-! ### The evidence determines the labels -/

variable {xrefs xrefs' : List Xref} {hints : CheckedHints} {regions : Option Partition}

theorem Label.MadeOf.eq {l l' : Label} (h : l.MadeOf m xrefs hints regions k)
    (h' : l'.MadeOf m xrefs' hints regions k) (hx : ∀ x, x ∈ xrefs' ↔ x ∈ xrefs) : l' = l := by
  have hprovenance : l'.provenance = l.provenance := by
    have hnodup : ∀ {p : List Xref}, p.Pairwise Xref.Before → p.Nodup := by
      intro p hp
      refine hp.imp fun {x y} hxy heq => ?_
      subst heq
      exact hxy.asymm hxy
    refine List.Perm.eq_of_pairwise (fun x y _ _ hxy hyx => absurd hyx hxy.asymm) h'.ascending
      h.ascending ?_
    rw [List.perm_ext_iff_of_nodup (hnodup h'.ascending) (hnodup h.ascending)]
    intro x
    rw [h.provenance, h'.provenance, hx]
  have hkind : l'.kind = l.kind := by
    have hblock := h'.dataBlock.trans h.dataBlock.symm
    have hsub : l.kind ≠ .dataBlock → (l'.kind = .subroutine ↔ l.kind = .subroutine) := by
      intro hne
      rw [h.subroutine hne, h'.subroutine (fun heq => hne (hblock.1 heq))]
      simp only [hx]
    cases hk : l.kind <;> cases hk' : l'.kind <;> simp_all
  have hname : l'.name = l.name := by rw [h.name, h'.name, hkind]
  have haddress : l'.address = l.address := h'.address.trans h.address.symm
  cases l
  cases l'
  simp_all

/-- **Evidence determines labels**, and the cross references matter as a set only. -/
theorem Labels.Describe.toList_eq {labels labels' : Labels}
    (h : Describe m xrefs hints regions labels) (h' : Describe m xrefs' hints regions labels')
    (hx : ∀ x, x ∈ xrefs' ↔ x ∈ xrefs) : labels'.toList = labels.toList := by
  refine Std.TreeMap.Equiv.toList_eq (Std.TreeMap.Equiv.of_forall_constGet?_eq fun k => ?_)
  have hmem : k ∈ labels' ↔ k ∈ labels := by
    rw [h.labelled, h'.labelled]
    simp only [hx]
  rw [Std.TreeMap.mem_iff_isSome_getElem?, Std.TreeMap.mem_iff_isSome_getElem?] at hmem
  cases hl : labels[k]? with
  | none =>
    rw [hl] at hmem
    simpa using hmem
  | some l =>
    rw [hl] at hmem
    obtain ⟨l', hl'⟩ := Option.isSome_iff_exists.1 (hmem.2 rfl)
    rw [hl', (h.label k l hl).eq (h'.label k l' hl') hx]

/-- **The labels of an image are those that the evidence describes.** They stand at the targets of
cross references that are shown, at entry points, at the starts of data ranges and at the starts of
code ranges with a name, and each says what its evidence says. Cross references in another order or
given more than once lead to the same labels. -/
theorem labels_described (h : given.check c = .ok (checked, rejected)) (xrefs : List Xref)
    (regions : Option Partition) :
    Labels.Describe c.map xrefs checked regions (labelsFor c.map xrefs checked regions) ∧
      ∀ xrefs' : List Xref, (∀ x, x ∈ xrefs' ↔ x ∈ xrefs) →
        (labelsFor c.map xrefs' checked regions).toList =
          (labelsFor c.map xrefs checked regions).toList := by
  have hdescribe := describe_labelsFor h xrefs regions
  refine ⟨hdescribe, fun xrefs' hx => ?_⟩
  exact hdescribe.toList_eq (describe_labelsFor h xrefs' regions) hx

/-- A call that is noted twice labels its target once, next to the hints of `namedHints`. -/
theorem labels_described_namedHints :
    namedHints.check shortCartridge = .ok (namedChecked, []) ∧
    Labels.Describe shortCartridge.map [⟨0x8000, some 0x808001, .call⟩] namedChecked none
      namedLabels ∧
    (labelsFor shortCartridge.map [⟨0x8000, some 0x808001, .call⟩,
        ⟨0x8000, some 0x808001, .call⟩] namedChecked none).toList = namedLabels.toList := by
  have hc : namedHints.check shortCartridge = .ok (namedChecked, []) := rfl
  obtain ⟨hdescribe, hsame⟩ := labels_described hc [⟨0x8000, some 0x808001, .call⟩] none
  refine ⟨hc, hdescribe, hsame _ fun x => ?_⟩
  simp

end RomAtlas
