import Mathlib.Data.List.Nodup
import RomAtlas.Label
import RomAtlas.Proofs.Hex
import RomAtlas.Proofs.Hint.Names
import RomAtlas.Proofs.Trace.Exact

/-!
# The names of labels

Declared and generated names stand in one table of symbols. Names are declared once, no declared
name has the form of a generated one, and a generated name tells the address that it stands at.

* `LabelKind.nameAt_inj`: a generated name tells its address.
* `LabelDrafts.Grounded`: what every draft of a label has, kept by each source of labels.
* `names_unique`: **no two labels have the same name**, so the table of symbols loses none.
-/

namespace RomAtlas

/-! ## Generated names -/

namespace LabelKind

theorem toList_nameAt (k : LabelKind) (a : Int) :
    (k.nameAt a).toList = (k.stem ++ "_").toList ++ (Hex.padded 6 a).toList := by
  unfold nameAt
  rw [String.toList_append]

/-- **A generated name tells its address.** -/
theorem nameAt_inj {k k' : LabelKind} {a a' : Int} (ha : 0 ≤ a) (ha' : 0 ≤ a')
    (hlt : a < 0x1000000) (hlt' : a' < 0x1000000) (h : k.nameAt a = k'.nameAt a') : a = a' := by
  have hlist := congrArg String.toList h
  rw [toList_nameAt, toList_nameAt] at hlist
  have hlength : (Hex.padded 6 a).toList.length = (Hex.padded 6 a').toList.length := by
    rw [Hex.length_padded (by decide) ha (by omega), Hex.length_padded (by decide) ha' (by omega)]
  have hdigits := (List.append_inj' hlist hlength).2
  exact Hex.padded_inj ha ha' (String.toList_inj.1 hdigits)

/-- **A generated name is recognised as one.** -/
theorem isGeneratedName_nameAt (k : LabelKind) {a : Int} (ha : 0 ≤ a) (hlt : a < 0x1000000) :
    isGeneratedName (k.nameAt a) = true := by
  have hword : k.stem ++ "_" ∈ ["SUB_", "CODE_", "DATA_"] := by cases k <;> decide
  have hlength : (Hex.padded 6 a).toList.length = 6 :=
    Hex.length_padded (by decide) ha (by omega)
  unfold isGeneratedName
  dsimp only
  refine List.any_eq_true.2 ⟨_, hword, ?_⟩
  have htake : (k.nameAt a).toList.take (k.stem ++ "_").length = (k.stem ++ "_").toList := by
    rw [toList_nameAt]
    exact List.take_left' String.length_toList
  have hdrop : (k.nameAt a).toList.drop (k.stem ++ "_").length = (Hex.padded 6 a).toList := by
    rw [toList_nameAt]
    exact List.drop_left' String.length_toList
  rw [htake, hdrop, hlength]
  have hall : ∀ d < 16, (('0' ≤ Hex.upperDigit d && Hex.upperDigit d ≤ '9') ||
      ('A' ≤ Hex.upperDigit d && Hex.upperDigit d ≤ 'F') ||
      ('a' ≤ Hex.upperDigit d && Hex.upperDigit d ≤ 'f')) = true := by decide
  simp only [decide_true, Bool.true_and, List.all_eq_true]
  intro ch hch
  obtain ⟨d, hd, rfl⟩ := Hex.exists_of_mem_padded ha hch
  exact hall d hd

end LabelKind

/-! ## Drafts -/

namespace LabelDraft

theorem name_refer {d : Option LabelDraft} {x : Xref} {n : String}
    (h : (refer d x).name = some n) : ∃ d', d = some d' ∧ d'.name = some n := by
  cases d with
  | none => cases h
  | some d => exact ⟨d, rfl, h⟩

theorem name_declare {d : Option LabelDraft} {kind : LabelKind} {name : Option String} {n : String}
    (h : (declare d kind name).name = some n) :
    name = some n ∨ ∃ d', d = some d' ∧ d'.name = some n := by
  cases d with
  | none => exact .inl h
  | some d =>
    rcases Option.or_eq_some_iff.1 h with h | ⟨-, h⟩
    · exact .inl h
    · exact .inr ⟨d, rfl, h⟩

end LabelDraft

namespace LabelDrafts

variable {m : AddressMap} {declared : List (String × Int)} {t : LabelDrafts}

/-- Every draft stands at a canonical address, and its name, if it has one, is declared for that
address. -/
def Grounded (m : AddressMap) (declared : List (String × Int)) (t : LabelDrafts) : Prop :=
  ∀ k d, t[k]? = some d → m.IsCanonical k ∧ ∀ n, d.name = some n → (n, k) ∈ declared

theorem grounded_empty : (∅ : LabelDrafts).Grounded m declared := by
  intro k d h
  rw [Std.TreeMap.getElem?_emptyc] at h
  cases h

theorem Grounded.alter (h : t.Grounded m declared) {k : Int} (hk : m.IsCanonical k)
    {f : Option LabelDraft → LabelDraft}
    (hf : ∀ d n, (f d).name = some n → (n, k) ∈ declared ∨ ∃ d', d = some d' ∧ d'.name = some n) :
    Grounded m declared (t.alter k fun d => some (f d)) := by
  intro k' d hd
  rw [Std.TreeMap.getElem?_alter] at hd
  split at hd
  · next heq =>
    obtain rfl := Std.LawfulEqCmp.eq_of_compare heq
    cases hd
    refine ⟨hk, fun n hn => ?_⟩
    rcases hf _ n hn with hn | ⟨d', hd', hn⟩
    · exact hn
    · exact (h k d' hd').2 n hn
  · exact h k' d hd

theorem Grounded.addXref (h : t.Grounded m declared) (x : Xref) :
    (t.addXref m x).Grounded m declared := by
  unfold LabelDrafts.addXref
  split
  · exact h
  · next target htarget =>
    have hshows := (Option.filter_eq_some_iff.1 htarget).2
    exact h.alter (AddressMap.isCanonical_canonical hshows) fun d n hn =>
      .inr (LabelDraft.name_refer hn)

theorem Grounded.addEntry (h : t.Grounded m declared) {e : CodeStart}
    (he : m.shows e.address = true) (hdeclared : ∀ p, e.declaration? m = some p → p ∈ declared) :
    (t.addEntry m e).Grounded m declared := by
  refine h.alter (AddressMap.isCanonical_canonical he) fun d n hn => ?_
  refine (LabelDraft.name_declare hn).imp_left fun hname => hdeclared _ ?_
  rw [CodeStart.declaration?, hname, Option.map_some]

theorem Grounded.addData (h : t.Grounded m declared) {s : DeclaredRange}
    (hs : m.IsCanonical s.address) (hdeclared : ∀ p, s.declaration? = some p → p ∈ declared) :
    (t.addData s).Grounded m declared := by
  refine h.alter hs fun d n hn => ?_
  refine (LabelDraft.name_declare hn).imp_left fun hname => hdeclared _ ?_
  rw [DeclaredRange.declaration?, hname, Option.map_some]

theorem Grounded.addCode (h : t.Grounded m declared) {s : DeclaredRange}
    (hs : m.IsCanonical s.address) (hdeclared : ∀ p, s.declaration? = some p → p ∈ declared) :
    (t.addCode s).Grounded m declared := by
  unfold LabelDrafts.addCode
  split
  · exact h
  · next name hname =>
    refine h.alter hs fun d n hn => ?_
    refine (LabelDraft.name_declare hn).imp_left fun hn => hdeclared _ ?_
    rw [DeclaredRange.declaration?, hname, hn, Option.map_some]

end LabelDrafts

/-! ## Labels -/

variable {c : Cartridge} {given : Hints} {checked : CheckedHints} {rejected : List Conflict}
  {m : AddressMap} {declared : List (String × Int)} {taken : List String}

/-- The drafts of all labels of an image. -/
def labelDrafts (m : AddressMap) (xrefs : List Xref) (hints : CheckedHints) : LabelDrafts :=
  hints.codeRanges.foldl LabelDrafts.addCode (hints.dataRanges.foldl LabelDrafts.addData
    (hints.entryPoints.foldl (LabelDrafts.addEntry m) (xrefs.foldl (LabelDrafts.addXref m) ∅)))

theorem labelsFor_eq (m : AddressMap) (xrefs : List Xref) (hints : CheckedHints)
    (regions : Option Partition) :
    labelsFor m xrefs hints regions =
      (labelDrafts m xrefs hints).map (LabelDraft.finish regions) := rfl

/-- All drafts of an image are grounded in the declarations of its hints. -/
theorem CheckedHints.Named.grounded_labelDrafts (h : checked.Named m taken) (xrefs : List Xref) :
    (labelDrafts m xrefs checked).Grounded m (checked.declarations m) := by
  have hrange : ∀ s ∈ checked.ranges, ∀ p, s.declaration? = some p → p ∈ checked.declarations m :=
    fun s hs p hp => List.mem_append_right _ (List.mem_filterMap.2 ⟨s, hs, hp⟩)
  unfold labelDrafts
  refine List.foldlRecOn _ _ (List.foldlRecOn _ _ (List.foldlRecOn _ _ (List.foldlRecOn _ _
    LabelDrafts.grounded_empty ?_) ?_) ?_) ?_
  · exact fun t ht x _ => ht.addXref x
  · intro t ht e he
    exact ht.addEntry (h.entryPoints e he) fun p hp =>
      List.mem_append_left _ (List.mem_filterMap.2 ⟨e, he, hp⟩)
  · intro t ht s hs
    have hs := List.mem_of_mem_filter hs
    exact ht.addData (h.ranges s hs) (hrange s hs)
  · intro t ht s hs
    have hs := List.mem_of_mem_filter hs
    exact ht.addCode (h.ranges s hs) (hrange s hs)

theorem LabelDraft.name_finish (regions : Option Partition) (a : Int) (d : LabelDraft) :
    (d.finish regions a).name = d.name.getD ((d.finish regions a).kind.nameAt a) := rfl

/-- Where a label has its name from: it is declared for the address of the label, or generated. -/
inductive Label.NamedBy (declared : List (String × Int)) (l : Label) : Prop
  | declaration : (l.name, l.address) ∈ declared → NamedBy declared l
  | generation (kind : LabelKind) : l.name = kind.nameAt l.address → NamedBy declared l

section

variable (h : checked.Named m taken) (xrefs : List Xref) (regions : Option Partition)
include h

/-- A label stands at a canonical address, with a name that is declared for it or generated. -/
theorem CheckedHints.Named.label {k : Int} {l : Label}
    (hl : (labelsFor m xrefs checked regions)[k]? = some l) :
    m.IsCanonical k ∧ l.address = k ∧ l.NamedBy (checked.declarations m) := by
  rw [labelsFor_eq, Std.TreeMap.getElem?_map] at hl
  obtain ⟨d, hd, rfl⟩ := Option.map_eq_some_iff.1 hl
  obtain ⟨hk, hdeclared⟩ := h.grounded_labelDrafts xrefs k d hd
  refine ⟨hk, rfl, ?_⟩
  cases hname : d.name with
  | none =>
    refine .generation (d.finish regions k).kind ?_
    rw [LabelDraft.name_finish, hname]
    rfl
  | some n =>
    refine .declaration ?_
    rw [LabelDraft.name_finish, hname]
    exact hdeclared n hname

omit h in
theorem AddressMap.IsCanonical.bounds {a : Int} (ha : m.IsCanonical a) :
    0 ≤ a ∧ a < 0x1000000 := by
  rw [← ha.2]
  exact m.canonical_bounds a

/-- **Labels of the same name stand at the same address.** -/
theorem CheckedHints.Named.address_eq {k k' : Int} {l l' : Label}
    (hl : (labelsFor m xrefs checked regions)[k]? = some l)
    (hl' : (labelsFor m xrefs checked regions)[k']? = some l') (hname : l.name = l'.name) :
    k = k' := by
  obtain ⟨hk, rfl, hby⟩ := h.label xrefs regions hl
  obtain ⟨hk', rfl, hby'⟩ := h.label xrefs regions hl'
  have hnodup : ((checked.declarations m).map Prod.fst).Nodup := h.declared.nodup_iff.2 h.nodup
  -- a declared name has not the form of a generated one
  have hmixed : ∀ {l l' : Label} {kind : LabelKind}, m.IsCanonical l'.address →
      (l.name, l.address) ∈ checked.declarations m → l'.name = kind.nameAt l'.address →
      l.name ≠ l'.name := by
    intro l l' kind hk' hdeclared hgenerated heq
    have htaken : l.name ∈ taken := h.declared.mem_iff.1 (List.mem_map_of_mem hdeclared)
    have hno := h.ungenerated _ htaken
    rw [heq, hgenerated, kind.isGeneratedName_nameAt hk'.bounds.1 hk'.bounds.2] at hno
    cases hno
  cases hby with
  | declaration hdeclared =>
    cases hby' with
    | declaration hdeclared' =>
      have hpair := List.inj_on_of_nodup_map hnodup hdeclared hdeclared' hname
      exact congrArg Prod.snd hpair
    | generation kind' hgenerated' => exact absurd hname (hmixed hk' hdeclared hgenerated')
  | generation kind hgenerated =>
    cases hby' with
    | declaration hdeclared' => exact absurd hname.symm (hmixed hk hdeclared' hgenerated)
    | generation kind' hgenerated' =>
      rw [hgenerated, hgenerated'] at hname
      exact LabelKind.nameAt_inj hk.bounds.1 hk'.bounds.1 hk.bounds.2 hk'.bounds.2 hname

end

/-! ## Symbols -/

/-- Enters the name of the label at an address. -/
def enterSymbol (t : Std.TreeMap String Int) (p : Int × Label) : Std.TreeMap String Int :=
  t.insert p.2.name p.1

theorem symbols_eq (labels : Labels) : symbols labels = labels.toList.foldl enterSymbol ∅ :=
  Std.TreeMap.foldl_eq_foldl_toList

variable {l : List (Int × Label)} {t : Std.TreeMap String Int}

theorem getElem?_foldl_enterSymbol_of_notMem {n : String} (h : n ∉ l.map (·.2.name)) :
    (l.foldl enterSymbol t)[n]? = t[n]? := by
  induction l generalizing t with
  | nil => rfl
  | cons p l ih =>
    rw [List.map_cons, List.mem_cons, not_or] at h
    obtain ⟨hp, hl⟩ := h
    rw [List.foldl_cons, ih hl, enterSymbol, Std.TreeMap.getElem?_insert, if_neg]
    exact fun heq => hp (Std.LawfulEqCmp.eq_of_compare heq).symm

/-- **Entering labels with different names loses none of them.** -/
theorem getElem?_foldl_enterSymbol (hnodup : (l.map (·.2.name)).Nodup) {p : Int × Label}
    (hp : p ∈ l) : (l.foldl enterSymbol t)[p.2.name]? = some p.1 := by
  induction l generalizing t with
  | nil => cases hp
  | cons q l ih =>
    obtain ⟨hq, hnodup⟩ := List.nodup_cons.1 hnodup
    rw [List.foldl_cons]
    rcases List.mem_cons.1 hp with rfl | hp
    · rw [getElem?_foldl_enterSymbol_of_notMem hq, enterSymbol, Std.TreeMap.getElem?_insert_self]
    · exact ih hnodup hp

theorem size_foldl_enterSymbol (hnodup : (l.map (·.2.name)).Nodup)
    (hnew : ∀ p ∈ l, p.2.name ∉ t) : (l.foldl enterSymbol t).size = t.size + l.length := by
  induction l generalizing t with
  | nil => rfl
  | cons q l ih =>
    obtain ⟨hq, hnodup⟩ := List.nodup_cons.1 hnodup
    obtain ⟨hqt, hnew⟩ := List.forall_mem_cons.1 hnew
    have hnew' : ∀ p ∈ l, p.2.name ∉ enterSymbol t q := by
      intro p hp hmem
      rcases Std.TreeMap.mem_insert.1 hmem with heq | hmem
      · have hname : q.2.name = p.2.name := Std.LawfulEqCmp.eq_of_compare heq
        exact hq (List.mem_map.2 ⟨p, hp, hname.symm⟩)
      · exact hnew p hp hmem
    rw [List.foldl_cons, ih hnodup hnew', enterSymbol, Std.TreeMap.size_insert,
      if_neg (fun hc => hqt (Std.TreeMap.mem_iff_contains.2 hc)), List.length_cons]
    omega

/-- Labels that a table of symbols can stand for: no two have the same name, the table has as many
entries as there are labels and leads from each name back to its address, and the labels stand in
ascending order at canonical addresses. -/
structure Labels.Lossless (m : AddressMap) (labels : Labels) : Prop where
  address_eq : ∀ (k k' : Int) (l l' : Label), labels[k]? = some l → labels[k']? = some l' →
    l.name = l'.name → k = k'
  size_symbols : (symbols labels).size = labels.size
  symbol : ∀ (k : Int) (l : Label), labels[k]? = some l → (symbols labels)[l.name]? = some l.address
  address : ∀ (k : Int) (l : Label), labels[k]? = some l → l.address = k ∧ m.IsCanonical k
  ascending : labels.keys.Pairwise (· < ·)

/-- **No two labels have the same name**, whatever the cross references and the regions are, so the
table of symbols loses none of them. -/
theorem names_unique (h : given.check c = .ok (checked, rejected)) (xrefs : List Xref)
    (regions : Option Partition) :
    Labels.Lossless c.map (labelsFor c.map xrefs checked regions) := by
  obtain ⟨taken, hnamed⟩ := Hints.check_named h
  generalize hlabels : labelsFor c.map xrefs checked regions = labels
  have hunique : ∀ (k k' : Int) (l l' : Label), labels[k]? = some l → labels[k']? = some l' →
      l.name = l'.name → k = k' := by
    subst hlabels
    exact fun k k' l l' hl hl' => hnamed.address_eq xrefs regions hl hl'
  have haddress : ∀ (k : Int) (l : Label), labels[k]? = some l →
      l.address = k ∧ c.map.IsCanonical k := by
    subst hlabels
    intro k l hl
    obtain ⟨hk, haddress, -⟩ := hnamed.label xrefs regions hl
    exact ⟨haddress, hk⟩
  have hkeys : labels.keys.Pairwise (· < ·) := Std.TreeMap.ordered_keys.imp Int.compare_eq_lt.1
  have hnodup : (labels.toList.map (·.2.name)).Nodup := by
    have hdistinct : labels.toList.Nodup := by
      rw [← Std.TreeMap.map_fst_toList_eq_keys] at hkeys
      exact List.Nodup.of_map Prod.fst (hkeys.imp Int.ne_of_lt)
    refine hdistinct.map_on fun p hp q hq hname => ?_
    have hp := Std.TreeMap.mem_toList_iff_getElem?_eq_some.1 hp
    have hq := Std.TreeMap.mem_toList_iff_getElem?_eq_some.1 hq
    have hkey := hunique _ _ _ _ hp hq hname
    rw [hkey, hq] at hp
    exact Prod.ext hkey (Option.some.inj hp).symm
  refine ⟨hunique, ?_, fun k l hl => ?_, haddress, hkeys⟩
  · rw [symbols_eq, size_foldl_enterSymbol hnodup (fun p _ => Std.TreeMap.not_mem_emptyc),
      Std.TreeMap.size_emptyc, Std.TreeMap.length_toList, Nat.zero_add]
  · rw [symbols_eq, (haddress k l hl).1]
    exact getElem?_foldl_enterSymbol hnodup (Std.TreeMap.mem_toList_iff_getElem?_eq_some.2 hl)

/-- An entry point and a data range with names. -/
def namedHints : Hints :=
  ⟨[⟨0x8000, .text "_", none⟩], [⟨0x8001, 0x8001, .text "__"⟩], [], []⟩

/-- What the check makes of `namedHints`. -/
def namedChecked : CheckedHints where
  entryPoints := [⟨0x8000, none, .text "_"⟩]
  jumpTables := ∅
  returningSites := []
  ranges := [⟨⟨1, 2⟩, .data, 0, .text "__", 0x8001, .dataRange 0⟩]

/-- Their labels, with a call to a mirror of the data. -/
def namedLabels : Labels :=
  labelsFor shortCartridge.map [⟨0x8000, some 0x808001, .call⟩] namedChecked none

/-- Both names are kept, and the call shares the label of the data. -/
theorem names_unique_namedHints : namedHints.check shortCartridge = .ok (namedChecked, []) ∧
    Labels.Lossless shortCartridge.map namedLabels ∧
    ∃ start data, namedLabels[(0x8000 : Int)]? = some start ∧
      namedLabels[(0x8001 : Int)]? = some data ∧ start.name = "_" ∧ data.name = "__" ∧
      (symbols namedLabels)["_"]? = some 0x8000 ∧ (symbols namedLabels)["__"]? = some 0x8001 := by
  have hc : namedHints.check shortCartridge = .ok (namedChecked, []) := rfl
  have hlossless : Labels.Lossless shortCartridge.map namedLabels := names_unique hc _ _
  have hstart : namedLabels[(0x8000 : Int)]?.map (·.name) = some "_" := by decide +kernel
  have hdata : namedLabels[(0x8001 : Int)]?.map (·.name) = some "__" := by decide +kernel
  obtain ⟨start, hs, hstart⟩ := Option.map_eq_some_iff.1 hstart
  obtain ⟨data, hd, hdata⟩ := Option.map_eq_some_iff.1 hdata
  refine ⟨hc, hlossless, start, data, hs, hd, hstart, hdata, ?_, ?_⟩
  · rw [← hstart, hlossless.symbol _ _ hs, (hlossless.address _ _ hs).1]
  · rw [← hdata, hlossless.symbol _ _ hd, (hlossless.address _ _ hd).1]

end RomAtlas
