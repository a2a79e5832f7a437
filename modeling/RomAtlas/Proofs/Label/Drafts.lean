import RomAtlas.Proofs.Label

/-!
# Label drafts

Four kinds of evidence put labels at addresses: cross references, entry points, data ranges and
named code ranges. They are noted one after the other, and what is noted at one address depends on
the evidence for that address alone.

* `LabelDrafts.Alters.getElem?_foldl`: a list of evidence is felt at an address through its members
  for that address.
* `LabelEvidence.kind_draft`: which evidence decides the kind of a label.
* `getElem?_labelDrafts`: **the draft at an address is that of the evidence for it.**
-/

namespace RomAtlas

variable {α : Type} {m : AddressMap} {k : Int}

/-- The address of the label that a cross reference asks for. -/
def Xref.labelled? (m : AddressMap) (x : Xref) : Option Int :=
  (x.target.filter m.shows).map m.canonical

/-- The address of the label that a named range of code asks for. -/
def DeclaredRange.labelled? (s : DeclaredRange) : Option Int :=
  s.label.symbol?.map fun _ => s.address

/-- The kind that a name leaves to a label, a branch target if there is no other reason for it. -/
def LabelDraft.keptKind (d : Option LabelDraft) : LabelKind := (d.map (·.kind)).getD .branchTarget

/-- A cross reference calls its target, so that the target is a subroutine. -/
def Xref.Calls (x : Xref) : Prop := x.kind ∈ [XrefKind.call, .interruptVector, .jumpTable]

theorem LabelKind.ofXref_eq_subroutine_iff {x : Xref} : ofXref x = .subroutine ↔ x.Calls := by
  unfold ofXref Xref.Calls
  cases x.kind <;> simp

theorem LabelKind.ofXref_ne_dataBlock (x : Xref) : ofXref x ≠ .dataBlock := by
  unfold ofXref
  cases x.kind <;> simp

/-! ## Evidence for one address -/

namespace LabelDrafts

/-- Each member of some evidence changes the draft at the address that it is for, and no other. -/
def Alters (add : LabelDrafts → α → LabelDrafts) (place : α → Option Int)
    (note : Option LabelDraft → α → LabelDraft) : Prop :=
  ∀ (t : LabelDrafts) (x : α) (k : Int),
    (add t x)[k]? = if place x = some k then some (note t[k]? x) else t[k]?

theorem getElem?_alter_draft (t : LabelDrafts) (a k : Int) (f : Option LabelDraft → LabelDraft) :
    (t.alter a fun d => some (f d))[k]? = if some a = some k then some (f t[k]?) else t[k]? := by
  rw [Std.TreeMap.getElem?_alter]
  by_cases h : a = k
  · subst h
    rw [if_pos Std.ReflCmp.compare_self, if_pos rfl]
  · rw [if_neg fun heq => h (Std.LawfulEqCmp.eq_of_compare heq),
      if_neg fun heq => h (Option.some.inj heq)]

/-- **Evidence is felt at an address through its members for that address.** -/
theorem Alters.getElem?_foldl {add : LabelDrafts → α → LabelDrafts} {place : α → Option Int}
    {note : Option LabelDraft → α → LabelDraft} (h : Alters add place note) (l : List α)
    (t : LabelDrafts) (k : Int) : (l.foldl add t)[k]? =
      (l.filter fun x => place x = some k).foldl (fun d x => some (note d x)) t[k]? := by
  induction l generalizing t with
  | nil => rfl
  | cons x l ih =>
    rw [List.foldl_cons, ih, h]
    by_cases hx : place x = some k
    · rw [if_pos hx, List.filter_cons_of_pos (by simpa using hx), List.foldl_cons]
    · rw [if_neg hx, List.filter_cons_of_neg (by simpa using hx)]

theorem alters_addXref (m : AddressMap) :
    Alters (addXref m) (·.labelled? m) LabelDraft.refer := by
  intro t x k
  unfold addXref
  split
  · next h =>
    have hplace : x.labelled? m = none := by rw [Xref.labelled?, h, Option.map_none]
    simp [hplace]
  · next target h =>
    have hplace : x.labelled? m = some (m.canonical target) := by
      rw [Xref.labelled?, h, Option.map_some]
    simp only [hplace, getElem?_alter_draft]

theorem alters_addEntry (m : AddressMap) :
    Alters (addEntry m) (fun e => some (m.canonical e.address))
      fun d e => LabelDraft.declare d .subroutine e.name.symbol? :=
  fun t _ k => getElem?_alter_draft t _ k _

theorem alters_addData : Alters addData (fun s => some s.address)
    fun d s => LabelDraft.declare d .dataBlock s.label.symbol? :=
  fun t _ k => getElem?_alter_draft t _ k _

theorem alters_addCode : Alters addCode DeclaredRange.labelled?
    fun d s => LabelDraft.declare d (LabelDraft.keptKind d) s.label.symbol? := by
  intro t s k
  unfold addCode
  split
  · next h =>
    have hplace : s.labelled? = none := by rw [DeclaredRange.labelled?, h, Option.map_none]
    simp [hplace]
  · next name h =>
    have hplace : s.labelled? = some s.address := by
      rw [DeclaredRange.labelled?, h, Option.map_some]
    simp only [hplace, getElem?_alter_draft, h]
    rfl

end LabelDrafts

/-! ## What drafts say -/

namespace LabelDraft

/-- The cross references of a draft, of which there are none without one. -/
def references (d : Option LabelDraft) : List Xref := (d.map (·.provenance)).getD []

/-- The declared name of a draft. -/
def declaredName (d : Option LabelDraft) : Option String := d.bind (·.name)

section

variable {note : Option LabelDraft → α → LabelDraft} {l : List α} {d : Option LabelDraft}

theorem isSome_foldl_note :
    (l.foldl (fun d x => some (note d x)) d).isSome = true ↔ l ≠ [] ∨ d.isSome = true := by
  induction l generalizing d with
  | nil => simp
  | cons x l ih => simp [ih]

end

section

variable {kind : Option LabelDraft → LabelKind} {name : α → Option String}

/-- Declares the names of some evidence one after the other. -/
def declareAll (kind : Option LabelDraft → LabelKind) (name : α → Option String) (l : List α)
    (d : Option LabelDraft) : Option LabelDraft :=
  l.foldl (fun d x => some (declare d (kind d) (name x))) d

/-- Declarations keep the cross references. -/
theorem references_declareAll (l : List α) (d : Option LabelDraft) :
    references (declareAll kind name l d) = references d := by
  induction l generalizing d with
  | nil => rfl
  | cons x l ih =>
    refine (ih _).trans ?_
    cases d <;> rfl

/-- **The name that is declared last counts.** -/
theorem declaredName_declareAll (l : List α) (d : Option LabelDraft) :
    declaredName (declareAll kind name l d) = (l.filterMap name).getLast?.or (declaredName d) := by
  induction l generalizing d with
  | nil => rfl
  | cons x l ih =>
    have hx : declaredName (some (declare d (kind d) (name x))) = (name x).or (declaredName d) := by
      cases d with
      | none => simp [declaredName, declare]
      | some d => rfl
    refine (ih _).trans ?_
    rw [hx]
    cases hname : name x with
    | none => simp [List.filterMap_cons_none hname]
    | some n =>
      rw [List.filterMap_cons_some hname, List.getLast?_cons, Option.some_or]
      cases (l.filterMap name).getLast? <;> rfl

/-- Declarations of one kind make a label of that kind. -/
theorem kind_declareAll (hkind : ∀ d n, kind (some (declare d (kind d) n)) = kind d) (l : List α)
    (d : Option LabelDraft) : (declareAll kind name l d).map (·.kind) =
      if l = [] then d.map (·.kind) else some (kind d) := by
  have hdeclare : ∀ n, (declare d (kind d) n).kind = kind d := by
    intro n
    cases d <;> rfl
  induction l generalizing d with
  | nil => rfl
  | cons x l ih =>
    rw [if_neg (List.cons_ne_nil x l)]
    refine (ih _ fun n => ?_).trans ?_
    · cases d <;> rfl
    · rw [hkind]
      split
      · exact congrArg some (hdeclare _)
      · rfl

end

/-- Adds cross references one after the other. -/
def referAll (l : List Xref) (d : Option LabelDraft) : Option LabelDraft :=
  l.foldl (fun d x => some (refer d x)) d

theorem references_referAll (l : List Xref) (d : Option LabelDraft) :
    references (referAll l d) = l.reverse ++ references d := by
  induction l generalizing d with
  | nil => rfl
  | cons x l ih =>
    have hx : references (some (refer d x)) = x :: references d := by cases d <;> rfl
    refine (ih _).trans ?_
    rw [hx, List.reverse_cons, List.append_assoc, List.singleton_append]

theorem declaredName_referAll (l : List Xref) (d : Option LabelDraft) :
    declaredName (referAll l d) = declaredName d := by
  induction l generalizing d with
  | nil => rfl
  | cons x l ih =>
    refine (ih _).trans ?_
    cases d <;> rfl

theorem kind_referAll_some (l : List Xref) (d : LabelDraft) :
    ∃ d', referAll l (some d) = some d' ∧ (d.kind ≠ .dataBlock → d'.kind ≠ .dataBlock) ∧
      (d'.kind = .subroutine ↔ d.kind = .subroutine ∨ ∃ x ∈ l, x.Calls) := by
  induction l generalizing d with
  | nil => exact ⟨d, rfl, id, by simp⟩
  | cons x l ih =>
    obtain ⟨d', hd', hdata, hsub⟩ := ih (refer (some d) x)
    have hkind : (refer (some d) x).kind = if d.kind = .subroutine then d.kind else .ofXref x := rfl
    refine ⟨d', hd', fun hd => hdata ?_, hsub.trans ?_⟩
    · rw [hkind]
      split
      · exact hd
      · exact LabelKind.ofXref_ne_dataBlock x
    · rw [hkind, List.exists_mem_cons_iff, ← or_assoc]
      refine or_congr_left ?_
      split
      · next h => simp [h]
      · next h => simp [h, LabelKind.ofXref_eq_subroutine_iff]

theorem eq_nil_of_referAll {l : List Xref} (h : referAll l none = none) : l = [] := by
  cases l with
  | nil => rfl
  | cons x l =>
    obtain ⟨d', hd', -⟩ := kind_referAll_some l (refer none x)
    cases hd'.symm.trans h

/-- **Cross references make a subroutine if one of them calls**, and never a data block. -/
theorem kind_referAll {l : List Xref} {d : LabelDraft} (h : referAll l none = some d) :
    d.kind ≠ .dataBlock ∧ (d.kind = .subroutine ↔ ∃ x ∈ l, x.Calls) := by
  cases l with
  | nil => cases h
  | cons x l =>
    obtain ⟨d', hd', hdata, hsub⟩ := kind_referAll_some l (refer none x)
    cases hd'.symm.trans h
    refine ⟨hdata (LabelKind.ofXref_ne_dataBlock x), hsub.trans ?_⟩
    rw [List.exists_mem_cons_iff, ← LabelKind.ofXref_eq_subroutine_iff]
    rfl

end LabelDraft

/-! ## Drafts from their evidence -/

/-- The evidence for a label at one address. -/
structure LabelEvidence where
  references : List Xref
  entries : List CodeStart
  data : List DeclaredRange
  code : List DeclaredRange

/-- The evidence for a label at an address of an image. -/
def evidenceAt (m : AddressMap) (xrefs : List Xref) (hints : CheckedHints) (k : Int) :
    LabelEvidence where
  references := xrefs.filter fun x => x.labelled? m = some k
  entries := hints.entryPoints.filter fun e => some (m.canonical e.address) = some k
  data := hints.dataRanges.filter fun s => some s.address = some k
  code := hints.codeRanges.filter fun s => s.labelled? = some k

namespace LabelEvidence

open LabelDraft

/-- The draft that evidence leaves. -/
def draft (e : LabelEvidence) : Option LabelDraft :=
  declareAll keptKind (·.label.symbol?) e.code <|
    declareAll (fun _ => .dataBlock) (·.label.symbol?) e.data <|
    declareAll (fun _ => .subroutine) (·.name.symbol?) e.entries <|
    referAll e.references none

/-- The names that evidence declares: those of entry points, then of data, then of code. -/
def names (e : LabelEvidence) : List String :=
  e.entries.filterMap (·.name.symbol?) ++ (e.data.filterMap (·.label.symbol?) ++
    e.code.filterMap (·.label.symbol?))

theorem isSome_draft (e : LabelEvidence) : e.draft.isSome = true ↔
    e.references ≠ [] ∨ e.entries ≠ [] ∨ e.data ≠ [] ∨ e.code ≠ [] := by
  unfold draft declareAll referAll
  rw [isSome_foldl_note, isSome_foldl_note, isSome_foldl_note, isSome_foldl_note,
    Option.isSome_none]
  simp only [Bool.false_eq_true, or_false]
  tauto

theorem references_draft (e : LabelEvidence) :
    LabelDraft.references e.draft = e.references.reverse := by
  unfold draft
  rw [references_declareAll, references_declareAll, references_declareAll, references_referAll]
  exact List.append_nil _

theorem declaredName_draft (e : LabelEvidence) : declaredName e.draft = e.names.getLast? := by
  unfold draft names
  rw [declaredName_declareAll, declaredName_declareAll, declaredName_declareAll,
    declaredName_referAll, List.getLast?_append, List.getLast?_append, Option.or_assoc]
  simp [declaredName]

/-- **The kind of a draft.** Data outweighs all other evidence, and an entry point or a call
outweighs other cross references and names. -/
theorem kind_draft {e : LabelEvidence} {d : LabelDraft} (h : e.draft = some d) :
    (d.kind = .dataBlock ↔ e.data ≠ []) ∧
      (e.data = [] → (d.kind = .subroutine ↔ e.entries ≠ [] ∨ ∃ x ∈ e.references, x.Calls)) := by
  have hkept : ∀ d n, keptKind (some (declare d (keptKind d) n)) = keptKind d := by
    intro d n
    cases d <;> rfl
  have hkind := congrArg (Option.map (·.kind)) h
  unfold draft at hkind
  rw [kind_declareAll hkept, keptKind, kind_declareAll fun _ _ => rfl,
    kind_declareAll fun _ _ => rfl, Option.map_some] at hkind
  -- a name of code matters only where there is no other evidence
  have hd : d.kind = ((if e.data = [] then if e.entries = [] then
      (referAll e.references none).map (·.kind) else some .subroutine
      else some .dataBlock).getD .branchTarget) := by
    split at hkind
    · rw [hkind, Option.getD_some]
    · exact (Option.some.inj hkind).symm
  by_cases hdata : e.data = []
  · rw [if_pos hdata] at hd
    by_cases hentries : e.entries = []
    · rw [if_pos hentries] at hd
      cases hrefs : referAll e.references none with
      | none =>
        have hnone := eq_nil_of_referAll hrefs
        rw [hrefs, Option.map_none, Option.getD_none] at hd
        simp [hd, hdata, hentries, hnone]
      | some d' =>
        obtain ⟨hblock, hsub⟩ := kind_referAll hrefs
        rw [hrefs, Option.map_some, Option.getD_some] at hd
        simp [hd, hdata, hentries, hblock, hsub]
    · rw [if_neg hentries, Option.getD_some] at hd
      simp [hd, hdata, hentries]
  · rw [if_neg hdata, Option.getD_some] at hd
    simp [hd, hdata]

end LabelEvidence

theorem getElem?_labelDrafts (m : AddressMap) (xrefs : List Xref) (hints : CheckedHints) (k : Int) :
    (labelDrafts m xrefs hints)[k]? = (evidenceAt m xrefs hints k).draft := by
  unfold labelDrafts
  rw [LabelDrafts.alters_addCode.getElem?_foldl, LabelDrafts.alters_addData.getElem?_foldl,
    (LabelDrafts.alters_addEntry m).getElem?_foldl, (LabelDrafts.alters_addXref m).getElem?_foldl,
    Std.TreeMap.getElem?_emptyc]
  rfl

end RomAtlas
