import Mathlib.Data.List.Nodup
import RomAtlas.Proofs.Hint.Names
import RomAtlas.Proofs.Hint.Refused
import RomAtlas.Proofs.Trace.Exact

/-!
# Taking out a rejected hint

Hints are checked one after another against one ledger of names, order numbers, targets, ranges and
rejections. A hint that is rejected as a whole leaves a note in the ledger and nothing else, though
pointers of its table may have been rejected before its name was. So the others are checked as if it
were not there, except that those of its kind that follow it are known by a lower number.

* `Hints.check_eq`: the four loops of the check are one.
* `HintLedger.add_of_refused`: a rejected hint only leaves notes.
* `HintLedger.Without.add`: every other hint does the same to ledgers that are alike.
* `rejected_changes_nothing`: **the check of all hints is that of the others, and the notes.**
-/

namespace RomAtlas

/-! ## One list of hints -/

/-- A hint of any kind. -/
inductive AnyHint where
  | entryPoint (h : EntryHint)
  | jumpTable (h : JumpTableHint)
  | range (cls : ByteClass) (h : RangeHint)

/-- Checks a hint of any kind. -/
def HintLedger.add (c : Cartridge) (r : HintLedger) : AnyHint × HintSource → Except Fault HintLedger
  | (.entryPoint h, source) => r.addEntry c h source
  | (.jumpTable h, source) => r.addTable c h source
  | (.range cls h, source) => r.addRange c cls h source

/-- Hints of one kind, with their places. -/
def listedAs {α : Type} (hint : α → AnyHint) (source : Nat → HintSource) (l : List α) :
    List (AnyHint × HintSource) :=
  l.zipIdx.map fun p => (hint p.1, source p.2)

/-- All hints of a project in the order in which they are checked. -/
def Hints.listed (h : Hints) : List (AnyHint × HintSource) :=
  listedAs .entryPoint .entryPoint h.entryPoints ++ (listedAs .jumpTable .jumpTable h.jumpTables ++
    (listedAs (.range .data) .dataRange h.dataRanges ++
      listedAs (.range .code) .codeRange h.codeRanges))

variable {c : Cartridge}

/-- **The four loops of the check are one.** -/
theorem Hints.check_eq (h : Hints) : h.check c = (do
    let r ← h.listed.foldlM (HintLedger.add c) .start
    return (r.hints, r.rejected)) := by
  unfold check listed listedAs
  simp only [List.foldlM_append, List.foldlM_map, bind_assoc]
  rfl

/-! ## Places -/

/-- A number after another was taken out of a list. -/
def closeGap (k i : Nat) : Nat := if k < i then i - 1 else i

/-- The place of a hint after another was taken out. -/
def HintSource.after (removed : HintSource) (s : HintSource) : HintSource :=
  match removed, s with
  | .entryPoint k, .entryPoint i => .entryPoint (closeGap k i)
  | .jumpTable k, .jumpTable i => .jumpTable (closeGap k i)
  | .dataRange k, .dataRange i => .dataRange (closeGap k i)
  | .codeRange k, .codeRange i => .codeRange (closeGap k i)
  | _, s => s

/-- Hints without the one in a place. -/
def Hints.without (h : Hints) : HintSource → Hints
  | .entryPoint k => { h with entryPoints := h.entryPoints.eraseIdx k }
  | .jumpTable k => { h with jumpTables := h.jumpTables.eraseIdx k }
  | .dataRange k => { h with dataRanges := h.dataRanges.eraseIdx k }
  | .codeRange k => { h with codeRanges := h.codeRanges.eraseIdx k }

theorem zipIdx_eraseIdx {α : Type} (l : List α) (k n : Nat) :
    (l.eraseIdx k).zipIdx n =
      ((l.zipIdx n).filter (·.2 ≠ n + k)).map fun p => (p.1, closeGap (n + k) p.2) := by
  induction l generalizing k n with
  | nil => rfl
  | cons a l ih =>
    cases k with
    | zero =>
      have hrest : (l.zipIdx (n + 1)).filter (·.2 ≠ n + 0) = l.zipIdx (n + 1) := by
        refine List.filter_eq_self.2 fun p hp => ?_
        have hle := List.le_snd_of_mem_zipIdx hp
        exact decide_eq_true (by omega)
      rw [List.eraseIdx_cons_zero, List.zipIdx_cons, List.filter_cons_of_neg (by simp), hrest,
        List.zipIdx_succ, List.map_map]
      refine (List.map_id' _).symm.trans (List.map_congr_left fun p hp => ?_)
      have hlt : n + 0 < p.2 + 1 := Nat.lt_succ_of_le (List.le_snd_of_mem_zipIdx hp)
      exact Prod.ext rfl (if_pos hlt).symm
    | succ k =>
      have hcomm : n + 1 + k = n + (k + 1) := by omega
      rw [List.eraseIdx_cons_succ, List.zipIdx_cons, List.zipIdx_cons,
        List.filter_cons_of_pos (by simp), List.map_cons, ih k (n + 1), hcomm]
      have hle : ¬ n + (k + 1) < n := by omega
      exact congrArg (· :: _) (Prod.ext rfl (if_neg hle).symm)

section

variable {α : Type} {hint : α → AnyHint} {source : Nat → HintSource} {removed : HintSource}
  {l : List α}

theorem listedAs_eraseIdx {k : Nat} (hsource : Function.Injective source)
    (hafter : ∀ i, (source k).after (source i) = source (closeGap k i)) :
    listedAs hint source (l.eraseIdx k) =
      ((listedAs hint source l).filter (·.2 ≠ source k)).map
        (Prod.map id (HintSource.after (source k))) := by
  unfold listedAs
  rw [zipIdx_eraseIdx, List.filter_map, List.map_map, List.map_map, Nat.zero_add]
  simp only [Function.comp_def, ne_eq, hsource.eq_iff, Prod.map, id, hafter]

/-- Hints of other kinds keep their places. -/
theorem listedAs_of_ne (hne : ∀ i, source i ≠ removed)
    (hafter : ∀ i, removed.after (source i) = source i) :
    listedAs hint source l =
      ((listedAs hint source l).filter (·.2 ≠ removed)).map
        (Prod.map id (HintSource.after removed)) := by
  unfold listedAs
  rw [List.filter_map, List.map_map]
  simp [Function.comp_def, hne, hafter]

theorem snd_listedAs :
    (listedAs hint source l).map Prod.snd = (List.range l.length).map source := by
  unfold listedAs
  rw [List.map_map, List.range_eq_range', ← List.zipIdx_map_snd, List.map_map]
  rfl

end

/-- **Taking out a hint leaves the others in their order**, under their new places. -/
theorem Hints.listed_without (h : Hints) (removed : HintSource) :
    (h.without removed).listed =
      (h.listed.filter (·.2 ≠ removed)).map (Prod.map id (HintSource.after removed)) := by
  unfold listed
  simp only [List.filter_append, List.map_append]
  cases removed with
  | entryPoint k =>
    exact congrArg₂ _ (listedAs_eraseIdx (fun _ _ => HintSource.entryPoint.inj) fun _ => rfl)
      (congrArg₂ _ (listedAs_of_ne nofun fun _ => rfl)
        (congrArg₂ _ (listedAs_of_ne nofun fun _ => rfl) (listedAs_of_ne nofun fun _ => rfl)))
  | jumpTable k =>
    exact congrArg₂ _ (listedAs_of_ne nofun fun _ => rfl)
      (congrArg₂ _ (listedAs_eraseIdx (fun _ _ => HintSource.jumpTable.inj) fun _ => rfl)
        (congrArg₂ _ (listedAs_of_ne nofun fun _ => rfl) (listedAs_of_ne nofun fun _ => rfl)))
  | dataRange k =>
    exact congrArg₂ _ (listedAs_of_ne nofun fun _ => rfl)
      (congrArg₂ _ (listedAs_of_ne nofun fun _ => rfl)
        (congrArg₂ _ (listedAs_eraseIdx (fun _ _ => HintSource.dataRange.inj) fun _ => rfl)
          (listedAs_of_ne nofun fun _ => rfl)))
  | codeRange k =>
    exact congrArg₂ _ (listedAs_of_ne nofun fun _ => rfl)
      (congrArg₂ _ (listedAs_of_ne nofun fun _ => rfl)
        (congrArg₂ _ (listedAs_of_ne nofun fun _ => rfl)
          (listedAs_eraseIdx (fun _ _ => HintSource.codeRange.inj) fun _ => rfl)))

/-- No two hints have the same place. -/
theorem Hints.nodup_listed (h : Hints) : (h.listed.map Prod.snd).Nodup := by
  unfold listed
  simp only [List.map_append, snd_listedAs]
  have hkind : ∀ (source : Nat → HintSource) (n : Nat), Function.Injective source →
      ((List.range n).map source).Nodup := fun source n hinj => List.nodup_range.map hinj
  refine List.nodup_append'.2 ⟨hkind _ _ fun _ _ => HintSource.entryPoint.inj,
    List.nodup_append'.2 ⟨hkind _ _ fun _ _ => HintSource.jumpTable.inj,
      List.nodup_append'.2 ⟨hkind _ _ fun _ _ => HintSource.dataRange.inj,
        hkind _ _ fun _ _ => HintSource.codeRange.inj, ?_⟩, ?_⟩, ?_⟩ <;>
  · intro s hs hs'
    obtain ⟨i, -, rfl⟩ := List.mem_map.1 hs
    simp at hs'

/-! ## Ledgers without a hint -/

/-- A rejection, with the place of the hint that it concerns. -/
structure HintNote where
  source : HintSource
  rejection : Rejection

/-- The conflict by which a rejection is reported. -/
def HintNote.conflict (n : HintNote) : Conflict :=
  ⟨some n.rejection.address, .invalidHint, n.source.name ++ ": " ++ n.rejection.reason.message, []⟩

/-- The notes on the other hints, under their new places. -/
def notesWithout (removed : HintSource) (notes : List HintNote) : List HintNote :=
  (notes.filter (·.source ≠ removed)).map fun n => { n with source := removed.after n.source }

section

variable {removed s : HintSource}

theorem notesWithout_append (notes notes' : List HintNote) :
    notesWithout removed (notes ++ notes') =
      notesWithout removed notes ++ notesWithout removed notes' := by
  simp [notesWithout]

theorem notesWithout_of_ne (hs : s ≠ removed) (x : Rejection) :
    notesWithout removed [⟨s, x⟩] = [⟨removed.after s, x⟩] := by
  simp [notesWithout, hs]

theorem notesWithout_self (xs : List Rejection) : notesWithout s (xs.map (⟨s, ·⟩)) = [] := by
  simp [notesWithout]

end

/-- Checked hints whose ranges are known by their new places. -/
def CheckedHints.renumbered (removed : HintSource) (h : CheckedHints) : CheckedHints :=
  { h with ranges := h.ranges.map fun s => { s with source := removed.after s.source } }

namespace HintLedger

/-- A ledger of some hints, and one of the same hints without the one in a place. -/
structure Without (removed : HintSource) (r r₀ : HintLedger) : Prop where
  hints : r₀.hints = r.hints.renumbered removed
  taken : r₀.taken = r.taken
  order : r₀.order = r.order
  rejected : ∃ notes : List HintNote, r.rejected = notes.map HintNote.conflict ∧
    r₀.rejected = (notesWithout removed notes).map HintNote.conflict

variable {removed s : HintSource} {r r₀ r' : HintLedger}

theorem without_start : Without removed start start := ⟨rfl, rfl, rfl, [], rfl, rfl⟩

namespace Without

theorem reject (h : Without removed r r₀) (hs : s ≠ removed) (parts : List Value)
    (x : Rejection) :
    Alike (Without removed) (r.reject s parts x) (r₀.reject (removed.after s) parts x) := by
  unfold HintLedger.reject
  dsimp only
  split
  · obtain ⟨notes, hr, hr₀⟩ := h.rejected
    refine .ok ⟨h.hints, h.taken, h.order, notes ++ [⟨s, x⟩], ?_, ?_⟩
    · rw [hr, List.map_append]
      rfl
    · rw [hr₀, notesWithout_append, notesWithout_of_ne hs, List.map_append]
      rfl
  · exact .error _

theorem guard (h : Without removed r r₀) (hs : s ≠ removed) {α : Type} (parts : List Value)
    {check : Except Refusal α} {use use₀ : α → Except Fault HintLedger}
    (huse : ∀ a, Alike (Without removed) (use a) (use₀ a)) :
    Alike (Without removed) (r.guard s parts check use)
      (r₀.guard (removed.after s) parts check use₀) := by
  unfold HintLedger.guard
  split
  · exact huse _
  · exact h.reject hs parts _
  · exact .error _

theorem addDeclared (h : Without removed r r₀) (m : AddressMap) (range : Extent) (cls : ByteClass)
    (label : Value) :
    Alike (Without removed) (r.addDeclared m range cls label s)
      (r₀.addDeclared m range cls label (removed.after s)) := by
  unfold HintLedger.addDeclared
  cases m.addressOf range.start with
  | error fault => exact .error fault
  | ok address =>
    refine .ok ⟨?_, h.taken, congrArg (· + 1) h.order, h.rejected⟩
    dsimp only
    rw [h.hints, h.order]
    simp [CheckedHints.renumbered]

theorem addTargets (h : Without removed r r₀) (site : Int) (targets : List Int) (returns : Bool) :
    Without removed (r.addTargets site targets returns) (r₀.addTargets site targets returns) := by
  refine ⟨?_, h.taken, h.order, h.rejected⟩
  unfold HintLedger.addTargets
  rw [h.hints]
  rfl

theorem addEntry (h : Without removed r r₀) (hs : s ≠ removed) (e : EntryHint) :
    Alike (Without removed) (r.addEntry c e s) (r₀.addEntry c e (removed.after s)) := by
  unfold HintLedger.addEntry
  dsimp only
  rw [h.taken]
  refine h.guard hs e.parts fun taken => .ok ⟨?_, rfl, h.order, h.rejected⟩
  dsimp only
  rw [h.hints]
  rfl

theorem addRange (h : Without removed r r₀) (hs : s ≠ removed) (cls : ByteClass) (e : RangeHint) :
    Alike (Without removed) (r.addRange c cls e s) (r₀.addRange c cls e (removed.after s)) := by
  unfold HintLedger.addRange
  dsimp only
  rw [h.taken]
  refine h.guard hs e.parts fun ⟨taken, range⟩ => ?_
  have htaken : Without removed { r with taken := taken } { r₀ with taken := taken } :=
    ⟨h.hints, rfl, h.order, h.rejected⟩
  exact htaken.addDeclared c.map range cls e.label

theorem addTable (h : Without removed r r₀) (hs : s ≠ removed) (e : JumpTableHint) :
    Alike (Without removed) (r.addTable c e s) (r₀.addTable c e (removed.after s)) := by
  unfold HintLedger.addTable
  refine h.guard hs e.parts fun reading => ?_
  have hreject : ∀ x ∈ reading.rejections, ∀ r r₀, Without removed r r₀ →
      Alike (Without removed) (r.reject s e.parts x) (r₀.reject (removed.after s) e.parts x) :=
    fun x _ r r₀ h => h.reject hs e.parts x
  refine (Alike.foldlM hreject h).bind fun r₁ r₂ h₁ => ?_
  rw [h₁.taken]
  refine h₁.guard hs e.parts fun taken => ?_
  have htaken : Without removed { r₁ with taken := taken } { r₂ with taken := taken } :=
    ⟨h₁.hints, rfl, h₁.order, h₁.rejected⟩
  have htargets := htaken.addTargets reading.site reading.targets e.returns
  cases reading.table with
  | none => exact .ok htargets
  | some found => exact htargets.addDeclared c.map found.2 .data e.label

/-- **Every other hint does the same to both ledgers.** -/
theorem add (h : Without removed r r₀) (hs : s ≠ removed) (x : AnyHint) :
    Alike (Without removed) (r.add c (x, s)) (r₀.add c (x, removed.after s)) := by
  cases x with
  | entryPoint e => exact h.addEntry hs e
  | jumpTable e => exact h.addTable hs e
  | range cls e => exact h.addRange hs cls e

end Without

end HintLedger

/-! ## Rejected hints -/

/-- The names that are taken after a jump table, if it holds as a whole. -/
def JumpTableHint.verdict (c : Cartridge) (taken : List String) (h : JumpTableHint) :
    Except Refusal (List String) := do
  let reading ← h.read c
  reading.verdict taken h.label

/-- A hint is rejected as a whole when some names are taken. -/
def AnyHint.Refused (c : Cartridge) (taken : List String) : AnyHint → Prop
  | .entryPoint h => ∃ x, h.verdict c taken = .error (.rejected x)
  | .jumpTable h => ∃ x, h.verdict c taken = .error (.rejected x)
  | .range _ h => ∃ x, h.verdict c taken = .error (.rejected x)

namespace HintLedger

variable {r r' : HintLedger} {s : HintSource}

/-- A ledger with more notes on one hint. -/
def note (r : HintLedger) (s : HintSource) (xs : List Rejection) : HintLedger :=
  { r with rejected := r.rejected ++ xs.map fun x => HintNote.conflict ⟨s, x⟩ }

theorem note_note (xs ys : List Rejection) : (r.note s xs).note s ys = r.note s (xs ++ ys) := by
  simp [note]

theorem reject_eq_note {parts : List Value} {x : Rejection} (h : r.reject s parts x = .ok r') :
    r' = r.note s [x] := reject_eq_ok h

theorem guard_eq_note {α : Type} {parts : List Value} {check : Except Refusal α} {x : Rejection}
    {use : α → Except Fault HintLedger} (hcheck : check = .error (.rejected x))
    (h : r.guard s parts check use = .ok r') : r' = r.note s [x] := by
  subst hcheck
  exact reject_eq_note h

theorem foldlM_reject_eq_note {parts : List Value} {xs : List Rejection}
    (h : xs.foldlM (fun r x => r.reject s parts x) r = .ok r') : r' = r.note s xs := by
  induction xs generalizing r with
  | nil =>
    cases h
    simp [note]
  | cons x xs ih =>
    rw [List.foldlM_cons] at h
    obtain ⟨r₁, h₁, h⟩ := bind_eq_ok.1 h
    rw [ih h, reject_eq_note h₁, note_note]
    rfl

/-- An entry point that is rejected leaves the one note that says why. -/
theorem add_entryPoint_of_refused {e : EntryHint} {y : Rejection}
    (hy : e.verdict c r.taken = .error (.rejected y))
    (h : r.add c (.entryPoint e, s) = .ok r') : r' = r.note s [y] := guard_eq_note hy h

/-- A jump table that is rejected leaves notes, also on pointers that were rejected before. -/
theorem addTable_of_refused {e : JumpTableHint} {y : Rejection}
    (hy : e.verdict c r.taken = .error (.rejected y)) (h : r.addTable c e s = .ok r') :
    ∃ xs, r' = r.note s xs := by
  unfold JumpTableHint.verdict at hy
  unfold addTable at h
  cases hread : e.read c with
  | error refusal =>
    rw [hread] at hy h
    cases hy
    exact ⟨[y], guard_eq_note rfl h⟩
  | ok reading =>
    rw [hread] at hy h
    obtain ⟨r₁, hr₁, h⟩ := bind_eq_ok.1 h
    have hr₁ := foldlM_reject_eq_note hr₁
    subst hr₁
    have hnote := guard_eq_note hy h
    rw [note_note] at hnote
    exact ⟨_, hnote⟩

/-- **A rejected hint only leaves notes.** -/
theorem add_of_refused {x : AnyHint} (hx : x.Refused c r.taken) (h : r.add c (x, s) = .ok r') :
    ∃ xs, r' = r.note s xs := by
  cases x with
  | entryPoint e =>
    obtain ⟨y, hy⟩ := hx
    exact ⟨[y], add_entryPoint_of_refused hy h⟩
  | jumpTable e =>
    obtain ⟨y, hy⟩ := hx
    exact addTable_of_refused hy h
  | range cls e =>
    obtain ⟨y, hy⟩ := hx
    exact ⟨[y], guard_eq_note hy h⟩

/-- A ledger may have more notes on the hint that is taken out. -/
theorem Without.note {r₀ : HintLedger} (h : Without s r r₀) (xs : List Rejection) :
    Without s (r.note s xs) r₀ := by
  obtain ⟨notes, hr, hr₀⟩ := h.rejected
  refine ⟨h.hints, h.taken, h.order, notes ++ xs.map (⟨s, ·⟩), ?_, ?_⟩
  · rw [HintLedger.note, hr, List.map_append, List.map_map]
    rfl
  · rw [hr₀, notesWithout_append, notesWithout_self, List.append_nil]

end HintLedger

/-! ## The check without a rejected hint -/

/-- The check rejects the hint in a place as a whole: the hints before it are checked, it is refused
for the names that are taken then, and the refusal is noted. -/
def Hints.Rejects (c : Cartridge) (h : Hints) (s : HintSource) : Prop :=
  ∃ before x after r r', h.listed = before ++ (x, s) :: after ∧
    before.foldlM (HintLedger.add c) .start = .ok r ∧ x.Refused c r.taken ∧
    r.add c (x, s) = .ok r'

/-- Taking out the hint in a place leaves those before it and those after it. -/
theorem Hints.listed_without_of_eq {h : Hints} {s : HintSource} {x : AnyHint}
    {before after : List (AnyHint × HintSource)} (hl : h.listed = before ++ (x, s) :: after) :
    (h.without s).listed = (before ++ after).map (Prod.map id (HintSource.after s)) ∧
      ∀ p ∈ before ++ after, p.2 ≠ s := by
  have hnodup := h.nodup_listed
  rw [hl, List.map_append, List.map_cons, List.nodup_middle, List.nodup_cons, ← List.map_append]
    at hnodup
  have hne : ∀ p ∈ before ++ after, p.2 ≠ s := by
    rintro p hp rfl
    exact hnodup.1 (List.mem_map.2 ⟨p, hp, rfl⟩)
  refine ⟨?_, hne⟩
  have hfilter : (before ++ after).filter (·.2 ≠ s) = before ++ after :=
    List.filter_eq_self.2 fun p hp => decide_eq_true (hne p hp)
  rw [h.listed_without, hl, List.filter_append, List.filter_cons_of_neg (by simp),
    ← List.filter_append, hfilter]

/-- The ledgers with and without a rejected hint stay alike to their end. -/
theorem Hints.foldlM_alike {given : Hints} {s : HintSource} (h : given.Rejects c s) :
    Alike (HintLedger.Without s) (given.listed.foldlM (HintLedger.add c) .start)
      ((given.without s).listed.foldlM (HintLedger.add c) .start) := by
  obtain ⟨before, x, after, r, r', hl, hbefore, hx, hr⟩ := h
  obtain ⟨hwithout, hne⟩ := listed_without_of_eq hl
  have hstep : ∀ p ∈ before ++ after, ∀ a b, HintLedger.Without s a b →
      Alike (HintLedger.Without s) (a.add c p) (b.add c (Prod.map id (HintSource.after s) p)) :=
    fun p hp a b hab => hab.add (hne p hp) p.1
  have hrun : ∀ l ⊆ before ++ after, ∀ a b, HintLedger.Without s a b →
      Alike (HintLedger.Without s) (l.foldlM (HintLedger.add c) a)
        ((l.map (Prod.map id (HintSource.after s))).foldlM (HintLedger.add c) b) := by
    intro l hsub a b hab
    rw [List.foldlM_map]
    exact Alike.foldlM (fun p hp => hstep p (hsub hp)) hab
  obtain ⟨r₀, hr₀, hwith⟩ := (hrun before (List.subset_append_left _ _) _ _
    HintLedger.without_start).exists_eq_ok hbefore
  obtain ⟨xs, rfl⟩ := HintLedger.add_of_refused hx hr
  rw [hl, hwithout, List.foldlM_append, List.map_append, List.foldlM_append, hbefore, hr₀]
  change Alike (HintLedger.Without s) (((x, s) :: after).foldlM (HintLedger.add c) r) _
  rw [List.foldlM_cons, hr]
  exact hrun after (List.subset_append_right _ _) _ _ (hwith.note xs)

/-- **A rejected hint changes nothing else.** Without it the check gives the same hints, with the
ranges known by their new places, and the same rejections but those of the hint itself; or it ends
in the same fault. -/
theorem rejected_changes_nothing {given : Hints} {s : HintSource} (h : given.Rejects c s) :
    (∀ checked rejected, given.check c = .ok (checked, rejected) →
      ∃ notes : List HintNote, rejected = notes.map HintNote.conflict ∧
        (given.without s).check c =
          .ok (checked.renumbered s, (notesWithout s notes).map HintNote.conflict)) ∧
    ∀ fault, given.check c = .error fault → (given.without s).check c = .error fault := by
  have halike := Hints.foldlM_alike h
  constructor
  · intro checked rejected hcheck
    rw [Hints.check_eq] at hcheck ⊢
    obtain ⟨r, hr, hcheck⟩ := bind_eq_ok.1 hcheck
    cases hcheck
    obtain ⟨r₀, hr₀, hwithout⟩ := halike.exists_eq_ok hr
    obtain ⟨notes, hnotes, hnotes₀⟩ := hwithout.rejected
    refine ⟨notes, hnotes, bind_eq_ok.2 ⟨r₀, hr₀, ?_⟩⟩
    rw [hwithout.hints, hnotes₀]
    rfl
  · intro fault hcheck
    rw [Hints.check_eq] at hcheck ⊢
    cases hr : given.listed.foldlM (HintLedger.add c) .start with
    | ok r =>
      rw [hr] at hcheck
      cases hcheck
    | error e =>
      rw [hr] at hcheck
      cases hcheck
      rw [halike.eq_error hr]
      rfl

/-- If the check returns, a hint that it refuses is rejected. -/
theorem Hints.rejects_of_check {given : Hints} {s : HintSource} {x : AnyHint}
    {before after : List (AnyHint × HintSource)} {r : HintLedger}
    {found : CheckedHints × List Conflict} (h : given.check c = .ok found)
    (hl : given.listed = before ++ (x, s) :: after)
    (hbefore : before.foldlM (HintLedger.add c) .start = .ok r) (hx : x.Refused c r.taken) :
    given.Rejects c s := by
  rw [check_eq] at h
  obtain ⟨_, hfold, -⟩ := bind_eq_ok.1 h
  rw [hl, List.foldlM_append] at hfold
  obtain ⟨r₁, hr₁, hfold⟩ := bind_eq_ok.1 hfold
  rw [hbefore] at hr₁
  cases hr₁
  rw [List.foldlM_cons] at hfold
  obtain ⟨r', hr', -⟩ := bind_eq_ok.1 hfold
  exact ⟨before, x, after, r, r', hl, hbefore, hx, hr'⟩

/-- Two pointer tables over the same bytes, whose one pointer is not mapped. The first has a name
that is taken. -/
def doubledHints : Hints where
  entryPoints := [⟨0x8000, .text "_", none⟩]
  dataRanges := [⟨0x8001, 0x8001, .text "__"⟩]
  codeRanges := []
  jumpTables := [⟨0x8000, [], some 0x8000, 1, false, false, .text "_"⟩,
    ⟨0x8000, [], some 0x8000, 1, false, false, .null⟩]

theorem exists_check_doubledHints : ∃ checked rejected,
    doubledHints.check shortCartridge = .ok (checked, rejected) := by
  refine Hints.exists_check (fun v hv => ?_) fun n hn => Numeral.not_isLong ?_
  · intro hgiven
    simp only [Hints.names, doubledHints, List.map_cons, List.map_nil, List.append_nil,
      List.cons_append, List.nil_append, List.mem_cons, List.not_mem_nil, or_false] at hv
    rcases hv with rfl | rfl | rfl | rfl
    · exact ⟨_, rfl⟩
    · exact ⟨_, rfl⟩
    · cases hgiven
    · exact ⟨_, rfl⟩
  · simp [Hints.parts, doubledHints, EntryHint.parts, JumpTableHint.parts, RangeHint.parts] at hn
    omega

theorem exists_refused_doubledHints : ∃ before x after r,
    doubledHints.listed = before ++ (x, .jumpTable 0) :: after ∧
    before.foldlM (HintLedger.add shortCartridge) .start = .ok r ∧
    x.Refused shortCartridge r.taken :=
  ⟨[_], _, _, _, rfl, rfl, _, rfl⟩

theorem rejected_changes_nothing_doubledHints :
    doubledHints.Rejects shortCartridge (.jumpTable 0) ∧ ∃ checked notes,
      doubledHints.check shortCartridge = .ok (checked, notes.map HintNote.conflict) ∧
      (doubledHints.without (.jumpTable 0)).check shortCartridge =
        .ok (checked.renumbered (.jumpTable 0),
          (notesWithout (.jumpTable 0) notes).map HintNote.conflict) := by
  obtain ⟨checked, rejected, hcheck⟩ := exists_check_doubledHints
  obtain ⟨before, x, after, r, hl, hbefore, hx⟩ := exists_refused_doubledHints
  have hrejects := Hints.rejects_of_check hcheck hl hbefore hx
  obtain ⟨notes, rfl, hwithout⟩ := (rejected_changes_nothing hrejects).1 checked rejected hcheck
  exact ⟨hrejects, checked, notes, hcheck, hwithout⟩

end RomAtlas
