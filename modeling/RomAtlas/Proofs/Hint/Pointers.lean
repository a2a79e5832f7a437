import RomAtlas.Proofs.Atlas.Total
import RomAtlas.Proofs.Hint.Tables
import RomAtlas.Proofs.Region.Precedence

/-!
# The pointers of a table

A pointer table is read as a whole or not at all. What is read are the bytes that it declares, and
each pointer that shows a byte becomes a target of the jump. The others are rejected one by one. A
rejection shows the whole hint, so with an integer that is too long to be shown it ends the checking
of all hints.

* `JumpTableHint.readPointers_eq_error_iff`: when a table is not read.
* `JumpTableHint.reads_of_readPointers`: what is read otherwise.
* `HintLedger.mem_hintedTargets_addTargets`: where a jump can go after its table was read.
* `pointer_tables_exact`: **pointer tables are resolved exactly**, unless a rejection cannot be
  shown.
* `rejection_ends_check`: a table with a negative count that ends the checking.
-/

namespace RomAtlas

variable {c : Cartridge} {h : JumpTableHint} {table : Int} {r : HintLedger} {s : HintSource}

/-! ## Reading -/

namespace JumpTableHint

/-- The number of bytes that a table declares. -/
def tableSize (h : JumpTableHint) : Int := h.count * h.pointerWidth

/-- A table is not read: it declares no pointers, it starts where no byte is shown, or its last byte
is not as far behind its first byte in the image as in the address space. -/
def Unreadable (c : Cartridge) (h : JumpTableHint) (table : Int) : Prop :=
  h.count ≤ 0 ∨ c.map.offset? table = none ∨ ∃ first : Nat, c.map.offset? table = some first ∧
    ¬ ∃ last : Nat, c.map.offset? (table + h.tableSize - 1) = some last ∧
      (last : Int) = first + h.tableSize - 1

/-- The pointer that bytes spell: their little-endian value, in the bank of the jump if they are
two. -/
def pointerOf (h : JumpTableHint) (bytes : List UInt8) : Nat :=
  if h.longPointers then littleEndian bytes else (bankBase h.site).toNat ||| littleEndian bytes

/-- Pointers as a table at an offset of the image has them. All bytes that the table declares are in
the image and are read, and each pointer is spelled by its own. -/
structure Reads (c : Cartridge) (h : JumpTableHint) (table : Int) (first : Nat)
    (pointers : List Int) : Prop where
  start : c.map.offset? table = some first
  within : first + h.tableSize ≤ c.map.size
  whole : ((c.image.slice first h.tableSize).size : Int) = h.tableSize
  count : (pointers.length : Int) = h.count
  pointer : ∀ n < pointers.length, pointers[n]? = some (h.pointerOf (c.image.between
    (first + n * h.pointerWidth) (first + n * h.pointerWidth + h.pointerWidth)) : Int)

theorem tableSize_pos (hcount : 0 < h.count) : 0 < h.tableSize :=
  Int.mul_pos hcount (by exact_mod_cast h.pointerWidth_pos)

theorem readPointers_of_unreadable (hu : h.Unreadable c table) :
    ∃ reason, h.readPointers c table = .error (.rejected ⟨reason, table⟩) := by
  unfold readPointers
  by_cases hcount : h.count ≤ 0
  · exact ⟨_, if_pos hcount⟩
  rw [if_neg hcount]
  dsimp only
  unfold offsetFor
  rcases hu with hle | hnone | ⟨first, hfirst, hlast⟩
  · exact absurd hle hcount
  · rw [hnone]
    exact ⟨_, rfl⟩
  · rw [hfirst]
    refine ⟨_, if_pos fun heq => hlast ?_⟩
    obtain ⟨last, hl, he⟩ := Option.map_eq_some_iff.1 heq
    exact ⟨last, hl, he⟩

theorem exists_readPointers_of_readable (hr : ¬ h.Unreadable c table) :
    ∃ (first : Nat) (pointers : List Int),
      h.readPointers c table = .ok (pointers, ⟨first, first + h.tableSize⟩) := by
  unfold Unreadable at hr
  push Not at hr
  obtain ⟨hcount, hmapped, hcontiguous⟩ := hr
  obtain ⟨first, hfirst⟩ := Option.ne_none_iff_exists'.1 hmapped
  obtain ⟨last, hlast, hend⟩ := hcontiguous first hfirst
  have hpos := tableSize_pos hcount
  obtain ⟨size, hsize⟩ := Int.eq_ofNat_of_zero_le (Int.le_of_lt hpos)
  rw [hsize] at hlast hend hpos
  refine ⟨first, _, readPointers_eq_ok_iff.2 ⟨first, size, hsize.symm, by omega, hfirst, ?_, ?_,
    rfl⟩⟩
  · have haddress : table + (size - 1 : Nat) = table + size - 1 := by omega
    rw [haddress, hlast]
    congr 1
    omega
  · rw [hsize]

/-- **When a table is not read.** -/
theorem readPointers_eq_error_iff :
    (∃ x, h.readPointers c table = .error (.rejected x)) ↔ h.Unreadable c table := by
  constructor
  · rintro ⟨x, hx⟩
    by_contra hr
    obtain ⟨first, pointers, hok⟩ := exists_readPointers_of_readable hr
    cases hok.symm.trans hx
  · intro hu
    obtain ⟨reason, hreason⟩ := readPointers_of_unreadable hu
    exact ⟨_, hreason⟩

/-- A pointer of two bytes fills the part that the bank leaves free. -/
theorem pointerOf_eq {bytes : List UInt8} (hbytes : bytes.length = h.pointerWidth) :
    (h.pointerOf bytes : Int) = h.pointerBase + littleEndian bytes := by
  unfold pointerOf pointerBase
  unfold pointerWidth at hbytes
  by_cases hlong : h.longPointers = true
  · rw [if_pos hlong, if_pos hlong, Int.zero_add]
  · rw [if_neg hlong] at hbytes ⊢
    rw [if_neg hlong]
    have hlt : littleEndian bytes < Nat.pow 2 16 := littleEndian_lt hbytes
    have hor := Nat.two_pow_add_eq_or_of_lt hlt (bankNumber h.site)
    have hbase : (bankBase h.site).toNat = 2 ^ 16 * bankNumber h.site := by
      rw [bankBase_eq, Int.toNat_natCast, Nat.mul_comm]
      rfl
    rw [hbase, ← hor, ← hbase]
    have := bankBase_bounds h.site
    omega

/-- **What is read from a table.** -/
theorem reads_of_readPointers {pointers : List Int} {range : Extent}
    (hr : h.readPointers c table = .ok (pointers, range)) :
    ∃ first : Nat, range = ⟨first, first + h.tableSize⟩ ∧ h.Reads c table first pointers := by
  obtain ⟨first, size, hrange, hpos, hlast, hlies⟩ := liesAt_of_readPointers hr
  have hsize : h.tableSize = size := hlies.size_eq.symm
  have hlt := AddressMap.lt_size_of_offset? hlast
  have himage := c.size_eq
  refine ⟨first, by rw [hrange, hsize], hlies.start, ?_, ?_, hlies.length_eq, fun n hn => ?_⟩
  · rw [hsize]
    omega
  · have hbytes : (c.image.slice first size).toList.length = size := by
      rw [Image.toList_slice (by omega), Image.length_between_add (by omega)]
    rw [hsize, ← Array.length_toList, hbytes]
  · have hle := pointer_le hlies.size_eq hlies.length_eq hn
    have hbytes : (c.image.between (first + n * h.pointerWidth)
        (first + n * h.pointerWidth + h.pointerWidth)).length = h.pointerWidth :=
      Image.length_between_add (by omega)
    rw [hlies.pointer n hn, pointerOf_eq hbytes]

/-! ## Resolving -/

/-- A jump table that is right but for its pointer table: it has one, its name is a text, and its
site and its listed targets show bytes. -/
structure Points (c : Cartridge) (h : JumpTableHint) (table : Int) : Prop where
  table : h.table = some table
  name : h.label.IsName
  site : c.map.shows h.site = true
  targets : ∀ t ∈ h.targets, c.map.shows t = true

/-- The rejections of pointers that show no byte. -/
def pointerNotes (m : AddressMap) (table : Int) (pointers : List Int) : List Rejection :=
  pointers.zipIdx.filterMap fun (p, i) =>
    if m.shows p then none else some ⟨.pointerUnmapped i p, table⟩

theorem mem_pointerNotes {m : AddressMap} {pointers : List Int} {x : Rejection} :
    x ∈ pointerNotes m table pointers ↔ ∃ i p, pointers[i]? = some p ∧ m.shows p = false ∧
      x = ⟨.pointerUnmapped i p, table⟩ := by
  unfold pointerNotes
  simp only [List.mem_filterMap, Prod.exists, List.mem_zipIdx_iff_getElem?]
  constructor
  · rintro ⟨p, i, hi, hx⟩
    split at hx
    · cases hx
    · next hp => exact ⟨i, p, hi, eq_false_of_ne_true hp, (Option.some.inj hx).symm⟩
  · rintro ⟨i, p, hi, hp, rfl⟩
    exact ⟨p, i, hi, by rw [hp]; rfl⟩

theorem nodup_pointerNotes {m : AddressMap} {pointers : List Int} :
    (pointerNotes m table pointers).Nodup := by
  unfold pointerNotes
  refine List.Nodup.filterMap ?_ ?_
  · rintro ⟨p, i⟩ ⟨q, j⟩ x hp hq
    dsimp only at hp hq
    split at hp
    · cases hp
    split at hq
    · cases hq
    cases hp
    cases hq
    rfl
  · refine List.Nodup.of_map Prod.snd ?_
    rw [List.zipIdx_map_snd]
    exact List.nodup_range'

theorem Points.readSites (hpoints : h.Points c table) {α : Type}
    (f : PUnit → PUnit → Except Refusal α) :
    (do
      let a ← discard <| offsetFor c.map .site h.site
      let b ← discard <| h.targets.mapM (offsetFor c.map .target)
      f a b) = f ⟨⟩ ⟨⟩ := by
  obtain ⟨o, ho⟩ := Option.isSome_iff_exists.1 hpoints.site
  have htargets : ∃ os, h.targets.mapM (offsetFor c.map .target) = .ok os := by
    refine exists_mapM fun t ht => ?_
    obtain ⟨o, ho⟩ := Option.isSome_iff_exists.1 (hpoints.targets t ht)
    exact ⟨o, offsetFor_eq_ok.2 ho⟩
  obtain ⟨os, hos⟩ := htargets
  rw [offsetFor_eq_ok.2 ho, hos]
  rfl

/-- A table that cannot be read is all that is wrong with its hint. -/
theorem Points.read_of_error (hpoints : h.Points c table) {x : Rejection}
    (hx : h.readPointers c table = .error (.rejected x)) : h.read c = .error (.rejected x) := by
  unfold JumpTableHint.read
  refine (hpoints.readSites _).trans ?_
  rw [hpoints.table]
  dsimp only
  rw [hx]
  rfl

/-- **A table that is read** adds the pointers that show bytes to the listed targets. -/
theorem Points.read_of_ok (hpoints : h.Points c table) {pointers : List Int} {range : Extent}
    (hr : h.readPointers c table = .ok (pointers, range)) :
    h.read c = .ok ⟨c.map.canonical h.site, h.targets ++ pointers.filter c.map.shows,
      pointerNotes c.map table pointers, some (table, range)⟩ := by
  unfold JumpTableHint.read
  refine (hpoints.readSites _).trans ?_
  rw [hpoints.table]
  dsimp only
  rw [hr]
  rfl

end JumpTableHint

/-! ## Conflicts about pointers -/

/-- The conflict that names a pointer which shows no byte by its index. -/
def pointerConflict (s : HintSource) (table : Int) (i : Nat) (p : Int) : Conflict :=
  ⟨some table, .invalidHint, s.name ++ ": " ++
    ("pointer #" ++ toString i ++ " -> " ++ Hex.address p ++ " is not mapped to ROM"), []⟩

/-- **A conflict names one index.** -/
theorem pointerConflict_inj {i j : Nat} {p q : Int}
    (h : pointerConflict s table i p = pointerConflict s table j q) : i = j := by
  have hdigits : ∀ n, ∀ x ∈ Nat.toDigits 10 n, x.isDigit = true :=
    fun n x hx => Nat.isDigit_of_mem_toDigits (by decide) (by decide) hx
  have hreason := congrArg (fun k : Conflict => k.reason.toList) h
  have hlist : ∀ (n : Nat) (p : Int), (pointerConflict s table n p).reason.toList =
      (s.name.toList ++ ": pointer #".toList) ++ (Nat.toDigits 10 n ++
        (' ' :: ("-> " ++ Hex.address p ++ " is not mapped to ROM").toList)) := by
    intro n p
    have hdigits : (toString n).toList = Nat.toDigits 10 n := Nat.toList_repr
    simp only [pointerConflict, String.toList_append, hdigits, List.append_assoc]
    rfl
  simp only [hlist] at hreason
  -- the number ends at the blank behind it
  obtain ⟨hnumber, -⟩ := append_inj_of_takeWhile (List.append_cancel_left hreason) (hdigits i)
    (hdigits j) rfl rfl
  rw [← Nat.ofDigitChars_ten_toDigits (n := i), hnumber, Nat.ofDigitChars_ten_toDigits]

/-- Conflicts about the pointers of a table: one for each pointer that shows no byte, and no
others. -/
structure AboutPointers (m : AddressMap) (s : HintSource) (table : Int) (pointers : List Int)
    (conflicts : List Conflict) : Prop where
  once : ∀ i p, pointers[i]? = some p → m.shows p = false →
    conflicts.count (pointerConflict s table i p) = 1
  only : ∀ k ∈ conflicts, ∃ i p, pointers[i]? = some p ∧ m.shows p = false ∧
    k = pointerConflict s table i p

theorem aboutPointers_pointerNotes {m : AddressMap} {pointers : List Int} :
    AboutPointers m s table pointers ((JumpTableHint.pointerNotes m table pointers).map
      fun x => HintNote.conflict ⟨s, x⟩) := by
  have hnodup : ((JumpTableHint.pointerNotes m table pointers).map
      fun x => HintNote.conflict ⟨s, x⟩).Nodup := by
    refine JumpTableHint.nodup_pointerNotes.map_on fun x hx y hy hxy => ?_
    obtain ⟨i, p, hi, -, rfl⟩ := JumpTableHint.mem_pointerNotes.1 hx
    obtain ⟨j, q, hj, -, rfl⟩ := JumpTableHint.mem_pointerNotes.1 hy
    obtain rfl : i = j := pointerConflict_inj hxy
    cases hi.symm.trans hj
    rfl
  constructor
  · intro i p hi hp
    have hx : ⟨.pointerUnmapped i p, table⟩ ∈ JumpTableHint.pointerNotes m table pointers :=
      JumpTableHint.mem_pointerNotes.2 ⟨i, p, hi, hp, rfl⟩
    exact List.count_eq_one_of_mem hnodup (List.mem_map.2 ⟨_, hx, rfl⟩)
  · intro k hk
    obtain ⟨x, hx, rfl⟩ := List.mem_map.1 hk
    obtain ⟨i, p, hi, hp, rfl⟩ := JumpTableHint.mem_pointerNotes.1 hx
    exact ⟨i, p, hi, hp, rfl⟩

/-! ## Hints that cannot be shown -/

namespace JumpTableHint

/-- The integers that a jump table says. -/
def integers (h : JumpTableHint) : List Int := h.site :: h.count :: (h.targets ++ h.table.toList)

/-- A jump table with an integer that is too long to be shown. -/
def Long (h : JumpTableHint) : Prop := ∃ n ∈ h.integers, Numeral.IsLong n

theorem inners?_parts_eq_none (hname : h.label.IsName) :
    Value.inners? h.parts = none ↔ h.Long := by
  rw [Value.inners?_eq_none]
  constructor
  · rintro ⟨v, hv, hnone⟩
    simp only [parts, List.cons_append, List.nil_append, List.mem_cons, List.mem_map] at hv
    rcases hv with rfl | rfl | rfl | ⟨n, hn, rfl⟩
    · exact ⟨h.site, by simp [integers], Numeral.text?_eq_none.1 hnone⟩
    · exact ⟨h.count, by simp [integers], Numeral.text?_eq_none.1 hnone⟩
    · exact absurd hnone hname.inner?_ne_none
    · exact ⟨n, List.mem_cons_of_mem _ (List.mem_cons_of_mem _ hn), Numeral.text?_eq_none.1 hnone⟩
  · rintro ⟨n, hn, hlong⟩
    refine ⟨.int n, ?_, Numeral.text?_eq_none.2 hlong⟩
    simp only [integers, List.mem_cons] at hn
    rcases hn with rfl | rfl | hn
    · exact List.mem_cons_self
    · exact List.mem_cons_of_mem _ List.mem_cons_self
    · exact List.mem_append_right _ (List.mem_map_of_mem hn)

end JumpTableHint

namespace HintLedger

theorem guard_of_rejected {α : Type} {parts : List Value} {check : Except Refusal α}
    {use : α → Except Fault HintLedger} {x : Rejection} (hx : check = .error (.rejected x)) :
    r.guard s parts check use = r.reject s parts x := by
  rw [hx]
  rfl

theorem reject_of_short (hname : h.label.IsName) (hshort : ¬ h.Long) (x : Rejection) :
    r.reject s h.parts x = .ok (r.note s [x]) := by
  have hshown := mt (JumpTableHint.inners?_parts_eq_none hname).1 hshort
  unfold reject
  exact if_pos (Option.isSome_iff_ne_none.2 hshown)

theorem reject_of_long (hname : h.label.IsName) (hlong : h.Long) (x : Rejection) :
    r.reject s h.parts x = .error .integerTooLong := by
  have hnone := (JumpTableHint.inners?_parts_eq_none hname).2 hlong
  unfold reject
  exact if_neg (by rw [hnone]; exact Bool.false_ne_true)

theorem foldlM_reject (hname : h.label.IsName) {xs : List Rejection}
    (hshort : ¬ h.Long ∨ xs = []) :
    xs.foldlM (fun r x => r.reject s h.parts x) r = .ok (r.note s xs) := by
  induction xs generalizing r with
  | nil =>
    simp only [note, List.map_nil, List.append_nil]
    rfl
  | cons x xs ih =>
    have hshort := hshort.resolve_right (List.cons_ne_nil x xs)
    rw [List.foldlM_cons, reject_of_short hname hshort]
    refine (ih (.inl hshort)).trans ?_
    rw [note_note]
    rfl

theorem foldlM_reject_of_long (hname : h.label.IsName) (hlong : h.Long) {xs : List Rejection}
    (hxs : xs ≠ []) :
    xs.foldlM (fun r x => r.reject s h.parts x) r = .error .integerTooLong := by
  obtain ⟨x, xs, rfl⟩ := List.exists_cons_of_ne_nil hxs
  rw [List.foldlM_cons, reject_of_long hname hlong]
  rfl

/-! ## Ledgers with a table -/

/-- **Where a jump can go after targets are added**: where it could go before, and to the
targets. -/
theorem mem_hintedTargets_addTargets (r : HintLedger) (site : Int) (targets : List Int)
    (returns : Bool) {t : Int} :
    t ∈ (r.addTargets site targets returns).hints.hintedTargets site ↔
      t ∈ r.hints.hintedTargets site ∨ t ∈ targets := by
  by_cases hnil : targets = []
  · subst hnil
    simp [addTargets, CheckedHints.hintedTargets]
  · have hlist : (r.addTargets site targets returns).hints.hintedTargets site =
        sortUnique (r.hints.hintedTargets site ++ targets) := by
      simp [addTargets, CheckedHints.hintedTargets, hnil]
    rw [hlist, mem_sortUnique, List.mem_append]

theorem hintedTargets_addTargets_of_ne (r : HintLedger) {site other : Int} (hne : other ≠ site)
    (targets : List Int) (returns : Bool) :
    (r.addTargets site targets returns).hints.hintedTargets other =
      r.hints.hintedTargets other := by
  unfold addTargets CheckedHints.hintedTargets
  dsimp only
  split
  · rfl
  · rw [Std.TreeMap.getElem?_insert, if_neg]
    simpa using hne.symm

/-- What a jump table adds to a ledger with the pointers of its table: targets of its jump, which
are the listed ones and the pointers that show bytes, and the range of the table. -/
structure TakesTable (m : AddressMap) (h : JumpTableHint) (pointers : List Int) (range : Extent)
    (r r' : HintLedger) : Prop where
  targets : ∀ t, t ∈ r'.hints.hintedTargets (m.canonical h.site) ↔
    t ∈ r.hints.hintedTargets (m.canonical h.site) ∨ t ∈ h.targets ∨
      t ∈ pointers ∧ m.shows t = true
  others : ∀ site ≠ m.canonical h.site,
    r'.hints.hintedTargets site = r.hints.hintedTargets site
  range : ∃ spec : DeclaredRange, spec.range = range ∧ spec.cls = .data ∧
    r'.hints.ranges = r.hints.ranges ++ [spec]

/-- How a ledger goes on with a table that has been read. Its conflicts are noted first. Then its
name is taken, and with it the table, or the rejection of the name is noted. If something is to be
noted that cannot be shown, the checking ends. -/
structure GoesOn (c : Cartridge) (h : JumpTableHint) (s : HintSource) (table : Int)
    (pointers : List Int) (range : Extent) (added : List Conflict) (r : HintLedger) : Prop where
  accepted : ∀ taken, takeName r.taken h.label table = .ok taken → ¬ h.Long ∨ added = [] →
    ∃ r', r.addTable c h s = .ok r' ∧ r'.rejected = r.rejected ++ added ∧
      r.TakesTable c.map h pointers range r'
  refused : ∀ x, takeName r.taken h.label table = .error (.rejected x) → ¬ h.Long →
    r.addTable c h s =
      .ok { r with rejected := r.rejected ++ added ++ [HintNote.conflict ⟨s, x⟩] }
  ended : h.Long →
    (added ≠ [] ∨ ∃ x, takeName r.taken h.label table = .error (.rejected x)) →
    r.addTable c h s = .error .integerTooLong

/-- A table that is read is noted, named and declared in this order. -/
theorem addTable_of_read (hname : h.label.IsName) {site : Int} {targets : List Int}
    {notes : List Rejection} {range : Extent}
    (hread : h.read c = .ok ⟨site, targets, notes, some (table, range)⟩)
    (hnotes : ¬ h.Long ∨ notes = []) :
    r.addTable c h s = (r.note s notes).guard s h.parts (takeName r.taken h.label table)
      fun taken => { r.note s notes with taken := taken }.addTargets site targets h.returns
        |>.addDeclared c.map range .data h.label s := by
  unfold addTable
  rw [hread]
  change (notes.foldlM (fun r x => r.reject s h.parts x) r >>= _) = _
  rw [foldlM_reject hname hnotes]
  rfl

theorem goesOn_of_readPointers (hpoints : h.Points c table) {pointers : List Int} {range : Extent}
    (hr : h.readPointers c table = .ok (pointers, range)) :
    r.GoesOn c h s table pointers range
      ((JumpTableHint.pointerNotes c.map table pointers).map fun x => HintNote.conflict ⟨s, x⟩) := by
  have hname := hpoints.name
  have hread := hpoints.read_of_ok hr
  have hwithin := JumpTableHint.readPointers_within hr
  constructor
  · intro taken htaken hshort
    rw [List.map_eq_nil_iff] at hshort
    have hlow := hwithin.start_nonneg
    have hhigh : range.start < c.map.size := Int.lt_of_lt_of_le hwithin.start_lt hwithin.stop_le
    rw [addTable_of_read hname hread hshort, htaken]
    unfold guard addDeclared
    dsimp only
    rw [AddressMap.addressOf_eq_ok hlow hhigh]
    refine ⟨_, rfl, rfl, fun t => ?_, fun site hsite => ?_, _, rfl, rfl, rfl⟩
    · have hmem := r.mem_hintedTargets_addTargets (c.map.canonical h.site)
        (h.targets ++ pointers.filter c.map.shows) h.returns (t := t)
      rw [List.mem_append, List.mem_filter] at hmem
      exact hmem
    · exact r.hintedTargets_addTargets_of_ne hsite _ h.returns
  · intro x hx hshort
    rw [addTable_of_read hname hread (.inl hshort), guard_of_rejected hx,
      reject_of_short hname hshort]
    rfl
  · intro hlong hsome
    by_cases hnil : JumpTableHint.pointerNotes c.map table pointers = []
    · obtain ⟨x, hx⟩ := hsome.resolve_left (by simpa using hnil)
      rw [addTable_of_read hname hread (.inr hnil), guard_of_rejected hx,
        reject_of_long hname hlong]
    · unfold addTable
      rw [hread]
      change (List.foldlM (fun r x => r.reject s h.parts x) r _ >>= _) = _
      rw [foldlM_reject_of_long hname hlong hnil]
      rfl

/-- A table that is not read is the one thing noted about its hint. -/
theorem addTable_of_unreadable (hpoints : h.Points c table) (hu : h.Unreadable c table) :
    (¬ h.Long → ∃ x : Rejection, x.address = table ∧ r.addTable c h s = .ok (r.note s [x])) ∧
    (h.Long → r.addTable c h s = .error .integerTooLong) := by
  obtain ⟨reason, hreason⟩ := JumpTableHint.readPointers_of_unreadable hu
  unfold addTable
  rw [guard_of_rejected (hpoints.read_of_error hreason)]
  constructor
  · intro hshort
    exact ⟨⟨reason, table⟩, rfl, reject_of_short hpoints.name hshort _⟩
  · intro hlong
    exact reject_of_long hpoints.name hlong _

end HintLedger

/-- **Pointer tables are resolved exactly.** A table is not read if it declares no pointers, if its
address shows no byte, or if its last byte is not where its size puts it. Otherwise as many pointers
are read as it declares, each from its own bytes, all of them in the image. The jump can then go to
the listed targets and to the pointers that show bytes, and each of the other pointers is rejected
once, by its index.

Why a table is not read is a reason that is not yet put into words. What is rejected is noted, unless
an integer of the hint is too long to be shown: then no hint is rejected, and the checking ends with
a fault. -/
theorem pointer_tables_exact (c : Cartridge) (h : JumpTableHint) (table : Int) :
    ((∃ x, h.readPointers c table = .error (.rejected x)) ↔ h.Unreadable c table) ∧
    (h.Unreadable c table → h.Points c table → ∀ (r : HintLedger) (s : HintSource),
      (¬ h.Long → ∃ x : Rejection, x.address = table ∧ r.addTable c h s = .ok (r.note s [x])) ∧
      (h.Long → r.addTable c h s = .error .integerTooLong)) ∧
    (¬ h.Unreadable c table → ∃ (first : Nat) (pointers : List Int),
      h.readPointers c table = .ok (pointers, ⟨first, first + h.tableSize⟩) ∧
      h.Reads c table first pointers ∧
      (h.Points c table → ∀ (r : HintLedger) (s : HintSource), ∃ added,
        AboutPointers c.map s table pointers added ∧
        r.GoesOn c h s table pointers ⟨first, first + h.tableSize⟩ added)) := by
  refine ⟨JumpTableHint.readPointers_eq_error_iff, fun hu hpoints r s =>
    HintLedger.addTable_of_unreadable hpoints hu, fun hr => ?_⟩
  obtain ⟨first, pointers, hpointers⟩ := JumpTableHint.exists_readPointers_of_readable hr
  obtain ⟨first', hrange, hreads⟩ := JumpTableHint.reads_of_readPointers hpointers
  obtain rfl : first = first' := by
    rw [Extent.mk.injEq] at hrange
    exact_mod_cast hrange.1
  refine ⟨first, pointers, hpointers, hreads, fun hpoints r s => ?_⟩
  exact ⟨_, aboutPointers_pointerNotes, HintLedger.goesOn_of_readPointers hpoints hpointers⟩

/-- The pointer behind the opcode of `loopCartridge` leads out of its image. -/
theorem pointer_tables_exact_loop :
    ∃ r', HintLedger.start.addTable loopCartridge (nearTable 0x8000 0x8001 1) (.jumpTable 0) =
        .ok r' ∧
      r'.rejected.count (pointerConflict (.jumpTable 0) 0x8001 0 0xfffd) = 1 ∧
      r'.hints.hintedTargets (loopCartridge.map.canonical 0x8000) = [] := by
  have hread : (nearTable 0x8000 0x8001 1).readPointers loopCartridge 0x8001 =
      .ok ([0xfffd], ⟨1, 3⟩) :=
    JumpTableHint.readPointers_eq_ok_iff.2 ⟨1, 2, rfl, by decide, rfl, rfl, rfl, rfl⟩
  obtain ⟨hreadable, -, hexact⟩ :=
    pointer_tables_exact loopCartridge (nearTable 0x8000 0x8001 1) 0x8001
  have hpoints : (nearTable 0x8000 0x8001 1).Points loopCartridge 0x8001 :=
    ⟨rfl, nofun, rfl, nofun⟩
  have hshort : ¬ (nearTable 0x8000 0x8001 1).Long := by
    rintro ⟨n, hn, hlong⟩
    have hsmall : ∀ n ∈ (nearTable 0x8000 0x8001 1).integers, n.natAbs < 10000000000 := by decide
    exact Numeral.not_isLong (hsmall n hn) hlong
  have hr : ¬ (nearTable 0x8000 0x8001 1).Unreadable loopCartridge 0x8001 := by
    intro hu
    obtain ⟨x, hx⟩ := hreadable.2 hu
    cases hread.symm.trans hx
  obtain ⟨first, pointers, hpointers, -, hgoes⟩ := hexact hr
  cases hread.symm.trans hpointers
  obtain ⟨added, habout, hgoes⟩ := hgoes hpoints .start (.jumpTable 0)
  obtain ⟨r', hr', hrejected, htakes⟩ := hgoes.accepted [] rfl (.inl hshort)
  refine ⟨r', hr', ?_, ?_⟩
  · rw [hrejected]
    exact habout.once 0 0xfffd rfl rfl
  · refine List.eq_nil_iff_forall_not_mem.2 fun t ht => ?_
    rcases (htakes.targets t).1 ht with hold | hlisted | ⟨ht, hshown⟩
    · cases hold
    · cases hlisted
    · rw [List.mem_singleton.1 ht] at hshown
      cases hshown

/-- **A rejection can end the checking of all hints**: a table with a negative count that is too
long is not rejected like others that cannot be read. -/
theorem rejection_ends_check :
    (nearTable 0x8000 0x8000 (-(Nat.pow 10 Numeral.maxDecimalDigits : Nat))).Unreadable
      shortCartridge 0x8000 ∧
    (countHints (-(Nat.pow 10 Numeral.maxDecimalDigits : Nat))).check shortCartridge =
      .error .integerTooLong := by
  refine ⟨.inl ?_, check_countHints ?_⟩
  · exact Int.neg_nonpos_of_nonneg (Int.natCast_nonneg _)
  · unfold Numeral.IsLong
    rw [Int.natAbs_neg, Int.natAbs_natCast]

end RomAtlas
