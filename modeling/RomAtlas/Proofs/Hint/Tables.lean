import RomAtlas.Proofs.Decode.Targets
import RomAtlas.Proofs.Hint.Growth
import RomAtlas.Proofs.Places

/-!
# Pointer tables

A pointer table is declared by its address, and its pointers are read from the image at the offset
of that address. The check compares only the two ends of the table with the address map. In `loRom`
this is enough for all addresses of the table to show the bytes that are read. In `hiRom` a table
that runs into the next system bank also takes bytes that no address of the table shows.

* `JumpTableHint.getElem?_pointersOf`: each pointer is spelled by its own bytes.
* `Hints.exists_readPointers_of_range`: what is accepted has been read.
* `table_read_where_declared`: **the bytes of a table are those that its addresses show**, except at
  hidden addresses.
* `table_over_hidden_addresses`: a table that has some.
-/

namespace RomAtlas

variable {c : Cartridge} {r r' : HintLedger} {s : HintSource} {given : Hints}
  {checked : CheckedHints} {rejected : List Conflict}

/-! ## Pointers and their bytes -/

theorem getElem?_nearPointers (bank : Int) {bytes : List UInt8} {n : Nat}
    (h : n * 2 + 2 ≤ bytes.length) :
    (nearPointers bank bytes)[n]? = some (bank + littleEndian ((bytes.drop (n * 2)).take 2)) := by
  induction n generalizing bytes with
  | zero =>
    match bytes, h with
    | low :: high :: rest, _ => rfl
  | succ n ih =>
    match bytes, h with
    | low :: high :: rest, h =>
      have hrest : n * 2 + 2 ≤ rest.length := by
        simp only [List.length_cons] at h
        omega
      have hdrop : (low :: high :: rest).drop ((n + 1) * 2) = rest.drop (n * 2) := by
        rw [Nat.succ_mul]
        rfl
      rw [hdrop]
      exact ih hrest

theorem getElem?_farPointers {bytes : List UInt8} {n : Nat} (h : n * 3 + 3 ≤ bytes.length) :
    (farPointers bytes)[n]? = some (littleEndian ((bytes.drop (n * 3)).take 3) : Int) := by
  induction n generalizing bytes with
  | zero =>
    match bytes, h with
    | low :: mid :: high :: rest, _ => rfl
  | succ n ih =>
    match bytes, h with
    | low :: mid :: high :: rest, h =>
      have hrest : n * 3 + 3 ≤ rest.length := by
        simp only [List.length_cons] at h
        omega
      have hdrop : (low :: mid :: high :: rest).drop ((n + 1) * 3) = rest.drop (n * 3) := by
        rw [Nat.succ_mul]
        rfl
      rw [hdrop]
      exact ih hrest

/-- The address that the pointers of a table count from. -/
def JumpTableHint.pointerBase (h : JumpTableHint) : Int :=
  if h.longPointers then 0 else bankBase h.site

/-- **Each pointer is spelled by its own bytes.** -/
theorem JumpTableHint.getElem?_pointersOf (h : JumpTableHint) {bytes : List UInt8} {n : Nat}
    (hn : n * h.pointerWidth + h.pointerWidth ≤ bytes.length) :
    (h.pointersOf bytes)[n]? = some (h.pointerBase +
      littleEndian ((bytes.drop (n * h.pointerWidth)).take h.pointerWidth)) := by
  unfold pointersOf pointerBase pointerWidth at *
  by_cases hlong : h.longPointers = true
  · simp only [if_pos hlong] at hn ⊢
    rw [getElem?_farPointers hn, Int.zero_add]
  · simp only [if_neg hlong] at hn ⊢
    exact getElem?_nearPointers _ hn

/-! ## Tables that are accepted -/

/-- A range that a jump table adds is that of its pointer table. -/
theorem HintLedger.mem_ranges_addTable {h : JumpTableHint} (hr : r.addTable c h s = .ok r')
    {spec : DeclaredRange} (hspec : spec ∈ r'.hints.ranges) :
    spec ∈ r.hints.ranges ∨ ∃ table pointers, h.table = some table ∧
      h.readPointers c table = .ok (pointers, spec.range) := by
  unfold addTable at hr
  rcases guard_eq_ok hr with ⟨reading, hread, hr⟩ | hr
  · obtain ⟨r₁, hnotes, hr⟩ := bind_eq_ok.1 hr
    -- notes on pointers do not change the ranges
    have hr₁ := foldlM_reject_eq_note hnotes
    subst hr₁
    rcases guard_eq_ok hr with ⟨taken, -, hr⟩ | hr
    · dsimp only at hr
      split at hr
      · cases hr
        exact .inl hspec
      · next table range htable =>
        obtain ⟨added, hrange, -, -, hhints⟩ := hints_of_addDeclared hr
        rw [hhints] at hspec
        rcases List.mem_append.1 hspec with hold | hnew
        · exact .inl hold
        · rw [List.mem_singleton.1 hnew, hrange]
          obtain ⟨ht, pointers, hpointers⟩ := JumpTableHint.exists_readPointers hread htable
          exact .inr ⟨table, pointers, ht, hpointers⟩
    · rw [hr] at hspec
      exact .inl hspec
  · rw [hr] at hspec
    exact .inl hspec

/-- The place of a jump table tells which one it is. -/
theorem Hints.exists_of_mem_listed {x : AnyHint} {k : Nat} (h : (x, .jumpTable k) ∈ given.listed) :
    ∃ e, x = .jumpTable e ∧ given.jumpTables[k]? = some e := by
  unfold listed listedAs at h
  simp only [List.mem_append, List.mem_map, Prod.mk.injEq, reduceCtorEq, and_false, exists_false,
    false_or, or_false, HintSource.jumpTable.injEq] at h
  obtain ⟨⟨e, i⟩, hmem, rfl, rfl⟩ := h
  exact ⟨e, rfl, List.mem_zipIdx_iff_getElem?.1 hmem⟩

/-- **A jump table that adds a range has a pointer table that has been read.** -/
theorem Hints.exists_readPointers_of_range (hc : given.check c = .ok (checked, rejected))
    {spec : DeclaredRange} (hspec : spec ∈ checked.ranges) {k : Nat}
    (hsource : spec.source = .jumpTable k) {h : JumpTableHint}
    (hk : given.jumpTables[k]? = some h) :
    ∃ table pointers, h.table = some table ∧
      h.readPointers c table = .ok (pointers, spec.range) := by
  obtain ⟨r, hr, rfl⟩ := exists_ledger_of_check hc
  let Read (r : HintLedger) : Prop := ∀ spec ∈ r.hints.ranges, spec.source = .jumpTable k →
    ∃ table pointers, h.table = some table ∧ h.readPointers c table = .ok (pointers, spec.range)
  have hstart : Read .start := fun _ hmem => nomatch hmem
  have hread : Read r := by
    refine foldlM_invariant (fun x hx b b' hb hadd => ?_) hstart hr
    obtain ⟨x, place⟩ := x
    intro spec hspec hsource
    by_cases hold : spec ∈ b.hints.ranges
    · exact hb spec hold hsource
    · rcases (HintLedger.grows_add hadd).ranges with ⟨hsame, -⟩ | ⟨added, -, hplace, hmore, -⟩
      · rw [hsame] at hspec
        exact absurd hspec hold
      · have hadded : spec = added := by
          rw [hmore] at hspec
          exact List.mem_singleton.1 ((List.mem_append.1 hspec).resolve_left hold)
        -- the range comes from the hint in its place
        have hwhere : place = .jumpTable k := by rw [← hplace, ← hadded, hsource]
        subst hwhere
        obtain ⟨e, rfl, he⟩ := exists_of_mem_listed hx
        cases he.symm.trans hk
        exact (HintLedger.mem_ranges_addTable hadd hspec).resolve_left hold
  exact hread spec hspec hsource

/-! ## Where the bytes of a table are -/

/-- The bytes at addresses in a row, from bank to bank. -/
def Cartridge.bytesInRow (c : Cartridge) (a : Int) (count : Nat) : Except Fault (List UInt8) :=
  (List.range count).mapM fun i : Nat => c.byteAt (a + i)

theorem Cartridge.bytesInRow_eq_ok {a : Int} {o n : Nat}
    (h : ∀ k < n, c.map.offset? (a + (k : Nat)) = some (o + k)) :
    c.bytesInRow a n = .ok (c.image.between o (o + n)) := by
  rcases Nat.eq_zero_or_pos n with rfl | hn
  · exact congrArg Except.ok (Image.eq_between (l := []) nofun)
  have hlt := AddressMap.lt_size_of_offset? (h (n - 1) (by omega))
  rw [c.size_eq] at hlt
  have hlength := Image.length_between_add (i := c.image) (o := o) (n := n) (by omega)
  refine mapM_eq_ok.2 (List.forall₂_iff_get.2 ⟨by rw [List.length_range, hlength], ?_⟩)
  intro k hk hk'
  rw [hlength] at hk'
  rw [List.get_eq_getElem, List.getElem_range, List.get_eq_getElem]
  refine Cartridge.byteAt_eq_ok.2 ⟨o + k, h k hk', ?_⟩
  rw [← List.getElem?_eq_getElem, Image.getElem?_between, if_pos (by omega)]

/-- A pointer table in the image. Its addresses show its bytes, except where they are hidden, and
each of its pointers is spelled by the bytes at its place. -/
structure JumpTableHint.LiesAt (c : Cartridge) (h : JumpTableHint) (table : Int) (first size : Nat)
    (pointers : List Int) : Prop where
  size_eq : (size : Int) = h.count * h.pointerWidth
  length_eq : (pointers.length : Int) = h.count
  start : c.map.offset? table = some first
  shown : ∀ k < size, ¬ AddressMap.Hidden c.map.layout (table + (k : Nat)) →
    c.map.offset? (table + k) = some (first + k)
  hidden : ∀ k < size, AddressMap.Hidden c.map.layout (table + (k : Nat)) →
    c.map.offset? (table + k) = none
  pointer : ∀ n < pointers.length, pointers[n]? = some (h.pointerBase + littleEndian
    (c.image.between (first + n * h.pointerWidth) (first + n * h.pointerWidth + h.pointerWidth)))

namespace JumpTableHint

variable {h : JumpTableHint} {table : Int} {first size : Nat} {pointers : List Int}
  {range : Extent}

/-- The bytes of a pointer are bytes of its table. -/
theorem pointer_le (hsize : (size : Int) = h.count * h.pointerWidth)
    (hlength : (pointers.length : Int) = h.count) {n : Nat} (hn : n < pointers.length) :
    n * h.pointerWidth + h.pointerWidth ≤ size := by
  have hcover : size = pointers.length * h.pointerWidth := by
    rw [← hlength] at hsize
    exact_mod_cast hsize
  rw [hcover, ← Nat.succ_mul]
  exact Nat.mul_le_mul_right _ hn

/-- **A table that is read lies in the image.** -/
theorem liesAt_of_readPointers (hr : h.readPointers c table = .ok (pointers, range)) :
    ∃ first size : Nat, range = ⟨first, first + size⟩ ∧ 0 < size ∧
      c.map.offset? (table + (size - 1 : Nat)) = some (first + (size - 1)) ∧
      h.LiesAt c table first size pointers := by
  have hlength := length_of_readPointers hr
  obtain ⟨first, size, hsize, hpos, hfirst, hlast, hrange, hpointers⟩ :=
    readPointers_eq_ok_iff.1 hr
  refine ⟨first, size, hrange, hpos, hlast, hsize, hlength, hfirst, ?_, ?_, ?_⟩
  · intro k hk hshown
    exact AddressMap.offset?_add hfirst hlast (by omega) hshown
  · intro k _ hhidden
    exact AddressMap.offset?_of_hidden hhidden
  · intro n hn
    have hlt := AddressMap.lt_size_of_offset? hlast
    rw [c.size_eq] at hlt
    have hle := pointer_le hsize hlength hn
    have hbytes : (c.image.between first (first + size)).length = size :=
      Image.length_between_add (by omega)
    rw [hpointers, getElem?_pointersOf _ (by rwa [hbytes]), Image.take_drop_between (by omega)]

/-- **The bytes of a pointer are read at its addresses**, if none of these is hidden. -/
theorem LiesAt.bytesInRow (ht : h.LiesAt c table first size pointers) {n : Nat}
    (hn : n < pointers.length)
    (hshown : ∀ k < size, ¬ AddressMap.Hidden c.map.layout (table + (k : Nat))) :
    c.bytesInRow (table + (n * h.pointerWidth : Nat)) h.pointerWidth = .ok
      (c.image.between (first + n * h.pointerWidth)
        (first + n * h.pointerWidth + h.pointerWidth)) := by
  have hle := pointer_le ht.size_eq ht.length_eq hn
  refine Cartridge.bytesInRow_eq_ok fun k hk => ?_
  have hlt : n * h.pointerWidth + k < size := by omega
  have hoffset := ht.shown _ hlt (hshown _ hlt)
  rwa [Int.natCast_add, ← Int.add_assoc, ← Nat.add_assoc] at hoffset

end JumpTableHint

/-- **A pointer table is read where it is declared**, except at hidden addresses. A jump table that
is accepted with a range has a pointer table there. Its addresses show the bytes of the range one by
one, or they are hidden, and its pointers are those that the bytes of the range spell. If no address
of the table is hidden, each pointer is spelled by the bytes at its own addresses. So it is in
`loRom`, and in `hiRom` for a table inside one bank. -/
theorem table_read_where_declared (hc : given.check c = .ok (checked, rejected)) {k : Nat}
    {h : JumpTableHint} (hk : given.jumpTables[k]? = some h) {spec : DeclaredRange}
    (hspec : spec ∈ checked.ranges) (hsource : spec.source = .jumpTable k) :
    ∃ (table : Int) (first size : Nat) (pointers : List Int),
      h.table = some table ∧ h.readPointers c table = .ok (pointers, spec.range) ∧
      spec.range = ⟨first, first + size⟩ ∧ h.LiesAt c table first size pointers ∧
      (c.map.layout = .loRom ∨ bankNumber (table + (size - 1 : Nat)) = bankNumber table →
        ∀ i < size, ¬ AddressMap.Hidden c.map.layout (table + (i : Nat))) ∧
      ((∀ i < size, ¬ AddressMap.Hidden c.map.layout (table + (i : Nat))) →
        (∀ i < size, c.map.offset? (table + (i : Nat)) = some (first + i)) ∧
        ∀ n p, pointers[n]? = some p → ∃ bytes,
          c.bytesInRow (table + (n * h.pointerWidth : Nat)) h.pointerWidth = .ok bytes ∧
          p = h.pointerBase + littleEndian bytes) := by
  obtain ⟨table, pointers, htable, hread⟩ :=
    Hints.exists_readPointers_of_range hc hspec hsource hk
  obtain ⟨first, size, hrange, hpos, hlast, ht⟩ := JumpTableHint.liesAt_of_readPointers hread
  refine ⟨table, first, size, pointers, htable, hread, hrange, ht, fun hplain i hi => ?_,
    fun hshown => ⟨fun i hi => ht.shown i hi (hshown i hi), fun n p hp => ?_⟩⟩
  · rcases hplain with hloRom | hbank
    · rintro ⟨hhiRom, -⟩
      cases hloRom.symm.trans hhiRom
    · exact AddressMap.not_hidden_of_bankNumber_eq (AddressMap.place?_of_offset? ht.start)
        (AddressMap.place?_of_offset? hlast) (by omega) hbank
  · obtain ⟨hn, -⟩ := List.getElem?_eq_some_iff.1 hp
    refine ⟨_, ht.bytesInRow hn hshown, ?_⟩
    exact Option.some.inj (hp.symm.trans (ht.pointer n hn))

/-! ## Tables that run into the next bank -/

/-- A jump table without a name whose pointers have two bytes. -/
def nearTable (site table count : Int) : JumpTableHint :=
  ⟨site, [], some table, count, false, false, .null⟩

/-- **A table without a name that can be read is accepted** with its range. -/
theorem exists_range_nearTable {site table count : Int} {pointers : List Int} {range : Extent}
    (hsite : c.map.shows site = true)
    (hshort : ∀ n ∈ [site, count, table], n.natAbs < 10000000000)
    (hread : (nearTable site table count).readPointers c table = .ok (pointers, range)) :
    ∃ checked rejected spec,
      Hints.check c ⟨[], [], [], [nearTable site table count]⟩ = .ok (checked, rejected) ∧
      spec ∈ checked.ranges ∧ spec.source = .jumpTable 0 ∧ spec.range = range := by
  have hexists : ∃ checked rejected,
      Hints.check c ⟨[], [], [], [nearTable site table count]⟩ = .ok (checked, rejected) := by
    refine Hints.exists_check (fun v hv => ?_) fun n hn => Numeral.not_isLong (hshort n ?_)
    · intro hgiven
      rw [List.mem_singleton.1 hv] at hgiven
      cases hgiven
    · simpa [Hints.parts, nearTable, JumpTableHint.parts] using hn
  obtain ⟨checked, rejected, hc⟩ := hexists
  obtain ⟨r, hr, rfl⟩ := Hints.exists_ledger_of_check hc
  refine ⟨r.hints, rejected, ?_⟩
  have hadd : HintLedger.start.addTable c (nearTable site table count) (.jumpTable 0) = .ok r := by
    obtain ⟨r₁, hadd, hr⟩ := bind_eq_ok.1 hr
    cases hr
    exact hadd
  have hreading : ∃ reading, (nearTable site table count).read c = .ok reading ∧
      reading.table = some (table, range) := by
    obtain ⟨o, ho⟩ := Option.isSome_iff_exists.1 hsite
    have hoffset : offsetFor c.map .site site = .ok o := offsetFor_eq_ok.2 ho
    exact ⟨_, bind_eq_ok.2 ⟨(), discard_eq_ok.2 ⟨o, hoffset⟩, bind_eq_ok.2 ⟨(), rfl,
      bind_eq_ok.2 ⟨(pointers, range), hread, rfl⟩⟩⟩, rfl⟩
  obtain ⟨reading, hreading, htable⟩ := hreading
  unfold HintLedger.addTable HintLedger.guard at hadd
  rw [hreading] at hadd
  obtain ⟨r₁, -, hadd⟩ := bind_eq_ok.1 hadd
  unfold JumpTableHint.Reading.verdict at hadd
  rw [htable] at hadd
  obtain ⟨spec, hrange, -, hsource, hhints⟩ := HintLedger.hints_of_addDeclared hadd
  refine ⟨spec, hc, ?_, hsource, hrange⟩
  rw [hhints]
  exact List.mem_append_right _ (List.mem_singleton_self spec)

/-- The one pointer of a table behind the opcode of `loopCartridge` is its operand. -/
theorem table_read_where_declared_loop :
    ∃ checked rejected spec pointers,
      Hints.check loopCartridge ⟨[], [], [], [nearTable 0x8000 0x8001 1]⟩ =
        .ok (checked, rejected) ∧
      spec ∈ checked.ranges ∧ spec.source = .jumpTable 0 ∧
      (nearTable 0x8000 0x8001 1).LiesAt loopCartridge 0x8001 1 2 pointers ∧
      ∀ i < 2, loopCartridge.map.offset? (0x8001 + (i : Nat)) = some (1 + i) := by
  have hread : (nearTable 0x8000 0x8001 1).readPointers loopCartridge 0x8001 =
      .ok ([0xfffd], ⟨1, 3⟩) :=
    JumpTableHint.readPointers_eq_ok_iff.2 ⟨1, 2, rfl, by decide, rfl, rfl, rfl, rfl⟩
  obtain ⟨checked, rejected, spec, hc, hspec, hsource, hrange⟩ :=
    exists_range_nearTable rfl (by decide) hread
  obtain ⟨table, first, size, pointers, htable, -, hlies, ht, hplain, hbytes⟩ :=
    table_read_where_declared hc rfl hspec hsource
  cases htable
  rw [hrange, Extent.mk.injEq] at hlies
  obtain rfl : first = 1 := by omega
  obtain rfl : size = 2 := by omega
  exact ⟨checked, rejected, spec, pointers, hc, hspec, hsource, ht,
    (hbytes (hplain (.inl rfl))).1⟩

/-- Zeros up to the first byte that system bank `$01` shows. -/
def gapCartridge : Cartridge where
  image := ⟨Array.replicate 0x18001 0, by simp⟩
  map := ⟨.hiRom, 0x18001, .slow, by decide, by decide⟩
  size_eq := by simp [Image.size]

/-- **A table over hidden addresses is accepted.** It starts in the last byte of bank `$00`, and
the 32 KiB after that byte are shown by no address of bank `$01`. -/
theorem table_over_hidden_addresses :
    ∃ checked rejected spec,
      Hints.check gapCartridge ⟨[], [], [], [nearTable 0xC00000 0xFFFF 0x4001]⟩ =
        .ok (checked, rejected) ∧
      spec ∈ checked.ranges ∧ spec.source = .jumpTable 0 ∧ spec.range = ⟨0xFFFF, 0x18001⟩ ∧
      gapCartridge.map.offset? (0xFFFF + 1) = none := by
  have hread : (nearTable 0xC00000 0xFFFF 0x4001).readPointers gapCartridge 0xFFFF =
      .ok (_, ⟨0xFFFF, 0x18001⟩) :=
    JumpTableHint.readPointers_eq_ok_iff.2 ⟨0xFFFF, 0x8002, rfl, by decide, rfl, rfl, rfl, rfl⟩
  obtain ⟨checked, rejected, spec, hc, hspec, hsource, hrange⟩ :=
    exists_range_nearTable rfl (by decide) hread
  exact ⟨checked, rejected, spec, hc, hspec, hsource, hrange, rfl⟩

end RomAtlas
