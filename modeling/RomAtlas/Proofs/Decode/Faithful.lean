import RomAtlas.Proofs.Decode

/-!
# Decoding is faithful

The length of an instruction follows from its opcode and the widths, before any operand byte is
read: it is one more than the size that is listed for the way of addressing, which is the number of
bytes that this way fetches. Decoding succeeds exactly if the opcode has a meaning and the image has
that many bytes in the bank from the address on, and then it returns these bytes.

* `exists_decode_iff`: when decoding succeeds.
* `Instruction.ReadFrom.spells`: what it returns.
* `reason_eq_undefined_iff`: why it fails.
* `decode_faithful`: **all of these.**
-/

namespace RomAtlas

variable {c : Cartridge} {a : Int} {i : Instruction} {s : WidthState} {n : Nat}

/-! ## Opcodes and lengths -/

/-- Of the 256 entries of the table, that of the reserved opcode alone is empty. -/
theorem Shape.empty_iff_reserved : ∀ e ∈ table.toList.zipIdx, e.1 = none ↔ e.2 = 0x42 := by
  decide +kernel

/-- **Only the reserved opcode has no meaning.** -/
theorem Shape.ofCode?_eq_none_iff {op : UInt8} :
    Shape.ofCode? (op.toNat : Int) = none ↔ op = 0x42 := by
  have hsize : table.size = 256 := by decide +kernel
  have hop : op.toNat < table.size := by
    rw [hsize]
    exact op.toNat_lt
  have hentry : (table[op.toNat], op.toNat) ∈ table.toList.zipIdx := by
    simp [List.mem_zipIdx_iff_getElem?]
  have hcode : Shape.ofCode? (op.toNat : Int) = table[op.toNat] := by
    unfold ofCode?
    rw [if_pos (Int.natCast_nonneg _), Int.toNat_natCast, Array.getElem?_eq_getElem hop,
      Option.join_some]
  rw [hcode, empty_iff_reserved _ hentry, ← UInt8.toNat_inj]
  rfl

/-- The shape of an opcode stands in its place of the table. -/
theorem Shape.mem_table_of_ofCode? {op : UInt8} {shape : Shape}
    (h : Shape.ofCode? (op.toNat : Int) = some shape) :
    (some shape, op.toNat) ∈ table.toList.zipIdx := by
  unfold ofCode? at h
  rw [if_pos (Int.natCast_nonneg _), Int.toNat_natCast] at h
  have hentry := Option.join_eq_some_iff.1 h
  rw [List.mem_zipIdx_iff_getElem?, Array.getElem?_toList]
  exact hentry

theorem lengthOf_eq_ok_iff {code : Int} {w : Widths} :
    lengthOf code w = .ok n ↔
      ∃ shape, Shape.ofCode? code = some shape ∧ 1 + shape.addressing.operandBytes w = n := by
  unfold lengthOf
  cases h : Shape.ofCode? code with
  | none => simp
  | some shape => simp

/-! ## Bytes in a bank -/

theorem Cartridge.exists_byteAt_iff : (∃ b, c.byteAt a = .ok b) ↔ c.map.shows a = true := by
  unfold AddressMap.shows
  rw [Option.isSome_iff_exists]
  constructor
  · rintro ⟨b, hb⟩
    obtain ⟨o, ho, -⟩ := Cartridge.byteAt_eq_ok.1 hb
    exact ⟨o, ho⟩
  · rintro ⟨o, ho⟩
    have hlt : o < c.image.bytes.size := by
      have hsize := AddressMap.lt_size_of_offset? ho
      rwa [c.size_eq] at hsize
    exact ⟨_, Cartridge.byteAt_eq_ok.2 ⟨o, ho, Array.getElem?_eq_getElem hlt⟩⟩

/-- Bytes that follow each other can be read if each of them can. -/
theorem Cartridge.exists_bytesFrom (h : ∀ k < n, c.map.shows (stepInBank a (k : Nat)) = true) :
    ∃ bytes, c.bytesFrom a n = .ok bytes := by
  refine exists_mapM fun k hk => ?_
  exact Cartridge.exists_byteAt_iff.2 (h k (List.mem_range.1 hk))

theorem Cartridge.getElem?_of_bytesFrom {bytes : List UInt8} (h : c.bytesFrom a n = .ok bytes)
    {k : Nat} (hk : k < n) :
    ∃ b, bytes[k]? = some b ∧ c.byteAt (stepInBank a k) = .ok b := by
  obtain ⟨hlength, hget⟩ := List.forall₂_iff_get.1 (mapM_eq_ok.1 h)
  rw [List.length_range] at hlength
  have hbytes : k < bytes.length := by omega
  have hread := hget k (by rwa [List.length_range]) hbytes
  rw [List.get_eq_getElem, List.getElem_range] at hread
  exact ⟨_, List.getElem?_eq_getElem hbytes, hread⟩

/-! ## Success -/

/-- An instruction is what the bytes of a bank spell from an address on, under a width state: it has
the length that its opcode asks for, these bytes and no others, and the next one follows behind
them. -/
structure Instruction.Spells (c : Cartridge) (a : Int) (s : WidthState) (i : Instruction) :
    Prop where
  opcode : c.byteAt a = .ok i.opcode
  length : lengthOf i.opcode.toNat s.widths = .ok i.length
  length_bounds : 1 ≤ i.length ∧ i.length ≤ 4
  length_raw : i.raw.length = i.length
  raw : ∀ k < i.length, ∃ b, i.raw[k]? = some b ∧ c.byteAt (stepInBank a (k : Nat)) = .ok b
  next : i.next = stepInBank a i.length
  state : i.state = s

theorem Instruction.ReadFrom.raw_getElem? (h : i.ReadFrom c) {k : Nat} (hk : k < i.length) :
    ∃ b, i.raw[k]? = some b ∧ c.byteAt (stepInBank i.address k) = .ok b := by
  cases k with
  | zero =>
    -- the opcode is read at the address itself, whatever its bits above the lowest 24 are
    have hsame : c.map.offset? (stepInBank i.address 0) = c.map.offset? i.address :=
      AddressMap.offset?_congr (wrapAddress_stepInBank_zero i.address)
    refine ⟨i.opcode, rfl, ?_⟩
    rw [Cartridge.byteAt_eq_ok, Int.natCast_zero, hsame]
    exact Cartridge.byteAt_eq_ok.1 h.opcode
  | succ k =>
    have hk' : k < i.shape.addressing.operandBytes i.state.widths := by
      rw [← h.length_operand]
      unfold length at hk
      omega
    obtain ⟨b, hb, hread⟩ := Cartridge.getElem?_of_bytesFrom h.operand hk'
    rw [stepInBank_stepInBank, Int.add_comm] at hread
    exact ⟨b, hb, hread⟩

/-- **A decoded instruction is what its bytes spell.** -/
theorem Instruction.ReadFrom.spells (h : i.ReadFrom c) : i.Spells c i.address i.state where
  opcode := h.opcode
  length := by
    refine lengthOf_eq_ok_iff.2 ⟨i.shape, h.shape, ?_⟩
    rw [← h.length_operand]
    rfl
  length_bounds := ⟨Nat.le_add_right 1 _, h.length_le⟩
  length_raw := Nat.add_comm _ _
  raw := fun _ hk => h.raw_getElem? hk
  next := rfl
  state := rfl

/-- **When decoding succeeds**: the opcode has a meaning, and the bank shows as many bytes as it
asks for. -/
theorem exists_decode_iff :
    (∃ i, decode c a s = .ok i) ↔ ∃ op n, c.byteAt a = .ok op ∧ op ≠ 0x42 ∧
      lengthOf op.toNat s.widths = .ok n ∧
      ∀ k < n, c.map.shows (stepInBank a (k : Nat)) = true := by
  constructor
  · rintro ⟨i, hi⟩
    obtain ⟨rfl, rfl, hread⟩ := decode_eq_ok_iff.1 hi
    refine ⟨i.opcode, i.length, hread.opcode, ?_, hread.spells.length, fun k hk => ?_⟩
    · intro hreserved
      have hshape := hread.shape
      rw [Shape.ofCode?_eq_none_iff.2 hreserved] at hshape
      cases hshape
    · exact Option.isSome_iff_exists.2 (hread.shown hk)
  · rintro ⟨op, n, hop, -, hlength, hshown⟩
    obtain ⟨shape, hshape, rfl⟩ := lengthOf_eq_ok_iff.1 hlength
    have hoperand : ∀ k < shape.addressing.operandBytes s.widths,
        c.map.shows (stepInBank (stepInBank a 1) (k : Nat)) = true := by
      intro k hk
      have hstep := hshown (1 + k) (by omega)
      rw [stepInBank_stepInBank]
      exact hstep
    obtain ⟨operand, hread⟩ := Cartridge.exists_bytesFrom hoperand
    exact ⟨⟨a, op, shape, operand, s⟩, decode_eq_ok_iff.2 ⟨rfl, rfl, hop, hshape, hread⟩⟩

/-! ## Failure -/

/-- **Why decoding fails**: an opcode that is read and has no meaning is the reserved one. -/
theorem reason_eq_undefined_iff {fault : DecodeFault} (h : decode c a s = .error fault) :
    fault.reason = .undefined ↔ c.byteAt a = .ok 0x42 := by
  unfold decode at h
  split at h
  · next hread =>
    cases h
    rw [hread]
    exact ⟨nofun, nofun⟩
  next op hread =>
  rw [hread, Except.ok.injEq]
  split at h
  · next hshape =>
    cases h
    exact ⟨fun _ => Shape.ofCode?_eq_none_iff.1 hshape, fun _ => rfl⟩
  next shape hshape =>
  split at h
  · cases h
    refine ⟨nofun, fun hreserved => ?_⟩
    rw [Shape.ofCode?_eq_none_iff.2 hreserved] at hshape
    cases hshape
  · cases h

theorem DecodeReason.eq_outOfBounds_iff {r : DecodeReason} :
    r = .outOfBounds ↔ r ≠ .undefined := by
  cases r <;> decide

/-- **Decoding is faithful.** It succeeds exactly if the address shows a byte other than the
reserved opcode and the bank shows all bytes that this opcode asks for under the widths. It returns
what these bytes spell. It fails for an opcode without meaning exactly if the address shows the
reserved one, and otherwise because a byte is not part of the image. -/
theorem decode_faithful (c : Cartridge) (a : Int) (s : WidthState) :
    ((∃ i, decode c a s = .ok i) ↔ c.map.shows a = true ∧
      ∃ op n, c.byteAt a = .ok op ∧ op ≠ 0x42 ∧ lengthOf op.toNat s.widths = .ok n ∧
        ∀ k < n, c.map.shows (stepInBank a (k : Nat)) = true) ∧
    (∀ i, decode c a s = .ok i → i.Spells c a s) ∧
    ∀ fault, decode c a s = .error fault →
      (fault.reason = .undefined ↔ c.map.shows a = true ∧ c.byteAt a = .ok 0x42) ∧
      (fault.reason = .outOfBounds ↔ ¬ (c.map.shows a = true ∧ c.byteAt a = .ok 0x42)) := by
  have hmapped : ∀ op, c.byteAt a = .ok op → c.map.shows a = true :=
    fun op hop => Cartridge.exists_byteAt_iff.1 ⟨op, hop⟩
  refine ⟨?_, fun i hi => ?_, fun fault hf => ?_⟩
  · rw [exists_decode_iff]
    constructor
    · rintro ⟨op, n, hop, hrest⟩
      exact ⟨hmapped op hop, op, n, hop, hrest⟩
    · exact fun h => h.2
  · obtain ⟨rfl, rfl, hread⟩ := decode_eq_ok_iff.1 hi
    exact hread.spells
  · have hundefined : fault.reason = .undefined ↔ c.map.shows a = true ∧ c.byteAt a = .ok 0x42 := by
      rw [reason_eq_undefined_iff hf]
      exact ⟨fun h => ⟨hmapped _ h, h⟩, fun h => h.2⟩
    refine ⟨hundefined, ?_⟩
    rw [DecodeReason.eq_outOfBounds_iff, Ne, hundefined]

/-- The reserved opcode, and an instruction that loads one byte or, into a wide accumulator, goes on
past the end. -/
def truncatedLoad : Cartridge :=
  ⟨⟨#[0x42, 0xa9, 0x10], by decide⟩, ⟨.loRom, 3, .slow, by decide, by decide⟩, rfl⟩

theorem decode_faithful_truncatedLoad :
    (∃ i, decode truncatedLoad 0x8001 .reset = .ok i ∧ i.Spells truncatedLoad 0x8001 .reset) ∧
    (∃ fault, decode truncatedLoad 0x8000 .reset = .error fault ∧ fault.reason = .undefined) ∧
    ∃ fault, decode truncatedLoad 0x8001 ⟨⟨true, false⟩, [], none⟩ = .error fault ∧
      fault.reason = .outOfBounds := by
  have hload : truncatedLoad.byteAt 0x8001 = .ok 0xa9 := rfl
  have hshape : Shape.ofCode? ((0xa9 : UInt8).toNat : Int) =
      some ⟨.lda, .immediateM, .sequential⟩ := by
    decide +kernel
  refine ⟨?_, ?_, ?_⟩
  · obtain ⟨hiff, hspells, -⟩ := decode_faithful truncatedLoad 0x8001 .reset
    have hlength : lengthOf (0xa9 : UInt8).toNat WidthState.reset.widths = .ok 2 :=
      lengthOf_eq_ok_iff.2 ⟨_, hshape, rfl⟩
    obtain ⟨i, hi⟩ := hiff.2
      ⟨by decide +kernel, 0xa9, 2, hload, by decide, hlength, by decide +kernel⟩
    exact ⟨i, hi, hspells i hi⟩
  · obtain ⟨hiff, -, hreason⟩ := decode_faithful truncatedLoad 0x8000 .reset
    have hreserved : truncatedLoad.byteAt 0x8000 = .ok 0x42 := rfl
    cases h : decode truncatedLoad 0x8000 .reset with
    | error fault => exact ⟨fault, rfl, (hreason fault h).1.2 ⟨by decide +kernel, hreserved⟩⟩
    | ok i =>
      obtain ⟨-, op, -, hop, hne, -⟩ := hiff.1 ⟨i, h⟩
      rw [hreserved] at hop
      exact absurd (Except.ok.inj hop).symm hne
  · obtain ⟨hiff, -, hreason⟩ := decode_faithful truncatedLoad 0x8001 ⟨⟨true, false⟩, [], none⟩
    cases h : decode truncatedLoad 0x8001 ⟨⟨true, false⟩, [], none⟩ with
    | error fault =>
      refine ⟨fault, rfl, (hreason fault h).2.2 ?_⟩
      rintro ⟨-, hop⟩
      rw [hload] at hop
      exact absurd (Except.ok.inj hop) (by decide)
    | ok i =>
      -- the third byte would have to be in the image
      obtain ⟨-, op, n, hop, -, hlength, hshown⟩ := hiff.1 ⟨i, h⟩
      obtain rfl := Except.ok.inj (hload.symm.trans hop)
      obtain ⟨shape, hshape', rfl⟩ := lengthOf_eq_ok_iff.1 hlength
      obtain rfl := Option.some.inj (hshape.symm.trans hshape')
      exact absurd (hshown 2 (by decide)) (by decide +kernel)

end RomAtlas
