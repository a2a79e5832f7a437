import Mathlib.Algebra.Group.Nat.Defs
import RomAtlas.Cpu.Effect
import RomAtlas.Proofs.Fallible
import RomAtlas.Trace.Node

/-!
# What decoding reads

An instruction is read from the bytes at its address and after it in the same bank
(`decode_eq_ok_iff`). Each way of addressing fetches its operand by a count of its own, which is the
size that is listed for it (`Addressing.fetch_eq`).

* `Instruction.ReadFrom.shown`: all bytes of a decoded instruction are part of the image.
* `Instruction.ReadFrom.target_bounds`: the targets that it names have 24 bits.
* `WidthState.length_saved_possibleAfter`: no instruction saves more widths than are remembered.
-/

namespace RomAtlas

variable {c : Cartridge} {a : Int} {i : Instruction}

/-! ## Steps inside a bank -/

theorem bankBase_bounds (a : Int) : 0 ≤ bankBase a ∧ bankBase a ≤ 0xFF0000 := by
  unfold bankBase wrapAddress
  omega

theorem stepInBank_bounds (a delta : Int) :
    0 ≤ stepInBank a delta ∧ stepInBank a delta < 0x1000000 := by
  have := bankBase_bounds a
  unfold stepInBank
  omega

/-- Two steps inside a bank are one. -/
theorem stepInBank_stepInBank (a d e : Int) :
    stepInBank (stepInBank a d) e = stepInBank a (d + e) := by
  unfold stepInBank bankBase wrapAddress
  omega

theorem wrapAddress_stepInBank_zero (a : Int) : wrapAddress (stepInBank a 0) = wrapAddress a := by
  unfold stepInBank bankBase wrapAddress
  omega

/-- Only the low 24 bits of an address count. -/
theorem AddressMap.offset?_congr {m : AddressMap} {a b : Int} (h : wrapAddress a = wrapAddress b) :
    m.offset? a = m.offset? b := by
  unfold offset? place?
  rw [h]

/-! ## Reading bytes -/

theorem Cartridge.byteAt_eq_ok {b : UInt8} :
    c.byteAt a = .ok b ↔ ∃ o, c.map.offset? a = some o ∧ c.image.bytes[o]? = some b := by
  unfold byteAt
  rw [bind_eq_ok]
  unfold AddressMap.offsetOf
  cases h : c.map.offset? a with
  | none => simp
  | some o =>
    have ho : o < c.image.bytes.size := by
      have := AddressMap.lt_size_of_offset? h
      rwa [c.size_eq] at this
    simp only [Except.ok.injEq, exists_eq_left', Option.some.injEq, Image.byteAt]
    rw [dif_pos (by simpa using ho)]
    simp [ho]

/-- **Each way of addressing reads as many bytes as are listed for it.** -/
theorem Addressing.fetch_eq (c : Cartridge) (a : Int) (w : Widths) (way : Addressing) :
    way.fetch c a w = c.bytesFrom (stepInBank a 1) (way.operandBytes w) := by
  cases way <;> rfl

/-- An instruction whose bytes are those of a cartridge. -/
structure Instruction.ReadFrom (c : Cartridge) (i : Instruction) : Prop where
  opcode : c.byteAt i.address = .ok i.opcode
  shape : Shape.ofCode? i.opcode.toNat = some i.shape
  operand : c.bytesFrom (stepInBank i.address 1)
    (i.shape.addressing.operandBytes i.state.widths) = .ok i.operand

/-- **Decoding gives the instruction that is there.** -/
theorem decode_eq_ok_iff {s : WidthState} :
    decode c a s = .ok i ↔ i.address = a ∧ i.state = s ∧ i.ReadFrom c := by
  constructor
  · intro h
    unfold decode at h
    split at h
    · cases h
    · next opcode hopcode =>
      split at h
      · cases h
      · next shape hshape =>
        split at h
        · cases h
        · next operand hoperand =>
          cases h
          rw [Addressing.fetch_eq] at hoperand
          exact ⟨rfl, rfl, hopcode, hshape, hoperand⟩
  · rintro ⟨rfl, rfl, h⟩
    unfold decode
    simp only [h.opcode, h.shape, Addressing.fetch_eq, h.operand]

theorem Node.decode_eq_ok_iff {n : Node} :
    n.decode c = .ok i ↔ i.address = n.address ∧ i.state = n.state ∧ i.ReadFrom c :=
  RomAtlas.decode_eq_ok_iff

/-- An opcode without meaning is a byte of the image. -/
theorem Node.exists_offset_of_undefined {n : Node} {fault : DecodeFault}
    (h : n.decode c = .error fault) (hreason : fault.reason = .undefined) :
    ∃ o, c.map.offset? n.address = some o := by
  unfold Node.decode RomAtlas.decode at h
  split at h
  · cases h
    cases hreason
  · next opcode hread =>
    obtain ⟨o, ho, -⟩ := Cartridge.byteAt_eq_ok.1 hread
    exact ⟨o, ho⟩

theorem Addressing.operandBytes_le (w : Widths) (a : Addressing) : a.operandBytes w ≤ 3 := by
  have hm : w.accumulatorBytes ≤ 2 := by unfold Widths.accumulatorBytes; split <;> decide
  have hx : w.indexBytes ≤ 2 := by unfold Widths.indexBytes; split <;> decide
  cases a <;> simp only [operandBytes] <;> omega

namespace Instruction.ReadFrom

/-- The opcode tells the shape. -/
theorem shape_congr {c' : Cartridge} {j : Instruction} (hi : i.ReadFrom c) (hj : j.ReadFrom c')
    (h : i.opcode = j.opcode) : i.shape = j.shape :=
  Option.some.inj (by rw [← hi.shape, ← hj.shape, h])

theorem length_operand (h : i.ReadFrom c) :
    i.operand.length = i.shape.addressing.operandBytes i.state.widths := by
  have hl := (mapM_eq_ok.1 h.operand).length_eq
  rw [List.length_range] at hl
  exact hl.symm

theorem length_le (h : i.ReadFrom c) : i.length ≤ 4 := by
  have hle := i.shape.addressing.operandBytes_le i.state.widths
  unfold length
  rw [h.length_operand]
  omega

/-- **All bytes of a decoded instruction are part of the image.** -/
theorem shown (h : i.ReadFrom c) {k : Nat} (hk : k < i.length) :
    ∃ o, c.map.offset? (stepInBank i.address k) = some o := by
  cases k with
  | zero =>
    obtain ⟨o, ho, -⟩ := Cartridge.byteAt_eq_ok.1 h.opcode
    exact ⟨o, (AddressMap.offset?_congr (wrapAddress_stepInBank_zero _)).trans ho⟩
  | succ k =>
    have hk' : k ∈ List.range (i.shape.addressing.operandBytes i.state.widths) := by
      rw [List.mem_range, ← h.length_operand]
      unfold length at hk
      omega
    obtain ⟨b, -, hb⟩ := exists_ok_of_mapM h.operand hk'
    obtain ⟨o, ho, -⟩ := Cartridge.byteAt_eq_ok.1 hb
    rw [stepInBank_stepInBank, Int.add_comm] at ho
    exact ⟨o, ho⟩

end Instruction.ReadFrom

/-! ## Targets -/

theorem littleEndian_cons (b : UInt8) (bytes : List UInt8) :
    littleEndian (b :: bytes) = b.toNat + 256 * littleEndian bytes := rfl

theorem littleEndian_lt {bytes : List UInt8} {n : Nat} (h : bytes.length = n) :
    littleEndian bytes < 256 ^ n := by
  induction bytes generalizing n with
  | nil =>
    subst h
    decide
  | cons b bytes ih =>
    have hb := b.toNat_lt
    have hrest := ih rfl
    rw [littleEndian_cons, ← h, List.length_cons, Nat.pow_succ]
    omega

/-- **The targets that a decoded instruction names have 24 bits.** -/
theorem Instruction.ReadFrom.target_bounds (h : i.ReadFrom c) {t : Int} (ht : t ∈ i.targets) :
    0 ≤ t ∧ t < 0x1000000 := by
  have hl := h.length_operand
  unfold targets at ht
  split at ht
  · rw [Option.mem_toList] at ht
    unfold destination? value at ht
    split at ht
    case h_1 ha =>
      rw [ha] at hl
      have := littleEndian_lt (n := 2) hl
      have := bankBase_bounds i.address
      cases ht
      omega
    case h_2 ha =>
      rw [ha] at hl
      have := littleEndian_lt (n := 3) hl
      cases ht
      omega
    case h_3 => cases ht; exact stepInBank_bounds _ _
    case h_4 => cases ht; exact stepInBank_bounds _ _
    case h_5 => cases ht
  · cases ht

/-! ## Saved widths -/

namespace WidthState

theorem length_saved_after {s : WidthState} (hs : s.saved.length ≤ maxSaved) (i : Instruction) :
    (s.after i).saved.length ≤ maxSaved := by
  unfold after
  split
  case h_1 => unfold clearBits; split <;> exact hs
  case h_2 => unfold setBits; split <;> exact hs
  case h_3 => exact hs
  case h_4 => exact hs
  case h_5 => unfold exchange; split <;> exact hs
  case h_6 => exact List.length_take_le _ _
  case h_7 =>
    unfold pop
    split
    · exact hs
    · next hrest => rw [hrest, List.length_cons] at hs; exact Nat.le_of_succ_le hs
  case h_8 => split <;> exact hs

/-- **No instruction saves more widths than are remembered.** -/
theorem length_saved_possibleAfter {s t : WidthState} (hs : s.saved.length ≤ maxSaved)
    {i : Instruction} (ht : t ∈ s.possibleAfter i) : t.saved.length ≤ maxSaved := by
  unfold possibleAfter at ht
  split at ht
  · simp only [List.mem_cons, List.not_mem_nil, or_false] at ht
    rcases ht with rfl | rfl
    · exact hs
    · exact length_saved_after hs i
  · rw [List.mem_singleton.1 ht]
    exact length_saved_after hs i

end WidthState

end RomAtlas
