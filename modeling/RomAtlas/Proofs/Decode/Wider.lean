import RomAtlas.Proofs.Decode.Faithful

/-!
# Decoding under several widths

An address may be decoded under several states. The opcode comes from the image alone, and the
widths only say how many operand bytes are read behind it. So two states that both fail meet the same
byte first, and where the registers of one state are no wider than those of another, it reads the
same operand bytes or one less.

* `decode_error_congr`: **what fails at an address does not depend on the state.**
* `Addressing.operandBytes_of_noWider`: how many bytes more a wider state asks for.
* `wider_extends`: **a wider state only extends the instruction**, or fails on the byte behind it.
-/

namespace RomAtlas

variable {c : Cartridge} {a : Int} {i j : Instruction} {s t : WidthState} {v w : Widths} {n : Nat}

/-! ## Reading on -/

/-- Bytes that follow each other are read in one go or in two. -/
theorem Cartridge.bytesFrom_add (c : Cartridge) (a : Int) (n more : Nat) :
    c.bytesFrom a (n + more) = do
      let first ← c.bytesFrom a n
      let rest ← c.bytesFrom (stepInBank a n) more
      return first ++ rest := by
  unfold bytesFrom
  rw [List.range_add, List.mapM_append, List.mapM_map]
  simp only [stepInBank_stepInBank, Function.comp_def, Int.natCast_add]

theorem Cartridge.bytesFrom_error_of_le {k : Nat} {fault : Fault}
    (h : c.bytesFrom a n = .error fault) (hnk : n ≤ k) : c.bytesFrom a k = .error fault := by
  obtain ⟨more, rfl⟩ := Nat.exists_eq_add_of_le hnk
  rw [bytesFrom_add, h]
  rfl

/-- Reading on does not move the first byte that cannot be read. -/
theorem Cartridge.bytesFrom_error_congr {k : Nat} {fault fault' : Fault}
    (h : c.bytesFrom a n = .error fault) (h' : c.bytesFrom a k = .error fault') :
    fault = fault' := by
  rcases Nat.le_total n k with hnk | hkn
  · exact Except.error.inj ((bytesFrom_error_of_le h hnk).symm.trans h')
  · exact Except.error.inj (h.symm.trans (bytesFrom_error_of_le h' hkn))

theorem Cartridge.byteAt_eq_error {fault : Fault} (h : c.byteAt a = .error fault) :
    fault = .unmapped a := by
  have hout : c.map.shows a ≠ true := by
    intro hshown
    obtain ⟨b, hb⟩ := exists_byteAt_iff.2 hshown
    rw [h] at hb
    cases hb
  have hnone : c.map.offset? a = none := Option.not_isSome_iff_eq_none.1 hout
  unfold byteAt AddressMap.offsetOf at h
  rw [hnone] at h
  cases h
  rfl

/-- If one byte more cannot be read, it is the byte behind the others. -/
theorem Cartridge.bytesFrom_succ_eq_error {bytes : List UInt8} {fault : Fault}
    (h : c.bytesFrom a n = .ok bytes) (hfault : c.bytesFrom a (n + 1) = .error fault) :
    fault = .unmapped (stepInBank a n) := by
  have hone : c.bytesFrom (stepInBank a n) 1 = do
      let b ← c.byteAt (stepInBank a n)
      return [b] := by
    have hfirst : stepInBank (stepInBank a n) (0 : Nat) = stepInBank a n := by
      rw [stepInBank_stepInBank, Int.natCast_zero, Int.add_zero]
    unfold bytesFrom
    rw [List.range_one, List.mapM_cons, List.mapM_nil, hfirst]
    rfl
  rw [bytesFrom_add, h, hone] at hfault
  cases hbyte : c.byteAt (stepInBank a n) with
  | ok b =>
    rw [hbyte] at hfault
    cases hfault
  | error missing =>
    rw [hbyte] at hfault
    cases hfault
    exact byteAt_eq_error hbyte

/-- **What fails at an address does not depend on the state.** Opcode and shape come from the image
alone, and the widths only say how many operand bytes are read. -/
theorem decode_error_congr {s' : WidthState} {fault fault' : DecodeFault}
    (h : decode c a s = .error fault) (h' : decode c a s' = .error fault') : fault = fault' := by
  unfold decode at h h'
  cases hopcode : c.byteAt a with
  | error unread =>
    rw [hopcode] at h h'
    exact Except.error.inj (h.symm.trans h')
  | ok opcode =>
    simp only [hopcode] at h h'
    cases hshape : Shape.ofCode? opcode.toNat with
    | none =>
      rw [hshape] at h h'
      exact Except.error.inj (h.symm.trans h')
    | some shape =>
      simp only [hshape] at h h'
      split at h
      · next unread hread =>
        split at h'
        · next unread' hread' =>
          rw [Addressing.fetch_eq] at hread hread'
          obtain rfl := Cartridge.bytesFrom_error_congr hread hread'
          exact Except.error.inj (h.symm.trans h')
        · cases h'
      · cases h

/-! ## Wider registers -/

/-- No register is wide in the first and narrow in the second. -/
def Widths.NoWider (v w : Widths) : Prop :=
  (v.m16 = true → w.m16 = true) ∧ (v.x16 = true → w.x16 = true)

instance : Decidable (v.NoWider w) := inferInstanceAs (Decidable (_ ∧ _))

theorem registerBytes_of_imp {narrow wide : Bool} (h : narrow = true → wide = true) :
    ∃ more ≤ 1, (if wide then 2 else 1) = (if narrow then 2 else 1) + more := by
  revert h
  cases narrow <;> cases wide <;> decide

/-- **A wider state asks for the same operand bytes and at most one more.** Only a constant as wide
as a register depends on the widths. -/
theorem Addressing.operandBytes_of_noWider (h : v.NoWider w) (way : Addressing) :
    ∃ more ≤ 1, way.operandBytes w = way.operandBytes v + more := by
  cases way
  case immediateM => exact registerBytes_of_imp h.1
  case immediateX => exact registerBytes_of_imp h.2
  all_goals exact ⟨0, Nat.zero_le 1, rfl⟩

/-- Two instructions at one address with one opcode, of which the second has the operand bytes of
the first and at most one more. -/
structure Instruction.ExtendedBy (i j : Instruction) : Prop where
  address : i.address = j.address
  opcode : i.opcode = j.opcode
  mnemonic : i.shape.mnemonic = j.shape.mnemonic
  addressing : i.shape.addressing = j.shape.addressing
  flow : i.flow = j.flow
  raw : i.raw <+: j.raw
  length : i.length ≤ j.length ∧ j.length ≤ i.length + 1

/-- What is there under the wider state is there under the narrower one, but for a byte at its
end. -/
theorem Instruction.ReadFrom.exists_extendedBy (h : j.ReadFrom c)
    (hw : s.widths.NoWider j.state.widths) :
    ∃ i, decode c j.address s = .ok i ∧ i.ExtendedBy j := by
  obtain ⟨more, hmore, hbytes⟩ := j.shape.addressing.operandBytes_of_noWider hw
  have hoperand := h.operand
  rw [hbytes, Cartridge.bytesFrom_add, bind_eq_ok] at hoperand
  obtain ⟨first, hfirst, hoperand⟩ := hoperand
  obtain ⟨rest, -, hoperand⟩ := bind_eq_ok.1 hoperand
  have happend : first ++ rest = j.operand := pure_eq_ok.1 hoperand
  let i : Instruction := ⟨j.address, j.opcode, j.shape, first, s⟩
  have hi : i.ReadFrom c := ⟨h.opcode, h.shape, hfirst⟩
  refine ⟨i, decode_eq_ok_iff.2 ⟨rfl, rfl, hi⟩, rfl, rfl, rfl, rfl, rfl, ?_, ?_⟩
  · exact (List.prefix_cons_inj j.opcode).2 ⟨rest, happend⟩
  · have hlength : j.operand.length = i.operand.length + more := by
      rw [h.length_operand, hi.length_operand]
      exact hbytes
    unfold Instruction.length
    omega

/-- **The byte behind the narrower instruction is missing**, if only the wider state fails. -/
theorem Instruction.ReadFrom.eq_of_decode_error (h : i.ReadFrom c)
    (hw : i.state.widths.NoWider t.widths) {fault : DecodeFault}
    (hfault : decode c i.address t = .error fault) :
    fault = ⟨i.address, .operandUnread i.shape.mnemonic (.unmapped i.next)⟩ := by
  unfold decode at hfault
  simp only [h.opcode, h.shape] at hfault
  split at hfault
  · next missing hmissing =>
    cases hfault
    obtain ⟨more, hmore, hbytes⟩ := i.shape.addressing.operandBytes_of_noWider hw
    rw [Addressing.fetch_eq, hbytes] at hmissing
    obtain rfl | rfl : more = 0 ∨ more = 1 := by omega
    · cases hmissing.symm.trans h.operand
    · have hnext : stepInBank (stepInBank i.address 1)
          (i.shape.addressing.operandBytes i.state.widths) = i.next := by
        rw [stepInBank_stepInBank, ← h.length_operand]
        rfl
      rw [Cartridge.bytesFrom_succ_eq_error h.operand hmissing, hnext]
  · cases hfault

/-- **A wider state only extends the instruction.** If no register is wider in one state than in
another, what decodes under the wider state decodes under the narrower one, to the same instruction
with at most one byte less. What fails under the narrower state fails in the same way under the
wider one, and where the wider state alone fails, the byte behind the instruction is missing. -/
theorem wider_extends (c : Cartridge) (a : Int) (hw : s.widths.NoWider t.widths) :
    (∀ j, decode c a t = .ok j → ∃ i, decode c a s = .ok i ∧ i.ExtendedBy j) ∧
    (∀ fault, decode c a s = .error fault → decode c a t = .error fault) ∧
    ∀ i fault, decode c a s = .ok i → decode c a t = .error fault →
      fault = ⟨a, .operandUnread i.shape.mnemonic (.unmapped i.next)⟩ := by
  have hextends : ∀ j, decode c a t = .ok j → ∃ i, decode c a s = .ok i ∧ i.ExtendedBy j := by
    intro j hj
    obtain ⟨rfl, rfl, hread⟩ := decode_eq_ok_iff.1 hj
    exact hread.exists_extendedBy hw
  refine ⟨hextends, fun fault hs => ?_, fun i fault hs ht => ?_⟩
  · cases ht : decode c a t with
    | ok j =>
      obtain ⟨i, hi, -⟩ := hextends j ht
      rw [hs] at hi
      cases hi
    | error fault' => rw [decode_error_congr hs ht]
  · obtain ⟨rfl, rfl, hread⟩ := decode_eq_ok_iff.1 hs
    exact hread.eq_of_decode_error hw ht

/-- An instruction that loads one byte or, into a wide accumulator, two. -/
def loadImage : Image := ⟨#[0xa9, 0x10, 0x20], Nat.succ_pos 2⟩

theorem size_loadImage : truncatedLoad.map.size = loadImage.size := rfl

/-- The cartridge of `loadImage`. -/
def loadOfTwo : Cartridge := ⟨loadImage, truncatedLoad.map, size_loadImage⟩

/-- A state with a wide accumulator. -/
def wideAccumulator : WidthState := ⟨⟨true, false⟩, [.narrow], some true⟩

theorem wider_extends_load :
    WidthState.reset.widths.NoWider wideAccumulator.widths ∧
    (∃ i j, decode loadOfTwo 0x8000 wideAccumulator = .ok j ∧ j.raw = [0xa9, 0x10, 0x20] ∧
      decode loadOfTwo 0x8000 .reset = .ok i ∧ i.raw = [0xa9, 0x10] ∧ i.ExtendedBy j) ∧
    decode truncatedLoad 0x8000 wideAccumulator = .error ⟨0x8000, .opcodeUndefined 0x42⟩ ∧
    decode truncatedLoad 0x8001 wideAccumulator =
      .error ⟨0x8001, .operandUnread .lda (.unmapped 0x8003)⟩ := by
  have hw : WidthState.reset.widths.NoWider wideAccumulator.widths := by decide
  have hshape : Shape.ofCode? ((0xa9 : UInt8).toNat : Int) =
      some ⟨.lda, .immediateM, .sequential⟩ := by
    decide +kernel
  refine ⟨hw, ?_, ?_, ?_⟩
  · have hwide : decode loadOfTwo 0x8000 wideAccumulator =
        .ok ⟨0x8000, 0xa9, ⟨.lda, .immediateM, .sequential⟩, [0x10, 0x20], wideAccumulator⟩ :=
      decode_eq_ok_iff.2 ⟨rfl, rfl, rfl, hshape, rfl⟩
    have hnarrow : decode loadOfTwo 0x8000 .reset =
        .ok ⟨0x8000, 0xa9, ⟨.lda, .immediateM, .sequential⟩, [0x10], .reset⟩ :=
      decode_eq_ok_iff.2 ⟨rfl, rfl, rfl, hshape, rfl⟩
    obtain ⟨i, hi, hextended⟩ := (wider_extends loadOfTwo 0x8000 hw).1 _ hwide
    obtain rfl := Except.ok.inj (hnarrow.symm.trans hi)
    exact ⟨_, _, hwide, rfl, hnarrow, rfl, hextended⟩
  · have hreserved : truncatedLoad.byteAt 0x8000 = .ok 0x42 := rfl
    have hnone : Shape.ofCode? ((0x42 : UInt8).toNat : Int) = none := by decide +kernel
    refine (wider_extends truncatedLoad 0x8000 hw).2.1 _ ?_
    simp only [decode, hreserved, hnone]
    rfl
  · have hload : truncatedLoad.byteAt 0x8001 = .ok 0xa9 := rfl
    have hnarrow : decode truncatedLoad 0x8001 .reset =
        .ok ⟨0x8001, 0xa9, ⟨.lda, .immediateM, .sequential⟩, [0x10], .reset⟩ :=
      decode_eq_ok_iff.2 ⟨rfl, rfl, hload, hshape, rfl⟩
    have hfails : ∃ fault, decode truncatedLoad 0x8001 wideAccumulator = .error fault := by
      simp only [decode, hload, hshape]
      exact ⟨_, rfl⟩
    obtain ⟨fault, hfault⟩ := hfails
    rw [hfault, (wider_extends truncatedLoad 0x8001 hw).2.2 _ fault hnarrow hfault]
    rfl

end RomAtlas
