import RomAtlas.Proofs.Decode.Faithful

/-!
# Where an instruction goes

An instruction that transfers control to an address in its operand has one target, and no other
instruction has any, though some others spell code addresses too: a pushed address, for instance, is
not gone to.

* `directOpcodes`: the opcodes that go to an address of their own, with their kind of flow and the
  way in which they spell it.
* `Shape.isDirect_iff_of_mem_table`: the table of opcodes has these and no others.
* `Instruction.LeadsTo`: the address that the bytes of an operand spell.
* `targets_right_and_complete`: **an instruction has the target that its operand spells**, if it is
  one of these.
-/

namespace RomAtlas

variable {c : Cartridge} {a t : Int} {i : Instruction} {s : WidthState}

/-! ## Which instructions have a target -/

/-- The opcodes with a target in their operand. -/
def directOpcodes : List (Nat × Flow × Addressing) :=
  [(0x10, .branch, .relative8), (0x30, .branch, .relative8), (0x50, .branch, .relative8),
    (0x70, .branch, .relative8), (0x90, .branch, .relative8), (0xB0, .branch, .relative8),
    (0xD0, .branch, .relative8), (0xF0, .branch, .relative8), (0x80, .branchAlways, .relative8),
    (0x82, .branchAlways, .relative16), (0x4C, .jump, .absolute), (0x5C, .jump, .long),
    (0x20, .call, .absolute), (0x22, .call, .long)]

/-- An opcode of the table has a direct flow if and only if it is one of `directOpcodes`. -/
theorem Shape.isDirect_iff_of_mem_table : ∀ e ∈ table.toList.zipIdx, ∀ shape ∈ e.1,
    shape.flow.isDirect = true ↔ (e.2, shape.flow, shape.addressing) ∈ directOpcodes := by
  decide +kernel

theorem Flow.isDirect_iff {f : Flow} :
    f.isDirect = true ↔ f = .branch ∨ f = .branchAlways ∨ f = .jump ∨ f = .call := by
  unfold isDirect
  exact decide_eq_true_iff

/-! ## What an operand spells -/

/-- Two's complement is the signed reading of a word of bits. -/
theorem signed_eq_toInt {n value : Nat} (h : value < 2 ^ (n + 1)) :
    signed (2 ^ n) value = (BitVec.ofNat (n + 1) value).toInt := by
  have hpow : (2 : Nat) ^ (n + 1) = 2 * 2 ^ n := Nat.pow_succ'
  have htoNat : (BitVec.ofNat (n + 1) value).toNat = value := by
    rw [BitVec.toNat_ofNat, Nat.mod_eq_of_lt h]
  rw [BitVec.toInt_eq_toNat_cond, htoNat]
  unfold signed
  split
  · rw [if_pos (by omega)]
  · rw [if_neg (by omega), hpow]
    norm_cast

theorem bankBase_stepInBank (a delta : Int) : bankBase (stepInBank a delta) = bankBase a := by
  unfold stepInBank bankBase wrapAddress
  omega

/-- Steps of different lengths from one address differ by the difference of their lengths, up to
whole banks. -/
theorem stepInBank_sub_stepInBank (a d e : Int) :
    (stepInBank a (d + e) - stepInBank a d) % 0x10000 = e % 0x10000 := by
  unfold stepInBank
  omega

/-- **The address that the bytes of an operand spell**, by the ways of addressing that spell one.
Distances are signed and count from the next instruction, and the bank stays the same. -/
inductive Instruction.LeadsTo (i : Instruction) (t : Int) : Prop
  | relative8 (distance : UInt8) (ha : i.shape.addressing = .relative8)
    (ho : i.operand = [distance]) (hbank : bankBase t = bankBase i.address)
    (hdistance : (t - i.next) % 0x10000 = (BitVec.ofNat 8 distance.toNat).toInt % 0x10000)
  | relative16 (low high : UInt8) (ha : i.shape.addressing = .relative16)
    (ho : i.operand = [low, high]) (hbank : bankBase t = bankBase i.address)
    (hdistance : (t - i.next) % 0x10000 =
      (BitVec.ofNat 16 (low.toNat + 0x100 * high.toNat)).toInt % 0x10000)
  | absolute (low high : UInt8) (ha : i.shape.addressing = .absolute) (ho : i.operand = [low, high])
    (ht : t = bankBase i.address + (low.toNat + 0x100 * high.toNat : Nat))
  | long (low mid high : UInt8) (ha : i.shape.addressing = .long)
    (ho : i.operand = [low, mid, high])
    (ht : t = (low.toNat + 0x100 * mid.toNat + 0x10000 * high.toNat : Nat))

namespace Instruction.ReadFrom

/-- **A decoded instruction goes where its operand leads to.** -/
theorem leadsTo (h : i.ReadFrom c) (ht : t ∈ i.targets) : i.LeadsTo t := by
  have hlength := h.length_operand
  unfold targets at ht
  split at ht
  · rw [Option.mem_toList] at ht
    unfold destination? value at ht
    split at ht
    case h_1 ha =>
      rw [ha] at hlength
      obtain ⟨low, high, ho⟩ := List.length_eq_two.1 hlength
      refine .absolute low high ha ho ?_
      rw [ho] at ht
      exact (Option.some.inj ht).symm
    case h_2 ha =>
      rw [ha] at hlength
      obtain ⟨low, mid, high, ho⟩ := List.length_eq_three.1 hlength
      refine .long low mid high ha ho ?_
      rw [← Option.some.inj ht, ho]
      simp only [littleEndian, List.foldr_cons, List.foldr_nil]
      omega
    case h_3 ha =>
      rw [ha] at hlength
      obtain ⟨distance, ho⟩ := List.length_eq_one_iff.1 hlength
      have hnext : i.next = stepInBank i.address 2 := by
        unfold next length
        rw [ho]
        rfl
      have hvalue : signed 0x80 (littleEndian i.operand) =
          (BitVec.ofNat 8 distance.toNat).toInt := by
        rw [ho]
        exact signed_eq_toInt (n := 7) distance.toNat_lt
      rw [← Option.some.inj ht]
      refine .relative8 distance ha ho (bankBase_stepInBank _ _) ?_
      rw [hnext, stepInBank_sub_stepInBank, hvalue]
    case h_4 ha =>
      rw [ha] at hlength
      obtain ⟨low, high, ho⟩ := List.length_eq_two.1 hlength
      have hnext : i.next = stepInBank i.address 3 := by
        unfold next length
        rw [ho]
        rfl
      have hvalue : signed 0x8000 (littleEndian i.operand) =
          (BitVec.ofNat 16 (low.toNat + 0x100 * high.toNat)).toInt := by
        have hlt := littleEndian_lt (n := 2) hlength
        rw [ho] at hlt ⊢
        exact signed_eq_toInt (n := 15) hlt
      rw [← Option.some.inj ht]
      refine .relative16 low high ha ho (bankBase_stepInBank _ _) ?_
      rw [hnext, stepInBank_sub_stepInBank, hvalue]
    case h_5 => cases ht
  · cases ht

theorem isDirect_iff (h : i.ReadFrom c) :
    i.flow.isDirect = true ↔ (i.opcode.toNat, i.flow, i.shape.addressing) ∈ directOpcodes :=
  Shape.isDirect_iff_of_mem_table _ (Shape.mem_table_of_ofCode? h.shape) i.shape rfl

/-- The ways of addressing of `directOpcodes` all spell an address. -/
theorem exists_targets_eq (h : i.ReadFrom c) (hd : i.flow.isDirect = true) :
    ∃ t, i.targets = [t] := by
  have hspells : ∀ e ∈ directOpcodes, e.2.2 ∈ [.relative8, .relative16, .absolute, .long] := by
    decide
  have ha := hspells _ (h.isDirect_iff.1 hd)
  unfold targets destination?
  rw [if_pos hd]
  simp only [List.mem_cons, List.not_mem_nil, or_false] at ha
  rcases ha with ha | ha | ha | ha <;> rw [ha] <;> exact ⟨_, rfl⟩

end Instruction.ReadFrom

theorem Instruction.targets_eq_nil (hd : i.flow.isDirect ≠ true) : i.targets = [] := by
  unfold targets
  rw [if_neg hd]

/-- An operand spells one address of 24 bits. -/
theorem Instruction.LeadsTo.unique {t' : Int} (h : i.LeadsTo t) (h' : i.LeadsTo t')
    (ht : 0 ≤ t ∧ t < 0x1000000) (ht' : 0 ≤ t' ∧ t' < 0x1000000) : t = t' := by
  -- what a bank and a distance up to whole banks determine
  have hrelative : bankBase t = bankBase t' → (t - i.next) % 0x10000 = (t' - i.next) % 0x10000 →
      t = t' := by
    intro hbank hdistance
    unfold bankBase wrapAddress at hbank
    omega
  cases h with
  | relative8 d ha ho hbank hdistance =>
    cases h' with
    | relative8 d' ha' ho' hbank' hdistance' =>
      cases ho.symm.trans ho'
      exact hrelative (hbank.trans hbank'.symm) (hdistance.trans hdistance'.symm)
    | relative16 _ _ ha' | absolute _ _ ha' | long _ _ _ ha' => cases ha.symm.trans ha'
  | relative16 low high ha ho hbank hdistance =>
    cases h' with
    | relative16 low' high' ha' ho' hbank' hdistance' =>
      cases ho.symm.trans ho'
      exact hrelative (hbank.trans hbank'.symm) (hdistance.trans hdistance'.symm)
    | relative8 _ ha' | absolute _ _ ha' | long _ _ _ ha' => cases ha.symm.trans ha'
  | absolute low high ha ho heq =>
    cases h' with
    | absolute low' high' ha' ho' heq' =>
      cases ho.symm.trans ho'
      rw [heq, heq']
    | relative8 _ ha' | relative16 _ _ ha' | long _ _ _ ha' => cases ha.symm.trans ha'
  | long low mid high ha ho heq =>
    cases h' with
    | long low' mid' high' ha' ho' heq' =>
      cases ho.symm.trans ho'
      rw [heq, heq']
    | relative8 _ ha' | relative16 _ _ ha' | absolute _ _ ha' => cases ha.symm.trans ha'

/-- **An instruction has the target that its operand spells.** It has one target exactly if it
branches, jumps or calls directly, and none otherwise. These are the instructions of
`directOpcodes`, with their kind of flow and their way of addressing. The target is the one address
of 24 bits to which the operand leads. -/
theorem targets_right_and_complete (h : decode c a s = .ok i) :
    i.address = a ∧
    ((∃ t, i.targets = [t]) ↔
      i.flow = .branch ∨ i.flow = .branchAlways ∨ i.flow = .jump ∨ i.flow = .call) ∧
    (i.targets = [] ↔
      ¬ (i.flow = .branch ∨ i.flow = .branchAlways ∨ i.flow = .jump ∨ i.flow = .call)) ∧
    (i.targets ≠ [] ↔ (i.opcode.toNat, i.flow, i.shape.addressing) ∈ directOpcodes) ∧
    ∀ t, t ∈ i.targets ↔ i.targets ≠ [] ∧ (0 ≤ t ∧ t < 0x1000000) ∧ i.LeadsTo t := by
  obtain ⟨haddress, -, hread⟩ := decode_eq_ok_iff.1 h
  have hdirect := hread.isDirect_iff
  rw [← Flow.isDirect_iff]
  by_cases hd : i.flow.isDirect = true
  · obtain ⟨t, ht⟩ := hread.exists_targets_eq hd
    have hmem : t ∈ i.targets := by
      rw [ht]
      exact List.mem_singleton_self t
    refine ⟨haddress, by simp [ht, hd], by simp [ht, hd], ?_, fun t' => ⟨fun ht' => ?_, ?_⟩⟩
    · rw [← hdirect]
      simp [ht, hd]
    · exact ⟨List.ne_nil_of_mem ht', hread.target_bounds ht', hread.leadsTo ht'⟩
    · rintro ⟨-, hbounds, hleads⟩
      rw [(hread.leadsTo hmem).unique hleads (hread.target_bounds hmem) hbounds] at hmem
      exact hmem
  · have hnone := Instruction.targets_eq_nil hd
    refine ⟨haddress, by simp [hnone, hd], by simp [hnone, hd], ?_, by simp [hnone]⟩
    rw [← hdirect]
    simp [hnone, hd]

/-- A long branch back to itself, and an instruction behind it that is never reached. -/
def loopCartridge : Cartridge :=
  ⟨⟨#[0x82, 0xfd, 0xff, 0xea], by decide⟩, ⟨.loRom, 4, .slow, by decide, by decide⟩, rfl⟩

/-- In the mirror of bank `$00` it stays in that mirror. -/
theorem targets_right_and_complete_loop :
    ∃ i, decode loopCartridge 0x808000 .reset = .ok i ∧ i.targets = [0x808000] := by
  have hbyte : loopCartridge.byteAt 0x808000 = .ok 0x82 := rfl
  have hshape : Shape.ofCode? ((0x82 : UInt8).toNat : Int) =
      some ⟨.brl, .relative16, .branchAlways⟩ := by
    decide +kernel
  have hdecode : decode loopCartridge 0x808000 .reset =
      .ok ⟨0x808000, 0x82, ⟨.brl, .relative16, .branchAlways⟩, [0xfd, 0xff], .reset⟩ :=
    decode_eq_ok_iff.2 ⟨rfl, rfl, hbyte, hshape, rfl⟩
  obtain ⟨-, hone, -, hlisted, htargets⟩ := targets_right_and_complete hdecode
  obtain ⟨t, ht⟩ := hone.2 (.inr (.inl rfl))
  refine ⟨_, hdecode, ?_⟩
  have hmem : 0x808000 ∈ [t] := by
    rw [← ht, htargets]
    exact ⟨hlisted.2 (by decide), by decide, .relative16 0xfd 0xff rfl rfl (by decide) (by decide)⟩
  rw [ht, List.mem_singleton.1 hmem]

end RomAtlas
