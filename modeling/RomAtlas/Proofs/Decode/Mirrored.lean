import RomAtlas.Proofs.Decode.Targets
import RomAtlas.Proofs.Mirrors
import RomAtlas.Proofs.Region.Footprint

/-!
# Decoding at mirrors

An instruction is decoded at the address at which it was reached, but it is kept by its offset. So
what is decoded at two mirrors of an address has to be the same, as far as it does not show the
address itself. In `hiRom` a mirror may lack bytes that the other one has, since system banks show
only their upper halves. In `loRom` this cannot be.

* `Instruction.ReadFrom.raw_congr`: the bytes are the same.
* `Instruction.ReadFrom.target_congr`: the targets are mirrors of each other.
* `mirrors_decode_alike`: **decoding does not depend on the mirror.**
-/

namespace RomAtlas

variable {c : Cartridge} {m : AddressMap} {a b x y : Int} {i j : Instruction} {s t : WidthState}
  {o p q : Nat}

/-! ## Mirrored addresses -/

namespace AddressMap

/-- The offset of an address tells its position in a block. -/
theorem bankPosition_mod_of_place {l : Layout} (h : place? l a = some o) :
    bankPosition a % l.blockSize = o % l.blockSize := by
  unfold Layout.blockSize
  cases l with
  | loRom =>
    obtain ⟨-, -, rfl⟩ := place?_loRom_eq_some_iff.1 h
    dsimp only
    omega
  | hiRom =>
    obtain ⟨-, -, rfl⟩ := place?_hiRom_eq_some_iff.1 h
    dsimp only
    omega

/-- **Mirrored banks show the same bytes at the same positions**, where both show one. -/
theorem place_congr {l : Layout} (ha : place? l a = some o) (hb : place? l b = some o)
    (hx : bankNumber x = bankNumber a) (hy : bankNumber y = bankNumber b)
    (hxy : bankPosition x % l.blockSize = bankPosition y % l.blockSize)
    (hp : place? l x = some p) (hq : place? l y = some q) : p = q := by
  have hposa := bankPosition_lt a
  have hposb := bankPosition_lt b
  have hposx := bankPosition_lt x
  have hposy := bankPosition_lt y
  unfold Layout.blockSize at hxy
  cases l with
  | loRom =>
    obtain ⟨-, -, ha⟩ := place?_loRom_eq_some_iff.1 ha
    obtain ⟨-, -, hb⟩ := place?_loRom_eq_some_iff.1 hb
    obtain ⟨-, -, rfl⟩ := place?_loRom_eq_some_iff.1 hp
    obtain ⟨-, -, rfl⟩ := place?_loRom_eq_some_iff.1 hq
    have hbank : bankNumber a % 0x80 = bankNumber b % 0x80 := by omega
    dsimp only at hxy
    rw [hx, hy, hbank, hxy]
  | hiRom =>
    obtain ⟨-, -, ha⟩ := place?_hiRom_eq_some_iff.1 ha
    obtain ⟨-, -, hb⟩ := place?_hiRom_eq_some_iff.1 hb
    obtain ⟨-, -, rfl⟩ := place?_hiRom_eq_some_iff.1 hp
    obtain ⟨-, -, rfl⟩ := place?_hiRom_eq_some_iff.1 hq
    have hbank : bankNumber a % 0x40 = bankNumber b % 0x40 := by omega
    dsimp only at hxy
    omega

/-- Addresses of mirrored banks at the same position in a block have one canonical address, if both
show a byte. -/
theorem canonical_of_position (ha : m.offset? a = some o) (hb : m.offset? b = some o)
    (hx : bankNumber x = bankNumber a) (hy : bankNumber y = bankNumber b)
    (hxy : bankPosition x % m.layout.blockSize = bankPosition y % m.layout.blockSize)
    (hshowx : m.shows x = true) (hshowy : m.shows y = true) : m.canonical x = m.canonical y := by
  obtain ⟨p, hp⟩ := Option.isSome_iff_exists.1 hshowx
  obtain ⟨q, hq⟩ := Option.isSome_iff_exists.1 hshowy
  have hpq : p = q := place_congr (place?_of_offset? ha) (place?_of_offset? hb) hx hy hxy
    (place?_of_offset? hp) (place?_of_offset? hq)
  exact canonical_congr hp (hpq ▸ hq)

/-- Mirrors stay mirrors when they step through their banks. -/
theorem bankPosition_step_congr (ha : m.offset? a = some o) (hb : m.offset? b = some o) (d : Int) :
    bankPosition (stepInBank a d) % m.layout.blockSize =
      bankPosition (stepInBank b d) % m.layout.blockSize := by
  have hposa := bankPosition_mod_of_place (place?_of_offset? ha)
  have hposb := bankPosition_mod_of_place (place?_of_offset? hb)
  rw [bankPosition_stepInBank, bankPosition_stepInBank]
  generalize m.layout = l at hposa hposb ⊢
  unfold Layout.blockSize at hposa hposb ⊢
  cases l with
  | loRom =>
    dsimp only at hposa hposb ⊢
    omega
  | hiRom =>
    dsimp only at hposa hposb ⊢
    omega

theorem offset?_stepInBank_of_loRom (hl : m.layout = .loRom) (ha : m.offset? a = some o)
    (hb : m.offset? b = some o) (d : Int) :
    m.offset? (stepInBank a d) = m.offset? (stepInBank b d) := by
  have hpa := place?_of_offset? ha
  have hpb := place?_of_offset? hb
  unfold offset?
  rw [hl] at hpa hpb ⊢
  rw [place?_stepInBank_of_loRom hpa hpb]

end AddressMap

/-! ## Mirrored instructions -/

namespace Instruction.ReadFrom

section

variable (hi : i.ReadFrom c) (hj : j.ReadFrom c) (hio : c.map.offset? i.address = some o)
  (hjo : c.map.offset? j.address = some o)
include hi hj hio hjo

/-- **The bytes of an instruction are the same at all mirrors.** -/
theorem raw_congr (hw : i.state.widths = j.state.widths) : i.raw = j.raw := by
  have hlength : i.length = j.length := hi.length_congr hj (hio.trans hjo.symm) hw
  refine List.ext_getElem? fun k => ?_
  by_cases hk : k < i.length
  · rw [hi.raw_eq hio hk, hj.raw_eq hjo (hlength ▸ hk)]
  · have hi' : i.raw.length ≤ k := by
      rw [hi.spells.length_raw]
      omega
    have hj' : j.raw.length ≤ k := by
      rw [hj.spells.length_raw]
      omega
    rw [List.getElem?_eq_none hi', List.getElem?_eq_none hj']

/-- **The targets of an instruction at two mirrors are mirrors of each other**, if both show a
byte. -/
theorem target_congr (hoperand : i.operand = j.operand) {x y : Int} (hx : x ∈ i.targets)
    (hy : y ∈ j.targets) (hshowx : c.map.shows x = true) (hshowy : c.map.shows y = true) :
    c.map.canonical x = c.map.canonical y := by
  have hshape := (hi.opcode_congr hj (hio.trans hjo.symm)).2
  have hlength := hi.length_operand
  unfold targets at hx hy
  split at hx
  case isFalse => cases hx
  split at hy
  case isFalse => cases hy
  rw [Option.mem_toList] at hx hy
  unfold destination? value at hx hy
  rw [← hshape, ← hoperand] at hy
  split at hx
  case h_1 ha =>
    -- the same position in the banks of the two addresses
    rw [ha] at hy hlength
    obtain rfl := Option.some.inj hx
    obtain rfl := Option.some.inj hy
    have hlt := littleEndian_lt (n := 2) hlength
    refine AddressMap.canonical_of_position hio hjo (bank_and_position hlt).1
      (bank_and_position hlt).1 ?_ hshowx hshowy
    rw [(bank_and_position hlt).2, (bank_and_position hlt).2]
  case h_2 ha =>
    rw [ha] at hy
    rw [← Option.some.inj hx, ← Option.some.inj hy]
  case h_3 ha =>
    -- the same distance from mirrored addresses
    rw [ha] at hy
    obtain rfl := Option.some.inj hx
    obtain rfl := Option.some.inj hy
    exact AddressMap.canonical_of_position hio hjo (bankNumber_stepInBank _ _)
      (bankNumber_stepInBank _ _) (AddressMap.bankPosition_step_congr hio hjo _) hshowx hshowy
  case h_4 ha =>
    rw [ha] at hy
    obtain rfl := Option.some.inj hx
    obtain rfl := Option.some.inj hy
    exact AddressMap.canonical_of_position hio hjo (bankNumber_stepInBank _ _)
      (bankNumber_stepInBank _ _) (AddressMap.bankPosition_step_congr hio hjo _) hshowx hshowy
  case h_5 => cases hx

theorem length_targets_congr : i.targets.length = j.targets.length := by
  have hshape := (hi.opcode_congr hj (hio.trans hjo.symm)).2
  have hflow : i.flow = j.flow := congrArg Shape.flow hshape
  by_cases hd : i.flow.isDirect = true
  · obtain ⟨x, hx⟩ := hi.exists_targets_eq hd
    obtain ⟨y, hy⟩ := hj.exists_targets_eq (hflow ▸ hd)
    rw [hx, hy]
    rfl
  · rw [targets_eq_nil hd, targets_eq_nil (hflow ▸ hd)]

end

end Instruction.ReadFrom

/-- In `loRom` what can be decoded at one mirror can be decoded at the others. -/
theorem exists_decode_of_loRom (hl : c.map.layout = .loRom) (ha : c.map.offset? a = some o)
    (hb : c.map.offset? b = some o) (hw : s.widths = t.widths)
    (h : ∃ i, decode c a s = .ok i) : ∃ j, decode c b t = .ok j := by
  obtain ⟨opcode, n, hopcode, hne, hn, hshown⟩ := exists_decode_iff.1 h
  refine exists_decode_iff.2 ⟨opcode, n, ?_, hne, hw ▸ hn, ?_⟩
  · obtain ⟨p, hp, hbyte⟩ := Cartridge.byteAt_eq_ok.1 hopcode
    have hpo : p = o := Option.some.inj (hp.symm.trans ha)
    exact Cartridge.byteAt_eq_ok.2 ⟨o, hb, hpo ▸ hbyte⟩
  · intro k hk
    have hsame := AddressMap.offset?_stepInBank_of_loRom hl ha hb k
    have hka := hshown k hk
    unfold AddressMap.shows at hka ⊢
    rwa [← hsame]

/-- Two instructions that differ at most in the mirror at which they are read and in what the
processor remembers besides its widths. -/
structure Instruction.Mirrors (m : AddressMap) (i j : Instruction) : Prop where
  opcode : i.opcode = j.opcode
  mnemonic : i.shape.mnemonic = j.shape.mnemonic
  addressing : i.shape.addressing = j.shape.addressing
  flow : i.flow = j.flow
  operand : i.operand = j.operand
  offsets : ∀ k < i.length, ∃ p, m.offset? (stepInBank i.address k) = some p ∧
    m.offset? (stepInBank j.address k) = some p
  targets_length : i.targets.length = j.targets.length
  targets : ∀ x ∈ i.targets, ∀ y ∈ j.targets, m.shows x = true → m.shows y = true →
    m.canonical x = m.canonical y

/-- **Decoding does not depend on the mirror.** What is decoded at two addresses of one byte under
the same widths agrees in all but the addresses, and these are mirrors of each other. In `loRom`
decoding also succeeds at both addresses or at neither. -/
theorem mirrors_decode_alike (ha : c.map.offset? a = some o) (hb : c.map.offset? b = some o)
    (hw : s.widths = t.widths) :
    (∀ i j, decode c a s = .ok i → decode c b t = .ok j → i.Mirrors c.map j) ∧
    (c.map.layout = .loRom → ((∃ i, decode c a s = .ok i) ↔ ∃ j, decode c b t = .ok j)) := by
  refine ⟨fun i j hi hj => ?_, fun hl => ?_⟩
  · obtain ⟨rfl, rfl, hread⟩ := decode_eq_ok_iff.1 hi
    obtain ⟨rfl, rfl, hread'⟩ := decode_eq_ok_iff.1 hj
    obtain ⟨hopcode, hshape⟩ := hread.opcode_congr hread' (ha.trans hb.symm)
    have hlength := hread.length_congr hread' (ha.trans hb.symm) hw
    have hoperand : i.operand = j.operand := (List.cons.inj (hread.raw_congr hread' ha hb hw)).2
    refine ⟨hopcode, congrArg Shape.mnemonic hshape, congrArg Shape.addressing hshape,
      congrArg Shape.flow hshape, hoperand, fun k hk => ?_, hread.length_targets_congr hread' ha hb,
      fun x hx y hy => hread.target_congr hread' ha hb hoperand hx hy⟩
    exact ⟨_, hread.offset?_step ha hk, hread'.offset?_step hb (hlength ▸ hk)⟩
  · exact ⟨exists_decode_of_loRom hl ha hb hw, exists_decode_of_loRom hl hb ha hw.symm⟩

/-- The long branch of `loopCartridge` is decoded in bank `$80` as it is in bank `$00`, whatever
the processor remembers there. -/
theorem mirrors_decode_alike_loop :
    loopCartridge.map.offset? 0x8000 = some 0 ∧ loopCartridge.map.offset? 0x808000 = some 0 ∧
    ∃ i j, decode loopCartridge 0x8000 .reset = .ok i ∧
      decode loopCartridge 0x808000 ⟨.narrow, [.narrow], none⟩ = .ok j ∧
      i.targets = [0x8000] ∧ i.Mirrors loopCartridge.map j := by
  have hshape : Shape.ofCode? ((0x82 : UInt8).toNat : Int) =
      some ⟨.brl, .relative16, .branchAlways⟩ := by
    decide +kernel
  have hdecode : decode loopCartridge 0x8000 .reset =
      .ok ⟨0x8000, 0x82, ⟨.brl, .relative16, .branchAlways⟩, [0xfd, 0xff], .reset⟩ :=
    decode_eq_ok_iff.2 ⟨rfl, rfl, rfl, hshape, rfl⟩
  obtain ⟨halike, hboth⟩ := mirrors_decode_alike (c := loopCartridge) (a := 0x8000) (b := 0x808000)
    (s := .reset) (t := ⟨.narrow, [.narrow], none⟩) (o := 0) rfl rfl rfl
  obtain ⟨j, hj⟩ := (hboth rfl).1 ⟨_, hdecode⟩
  exact ⟨rfl, rfl, _, j, hdecode, hj, rfl, halike _ j hdecode hj⟩

end RomAtlas
