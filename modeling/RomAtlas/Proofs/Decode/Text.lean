import Mathlib.Data.List.Nodup
import Mathlib.Data.String.Basic
import RomAtlas.Proofs.Decode.Faithful
import RomAtlas.Proofs.Hex

/-!
# Reading instructions back

The text of an instruction hides its opcode, the widths and the distance of a branch. It still tells
all bytes of the instruction, if the address is known: the mnemonic and the form of the operand tell
the opcode, the number of digits tells the number of bytes, and the digits tell the bytes.

* `Instruction.join_inj`: a text is divided into a mnemonic and an operand in one way.
* `Addressing.form_of_template`: what is left of an operand without the values of its digits tells
  its form and its length.
* `Shape.opcode_inj`: a mnemonic has one opcode for each form of operand.
* `text_tells_bytes`: **texts are equal if and only if bytes are.**
-/

namespace RomAtlas

/-! ## Distinct numbers -/

/-- Whether numbers are distinct, with those that were seen before as the bits of a number. -/
def distinctFrom (seen : Nat) : List Nat → Bool
  | [] => true
  | k :: ks => !seen.testBit k && distinctFrom (seen ||| 1 <<< k) ks

theorem nodup_of_distinctFrom {seen : Nat} {ks : List Nat} (h : distinctFrom seen ks = true) :
    ks.Nodup ∧ ∀ k ∈ ks, seen.testBit k = false := by
  induction ks generalizing seen with
  | nil => simp
  | cons k ks ih =>
    unfold distinctFrom at h
    rw [Bool.and_eq_true, Bool.not_eq_true'] at h
    obtain ⟨hnodup, hunseen⟩ := ih h.2
    have hboth : ∀ k' ∈ ks, seen.testBit k' = false ∧ k ≠ k' := by
      intro k' hk'
      have hbits := hunseen k' hk'
      rw [Nat.testBit_or, Bool.or_eq_false_iff, Nat.one_shiftLeft, Nat.testBit_two_pow,
        decide_eq_false_iff_not] at hbits
      exact hbits
    refine ⟨List.nodup_cons.2 ⟨fun hk => (hboth k hk).2 rfl, hnodup⟩, ?_⟩
    intro k' hk'
    rcases List.mem_cons.1 hk' with rfl | hk'
    · exact h.1
    · exact (hboth k' hk').1

/-! ## Mnemonics -/

namespace Mnemonic

/-- All operations, in the order of their names. -/
def all : List Mnemonic := (List.range 91).map ofNat

theorem mem_all (m : Mnemonic) : m ∈ all := by
  refine List.mem_map.2 ⟨m.ctorIdx, List.mem_range.2 ?_, ofNat_ctorIdx m⟩
  cases m <;> decide

theorem isChain_names : (all.map name).IsChain (· < ·) := by decide +kernel

theorem name_inj {m m' : Mnemonic} (h : m.name = m'.name) : m = m' := by
  have hnodup : (all.map name).Nodup :=
    (List.isChain_iff_pairwise.1 isChain_names).imp fun hlt => hlt.ne
  exact List.inj_on_of_nodup_map hnodup (mem_all m) (mem_all m') h

theorem length_name (m : Mnemonic) : m.name.toList.length = 3 := by
  have hall : ∀ m ∈ all, m.name.toList.length = 3 := by decide +kernel
  exact hall m (mem_all m)

end Mnemonic

theorem Instruction.toList_join (m : Mnemonic) (t : String) :
    (join m t).toList = m.name.toList ++ if t = "" then [] else ' ' :: t.toList := by
  unfold join
  split
  · rw [List.append_nil]
  · rw [String.toList_append, String.toList_append, List.append_assoc]
    rfl

/-- **A text is divided into a mnemonic and an operand in one way.** -/
theorem Instruction.join_inj {m m' : Mnemonic} {t t' : String} (h : join m t = join m' t') :
    m = m' ∧ t = t' := by
  have hlist := congrArg String.toList h
  rw [toList_join, toList_join] at hlist
  have hlength : m.name.toList.length = m'.name.toList.length := by
    rw [m.length_name, m'.length_name]
  obtain ⟨hname, hoperand⟩ := List.append_inj hlist hlength
  refine ⟨Mnemonic.name_inj (String.toList_inj.1 hname), ?_⟩
  split at hoperand
  · next ht =>
    split at hoperand
    · next ht' => rw [ht, ht']
    · cases hoperand
  · split at hoperand
    · cases hoperand
    · exact String.toList_inj.1 (List.cons.inj hoperand).2

/-! ## Forms of operands -/

/-- A character of a text, where digits all look the same. -/
def mask (ch : Char) : Char := if (Numeral.digit? 16 ch).isSome then '0' else ch

theorem Hex.map_mask_padded {width : Nat} (hw : 0 < width) {a : Int} (hlow : 0 ≤ a)
    (hhigh : a < 16 ^ width) : (padded width a).toList.map mask = List.replicate width '0' := by
  rw [List.eq_replicate_iff]
  refine ⟨by rw [List.length_map, length_padded hw hlow hhigh], ?_⟩
  intro ch hch
  obtain ⟨ch, hmem, rfl⟩ := List.mem_map.1 hch
  obtain ⟨d, hd, rfl⟩ := exists_of_mem_padded hlow hmem
  unfold mask
  rw [digit?_upperDigit hd]
  rfl

namespace Addressing

/-- What is left of the text of an operand without the values of its digits. -/
def template (n : Nat) : Addressing → List Char
  | implied => []
  | accumulator => ['0']
  | relative8 | relative16 => '$' :: List.replicate 6 '0'
  | blockMove => ['$', '0', '0', ',', '$', '0', '0']
  | a => a.frame.1.toList ++ '$' :: List.replicate (2 * n) '0' ++ a.frame.2.toList

/-- One way of addressing for all that are written alike. Constants do not show what decides their
width, and branches are written as the addresses that they lead to. -/
def form : Addressing → Addressing
  | immediateM | immediateX => immediate8
  | relative8 | relative16 => long
  | a => a

/-- The number of bytes that the text of an operand shows. -/
def shownBytes (n : Nat) : Addressing → Nat
  | relative8 | relative16 => 3
  | _ => n

/-- The forms of operands with the bytes that they show. -/
def forms : List (Addressing × Nat) :=
  [(implied, 0), (accumulator, 0), (immediate8, 1), (immediate8, 2), (direct, 1), (directX, 1),
    (directY, 1), (directInd, 1), (directXInd, 1), (directIndY, 1), (directFar, 1), (directFarY, 1),
    (stack, 1), (stackIndY, 1), (absolute, 2), (absoluteX, 2), (absoluteY, 2), (absoluteInd, 2),
    (absoluteXInd, 2), (absoluteFar, 2), (long, 3), (longX, 3), (blockMove, 2)]

theorem mem_forms (w : Widths) (a : Addressing) :
    (a.form, a.shownBytes (a.operandBytes w)) ∈ forms := by
  obtain ⟨m16, x16⟩ := w
  cases m16 <;> cases x16 <;> cases a <;> decide

theorem template_form (n : Nat) (a : Addressing) :
    a.form.template (a.shownBytes n) = a.template n := by
  cases a <;> rfl

theorem nodup_templates : (forms.map fun f => f.1.template f.2).Nodup := by decide +kernel

/-- **The template of an operand tells its form and its bytes.** -/
theorem form_of_template {w w' : Widths} {a a' : Addressing}
    (h : a.template (a.operandBytes w) = a'.template (a'.operandBytes w')) :
    a.form = a'.form ∧ a.shownBytes (a.operandBytes w) = a'.shownBytes (a'.operandBytes w') := by
  rw [← template_form, ← template_form _ a'] at h
  exact Prod.mk.inj (List.inj_on_of_nodup_map nodup_templates (mem_forms w a) (mem_forms w' a') h)

/-- One way of addressing has operands of one length, as far as the text shows their length. -/
theorem operandBytes_congr {w w' : Widths} {a : Addressing}
    (h : a.shownBytes (a.operandBytes w) = a.shownBytes (a.operandBytes w')) :
    a.operandBytes w = a.operandBytes w' := by
  cases a with
  | relative8 | relative16 => rfl
  | _ => exact h

/-- The ways of addressing whose operand is not written as a number in a frame. -/
def unframed : List Addressing := [implied, accumulator, relative8, relative16, blockMove]

theorem template_of_framed {n : Nat} {a : Addressing} (h : a ∉ unframed) :
    a.template n = a.frame.1.toList ++ '$' :: List.replicate (2 * n) '0' ++ a.frame.2.toList := by
  unfold template
  unfold unframed at h
  split <;> simp_all

theorem operandBytes_pos {w : Widths} {a : Addressing} (h : a ∉ unframed) :
    0 < a.operandBytes w := by
  obtain ⟨m16, x16⟩ := w
  cases a <;> first | exact absurd (by decide) h | (cases m16 <;> cases x16 <;> decide)

theorem map_mask_frame (a : Addressing) :
    a.frame.1.toList.map mask = a.frame.1.toList ∧
      a.frame.2.toList.map mask = a.frame.2.toList := by
  cases a <;> decide +kernel

end Addressing

namespace Shape

/-- A number for a mnemonic and a form of operand. -/
def key (s : Shape) : Nat := s.mnemonic.ctorIdx * 32 + s.addressing.form.ctorIdx

-- A comparison of all pairs of the 256 entries takes much longer than this one pass.
theorem distinct_keys : distinctFrom 0 (table.toList.map fun s => s.elim 0x1000 key) = true := by
  decide +kernel

/-- **A mnemonic has one opcode for each form of operand.** -/
theorem opcode_inj {x y : UInt8} {s t : Shape} (hs : ofCode? x.toNat = some s)
    (ht : ofCode? y.toNat = some t) (hm : s.mnemonic = t.mnemonic)
    (hform : s.addressing.form = t.addressing.form) : x = y := by
  have hkey : s.key = t.key := by
    unfold key
    rw [hm, hform]
  have hgetElem : ∀ {z : UInt8} {r : Shape}, ofCode? z.toNat = some r →
      (table.toList.map fun s => s.elim 0x1000 key)[z.toNat]? = some r.key := by
    intro z r hr
    have hmem := List.mem_zipIdx_iff_getElem?.1 (mem_table_of_ofCode? hr)
    rw [List.getElem?_map, hmem]
    rfl
  obtain ⟨hx, hxkey⟩ := List.getElem?_eq_some_iff.1 (hgetElem hs)
  obtain ⟨hy, hykey⟩ := List.getElem?_eq_some_iff.1 (hgetElem ht)
  have hnodup := (nodup_of_distinctFrom distinct_keys).1
  have hindex := hnodup.getElem_inj_iff.1 (hxkey.trans (hkey.trans hykey.symm))
  exact UInt8.toNat_inj.1 hindex

end Shape

/-! ## Operands -/

theorem littleEndian_inj {xs ys : List UInt8} (hlength : xs.length = ys.length)
    (h : littleEndian xs = littleEndian ys) : xs = ys := by
  induction xs generalizing ys with
  | nil => exact (List.length_eq_zero_iff.1 hlength.symm).symm
  | cons x xs ih =>
    cases ys with
    | nil => cases hlength
    | cons y ys =>
      have hx := x.toNat_lt
      have hy := y.toNat_lt
      rw [littleEndian_cons, littleEndian_cons] at h
      have hfirst : x = y := UInt8.toNat_inj.1 (by omega)
      have hrest : littleEndian xs = littleEndian ys := by omega
      rw [hfirst, ih (Nat.succ.inj hlength) hrest]

namespace Instruction

variable {c c' : Cartridge} {a : Int} {i j : Instruction}

theorem operandText_of_relative8 (h : i.shape.addressing = .relative8) :
    i.operandText = Hex.address (stepInBank i.address (2 + signed 0x80 i.value)) := by
  unfold operandText destination?
  rw [h]
  rfl

theorem operandText_of_relative16 (h : i.shape.addressing = .relative16) :
    i.operandText = Hex.address (stepInBank i.address (3 + signed 0x8000 i.value)) := by
  unfold operandText destination?
  rw [h]
  rfl

theorem operandText_of_blockMove (h : i.shape.addressing = .blockMove) {x y : UInt8}
    (ho : i.operand = [x, y]) :
    i.operandText = "$" ++ Hex.byte y ++ "," ++ ("$" ++ Hex.byte x) := by
  unfold operandText
  rw [h, ho]
  rfl

theorem operandText_of_framed (h : i.shape.addressing ∉ Addressing.unframed) :
    i.operandText = i.shape.addressing.frame.1 ++ "$" ++
      Hex.padded (2 * i.operand.length) i.value ++ i.shape.addressing.frame.2 := by
  unfold operandText
  unfold Addressing.unframed at h
  split <;> simp_all

/-- **Where a branch leads to tells its distance**, since banks are wide enough. -/
theorem distance_inj {d : Int} {bound v v' : Nat} (hbound : bound ≤ 0x8000) (hv : v < 2 * bound)
    (hv' : v' < 2 * bound)
    (h : stepInBank a (d + signed bound v) = stepInBank a (d + signed bound v')) : v = v' := by
  have hmod : (d + signed bound v) % 0x10000 = (d + signed bound v') % 0x10000 := by
    unfold stepInBank at h
    omega
  unfold signed at hmod
  split at hmod <;> split at hmod <;> omega

theorem blockMove_inj {x y x' y' : UInt8}
    (h : "$" ++ Hex.byte y ++ "," ++ ("$" ++ Hex.byte x) =
      "$" ++ Hex.byte y' ++ "," ++ ("$" ++ Hex.byte x')) : x = x' ∧ y = y' := by
  have hlist := congrArg String.toList h
  simp only [String.toList_append] at hlist
  have hlength : ("$".toList ++ (Hex.byte x).toList).length =
      ("$".toList ++ (Hex.byte x').toList).length := by
    rw [List.length_append, List.length_append, Hex.length_byte, Hex.length_byte]
  obtain ⟨hsource, hdestination⟩ := List.append_inj' hlist hlength
  have hx := List.append_cancel_left hdestination
  have hy := List.append_cancel_left (List.append_cancel_right hsource)
  exact ⟨Hex.byte_inj (String.toList_inj.1 hx), Hex.byte_inj (String.toList_inj.1 hy)⟩

theorem template_address {d : Int} (hlow : 0 ≤ d) (hhigh : d < 0x1000000) :
    (Hex.address d).toList.map mask = '$' :: List.replicate 6 '0' := by
  unfold Hex.address
  rw [String.toList_append, List.map_append, Hex.map_mask_padded (by decide) hlow (by omega)]
  rfl

namespace ReadFrom

/-- **The text of an operand shows the template of its way of addressing.** -/
theorem map_mask_operandText (h : i.ReadFrom c) :
    i.operandText.toList.map mask = i.shape.addressing.template i.operand.length := by
  have hlength := h.length_operand
  by_cases hframed : i.shape.addressing ∈ Addressing.unframed
  · simp only [Addressing.unframed, List.mem_cons, List.not_mem_nil, or_false] at hframed
    rcases hframed with ha | ha | ha | ha | ha
    · unfold operandText
      rw [ha]
      rfl
    · unfold operandText
      rw [ha]
      exact (by decide : "A".toList.map mask = ['0'])
    · have hbounds := stepInBank_bounds i.address (2 + signed 0x80 i.value)
      rw [operandText_of_relative8 ha, template_address hbounds.1 hbounds.2, ha]
      rfl
    · have hbounds := stepInBank_bounds i.address (3 + signed 0x8000 i.value)
      rw [operandText_of_relative16 ha, template_address hbounds.1 hbounds.2, ha]
      rfl
    · rw [ha] at hlength
      obtain ⟨x, y, ho⟩ := List.length_eq_two.1 hlength
      have hbyte : ∀ b : UInt8, (Hex.byte b).toList.map mask = ['0', '0'] := by
        intro b
        have hb := b.toNat_lt
        exact Hex.map_mask_padded (by decide) (by omega) (by omega)
      rw [operandText_of_blockMove ha ho, ha]
      simp only [String.toList_append, List.map_append, hbyte]
      rfl
  · have hpositive : 0 < 2 * i.operand.length := by
      have hbytes := Addressing.operandBytes_pos (w := i.state.widths) hframed
      omega
    have hvalue : (i.value : Int) < 16 ^ (2 * i.operand.length) := by
      have hlt : i.value < 256 ^ i.operand.length := littleEndian_lt rfl
      rw [pow_mul]
      exact_mod_cast hlt
    have hframe := i.shape.addressing.map_mask_frame
    rw [operandText_of_framed hframed, Addressing.template_of_framed hframed]
    simp only [String.toList_append, List.map_append, hframe,
      Hex.map_mask_padded hpositive (Int.natCast_nonneg _) hvalue]
    simp only [List.append_assoc]
    rfl

/-- **The text of an operand of known length tells its bytes.** -/
theorem operand_of_text (hi : i.ReadFrom c) (haddress : i.address = j.address)
    (hshape : i.shape = j.shape) (hlength : i.operand.length = j.operand.length)
    (h : i.operandText = j.operandText) : i.operand = j.operand := by
  have hbytes := hi.length_operand
  have hlt : littleEndian i.operand < 256 ^ i.operand.length := littleEndian_lt rfl
  have hlt' := littleEndian_lt hlength.symm
  by_cases hframed : i.shape.addressing ∈ Addressing.unframed
  · simp only [Addressing.unframed, List.mem_cons, List.not_mem_nil, or_false] at hframed
    rcases hframed with ha | ha | ha | ha | ha <;> rw [ha] at hbytes
    -- the first two have no operand bytes
    · rw [List.length_eq_zero_iff.1 hbytes, List.length_eq_zero_iff.1 (hlength.symm.trans hbytes)]
    · rw [List.length_eq_zero_iff.1 hbytes, List.length_eq_zero_iff.1 (hlength.symm.trans hbytes)]
    -- a branch shows where it leads to from the same address
    · rw [operandText_of_relative8 ha, operandText_of_relative8 (hshape ▸ ha), ← haddress] at h
      have hleads := Hex.address_inj (stepInBank_bounds _ _).1 (stepInBank_bounds _ _).1 h
      rw [hbytes] at hlt hlt'
      exact littleEndian_inj hlength (distance_inj (by decide) hlt hlt' hleads)
    · rw [operandText_of_relative16 ha, operandText_of_relative16 (hshape ▸ ha), ← haddress] at h
      have hleads := Hex.address_inj (stepInBank_bounds _ _).1 (stepInBank_bounds _ _).1 h
      rw [hbytes] at hlt hlt'
      exact littleEndian_inj hlength (distance_inj (by decide) hlt hlt' hleads)
    · obtain ⟨x, y, ho⟩ := List.length_eq_two.1 hbytes
      obtain ⟨x', y', ho'⟩ := List.length_eq_two.1 (hlength.symm.trans hbytes)
      rw [operandText_of_blockMove ha ho, operandText_of_blockMove (hshape ▸ ha) ho'] at h
      obtain ⟨rfl, rfl⟩ := blockMove_inj h
      rw [ho, ho']
  · rw [operandText_of_framed hframed, operandText_of_framed (hshape ▸ hframed), ← hshape] at h
    have hlist := congrArg String.toList h
    simp only [String.toList_append, List.append_cancel_right_eq, List.append_cancel_left_eq]
      at hlist
    have hvalue := Hex.padded_inj (Int.natCast_nonneg _) (Int.natCast_nonneg _)
      (String.toList_inj.1 hlist)
    exact littleEndian_inj hlength (Int.ofNat_inj.1 hvalue)

/-- **The text of an instruction at a known address tells its opcode.** -/
theorem opcode_of_text (hi : i.ReadFrom c) (hj : j.ReadFrom c') (h : i.text = j.text) :
    i.opcode = j.opcode ∧ i.operand.length = j.operand.length ∧
      i.operandText = j.operandText := by
  obtain ⟨hmnemonic, hoperand⟩ := join_inj h
  have htemplate : i.shape.addressing.template i.operand.length =
      j.shape.addressing.template j.operand.length := by
    rw [← hi.map_mask_operandText, hoperand, hj.map_mask_operandText]
  rw [hi.length_operand, hj.length_operand] at htemplate
  obtain ⟨hform, hshown⟩ := Addressing.form_of_template htemplate
  -- the form alone does not tell the way of addressing, but with the mnemonic it does
  have hopcode := Shape.opcode_inj hi.shape hj.shape hmnemonic hform
  have hshape := hi.shape_congr hj hopcode
  refine ⟨hopcode, ?_, hoperand⟩
  rw [hshape] at hshown
  rw [hi.length_operand, hj.length_operand, hshape]
  exact Addressing.operandBytes_congr hshown

end ReadFrom

end Instruction

/-- **At a known address, texts are equal if and only if bytes are.** So the text of an instruction
tells its opcode, the number of its operand bytes and these bytes, whichever cartridges and widths
they come from. -/
theorem text_tells_bytes {c c' : Cartridge} {a : Int} {s s' : WidthState} {i j : Instruction}
    (hi : decode c a s = .ok i) (hj : decode c' a s' = .ok j) :
    i.text = j.text ↔ i.raw = j.raw := by
  obtain ⟨hia, -, hi⟩ := decode_eq_ok_iff.1 hi
  obtain ⟨hja, -, hj⟩ := decode_eq_ok_iff.1 hj
  have haddress : i.address = j.address := hia.trans hja.symm
  unfold Instruction.raw
  rw [List.cons.injEq]
  constructor
  · intro h
    obtain ⟨hopcode, hlength, htext⟩ := hi.opcode_of_text hj h
    exact ⟨hopcode, hi.operand_of_text haddress (hi.shape_congr hj hopcode) hlength htext⟩
  · rintro ⟨hopcode, hoperand⟩
    unfold Instruction.text Instruction.operandText Instruction.destination? Instruction.value
    rw [hi.shape_congr hj hopcode, haddress, hoperand]

/-- A load that is reached with and without a known carry has one text. -/
theorem text_tells_bytes_load :
    ∃ i j, decode truncatedLoad 0x8001 .reset = .ok i ∧
      decode truncatedLoad 0x8001 ⟨.narrow, [.narrow], some true⟩ = .ok j ∧
      i ≠ j ∧ i.raw = [0xa9, 0x10] ∧ i.text = j.text := by
  have hshape : Shape.ofCode? ((0xa9 : UInt8).toNat : Int) =
      some ⟨.lda, .immediateM, .sequential⟩ := by
    decide +kernel
  have hload : truncatedLoad.byteAt 0x8001 = .ok 0xa9 := rfl
  have hoperand : truncatedLoad.bytesFrom (stepInBank 0x8001 1) 1 = .ok [0x10] := rfl
  have hdecode : ∀ s : WidthState, s.widths = .narrow → decode truncatedLoad 0x8001 s =
      .ok ⟨0x8001, 0xa9, ⟨.lda, .immediateM, .sequential⟩, [0x10], s⟩ := by
    intro s hs
    refine decode_eq_ok_iff.2 ⟨rfl, rfl, hload, hshape, ?_⟩
    rw [hs]
    exact hoperand
  have hi := hdecode .reset rfl
  have hj := hdecode ⟨.narrow, [.narrow], some true⟩ rfl
  exact ⟨_, _, hi, hj, by decide, rfl, (text_tells_bytes hi hj).2 rfl⟩

end RomAtlas
