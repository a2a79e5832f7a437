import RomAtlas.Proofs.Decode.Faithful
import RomAtlas.Proofs.Order
import RomAtlas.Proofs.Places
import RomAtlas.Region.Classify

/-!
# The bytes of decoded instructions

A bank shows one block of the image, from any of its mirrors, and the bytes of an instruction wrap
around in this block. So the offsets of an instruction are a piece of a circle, which its first
offset and its length determine.

* `Span.Decoded.offsets_congr`: **at one offset and under one pair of widths there is one span**,
  whatever mirror it was reached through.
* `Span.Decoded.start_mem_tail`: of two spans that share a byte and start at different offsets, one
  starts inside the other.
-/

namespace RomAtlas

/-! ## Blocks -/

/-- The number of bytes of the image that a bank shows. -/
def Layout.blockSize : Layout → Nat
  | loRom => 0x8000
  | hiRom => 0x10000

/-- Moves an offset inside its block. -/
def Layout.stepInBlock (l : Layout) (o k : Nat) : Nat :=
  o / l.blockSize * l.blockSize + (o + k) % l.blockSize

theorem Layout.stepInBlock_zero (l : Layout) (o : Nat) : l.stepInBlock o 0 = o := by
  cases l <;> unfold stepInBlock blockSize <;> dsimp only <;> omega

/-- Where two ways of going forward meet, the longer one passes the start of the shorter one. -/
theorem Layout.stepInBlock_sub {l : Layout} {o p j k : Nat}
    (h : l.stepInBlock o k = l.stepInBlock p j) (hjk : j ≤ k) : l.stepInBlock o (k - j) = p := by
  cases l <;> unfold stepInBlock blockSize at * <;> dsimp only at * <;> omega

/-- **A step inside a bank is a step inside a block.** -/
theorem place?_stepInBank {l : Layout} {a : Int} {o p k : Nat}
    (ho : AddressMap.place? l a = some o) (hp : AddressMap.place? l (stepInBank a k) = some p) :
    p = l.stepInBlock o k := by
  have hstep : bankPosition (stepInBank a k) = (bankPosition a + k) % 0x10000 := by
    rw [bankPosition_stepInBank]
    omega
  have hpos := bankPosition_lt a
  unfold Layout.stepInBlock Layout.blockSize
  -- both layouts place an address by its bank and its position in the bank
  cases l with
  | loRom =>
    obtain ⟨-, -, ho⟩ := AddressMap.place?_loRom_eq_some_iff.1 ho
    obtain ⟨-, -, hp⟩ := AddressMap.place?_loRom_eq_some_iff.1 hp
    rw [bankNumber_stepInBank, hstep] at hp
    subst ho hp
    dsimp only
    omega
  | hiRom =>
    obtain ⟨-, -, ho⟩ := AddressMap.place?_hiRom_eq_some_iff.1 ho
    obtain ⟨-, -, hp⟩ := AddressMap.place?_hiRom_eq_some_iff.1 hp
    rw [bankNumber_stepInBank, hstep] at hp
    subst ho hp
    dsimp only
    omega

theorem AddressMap.offset?_stepInBank {m : AddressMap} {a : Int} {o p k : Nat}
    (ho : m.offset? a = some o) (hp : m.offset? (stepInBank a k) = some p) :
    p = m.layout.stepInBlock o k :=
  place?_stepInBank (place?_of_offset? ho) (place?_of_offset? hp)

/-! ## Spans -/

variable {c : Cartridge} {i : Instruction} {s t : Span} {o : Nat}

/-- An offset is that of a byte of an instruction. -/
def Instruction.Covers (m : AddressMap) (i : Instruction) (o : Nat) : Prop :=
  ∃ k < i.length, m.offset? (stepInBank i.address k) = some o

theorem Instruction.ReadFrom.exists_start (h : i.ReadFrom c) :
    ∃ o, c.map.offset? i.address = some o := by
  obtain ⟨o, ho, -⟩ := Cartridge.byteAt_eq_ok.1 h.opcode
  exact ⟨o, ho⟩

/-- The bytes of a decoded instruction lie behind one another inside one block. -/
theorem Instruction.ReadFrom.offset?_step (h : i.ReadFrom c) {first k : Nat}
    (hfirst : c.map.offset? i.address = some first) (hk : k < i.length) :
    c.map.offset? (stepInBank i.address k) = some (c.map.layout.stepInBlock first k) := by
  obtain ⟨p, hp⟩ := h.shown hk
  rw [hp, AddressMap.offset?_stepInBank hfirst hp]

theorem Instruction.ReadFrom.raw_eq (h : i.ReadFrom c) {first k : Nat}
    (hfirst : c.map.offset? i.address = some first) (hk : k < i.length) :
    i.raw[k]? = c.image.bytes[c.map.layout.stepInBlock first k]? := by
  obtain ⟨b, hb, hbyte⟩ := h.raw_getElem? hk
  obtain ⟨p, hp, hpb⟩ := Cartridge.byteAt_eq_ok.1 hbyte
  rw [hb, ← AddressMap.offset?_stepInBank hfirst hp, hpb]

/-- The first byte of an instruction is one of its bytes. -/
theorem Instruction.ReadFrom.covers_start (h : i.ReadFrom c)
    (ho : c.map.offset? i.address = some o) : i.Covers c.map o := by
  have hpos : 0 < i.length := by
    unfold length
    omega
  refine ⟨0, hpos, ?_⟩
  rw [h.offset?_step ho hpos, Layout.stepInBlock_zero]

/-- The bytes of a decoded instruction go on from its first one inside one block. -/
theorem Instruction.ReadFrom.covers_iff (h : i.ReadFrom c) {first : Nat}
    (hfirst : c.map.offset? i.address = some first) :
    i.Covers c.map o ↔ ∃ k < i.length, c.map.layout.stepInBlock first k = o := by
  refine exists_congr fun k => and_congr_right fun hk => ?_
  rw [h.offset?_step hfirst hk, Option.some.injEq]

/-- The offset of a decoded instruction determines its opcode. -/
theorem Instruction.ReadFrom.opcode_congr {j : Instruction} (hi : i.ReadFrom c)
    (hj : j.ReadFrom c) (ho : c.map.offset? i.address = c.map.offset? j.address) :
    i.opcode = j.opcode ∧ i.shape = j.shape := by
  obtain ⟨o, hio, hib⟩ := Cartridge.byteAt_eq_ok.1 hi.opcode
  obtain ⟨p, hjo, hjb⟩ := Cartridge.byteAt_eq_ok.1 hj.opcode
  have hop : o = p := Option.some.inj (by rw [← hio, ← hjo, ho])
  have hcode : i.opcode = j.opcode := Option.some.inj (by rw [← hib, ← hjb, hop])
  exact ⟨hcode, hi.shape_congr hj hcode⟩

/-- The offset and the widths of a decoded instruction determine its length. -/
theorem Instruction.ReadFrom.length_congr {j : Instruction} (hi : i.ReadFrom c)
    (hj : j.ReadFrom c) (ho : c.map.offset? i.address = c.map.offset? j.address)
    (hw : i.state.widths = j.state.widths) : i.length = j.length := by
  unfold length
  rw [hi.length_operand, hj.length_operand, (hi.opcode_congr hj ho).2, hw]

/-- **The offset and the widths of a decoded instruction determine its bytes**, whatever address it
was reached at. -/
theorem Instruction.ReadFrom.covers_congr {j : Instruction} (hi : i.ReadFrom c) (hj : j.ReadFrom c)
    (hstart : c.map.offset? i.address = c.map.offset? j.address)
    (hw : i.state.widths = j.state.widths) : i.Covers c.map o ↔ j.Covers c.map o := by
  obtain ⟨first, hfirst⟩ := hi.exists_start
  rw [hi.covers_iff hfirst, hj.covers_iff (hstart ▸ hfirst), hi.length_congr hj hstart hw]

/-- The span of a decoded instruction: its offsets go on from that of its opcode inside one
block. -/
structure Span.Decoded (c : Cartridge) (s : Span) : Prop where
  readFrom : s.instr.ReadFrom c
  start : c.map.offset? s.instr.address = some s.start
  offsets : s.offsets = (List.range s.instr.length).map (c.map.layout.stepInBlock s.start)

theorem Span.decoded_of_ofInstruction (hi : i.ReadFrom c) (h : ofInstruction c.map i = .ok s) :
    s.instr = i ∧ s.Decoded c := by
  obtain ⟨offsets, ho, hs⟩ := bind_eq_ok.1 h
  obtain rfl := pure_eq_ok.1 hs
  obtain ⟨first, hfirst⟩ := hi.exists_start
  have hoffsets : offsets = (List.range i.length).map (c.map.layout.stepInBlock first) := by
    rw [eq_comm, ← List.forall₂_eq_eq_eq, List.forall₂_map_left_iff]
    refine (mapM_eq_ok.1 ho).imp fun k o hk => ?_
    unfold AddressMap.offsetOf at hk
    split at hk
    · next p hp =>
      cases hk
      exact (AddressMap.offset?_stepInBank hfirst hp).symm
    · cases hk
  have hstart : start ⟨i, offsets⟩ = first := by
    unfold start
    rw [hoffsets, Instruction.length, Nat.add_comm, List.range_succ_eq_map]
    exact Layout.stepInBlock_zero _ _
  refine ⟨rfl, hi, ?_, ?_⟩
  · rw [hstart]
    exact hfirst
  · rw [hstart]
    exact hoffsets

theorem Span.mem_tail_offsets {p : Nat} (hp : p ∈ s.offsets) (hne : p ≠ s.start) :
    p ∈ s.offsets.tail := by
  unfold Span.start at hne
  cases ho : s.offsets with
  | nil => rw [ho] at hp; cases hp
  | cons first rest =>
    rw [ho] at hp hne
    exact (List.mem_cons.1 hp).resolve_left hne

namespace Span.Decoded

theorem mem_offsets (h : s.Decoded c) :
    o ∈ s.offsets ↔ ∃ k < s.instr.length, c.map.layout.stepInBlock s.start k = o := by
  rw [h.offsets, List.mem_map]
  simp only [List.mem_range]

theorem mem_offsets_iff_covers (h : s.Decoded c) : o ∈ s.offsets ↔ s.instr.Covers c.map o := by
  rw [h.mem_offsets, h.readFrom.covers_iff h.start]

theorem start_mem (h : s.Decoded c) : s.start ∈ s.offsets :=
  h.mem_offsets_iff_covers.2 (h.readFrom.covers_start h.start)

/-- **At one offset and under one pair of widths there is one span.** -/
theorem offsets_congr (hs : s.Decoded c) (ht : t.Decoded c) (hstart : s.start = t.start)
    (hw : s.widths = t.widths) : s.offsets = t.offsets := by
  have hlength : s.instr.length = t.instr.length :=
    hs.readFrom.length_congr ht.readFrom (by rw [hs.start, ht.start, hstart]) hw
  rw [hs.offsets, ht.offsets, hstart, hlength]

/-- **Of two spans that share a byte and start at different offsets, one starts inside the other.**
-/
theorem start_mem_tail (hs : s.Decoded c) (ht : t.Decoded c) (hso : o ∈ s.offsets)
    (hto : o ∈ t.offsets) (hne : s.start ≠ t.start) :
    t.start ∈ s.offsets.tail ∨ s.start ∈ t.offsets.tail := by
  obtain ⟨k, hk, hko⟩ := hs.mem_offsets.1 hso
  obtain ⟨j, hj, hjo⟩ := ht.mem_offsets.1 hto
  -- the span that went further to reach the shared byte passes the start of the other
  rcases Nat.le_total j k with hjk | hkj
  · have hpass := Layout.stepInBlock_sub (hko.trans hjo.symm) hjk
    exact .inl (mem_tail_offsets (hs.mem_offsets.2 ⟨k - j, by omega, hpass⟩) hne.symm)
  · have hpass := Layout.stepInBlock_sub (hjo.trans hko.symm) hkj
    exact .inr (mem_tail_offsets (ht.mem_offsets.2 ⟨j - k, by omega, hpass⟩) hne)

end Span.Decoded

/-! ## The spans of a trace -/

/-- All instructions of a trace are decoded from a cartridge, each at its node. -/
def Trace.DecodedFrom (c : Cartridge) (t : Trace) : Prop :=
  ∀ n i, (n, i) ∈ t.instructions → n.decode c = .ok i

theorem Trace.DecodedFrom.readFrom {t : Trace} (h : t.DecodedFrom c) {n : Node}
    (hi : (n, i) ∈ t.instructions) : i.ReadFrom c :=
  (Node.decode_eq_ok_iff.1 (h n i hi)).2.2

/-- The spans of a trace are those of its instructions. -/
structure SpansOf (c : Cartridge) (t : Trace) (spans : List Span) : Prop where
  decoded : ∀ s ∈ spans, s.Decoded c
  mem : ∀ i, (∃ s ∈ spans, s.instr = i) ↔ ∃ n, (n, i) ∈ t.instructions

theorem Trace.DecodedFrom.spansOf {t : Trace} (h : t.DecodedFrom c) {spans : List Span}
    (hs : t.spans c.map = .ok spans) : SpansOf c t spans := by
  unfold Trace.spans at hs
  have hspan : ∀ s ∈ spans, ∃ n, (n, s.instr) ∈ t.instructions ∧ s.Decoded c := by
    intro s hmem
    obtain ⟨⟨n, i⟩, hn, hi⟩ := exists_of_mem_mapM hs hmem
    have hni : (n, i) ∈ t.instructions := mem_sortByNode.1 hn
    obtain ⟨rfl, hd⟩ := Span.decoded_of_ofInstruction (h.readFrom hni) hi
    exact ⟨n, hni, hd⟩
  refine ⟨fun s hmem => ?_, fun i => ⟨?_, ?_⟩⟩
  · obtain ⟨n, -, hd⟩ := hspan s hmem
    exact hd
  · rintro ⟨s, hmem, rfl⟩
    obtain ⟨n, hn, -⟩ := hspan s hmem
    exact ⟨n, hn⟩
  · rintro ⟨n, hn⟩
    obtain ⟨s, hmem, hi⟩ := exists_ok_of_mapM hs (mem_sortByNode.2 hn)
    exact ⟨s, hmem, (Span.decoded_of_ofInstruction (h.readFrom hn) hi).1⟩

end RomAtlas
