import RomAtlas.Listing
import RomAtlas.Proofs.Atlas.Total
import RomAtlas.Proofs.Decode.Faithful
import RomAtlas.Proofs.Image

/-!
# The bytes of a listing

A listing goes through the image offset by offset and writes a line for what stands there. Most
lines copy the bytes of the image from their offset on. The line of an instruction shows the bytes
that were decoded, and those wrap around at the end of a block where the listing goes straight on.

* `Atlas.Writes`: what a listing writes, line by line.
* `Atlas.Fits.exists_linesFrom`: a listing is always written.
* `Spread`: lines that take up the bytes from one offset to another.
* `listing_shows_bytes`: **a listing loses no byte and invents none**, as long as no instruction in
  it runs over the end of its block.
* `listing_invents_byte`: one that does shows a byte from elsewhere.
-/

namespace RomAtlas

/-- Inside a block an offset moves straight on. -/
theorem Layout.stepInBlock_of_le {l : Layout} {o k : Nat}
    (h : o % l.blockSize + k < l.blockSize) : l.stepInBlock o k = o + k := by
  unfold stepInBlock
  rw [Nat.add_mod, Nat.mod_eq_of_lt (a := k) (by omega), Nat.mod_eq_of_lt h]
  have := Nat.div_add_mod o l.blockSize
  rw [Nat.mul_comm] at this
  omega

@[simp]
theorem Instruction.length_raw (i : Instruction) : i.raw.length = i.length := by
  rw [raw, List.length_cons, length, Nat.add_comm]

/-! ## What a listing reads from an atlas -/

variable {c : Cartridge} {a : Atlas}

/-- An atlas that fits a cartridge: it has its address map, its instructions are decoded from the
cartridge and kept by their canonical addresses, and they stand in regions of code. -/
structure Atlas.Fits (c : Cartridge) (a : Atlas) : Prop where
  map : a.regions.map = c.map
  readFrom : ∀ (k : Int) (i : Instruction), a.instructions[k]? = some i → i.ReadFrom c
  canonical : ∀ (k : Int) (i : Instruction), a.instructions[k]? = some i →
    c.map.canonical i.address = k
  code : ∀ (k : Int) (i : Instruction), a.instructions[k]? = some i → ∀ o,
    c.map.offset? k = some o → ∃ r, a.regions.regionOf o = .ok r ∧ r.cls = .code

section

variable {given : Hints} {settings : TraceSettings} {checked : CheckedHints} {t : Trace}

/-- **The atlases of surveys fit their cartridges.** -/
theorem Atlas.OfSurvey.fits (h : a.OfSurvey c given settings checked t) : a.Fits c := by
  have hconfirmed : ∀ (k : Int) (i : Instruction), a.instructions[k]? = some i →
      Confirmed c.map t a.regions k i := by
    intro k i hi
    rw [h.instructions_eq] at hi
    exact confirmed_of_getElem? hi
  have hread : ∀ (k : Int) (i : Instruction), a.instructions[k]? = some i → i.ReadFrom c := by
    intro k i hi
    obtain ⟨n, hn⟩ := (hconfirmed k i hi).traced
    exact h.decodedFrom.readFrom hn
  refine ⟨h.map_eq, hread, fun k i hi => (hconfirmed k i hi).canonical, fun k i hi o ho => ?_⟩
  -- the address that was decoded may be a mirror of the one that the instruction is kept by
  refine (hconfirmed k i hi).exists_regionOf h.map_eq ((hread k i hi).covers_start ?_)
  have hsame := c.map.offset?_canonical_eq i.address
  rw [(hconfirmed k i hi).canonical] at hsame
  exact hsame.symm.trans ho

end

namespace Atlas.Fits

variable (h : a.Fits c) {o : Nat} {i : Instruction}
include h

theorem offset?_address (ho : o < c.map.size) (hi : a.instructions[c.map.shownAt o]? = some i) :
    c.map.offset? i.address = some o := by
  rw [← c.map.offset?_canonical_eq, h.canonical _ i hi]
  exact AddressMap.offset?_shownAt ho

/-- The bytes of an instruction go on from its offset inside its block. -/
theorem raw_getElem? (ho : o < c.map.size) (hi : a.instructions[c.map.shownAt o]? = some i)
    {k : Nat} (hk : k < i.length) : i.raw[k]? = c.image.bytes[c.map.layout.stepInBlock o k]? :=
  (h.readFrom _ i hi).raw_eq (h.offset?_address ho hi) hk

/-- No byte before an address where a data line has to end. -/
theorem exists_unmarkedBytes {count : Nat} (hle : o + count ≤ c.map.size) :
    ∃ n ≤ count, a.unmarkedBytes count o = .ok n := by
  induction count generalizing o with
  | zero => exact ⟨0, Nat.le_refl 0, rfl⟩
  | succ count ih =>
    unfold unmarkedBytes
    rw [h.map, AddressMap.addressOf_natCast (by omega)]
    dsimp only [Bind.bind, Except.bind]
    split
    · exact ⟨0, Nat.zero_le _, rfl⟩
    · obtain ⟨n, hn, hrest⟩ := ih (o := o + 1) (by omega)
      rw [hrest]
      exact ⟨1 + n, by omega, rfl⟩

/-- Where an instruction is confirmed, its line is written. -/
theorem lineAt_of_some {last : Nat} (ho : o < c.map.size)
    (hi : a.instructions[c.map.shownAt o]? = some i) :
    a.lineAt c.image o last (c.map.shownAt o) =
      .ok (⟨c.map.shownAt o, i.raw, a.instructionText i⟩, i.operand.length) := by
  obtain ⟨r, hr, hcls⟩ := h.code _ i hi o (AddressMap.offset?_shownAt ho)
  unfold lineAt
  rw [hr]
  dsimp only [Bind.bind, Except.bind]
  rw [hi, Option.filter_some, if_pos (decide_eq_true hcls)]
  rfl

omit h in
/-- Elsewhere the line has the bytes of the image up to the first of the places where it has to
end. -/
theorem lineAt_of_none {last n : Nat} {r : Region} (hr : a.regions.regionOf o = .ok r)
    (hn : a.unmarkedBytes (min r.stop.toNat (min (o + bytesPerLine) last) - (o + 1)) (o + 1) =
      .ok n)
    (hfits : o + n + 1 ≤ c.map.size) (hnone : a.instructions[c.map.shownAt o]? = none) :
    a.lineAt c.image o last (c.map.shownAt o) =
      .ok (Line.ofData (c.map.shownAt o) (c.image.between o (o + n + 1)), n) := by
  have hslice : (c.image.slice o (1 + n)).toList = c.image.between o (o + n + 1) := by
    have hsize := c.size_eq
    rw [Int.add_comm, Nat.add_assoc]
    exact Image.toList_slice (n := n + 1) (by omega)
  unfold lineAt
  rw [hr]
  dsimp only [Bind.bind, Except.bind]
  rw [hnone, Option.filter_none]
  dsimp only
  rw [hn]
  dsimp only
  rw [hslice]
  rfl

/-- Such a line has at least one byte. -/
theorem exists_lineAt_of_none {last : Nat} (ho : o < last) (hlast : last ≤ c.map.size)
    (hnone : a.instructions[c.map.shownAt o]? = none) :
    ∃ more, o + more + 1 ≤ last ∧ a.lineAt c.image o last (c.map.shownAt o) =
      .ok (Line.ofData (c.map.shownAt o) (c.image.between o (o + more + 1)), more) := by
  obtain ⟨r, hr, -⟩ := a.regions.exists_regionOf (o := o) (by omega) (by rw [h.map]; omega)
  have hcount : o + 1 + (min r.stop.toNat (min (o + bytesPerLine) last) - (o + 1)) ≤
      c.map.size := by omega
  obtain ⟨more, hmore, hunmarked⟩ := h.exists_unmarkedBytes hcount
  exact ⟨more, by omega, lineAt_of_none hr hunmarked (by omega) hnone⟩

end Atlas.Fits

/-! ## Lines -/

/-- The lines of the label at an address. -/
def Atlas.labelLines (a : Atlas) (address : Int) : List Line :=
  (a.labels[address]?).toList.map (Line.ofLabel address)

/-- What a listing writes from one offset to another, with its end in sight. -/
inductive Atlas.Writes (c : Cartridge) (a : Atlas) (last : Nat) : Nat → List Line → Nat → Prop
  | done {o : Nat} : last ≤ o → Writes c a last o [] o
  | instruction {o e : Nat} {i : Instruction} {lines : List Line} : o < last →
      a.instructions[c.map.shownAt o]? = some i → Writes c a last (o + i.length) lines e →
      Writes c a last o (a.labelLines (c.map.shownAt o) ++
        ⟨c.map.shownAt o, i.raw, a.instructionText i⟩ :: lines) e
  | data {o e n : Nat} {lines : List Line} : o < n → n ≤ last →
      a.instructions[c.map.shownAt o]? = none → Writes c a last n lines e →
      Writes c a last o (a.labelLines (c.map.shownAt o) ++
        Line.ofData (c.map.shownAt o) (c.image.between o n) :: lines) e

/-- One line is written behind the others, after the line of a label. -/
theorem Atlas.linesFrom_eq {image : Image} {o last more : Nat} {address : Int} {line : Line}
    {written : Array Line} (ho : o < last) (haddress : a.regions.map.addressOf o = .ok address)
    (hline : a.lineAt image o last address = .ok (line, more)) :
    a.linesFrom image o last written =
      a.linesFrom image (o + more + 1) last
        (written ++ (a.labelLines address ++ [line]).toArray) := by
  rw [linesFrom, if_pos ho, haddress]
  dsimp only [Bind.bind, Except.bind]
  rw [hline]
  dsimp only
  congr 1
  unfold labelLines
  refine Array.ext' ?_
  cases a.labels[address]? <;> simp

/-- **Lines can be written from an offset on** if a line can be made at each offset. What holds
behind the last offset, and in front of a line if it holds behind it, holds of what is written. -/
theorem Atlas.Fits.linesFrom_induction (h : a.Fits c) {first last : Nat} (hlast : last ≤ c.map.size)
    {P : Nat → List Line → Prop} (hdone : ∀ o, last ≤ o → P o [])
    (hline : ∀ o, first ≤ o → o < last → ∃ line more,
      a.lineAt c.image o last (c.map.shownAt o) = .ok (line, more) ∧
      ∀ lines, P (o + more + 1) lines → P o (a.labelLines (c.map.shownAt o) ++ line :: lines))
    (o : Nat) (hfirst : first ≤ o) (written : Array Line) :
    ∃ lines, a.linesFrom c.image o last written = .ok (written ++ lines.toArray) ∧ P o lines := by
  -- each line takes at least one byte, so the way to the end gets shorter
  induction hd : last - o using Nat.strongRecOn generalizing o written with
  | ind d ih =>
    subst hd
    by_cases ho : o < last
    · have haddress : a.regions.map.addressOf o = .ok (c.map.shownAt o) := by
        rw [h.map]
        exact AddressMap.addressOf_natCast (by omega)
      obtain ⟨line, more, hat, hholds⟩ := hline o hfirst ho
      obtain ⟨lines, hlines, hrest⟩ := ih _ (by omega) (o + more + 1) (by omega)
        (written ++ (a.labelLines (c.map.shownAt o) ++ [line]).toArray) rfl
      refine ⟨_, ?_, hholds lines hrest⟩
      rw [linesFrom_eq ho haddress hat, hlines]
      simp
    · refine ⟨[], ?_, hdone o (by omega)⟩
      rw [linesFrom, if_neg ho]
      simp

/-- **A listing is always written**, whatever stands in the image. -/
theorem Atlas.Fits.exists_linesFrom (h : a.Fits c) {last : Nat} (hlast : last ≤ c.map.size)
    (o : Nat) (written : Array Line) :
    ∃ lines e, a.linesFrom c.image o last written = .ok (written ++ lines.toArray) ∧
      a.Writes c last o lines e := by
  let P : Nat → List Line → Prop := fun o lines => ∃ e, a.Writes c last o lines e
  have hline : ∀ o, 0 ≤ o → o < last → ∃ line more,
      a.lineAt c.image o last (c.map.shownAt o) = .ok (line, more) ∧
      ∀ lines, P (o + more + 1) lines → P o (a.labelLines (c.map.shownAt o) ++ line :: lines) := by
    intro o _ ho
    cases hi : a.instructions[c.map.shownAt o]? with
    | some i =>
      refine ⟨_, _, h.lineAt_of_some (by omega) hi, ?_⟩
      rintro lines ⟨e, hwrites⟩
      rw [Nat.add_assoc, Nat.add_comm i.operand.length] at hwrites
      exact ⟨e, .instruction ho hi hwrites⟩
    | none =>
      obtain ⟨more, hfits, hline⟩ := h.exists_lineAt_of_none ho hlast hi
      refine ⟨_, _, hline, ?_⟩
      rintro lines ⟨e, hwrites⟩
      exact ⟨e, .data (by omega) hfits hi hwrites⟩
  obtain ⟨lines, hlines, e, hwrites⟩ := h.linesFrom_induction hlast
    (fun o ho => ⟨o, .done ho⟩) hline o (Nat.zero_le o) written
  exact ⟨lines, e, hlines, hwrites⟩

theorem Atlas.Fits.listing_eq (h : a.Fits c) {start stop : Int} {first last : Nat}
    (hfirst : c.map.offset? start = some first) (hlast : c.map.offset? (stop - 1) = some last) :
    a.listing c.image start stop = a.linesFrom c.image first (last + 1) #[] := by
  unfold listing AddressMap.offsetOf
  rw [h.map, hfirst, hlast]
  rfl

/-! ## The bytes of the lines -/

/-- A line copies the bytes of an image from an offset on. -/
def Line.Copies (image : Image) (o : Nat) (l : Line) : Prop :=
  l.bytes = image.between o (o + l.bytes.length)

theorem Line.Copies.le_size {image : Image} {o : Nat} {l : Line} (h : l.Copies image o)
    (ho : o ≤ image.size) : o + l.bytes.length ≤ image.size := by
  have hlength := congrArg List.length h
  rw [Image.length_between] at hlength
  omega

/-- The line of an instruction that runs over the end of its block, and goes on at the start of the
block. -/
structure Line.Wraps (c : Cartridge) (a : Atlas) (o : Nat) (l : Line) : Prop where
  instruction : ∃ i, a.instructions[l.address]? = some i ∧ l.bytes = i.raw
  crosses : c.map.layout.blockSize < o % c.map.layout.blockSize + l.bytes.length
  bytes : ∀ k < l.bytes.length, l.bytes[k]? = c.image.bytes[c.map.layout.stepInBlock o k]?

/-- Lines that take up the bytes from one offset to another: each stands at the offset where the
one before it ends, before the end of the stretch, and shows the bytes that stand there unless it
wraps. -/
inductive Spread (c : Cartridge) (a : Atlas) (last : Nat) : Nat → List Line → Nat → Prop
  | nil {o : Nat} : Spread c a last o [] o
  | cons {o e : Nat} {l : Line} {lines : List Line} : o < last → l.address = c.map.shownAt o →
      l.Copies c.image o ∨ l.Wraps c a o → Spread c a last (o + l.bytes.length) lines e →
      Spread c a last o (l :: lines) e

variable {last o e : Nat} {lines : List Line}

theorem Spread.labelLines (ho : o < last) (h : Spread c a last o lines e) :
    Spread c a last o (a.labelLines (c.map.shownAt o) ++ lines) e := by
  unfold Atlas.labelLines
  cases a.labels[c.map.shownAt o]? with
  | none => exact h
  | some label =>
    refine .cons ho rfl (.inl ?_) h
    exact Image.eq_between fun k hk => absurd hk (Nat.not_lt_zero k)

/-- The line of an instruction copies the image, or wraps. -/
theorem Atlas.Fits.copies_or_wraps (h : a.Fits c) {i : Instruction} (ho : o < c.map.size)
    (hi : a.instructions[c.map.shownAt o]? = some i) (text : String) :
    Line.Copies c.image o ⟨c.map.shownAt o, i.raw, text⟩ ∨
      Line.Wraps c a o ⟨c.map.shownAt o, i.raw, text⟩ := by
  have hbytes : ∀ k < i.raw.length,
      i.raw[k]? = c.image.bytes[c.map.layout.stepInBlock o k]? :=
    fun k hk => h.raw_getElem? ho hi (i.length_raw ▸ hk)
  by_cases hover : c.map.layout.blockSize < o % c.map.layout.blockSize + i.raw.length
  · exact .inr ⟨⟨i, hi, rfl⟩, hover, hbytes⟩
  · -- inside a block the program counter and the listing go the same way
    refine .inl (Image.eq_between fun k hk => ?_)
    have hk : k < i.raw.length := hk
    rw [hbytes k hk, Layout.stepInBlock_of_le (by omega)]

/-- **What a listing writes takes up the bytes of the image**, one line after another. -/
theorem Atlas.Writes.spread (hw : a.Writes c last o lines e) (h : a.Fits c)
    (hlast : last ≤ c.map.size) : Spread c a last o lines e := by
  induction hw with
  | done => exact .nil
  | @instruction o e i lines ho hi _ ih =>
    refine .labelLines ho (.cons ho rfl (h.copies_or_wraps (by omega) hi _) ?_)
    rwa [Instruction.length_raw]
  | @data o e n lines ho hn _ _ ih =>
    have hsize := c.size_eq
    have hend : o + (c.image.between o n).length = n := by
      rw [Image.length_between]
      omega
    refine .labelLines (by omega) (.cons (by omega) rfl (.inl ?_) ?_)
    · unfold Line.Copies Line.ofData
      rw [hend]
    · unfold Line.ofData
      rwa [hend]

/-- Nothing is written behind the end. -/
theorem Atlas.Writes.eq_nil (hw : a.Writes c last o lines e) (ho : last ≤ o) :
    lines = [] ∧ e = o := by
  cases hw with
  | done => exact ⟨rfl, rfl⟩
  | instruction hlt => omega
  | data hlt hle => omega

theorem Atlas.Writes.last_le (hw : a.Writes c last o lines e) : last ≤ e := by
  induction hw with
  | done h => exact h
  | instruction _ _ _ ih => exact ih
  | data _ _ _ _ ih => exact ih

/-- The last line is that of an instruction. -/
def Atlas.EndsInInstruction (a : Atlas) (lines : List Line) : Prop :=
  ∃ l i, lines.getLast? = some l ∧ a.instructions[l.address]? = some i ∧ l.bytes = i.raw

theorem Atlas.EndsInInstruction.append_cons (h : a.EndsInInstruction lines) (before : List Line)
    (first : Line) : a.EndsInInstruction (before ++ first :: lines) := by
  obtain ⟨l, i, hlast, hi⟩ := h
  refine ⟨l, i, ?_, hi⟩
  rw [List.getLast?_append, List.getLast?_cons, hlast]
  rfl

/-- Only the last line can go on behind the end, and only that of an instruction does. -/
theorem Atlas.Writes.overshoot (hw : a.Writes c last o lines e) (h : a.Fits c) (ho : o ≤ last) :
    e ≤ last ∨ e ≤ last + 3 ∧ a.EndsInInstruction lines := by
  induction hw with
  | done => exact .inl ho
  | @instruction o e i lines hlt hi hrest ih =>
    -- an instruction over the end is the last line, for nothing is written behind it
    by_cases hend : o + i.length ≤ last
    · exact (ih hend).imp_right fun ⟨hle, hlines⟩ => ⟨hle, hlines.append_cons _ _⟩
    · have hlength := (h.readFrom _ i hi).length_le
      obtain ⟨rfl, rfl⟩ := hrest.eq_nil (by omega)
      exact .inr ⟨by omega, _, i, List.getLast?_concat, hi, rfl⟩
  | data _ hle _ _ ih =>
    exact (ih hle).imp_right fun ⟨hle, hlines⟩ => ⟨hle, hlines.append_cons _ _⟩

/-- **Lines that do not wrap show exactly the bytes that they take up.** -/
theorem Spread.bytes (hs : Spread c a last o lines e) (ho : o ≤ c.map.size)
    (hlast : last ≤ c.map.size)
    (hstraight : ∀ l ∈ lines, ∀ p, c.map.offset? l.address = some p → ¬ l.Wraps c a p) :
    o ≤ e ∧ e ≤ c.map.size ∧ lines.flatMap Line.bytes = c.image.between o e ∧
      ∀ l ∈ lines, ∃ p, c.map.offset? l.address = some p ∧ l.Copies c.image p := by
  have hsize := c.size_eq
  induction hs with
  | @nil o => exact ⟨Nat.le_refl o, ho, Image.eq_between nofun, nofun⟩
  | @cons o e l lines hlt haddress hshows _ ih =>
    obtain ⟨hfirst, hrest⟩ := List.forall_mem_cons.1 hstraight
    have hoffset : c.map.offset? l.address = some o := by
      rw [haddress]
      exact AddressMap.offset?_shownAt (by omega)
    have hcopies := hshows.resolve_right (hfirst o hoffset)
    have hfits := hcopies.le_size (by omega)
    obtain ⟨hle, hend, hbytes, hlines⟩ := ih (by omega) hrest
    refine ⟨by omega, hend, ?_, List.forall_mem_cons.2 ⟨⟨o, hoffset, hcopies⟩, hlines⟩⟩
    rw [List.flatMap_cons, hbytes]
    exact (congrArg (· ++ _) hcopies).trans (Image.between_append (Nat.le_add_right o _) hle)

/-- What the lines of a listing of the bytes from one offset up to another show, where the last line
ends. -/
structure ListsBytes (c : Cartridge) (a : Atlas) (first last : Nat) (lines : List Line)
    (e : Nat) : Prop where
  spread : Spread c a last first lines e
  empty : last ≤ first → lines = [] ∧ e = first
  reaches : last ≤ e
  overshoot : first < last → last < e → e ≤ last + 3 ∧ a.EndsInInstruction lines
  /-- If no line wraps, the lines show the bytes of the image, all of them and no other, and each
  line those at its address. -/
  copies : (∀ l ∈ lines, ∀ o, c.map.offset? l.address = some o → ¬ l.Wraps c a o) →
    e ≤ c.map.size ∧ lines.flatMap Line.bytes = c.image.between first e ∧
      ∀ l ∈ lines, ∃ o, c.map.offset? l.address = some o ∧ l.Copies c.image o

theorem Atlas.Writes.listsBytes (hw : a.Writes c last o lines e) (h : a.Fits c)
    (ho : o ≤ c.map.size) (hlast : last ≤ c.map.size) : ListsBytes c a o last lines e where
  spread := hw.spread h hlast
  empty ho := hw.eq_nil ho
  reaches := hw.last_le
  overshoot ho he := (hw.overshoot h (Nat.le_of_lt ho)).resolve_left (Nat.not_le.2 he)
  copies hstraight := ((hw.spread h hlast).bytes ho hlast hstraight).2

/-- **A listing loses no byte and invents none**, as long as no instruction in it runs over the end
of its block. It is written for each atlas that a survey can make and any two addresses that show
bytes, and each of its lines stands where the one before it ends. -/
theorem listing_shows_bytes {given : Hints} {settings : TraceSettings} {checked : CheckedHints}
    {t : Trace} (h : a.OfSurvey c given settings checked t) {start stop : Int} {first last : Nat}
    (hfirst : c.map.offset? start = some first) (hlast : c.map.offset? (stop - 1) = some last) :
    ∃ lines e, a.listing c.image start stop = .ok lines ∧
      ListsBytes c a first (last + 1) lines.toList e := by
  have hfits := h.fits
  have hstart : first ≤ c.map.size := Nat.le_of_lt (AddressMap.lt_size_of_offset? hfirst)
  have hsize : last + 1 ≤ c.map.size := AddressMap.lt_size_of_offset? hlast
  obtain ⟨lines, e, hlines, hwrites⟩ := hfits.exists_linesFrom hsize first #[]
  refine ⟨lines.toArray, e, ?_, hwrites.listsBytes hfits hstart hsize⟩
  rw [hfits.listing_eq hfirst hlast, hlines, Array.empty_append]

/-- A listing of two bytes far from the end of their block shows these two. -/
theorem listing_shows_bytes_short : ∃ atlas checked t lines,
    survey shortCartridge startHints unlimitedSettings (.still false) = .ok atlas ∧
      atlas.OfSurvey shortCartridge startHints unlimitedSettings checked t ∧
      atlas.listing shortCartridge.image 0x8000 0x8002 = .ok lines ∧
      lines.toList.flatMap Line.bytes = shortCartridge.image.between 0 2 := by
  obtain ⟨atlas, hs⟩ : ∃ atlas,
      survey shortCartridge startHints unlimitedSettings (.still false) = .ok atlas := by
    refine exists_survey (fun v hv => ?_) (fun n hn => ?_) rfl
    · simpa [startHints, Hints.names] using hv
    · have hn : n = 0x8000 := by simpa [startHints, Hints.parts, EntryHint.parts] using hn
      omega
  obtain ⟨checked, t, -, hof⟩ := exists_ofSurvey hs
  have hfirst : shortCartridge.map.offset? 0x8000 = some 0 := by decide +kernel
  have hlast : shortCartridge.map.offset? (0x8002 - 1) = some 1 := by decide +kernel
  obtain ⟨lines, e, hlisting, hlists⟩ := listing_shows_bytes hof hfirst hlast
  refine ⟨atlas, checked, t, lines, hs, hof, hlisting, ?_⟩
  have hsize : shortCartridge.map.size = 2 := rfl
  have hblock : shortCartridge.map.layout.blockSize = 0x8000 := rfl
  obtain ⟨hend, hbytes, -⟩ := hlists.copies fun l _ o ho hwraps => by
    obtain ⟨i, hi, hraw⟩ := hwraps.instruction
    have hlength := (hof.fits.readFrom _ i hi).length_le
    have hover := hwraps.crosses
    have hlt := AddressMap.lt_size_of_offset? ho
    rw [hraw, Instruction.length_raw, hblock] at hover
    omega
  have hreaches := hlists.reaches
  obtain rfl : e = 2 := by omega
  exact hbytes

/-! ## An instruction over the end of its block -/

/-- One whole block of zeros. Zero is the opcode of an instruction of two bytes that halts. -/
def blockCartridge : Cartridge where
  image := ⟨Array.replicate 0x10000 0, by simp⟩
  map := ⟨.hiRom, 0x10000, .slow, by decide, by decide⟩
  size_eq := by simp [Image.size]

/-- The last byte is reached, and all bytes are declared to be code. -/
def edgeHints : Hints := ⟨[⟨0xC0FFFF, .null, none⟩], [], [⟨0xC00000, 0xC0FFFF, .null⟩], []⟩

/-- What the check makes of `edgeHints`. -/
def edgeChecked : CheckedHints where
  entryPoints := [⟨0xC0FFFF, none, .null⟩]
  jumpTables := ∅
  returningSites := []
  ranges := [⟨⟨0, 0x10000⟩, .code, 0, .null, 0xC00000, .codeRange 0⟩]

/-- The settings without a budget and without the vectors. -/
def edgeSettings : TraceSettings := { unlimitedSettings with useVectors := false }

/-- The instruction that starts at the last byte. -/
def haltAtEdge : Instruction := ⟨0xC0FFFF, 0, ⟨.brk, .immediate8, .halt⟩, [0], ⟨.narrow, [], none⟩⟩

theorem byteAt_blockCartridge {a : Int} {o : Nat} (h : blockCartridge.map.offset? a = some o) :
    blockCartridge.byteAt a = .ok 0 := by
  have hlt : o < 0x10000 := AddressMap.lt_size_of_offset? h
  exact Cartridge.byteAt_eq_ok.2 ⟨o, h, by simp [blockCartridge, hlt]⟩

theorem decode_blockCartridge : Node.decode blockCartridge ⟨0xC0FFFF, ⟨.narrow, [], none⟩⟩ =
    .ok haltAtEdge := by
  have hfirst : blockCartridge.map.offset? 0xC0FFFF = some 0xFFFF := by decide +kernel
  have hsecond : blockCartridge.map.offset? (stepInBank (stepInBank 0xC0FFFF 1) (0 : Nat)) =
      some 0 := by decide +kernel
  have hshape : Shape.ofCode? ((0 : UInt8).toNat : Int) = some ⟨.brk, .immediate8, .halt⟩ := by
    decide +kernel
  refine Node.decode_eq_ok_iff.2 ⟨rfl, rfl, byteAt_blockCartridge hfirst, hshape, ?_⟩
  exact mapM_eq_ok.2 (.cons (byteAt_blockCartridge hsecond) .nil)

/-- The instruction at the last byte is all that is traced. -/
theorem instructions_blockCartridge {t : Trace}
    (ht : trace blockCartridge edgeChecked edgeSettings (.still false) = .ok t) :
    ∀ e, e ∈ t.instructions ↔ e = (⟨0xC0FFFF, ⟨.narrow, [], none⟩⟩, haltAtEdge) := by
  have hc : edgeHints.check blockCartridge = .ok (edgeChecked, []) := rfl
  have hexact := exact_of_unlimited hc rfl rfl Watch.uncancelled_still ht
  have hseeds : (traceSeeds blockCartridge edgeChecked edgeSettings).nodes =
      [⟨0xC0FFFF, ⟨.narrow, [], none⟩⟩] := rfl
  have hclosed : FlowClosed blockCartridge edgeChecked
      (traceSeeds blockCartridge edgeChecked edgeSettings).nodes
      {⟨0xC0FFFF, ⟨.narrow, [], none⟩⟩} := by
    constructor
    · intro n hn
      rw [hseeds] at hn
      exact List.mem_singleton.1 hn
    · rintro n rfl i hi k hk
      obtain rfl := Except.ok.inj (decode_blockCartridge.symm.trans hi)
      -- the instruction halts, so that nothing follows it
      have hnext : (successors blockCartridge.map haltAtEdge edgeChecked).nodes = [] := rfl
      rw [hnext] at hk
      cases hk
  rintro ⟨n, i⟩
  rw [hexact.instructions n i]
  constructor
  · rintro ⟨hn, hi⟩
    obtain rfl := hexact.least.2 hclosed hn
    obtain rfl := Except.ok.inj (decode_blockCartridge.symm.trans hi)
    rfl
  · intro he
    cases he
    refine ⟨hexact.least.1.seed _ ?_, decode_blockCartridge⟩
    rw [hseeds]
    exact List.mem_cons_self

theorem exists_survey_edgeHints (c : Cartridge) :
    ∃ atlas, survey c edgeHints edgeSettings (.still false) = .ok atlas := by
  refine exists_survey (fun v hv => ?_) (fun n hn => ?_) rfl
  · simpa [edgeHints, Hints.names] using hv
  · have hn : n = 0xC0FFFF ∨ n = 0xC00000 ∨ n = 0xC0FFFF := by
      simpa [edgeHints, Hints.parts, EntryHint.parts, RangeHint.parts] using hn
    omega

/-- The instruction over the end of the block is confirmed. -/
theorem confirmed_blockCartridge
    (h : survey blockCartridge edgeHints edgeSettings (.still false) = .ok a) :
    a.instructions[blockCartridge.map.shownAt 0xFFFF]? = some haltAtEdge := by
  have hc : edgeHints.check blockCartridge = .ok (edgeChecked, []) := rfl
  obtain ⟨t, ht, hof⟩ := exists_ofSurvey_of_check hc h
  have hmem := instructions_blockCartridge ht
  have hshown : blockCartridge.map.shownAt 0xFFFF = blockCartridge.map.canonical 0xC0FFFF := by
    decide +kernel
  rw [hshown]
  refine hof.getElem?_of_only (fun s hs => ?_) List.mem_cons_self rfl ((hmem _).2 rfl) fun e he => ?_
  · rw [List.mem_singleton.1 hs]
  · rw [(hmem e).1 he]

theorem Atlas.bytes_labelLines (a : Atlas) (address : Int) :
    (a.labelLines address).flatMap Line.bytes = [] := by
  unfold labelLines
  cases a.labels[address]? <;> rfl

/-- A listing of the last byte of a block shows a second byte, and the image has none there. -/
theorem listing_invents_byte :
    ∃ atlas lines, survey blockCartridge edgeHints edgeSettings (.still false) = .ok atlas ∧
      atlas.listing blockCartridge.image 0xC0FFFF 0xC10000 = .ok lines ∧
      blockCartridge.map.offset? 0xC0FFFF = some 0xFFFF ∧
      ∀ e, lines.toList.flatMap Line.bytes ≠ blockCartridge.image.between 0xFFFF e := by
  obtain ⟨atlas, hs⟩ := exists_survey_edgeHints blockCartridge
  obtain ⟨checked, t, -, hof⟩ := exists_ofSurvey hs
  have hfits := hof.fits
  have hoffset : blockCartridge.map.offset? 0xC0FFFF = some 0xFFFF := by decide +kernel
  have hsize : 0xFFFF + 1 ≤ blockCartridge.map.size := Nat.le_refl 0x10000
  obtain ⟨lines, e, hlines, hwrites⟩ := hfits.exists_linesFrom hsize 0xFFFF #[]
  rw [Array.empty_append] at hlines
  refine ⟨atlas, lines.toArray, hs, (hfits.listing_eq hoffset hoffset).trans hlines, hoffset,
    fun e heq => ?_⟩
  -- the instruction has two bytes, and the image has one from here on
  have hi := confirmed_blockCartridge hs
  have hbytes : lines.flatMap Line.bytes = [0, 0] := by
    cases hwrites with
    | done hle => omega
    | instruction hlt hsome hrest =>
      obtain rfl := Option.some.inj (hi.symm.trans hsome)
      obtain ⟨rfl, -⟩ := hrest.eq_nil (by decide)
      rw [List.flatMap_append, atlas.bytes_labelLines]
      rfl
    | data _ _ hnone =>
      rw [hi] at hnone
      cases hnone
  have hlength := congrArg List.length heq
  rw [hbytes, Image.length_between, ← blockCartridge.size_eq] at hlength
  have hwhole : blockCartridge.map.size = 0x10000 := rfl
  rw [List.length_cons, List.length_singleton, hwhole] at hlength
  omega

end RomAtlas
