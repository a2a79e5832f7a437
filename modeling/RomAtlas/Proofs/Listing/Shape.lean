import RomAtlas.Proofs.Decode.Text
import RomAtlas.Proofs.Listing

/-!
# The shape of a listing

A listing is a row of lines that show bytes, with the line of a label in front of each that has one.
A line shows a confirmed instruction or up to eight bytes of data, and a line of data is as long as
it can be.

* `Atlas.Fits.unmarkedBytes_spec`: a line of data goes on exactly to the next mark.
* `Atlas.Lays`: the lines that show bytes, each at the offset where the one before it ends.
* `Atlas.not_showsInstruction_ofData`: no line of data reads like an instruction.
* `listing_shape`: **a listing is always written, and where its lines stand and end is fixed** by the
  regions, the labels and the confirmed instructions.
-/

namespace RomAtlas

variable {c : Cartridge} {a : Atlas}

theorem mem_iff_exists_getElem? {β : Type} {m : Std.TreeMap Int β} {address : Int} :
    address ∈ m ↔ ∃ b, m[address]? = some b := by
  rw [Std.TreeMap.mem_iff_isSome_getElem?, Option.isSome_iff_exists]

/-- The addresses at which a line of data must not go on: labelled ones and those of confirmed
instructions. -/
def Atlas.Marks (a : Atlas) (address : Int) : Prop := address ∈ a.labels ∨ address ∈ a.instructions

theorem Atlas.isMarked_iff {address : Int} : a.isMarked address = true ↔ a.Marks address := by
  unfold isMarked Marks
  rw [Bool.or_eq_true, Std.TreeMap.contains_iff_mem, Std.TreeMap.contains_iff_mem]

/-! ## One line -/

/-- A line that reads like an instruction. -/
def Atlas.ShowsInstruction (a : Atlas) (l : Line) : Prop :=
  ∃ i : Instruction, l.bytes = i.raw ∧ l.text = a.instructionText i

theorem Atlas.exists_instructionText (a : Atlas) (i : Instruction) :
    ∃ operand, a.instructionText i = Instruction.join i.shape.mnemonic operand := by
  unfold instructionText
  split
  · next label _ => exact ⟨label.name, rfl⟩
  · exact ⟨i.operandText, rfl⟩

/-- **No line of data reads like an instruction**: its first word is no mnemonic. -/
theorem Atlas.not_showsInstruction_ofData (a : Atlas) (address : Int) (bytes : List UInt8) :
    ¬ a.ShowsInstruction (Line.ofData address bytes) := by
  rintro ⟨i, -, htext⟩
  obtain ⟨operand, hjoin⟩ := a.exists_instructionText i
  have hlist := congrArg String.toList (htext.trans hjoin)
  unfold Line.ofData at hlist
  rw [String.toList_append, Instruction.toList_join] at hlist
  have hlength : "db ".toList.length = i.shape.mnemonic.name.toList.length := by
    rw [Mnemonic.length_name]
    rfl
  have hname := (List.append_inj hlist hlength).1
  have hall : ∀ m ∈ Mnemonic.all, "db ".toList ≠ m.name.toList := by decide +kernel
  exact hall _ (Mnemonic.mem_all _) hname

/-- A line of data at an offset, in a listing from one offset up to another. -/
structure Atlas.DataLine (c : Cartridge) (a : Atlas) (first last o : Nat) (l : Line) : Prop where
  shows : l = Line.ofData (c.map.shownAt o) (c.image.between o (o + l.bytes.length))
  nonempty : 1 ≤ l.bytes.length
  bounded : l.bytes.length ≤ 8
  within : first ≤ o ∧ o + l.bytes.length ≤ last
  unmarked : ∀ p, o < p → p < o + l.bytes.length → ¬ a.Marks (c.map.shownAt p)
  /-- It lies in one region, and only the end of the region, the end of the listing and a mark can
  make it short. -/
  region : ∃ r, a.regions.regionOf o = .ok r ∧ r.start ≤ o ∧ o + l.bytes.length ≤ r.stop ∧
    (l.bytes.length < 8 → o + l.bytes.length = r.stop ∨ o + l.bytes.length = last ∨
      a.Marks (c.map.shownAt (o + l.bytes.length)))

/-- A line that shows bytes at an offset, in a listing from one offset up to another. -/
structure Atlas.BodyLine (c : Cartridge) (a : Atlas) (first last o : Nat) (l : Line) : Prop where
  address : l.address = c.map.shownAt o
  within : first ≤ o ∧ o < last
  nonempty : 1 ≤ l.bytes.length
  instruction_iff : a.ShowsInstruction l ↔
    (∃ r, a.regions.regionOf o = .ok r ∧ r.cls = .code) ∧ l.address ∈ a.instructions
  instruction : ∀ i, a.ShowsInstruction l → a.instructions[l.address]? = some i →
    l = ⟨l.address, i.raw, a.instructionText i⟩
  data : ¬ a.ShowsInstruction l → a.DataLine c first last o l

theorem Atlas.BodyLine.offset?_address {first last o : Nat} {l : Line}
    (h : a.BodyLine c first last o l) (hlast : last ≤ c.map.size) :
    c.map.offset? l.address = some o := by
  have hlt := h.within.2
  rw [h.address]
  exact AddressMap.offset?_shownAt (by omega)

namespace Atlas.Fits

variable (h : a.Fits c) {first last o count n more : Nat} {l : Line} {i : Instruction}
include h

/-- **A line of data goes on exactly to the next mark.** -/
theorem unmarkedBytes_spec (hle : o + count ≤ c.map.size) (hn : a.unmarkedBytes count o = .ok n) :
    (∀ p, o ≤ p → p < o + n → ¬ a.Marks (c.map.shownAt p)) ∧
      (n < count → a.Marks (c.map.shownAt (o + n))) := by
  induction count generalizing o n with
  | zero =>
    obtain rfl : 0 = n := Except.ok.inj hn
    exact ⟨fun p _ _ => by omega, fun hlt => by omega⟩
  | succ count ih =>
    unfold unmarkedBytes at hn
    rw [h.map, AddressMap.addressOf_natCast (by omega)] at hn
    dsimp only [Bind.bind, Except.bind] at hn
    split at hn
    · next hmarked =>
      obtain rfl : 0 = n := Except.ok.inj hn
      exact ⟨fun p _ _ => by omega, fun _ => isMarked_iff.1 hmarked⟩
    · next hmarked =>
      have hnext : o + 1 + count ≤ c.map.size := by omega
      obtain ⟨rest, -, hrest⟩ := h.exists_unmarkedBytes hnext
      rw [hrest] at hn
      obtain rfl : 1 + rest = n := Except.ok.inj hn
      obtain ⟨hunmarked, hmark⟩ := ih hnext hrest
      refine ⟨fun p hlow hhigh => ?_, fun hlt => ?_⟩
      · rcases Nat.eq_or_lt_of_le hlow with rfl | hlow
        · exact fun hp => hmarked (isMarked_iff.2 hp)
        · exact hunmarked p (by omega) (by omega)
      · rw [← Nat.add_assoc]
        exact hmark (by omega)

theorem bodyLine_of_some (hfirst : first ≤ o) (ho : o < last) (hlast : last ≤ c.map.size)
    (hi : a.instructions[c.map.shownAt o]? = some i) :
    a.BodyLine c first last o ⟨c.map.shownAt o, i.raw, a.instructionText i⟩ where
  address := rfl
  within := ⟨hfirst, ho⟩
  nonempty := Nat.succ_pos _
  instruction_iff := by
    obtain ⟨r, hr, hcls⟩ := h.code _ i hi o (AddressMap.offset?_shownAt (by omega))
    exact iff_of_true ⟨i, rfl, rfl⟩ ⟨⟨r, hr, hcls⟩, mem_iff_exists_getElem?.2 ⟨i, hi⟩⟩
  instruction i' _ hi' := by
    obtain rfl := Option.some.inj (hi.symm.trans hi')
    rfl
  data hnot := absurd ⟨i, rfl, rfl⟩ hnot

/-- Where no instruction is confirmed, a line of data is made. -/
theorem exists_dataLine (hfirst : first ≤ o) (ho : o < last) (hlast : last ≤ c.map.size)
    (hnone : a.instructions[c.map.shownAt o]? = none) :
    ∃ l more, a.lineAt c.image o last (c.map.shownAt o) = .ok (l, more) ∧
      l.bytes.length = more + 1 ∧ a.DataLine c first last o l := by
  obtain ⟨r, hr, -, hcontains⟩ := a.regions.exists_regionOf (o := o) (by omega)
    (by rw [h.map]; omega)
  have hregion := Region.contains_iff.1 hcontains
  have height : bytesPerLine = 8 := rfl
  generalize hstop : min r.stop.toNat (min (o + bytesPerLine) last) = stop
  have hcount : o + 1 + (stop - (o + 1)) ≤ c.map.size := by omega
  obtain ⟨n, hle, hn⟩ := h.exists_unmarkedBytes hcount
  obtain ⟨hunmarked, hmark⟩ := h.unmarkedBytes_spec hcount hn
  have hline := lineAt_of_none hr (by rw [hstop]; exact hn) (by omega) hnone
  generalize hl : Line.ofData (c.map.shownAt o) (c.image.between o (o + n + 1)) = l at hline
  have hlength : l.bytes.length = n + 1 := by
    have hfits : o + (n + 1) ≤ c.image.size := by rw [← c.size_eq]; omega
    rw [← hl]
    exact Image.length_between_add hfits
  refine ⟨l, n, hline, hlength, ?_, by omega, by omega, ⟨hfirst, by omega⟩, ?_, r, hr, by omega,
    by omega, fun hshort => ?_⟩
  · rw [hlength]
    exact hl.symm
  · intro p hlow hhigh
    exact hunmarked p hlow (by omega)
  · by_cases hlt : n < stop - (o + 1)
    · have hnext := hmark hlt
      rw [Nat.add_assoc, Nat.add_comm 1 n, ← hlength] at hnext
      exact .inr (.inr hnext)
    · omega

/-- **The line that is made at an offset.** -/
theorem exists_bodyLine (hfirst : first ≤ o) (ho : o < last) (hlast : last ≤ c.map.size) :
    ∃ l more, a.lineAt c.image o last (c.map.shownAt o) = .ok (l, more) ∧
      l.bytes.length = more + 1 ∧ a.BodyLine c first last o l := by
  cases hi : a.instructions[c.map.shownAt o]? with
  | some i =>
    exact ⟨_, _, h.lineAt_of_some (by omega) hi, rfl, h.bodyLine_of_some hfirst ho hlast hi⟩
  | none =>
    obtain ⟨l, more, hline, hlength, hdata⟩ := h.exists_dataLine hfirst ho hlast hi
    have haddress : l.address = c.map.shownAt o := by
      rw [hdata.shows]
      rfl
    have hnot : ¬ a.ShowsInstruction l := by
      rw [hdata.shows]
      exact a.not_showsInstruction_ofData _ _
    refine ⟨l, more, hline, hlength, haddress, ⟨hfirst, ho⟩, hdata.nonempty, ?_,
      fun i hshows => absurd hshows hnot, fun _ => hdata⟩
    refine iff_of_false hnot fun hboth => ?_
    obtain ⟨i, hsome⟩ := mem_iff_exists_getElem?.1 hboth.2
    rw [haddress, hi] at hsome
    cases hsome

end Atlas.Fits

/-! ## The row of lines -/

/-- The lines that show bytes from an offset on, in a listing that starts before: each stands at the
offset where the one before it ends. -/
inductive Atlas.Lays (c : Cartridge) (a : Atlas) (first last : Nat) : Nat → List Line → Prop
  | done {o : Nat} : last ≤ o → Lays c a first last o []
  | line {o : Nat} {l : Line} {body : List Line} : o < last → a.BodyLine c first last o l →
      Lays c a first last (o + l.bytes.length) body → Lays c a first last o (l :: body)

/-- Lines with the lines of labels in front of those that have one. -/
def Atlas.withLabels (a : Atlas) (body : List Line) : List Line :=
  body.flatMap fun l => a.labelLines l.address ++ [l]

/-- **What is written is a row of lines with their labels.** -/
theorem Atlas.Fits.exists_lays (h : a.Fits c) {first last : Nat} (hlast : last ≤ c.map.size)
    (o : Nat) (hfirst : first ≤ o) (written : Array Line) :
    ∃ body, a.linesFrom c.image o last written = .ok (written ++ (a.withLabels body).toArray) ∧
      a.Lays c first last o body := by
  let P : Nat → List Line → Prop := fun o lines =>
    ∃ body, lines = a.withLabels body ∧ a.Lays c first last o body
  have hline : ∀ o, first ≤ o → o < last → ∃ l more,
      a.lineAt c.image o last (c.map.shownAt o) = .ok (l, more) ∧
      ∀ lines, P (o + more + 1) lines → P o (a.labelLines (c.map.shownAt o) ++ l :: lines) := by
    intro o hfirst ho
    obtain ⟨l, more, hline, hlength, hbody⟩ := h.exists_bodyLine hfirst ho hlast
    refine ⟨l, more, hline, ?_⟩
    rintro lines ⟨body, rfl, hlays⟩
    rw [Nat.add_assoc, ← hlength] at hlays
    refine ⟨l :: body, ?_, .line ho hbody hlays⟩
    simp [withLabels, hbody.address]
  obtain ⟨lines, hlines, body, rfl, hlays⟩ := h.linesFrom_induction hlast
    (fun o ho => ⟨[], rfl, .done ho⟩) hline o hfirst written
  exact ⟨body, hlines, hlays⟩

namespace Atlas.Lays

variable {first last o : Nat} {body : List Line} {l : Line}

/-- Each line of a row is one that is made at an offset behind the start of the row. -/
theorem exists_of_mem (h : a.Lays c first last o body) (hlast : last ≤ c.map.size) (hl : l ∈ body) :
    ∃ p, c.map.offset? l.address = some p ∧ o ≤ p ∧ a.BodyLine c first last p l := by
  induction h with
  | done => cases hl
  | @line o l' body ho hline _ ih =>
    rcases List.mem_cons.1 hl with rfl | hl
    · exact ⟨o, hline.offset?_address hlast, Nat.le_refl o, hline⟩
    · obtain ⟨p, hp, hle, hbody⟩ := ih hl
      exact ⟨p, hp, by omega, hbody⟩

theorem head (h : a.Lays c first last o body) (hlast : last ≤ c.map.size)
    (hl : body.head? = some l) : c.map.offset? l.address = some o := by
  cases h with
  | done => cases hl
  | line ho hline =>
    obtain rfl := Option.some.inj hl
    exact hline.offset?_address hlast

/-- Each line stands where the one before it ends. -/
theorem follows (h : a.Lays c first last o body) (hlast : last ≤ c.map.size) :
    body.IsChain fun l l' =>
      ∃ o, c.map.offset? l.address = some o ∧
        c.map.offset? l'.address = some (o + l.bytes.length) := by
  induction h with
  | done => exact .nil
  | @line o l body ho hline hrest ih =>
    refine List.isChain_cons.2 ⟨fun l' hl' => ?_, ih⟩
    exact ⟨o, hline.offset?_address hlast, hrest.head hlast hl'⟩

theorem ascends (h : a.Lays c first last o body) (hlast : last ≤ c.map.size) :
    body.Pairwise fun l l' =>
      ∃ o o', c.map.offset? l.address = some o ∧ c.map.offset? l'.address = some o' ∧ o < o' := by
  induction h with
  | done => exact .nil
  | @line o l body ho hline hrest ih =>
    refine .cons (fun l' hl' => ?_) ih
    obtain ⟨p, hp, hle, -⟩ := hrest.exists_of_mem hlast hl'
    have hpos := hline.nonempty
    exact ⟨o, p, hline.offset?_address hlast, hp, by omega⟩

end Atlas.Lays

/-- Where the lines that show bytes stand and what they are, in a listing from one offset up to
another. -/
structure Atlas.Shape (c : Cartridge) (a : Atlas) (first last : Nat) (body : List Line) : Prop where
  empty : last ≤ first → body = []
  starts : first < last → ∃ l, body.head? = some l ∧ c.map.offset? l.address = some first
  follows : body.IsChain fun l l' =>
    ∃ o, c.map.offset? l.address = some o ∧ c.map.offset? l'.address = some (o + l.bytes.length)
  ascends : body.Pairwise fun l l' =>
    ∃ o o', c.map.offset? l.address = some o ∧ c.map.offset? l'.address = some o' ∧ o < o'
  lines : ∀ l ∈ body, ∃ o, c.map.offset? l.address = some o ∧ a.BodyLine c first last o l

theorem Atlas.Lays.shape {first last : Nat} {body : List Line}
    (h : a.Lays c first last first body) (hlast : last ≤ c.map.size) :
    a.Shape c first last body where
  empty hle := by
    cases h with
    | done => rfl
    | line hlt => omega
  starts hlt := by
    cases hbody : body with
    | nil =>
      subst hbody
      cases h with
      | done hle => omega
    | cons l rest => exact ⟨l, rfl, h.head hlast (by rw [hbody]; rfl)⟩
  follows := h.follows hlast
  ascends := h.ascends hlast
  lines l hl := by
    obtain ⟨p, hp, -, hline⟩ := h.exists_of_mem hlast hl
    exact ⟨p, hp, hline⟩

/-- **A listing is always written, and where its lines stand and end is fixed**, for each atlas that
a survey can make. The lines that show bytes stand end to end from the first address on. One shows
an instruction exactly where an instruction is confirmed in code. Any other shows up to eight bytes
of data of one region, with no mark behind its first byte, and is shorter only before an end or a
mark. Labels stand in front of these lines. -/
theorem listing_shape {given : Hints} {settings : TraceSettings} {checked : CheckedHints}
    {t : Trace} (h : a.OfSurvey c given settings checked t) {start stop : Int} {first last : Nat}
    (hfirst : c.map.offset? start = some first) (hlast : c.map.offset? (stop - 1) = some last) :
    ∃ body, a.listing c.image start stop = .ok (a.withLabels body).toArray ∧
      a.Shape c first (last + 1) body := by
  have hfits := h.fits
  have hsize : last + 1 ≤ c.map.size := AddressMap.lt_size_of_offset? hlast
  obtain ⟨body, hlines, hlays⟩ := hfits.exists_lays hsize first (Nat.le_refl first) #[]
  refine ⟨body, ?_, hlays.shape hsize⟩
  rw [hfits.listing_eq hfirst hlast, hlines, Array.empty_append]

/-- The listing of the end of a block starts at its first address, whatever stands before. -/
theorem listing_shape_block : ∃ atlas checked t body,
    survey blockCartridge edgeHints edgeSettings (.still false) = .ok atlas ∧
      atlas.OfSurvey blockCartridge edgeHints edgeSettings checked t ∧
      atlas.listing blockCartridge.image 0xC0FFF0 0xC10000 =
        .ok (atlas.withLabels body).toArray ∧
      atlas.Shape blockCartridge 0xFFF0 0x10000 body ∧
      ∃ l, body.head? = some l ∧ blockCartridge.map.offset? l.address = some 0xFFF0 := by
  obtain ⟨atlas, hs⟩ := exists_survey_edgeHints blockCartridge
  have hfirst : blockCartridge.map.offset? 0xC0FFF0 = some 0xFFF0 := by decide +kernel
  have hlast : blockCartridge.map.offset? (0xC10000 - 1) = some 0xFFFF := by decide +kernel
  obtain ⟨checked, t, -, hof⟩ := exists_ofSurvey hs
  obtain ⟨body, hlisting, hshape⟩ := listing_shape hof hfirst hlast
  exact ⟨atlas, checked, t, body, hs, hof, hlisting, hshape, hshape.starts (by decide)⟩

end RomAtlas
