import RomAtlas.Proofs.Label.Inside
import RomAtlas.Proofs.Listing.Shape

/-!
# The labels of a listing

A listing has a line with the name of a label in front of the line of its address. A line of data
ends before a labelled address, so that each label gets its line there. A line of an instruction
goes on over all of its bytes, and a label inside it is lost, also where the listing uses its name.

* `Atlas.Lays.exists_cover`: each offset of a listing lies in one of its lines.
* `Atlas.Lays.defines`: a label at the start of a line is defined, once and directly in front of it.
* `Atlas.Lays.passesOver`: any other label lies inside the line of an instruction.
* `labels_listed`: **every label is defined in a listing, unless an instruction passes over it**, and
  when that can happen.
* `label_passed_over`: it does happen.
-/

namespace RomAtlas

variable {c : Cartridge} {a : Atlas} {first last o p : Nat} {body : List Line} {l l' : Line}
  {address : Int} {label : Label}

/-- A label is defined: a line with its name stands directly in front of the line that shows the
bytes at its address, and no other line has this address. -/
def Line.Defines (lines : List Line) (address : Int) (label : Label) : Prop :=
  ∃ before line after, lines = before ++ Line.ofLabel address label :: line :: after ∧
    line.address = address ∧ line.bytes ≠ [] ∧ ∀ l ∈ before ++ after, l.address ≠ address

/-- An offset is passed over: it lies behind the first of those that the line of an instruction
takes up. -/
def Atlas.PassesOver (c : Cartridge) (a : Atlas) (lines : List Line) (p : Nat) : Prop :=
  ∃ o i, a.instructions[c.map.shownAt o]? = some i ∧
    ⟨c.map.shownAt o, i.raw, a.instructionText i⟩ ∈ lines ∧ o < p ∧ p < o + i.length

/-! ## Lines and their labels -/

namespace Atlas

theorem mem_labelLines : l ∈ a.labelLines address ↔
    ∃ label, a.labels[address]? = some label ∧ l = Line.ofLabel address label := by
  unfold labelLines
  simp [eq_comm]

theorem mem_withLabels : l ∈ a.withLabels body ↔
    ∃ b ∈ body, l ∈ a.labelLines b.address ∨ l = b := by
  unfold withLabels
  simp

/-- A line has the address of a line that shows bytes. -/
theorem exists_address_of_mem_withLabels (h : l ∈ a.withLabels body) :
    ∃ b ∈ body, b.address = l.address := by
  obtain ⟨b, hb, hl | rfl⟩ := mem_withLabels.1 h
  · obtain ⟨label, -, rfl⟩ := mem_labelLines.1 hl
    exact ⟨b, hb, rfl⟩
  · exact ⟨l, hb, rfl⟩

/-- A line with bytes is not that of a label. -/
theorem mem_of_mem_withLabels (h : l ∈ a.withLabels body) (hl : l.bytes ≠ []) : l ∈ body := by
  obtain ⟨b, hb, hlabel | rfl⟩ := mem_withLabels.1 h
  · obtain ⟨label, -, rfl⟩ := mem_labelLines.1 hlabel
    exact absurd rfl hl
  · exact hb

theorem withLabels_cons (l : Line) (body : List Line) :
    a.withLabels (l :: body) = a.labelLines l.address ++ [l] ++ a.withLabels body :=
  List.flatMap_cons

theorem withLabels_append (before after : List Line) :
    a.withLabels (before ++ after) = a.withLabels before ++ a.withLabels after :=
  List.flatMap_append

end Atlas

/-! ## The line of an offset -/

namespace Atlas.Lays

variable (h : a.Lays c first last o body)
include h

/-- **Each offset of a listing lies in one of its lines.** -/
theorem exists_cover (hlow : o ≤ p) (hhigh : p < last) :
    ∃ before l after q, body = before ++ l :: after ∧ a.BodyLine c first last q l ∧ q ≤ p ∧
      p < q + l.bytes.length := by
  induction h with
  | done hle => omega
  | @line o l body ho hline _ ih =>
    by_cases hp : p < o + l.bytes.length
    · exact ⟨[], l, body, o, rfl, hline, hlow, hp⟩
    · obtain ⟨before, l', after, q, rfl, hl', hq⟩ := ih (by omega)
      exact ⟨l :: before, l', after, q, rfl, hl', hq⟩

/-- No line starts inside another one. -/
theorem disjoint (hlast : last ≤ c.map.size) {q q' : Nat} (hl : l ∈ body) (hl' : l' ∈ body)
    (hq : c.map.offset? l.address = some q) (hq' : c.map.offset? l'.address = some q')
    (hlt : q < q') : q + l.bytes.length ≤ q' := by
  induction h with
  | done => cases hl
  | @line o b body ho hline hrest ih =>
    have hb := hline.offset?_address hlast
    rcases List.mem_cons.1 hl with rfl | hmem
    · obtain rfl := Option.some.inj (hb.symm.trans hq)
      rcases List.mem_cons.1 hl' with rfl | hmem'
      · obtain rfl := Option.some.inj (hb.symm.trans hq')
        omega
      · obtain ⟨q'', hq'', hle, -⟩ := hrest.exists_of_mem hlast hmem'
        obtain rfl := Option.some.inj (hq''.symm.trans hq')
        exact hle
    · rcases List.mem_cons.1 hl' with rfl | hmem'
      · obtain ⟨q'', hq'', hle, -⟩ := hrest.exists_of_mem hlast hmem
        obtain rfl := Option.some.inj (hq''.symm.trans hq)
        obtain rfl := Option.some.inj (hb.symm.trans hq')
        omega
      · exact ih hmem hmem'

/-- **A label at the start of a line is defined.** -/
theorem defines (hlast : last ≤ c.map.size) (hlabel : a.labels[address]? = some label)
    (hl : l ∈ body) (haddress : l.address = address) :
    Line.Defines (a.withLabels body) address label := by
  obtain ⟨before, after, rfl⟩ := List.append_of_mem hl
  obtain ⟨q, hq, -, hline⟩ := h.exists_of_mem hlast hl
  obtain ⟨-, hafter, hbefore⟩ := List.pairwise_append.1 (h.ascends hlast)
  refine ⟨a.withLabels before, l, a.withLabels after, ?_, haddress, ?_, ?_⟩
  · have hline : a.labelLines l.address = [Line.ofLabel address label] := by
      unfold labelLines
      rw [haddress, hlabel]
      rfl
    rw [withLabels_append, withLabels_cons, hline]
    rfl
  · exact List.ne_nil_of_length_pos hline.nonempty
  · -- the lines before and behind have other offsets
    intro x hx hsame
    rcases List.mem_append.1 hx with hx | hx
    · obtain ⟨b, hb, hbx⟩ := exists_address_of_mem_withLabels hx
      obtain ⟨r, r', hr, hr', hlt⟩ := hbefore b hb l List.mem_cons_self
      rw [hbx, hsame, ← haddress, hr'] at hr
      obtain rfl := Option.some.inj hr
      omega
    · obtain ⟨b, hb, hbx⟩ := exists_address_of_mem_withLabels hx
      obtain ⟨r, r', hr, hr', hlt⟩ := (List.pairwise_cons.1 hafter).1 b hb
      rw [hbx, hsame, ← haddress, hr] at hr'
      obtain rfl := Option.some.inj hr'
      omega

/-- **A label without a line of its own lies inside the line of an instruction**, for a line of data
ends before it. -/
theorem passesOver (hlabel : a.labels[c.map.shownAt p]? = some label) (hlow : o ≤ p)
    (hhigh : p < last) (hno : ∀ l ∈ body, l.address ≠ c.map.shownAt p) :
    a.PassesOver c (a.withLabels body) p := by
  obtain ⟨before, l, after, q, rfl, hline, hle, hlt⟩ := h.exists_cover hlow hhigh
  have hl : l ∈ before ++ l :: after := List.mem_append_right _ List.mem_cons_self
  have hne : q ≠ p := by
    rintro rfl
    exact hno l hl hline.address
  by_cases hshows : a.ShowsInstruction l
  · obtain ⟨i, hi⟩ := mem_iff_exists_getElem?.1 (hline.instruction_iff.1 hshows).2
    have heq := hline.instruction i hshows hi
    have hlength : l.bytes.length = i.length := by
      rw [heq]
      exact i.length_raw
    rw [hline.address] at heq hi
    exact ⟨q, i, hi, mem_withLabels.2 ⟨l, hl, .inr heq.symm⟩, by omega, by omega⟩
  · have hmarked : a.Marks (c.map.shownAt p) := .inl (mem_iff_exists_getElem?.2 ⟨label, hlabel⟩)
    exact absurd hmarked ((hline.data hshows).unmarked p (by omega) hlt)

/-- A label that is passed over has no line. -/
theorem notMem_of_passesOver (hlast : last ≤ c.map.size) (hp : c.map.offset? address = some p)
    (hover : a.PassesOver c (a.withLabels body) p) :
    Line.ofLabel address label ∉ a.withLabels body := by
  intro hmem
  obtain ⟨q, i, hi, hline, hlow, hhigh⟩ := hover
  have hline := mem_of_mem_withLabels hline (List.cons_ne_nil _ _)
  obtain ⟨b, hb, hsame⟩ := exists_address_of_mem_withLabels hmem
  have hbp : c.map.offset? b.address = some p := hsame ▸ hp
  have hq : c.map.offset? (c.map.shownAt q) = some q := by
    have hlt := AddressMap.lt_size_of_offset? hp
    exact AddressMap.offset?_shownAt (by omega)
  have hend := h.disjoint hlast hline hb hq hbp hlow
  rw [Instruction.length_raw] at hend
  omega

end Atlas.Lays

/-! ## All labels -/

/-- What can lose a label at an offset: the trace was cut off, or the image ends inside the vector
table, or a range of code has the byte, or an instruction before it runs over the end of its
block. -/
inductive Atlas.MayLose (c : Cartridge) (a : Atlas) (hints : CheckedHints)
    (settings : TraceSettings) (p : Nat) : Prop
  | truncated : a.truncated = true → MayLose c a hints settings p
  | vectors : settings.useVectors = true → c.EndsInVectors → MayLose c a hints settings p
  | range {s : DeclaredRange} : s ∈ hints.ranges → s.cls = .code → s.range.contains p = true →
      MayLose c a hints settings p
  | block {o : Nat} {i : Instruction} : a.instructions[c.map.shownAt o]? = some i → o < p →
      p < o + i.length → c.map.layout.blockSize ≤ o % c.map.layout.blockSize + (p - o) →
      MayLose c a hints settings p

/-- The labels from one offset up to another in the lines of a listing. -/
structure Atlas.ListsLabels (c : Cartridge) (a : Atlas) (hints : CheckedHints)
    (settings : TraceSettings) (first last : Nat) (lines : List Line) : Prop where
  defined : ∀ address label p, a.labels[address]? = some label →
    c.map.offset? address = some p → first ≤ p → p < last → ¬ a.PassesOver c lines p →
    Line.Defines lines address label
  lost : ∀ address label p, a.labels[address]? = some label →
    c.map.offset? address = some p → a.PassesOver c lines p →
    Line.ofLabel address label ∉ lines ∧ a.MayLose c hints settings p
  /-- A name that stands for the target of an instruction is that of a label which is defined. -/
  operand : ∀ address i target label p, ⟨address, i.raw, a.instructionText i⟩ ∈ lines →
    i.targets.head? = some target → a.label? target = some label →
    a.instructionText i = Instruction.join i.shape.mnemonic label.name ∧
      (c.map.offset? target = some p → first ≤ p → p < last → ¬ a.PassesOver c lines p →
        Line.Defines lines (c.map.canonical target) label)

section

variable {given : Hints} {checked : CheckedHints} {settings : TraceSettings} {t : Trace}

/-- Labels stand at the addresses that their bytes are shown at. -/
theorem Atlas.OfSurvey.address_of_label (h : a.OfSurvey c given settings checked t)
    (hlabel : a.labels[address]? = some label) (hp : c.map.offset? address = some p) :
    address = c.map.shownAt p := by
  obtain ⟨rejected, hc, -⟩ := h.made
  obtain ⟨taken, hnamed⟩ := Hints.check_named hc
  rw [h.labels_eq] at hlabel
  obtain ⟨hcanonical, -⟩ := hnamed.label _ _ hlabel
  rw [← AddressMap.canonical_eq_shownAt hp]
  exact hcanonical.2.symm

theorem Atlas.OfSurvey.mayLose_of_passesOver (h : a.OfSurvey c given settings checked t)
    {lines : List Line} (hlabel : a.labels[address]? = some label)
    (hp : c.map.offset? address = some p) (hover : a.PassesOver c lines p) :
    a.MayLose c checked settings p := by
  obtain ⟨o, i, hi, -, hlow, hhigh⟩ := hover
  have hfits := h.fits
  have hsize := AddressMap.lt_size_of_offset? hp
  by_cases hblock : o % c.map.layout.blockSize + (p - o) < c.map.layout.blockSize
  · -- inside its block the instruction has the byte of the label
    have hstart := hfits.offset?_address (by omega) hi
    have hcover : i.Covers c.map p := by
      refine ((hfits.readFrom _ i hi).covers_iff hstart).2 ⟨p - o, by omega, ?_⟩
      rw [Layout.stepInBlock_of_le hblock]
      omega
    have hne : c.map.offset? i.address ≠ some p := by
      rw [hstart]
      intro heq
      have := Option.some.inj heq
      omega
    have hmem : address ∈ a.labels := mem_iff_exists_getElem?.2 ⟨label, hlabel⟩
    rcases label_inside_confirmed h hmem hp hi hcover hne with
      hcut | ⟨hv, hends⟩ | ⟨s, hs, hcls, hover⟩
    · exact .truncated hcut
    · exact .vectors hv hends
    · exact .range hs hcls hover
  · exact .block hi hlow hhigh (by omega)

/-- **Every label is defined in a listing, unless an instruction passes over it**, for each atlas
that a survey can make. A line with its name stands once, directly in front of the line of its
address. Without a truncated trace, an image that ends inside the vector table, a range of code over
the label and an instruction that runs over the end of its block, nothing is passed over. -/
theorem labels_listed (h : a.OfSurvey c given settings checked t) {start stop : Int}
    (hfirst : c.map.offset? start = some first) (hlast : c.map.offset? (stop - 1) = some last) :
    ∃ lines, a.listing c.image start stop = .ok lines ∧
      a.ListsLabels c checked settings first (last + 1) lines.toList := by
  have hfits := h.fits
  have hsize : last + 1 ≤ c.map.size := AddressMap.lt_size_of_offset? hlast
  obtain ⟨body, hlines, hlays⟩ := hfits.exists_lays hsize first (Nat.le_refl first) #[]
  rw [Array.empty_append] at hlines
  have hdefined : ∀ address label p, a.labels[address]? = some label →
      c.map.offset? address = some p → first ≤ p → p < last + 1 →
      ¬ a.PassesOver c (a.withLabels body) p →
      Line.Defines (a.withLabels body) address label := by
    intro address label p hlabel hp hlow hhigh hnot
    obtain rfl := h.address_of_label hlabel hp
    by_contra hno
    refine hnot (hlays.passesOver hlabel hlow hhigh fun l hl haddress => ?_)
    exact hno (hlays.defines hsize hlabel hl haddress)
  refine ⟨_, (hfits.listing_eq hfirst hlast).trans hlines, hdefined, ?_, ?_⟩
  · intro address label p hlabel hp hover
    exact ⟨hlays.notMem_of_passesOver hsize hp hover, h.mayLose_of_passesOver hlabel hp hover⟩
  · intro address i target label p _ htarget hlabel
    refine ⟨?_, fun hp hlow hhigh hnot => ?_⟩
    · unfold Atlas.instructionText
      rw [htarget, Option.bind_some, hlabel]
    · unfold Atlas.label? at hlabel
      rw [hfits.map] at hlabel
      exact hdefined _ label p hlabel (AddressMap.offset?_canonical hp) hlow hhigh hnot

end

/-! ## A label inside a branch -/

/-- A branch to its own second byte, from which on no instruction can be read. -/
def branchImage : Image := ⟨#[0x80, 0xff], Nat.two_pos⟩

theorem size_branchImage : shortCartridge.map.size = branchImage.size := rfl

/-- The cartridge of `branchImage`. -/
def branchCartridge : Cartridge := ⟨branchImage, shortCartridge.map, size_branchImage⟩

/-- The first byte is reached, and both bytes are declared to be code. -/
def branchHints : Hints := ⟨[⟨0x8000, .null, none⟩], [], [⟨0x8000, 0x8001, .null⟩], []⟩

/-- What the check makes of `branchHints`. -/
def branchChecked : CheckedHints where
  entryPoints := [⟨0x8000, none, .null⟩]
  jumpTables := ∅
  returningSites := []
  ranges := [⟨⟨0, 2⟩, .code, 0, .null, 0x8000, .codeRange 0⟩]

/-- The instruction of `branchCartridge`. -/
def branchInside : Instruction :=
  ⟨0x8000, 0x80, ⟨.bra, .relative8, .branchAlways⟩, [0xff], ⟨.narrow, [], none⟩⟩

theorem exists_survey_branchHints :
    ∃ atlas, survey branchCartridge branchHints edgeSettings (.still false) = .ok atlas := by
  refine exists_survey (fun v hv => ?_) (fun n hn => ?_) rfl
  · simpa [branchHints, Hints.names] using hv
  · have hn : n = 0x8000 ∨ n = 0x8000 ∨ n = 0x8001 := by
      simpa [branchHints, Hints.parts, EntryHint.parts, RangeHint.parts] using hn
    omega

theorem decode_branchCartridge :
    Node.decode branchCartridge ⟨0x8000, ⟨.narrow, [], none⟩⟩ = .ok branchInside ∧
      ∃ fault, Node.decode branchCartridge ⟨0x8001, ⟨.narrow, [], none⟩⟩ = .error fault := by
  have hbyte : branchCartridge.byteAt 0x8000 = .ok 0x80 := rfl
  have hshape : Shape.ofCode? ((0x80 : UInt8).toNat : Int) =
      some ⟨.bra, .relative8, .branchAlways⟩ := by
    decide +kernel
  have hbyte' : branchCartridge.byteAt 0x8001 = .ok 0xff := rfl
  have hshape' : Shape.ofCode? ((0xff : UInt8).toNat : Int) = some ⟨.sbc, .longX, .sequential⟩ := by
    decide +kernel
  have hpast : ∃ fault, branchCartridge.bytesFrom (stepInBank 0x8001 1) 3 = .error fault :=
    ⟨_, rfl⟩
  obtain ⟨fault, hpast⟩ := hpast
  refine ⟨Node.decode_eq_ok_iff.2 ⟨rfl, rfl, hbyte, hshape, rfl⟩, ?_⟩
  refine ⟨⟨0x8001, .operandUnread .sbc fault⟩, ?_⟩
  have hbytes : Addressing.operandBytes .narrow .longX = 3 := rfl
  simp only [Node.decode, decode, hbyte', hshape', Addressing.fetch_eq, hbytes, hpast]

/-- The branch is all that is decoded. -/
theorem instructions_branchCartridge {t : Trace} (h : t.Exact branchCartridge branchChecked
    edgeSettings) :
    ∀ e, e ∈ t.instructions ↔ e = (⟨0x8000, ⟨.narrow, [], none⟩⟩, branchInside) := by
  obtain ⟨hbranch, fault, hfault⟩ := decode_branchCartridge
  have hseeds : (traceSeeds branchCartridge branchChecked edgeSettings).nodes =
      [⟨0x8000, ⟨.narrow, [], none⟩⟩] := rfl
  have hclosed : FlowClosed branchCartridge branchChecked
      (traceSeeds branchCartridge branchChecked edgeSettings).nodes
      {n | n = ⟨0x8000, ⟨.narrow, [], none⟩⟩ ∨ n = ⟨0x8001, ⟨.narrow, [], none⟩⟩} := by
    constructor
    · intro n hn
      rw [hseeds] at hn
      exact .inl (List.mem_singleton.1 hn)
    · rintro n (rfl | rfl) i hi k hk
      · obtain rfl := Except.ok.inj (hbranch.symm.trans hi)
        have hnext : (successors branchCartridge.map branchInside branchChecked).nodes =
            [⟨0x8001, ⟨.narrow, [], none⟩⟩] := rfl
        rw [hnext] at hk
        exact .inr (List.mem_singleton.1 hk)
      · rw [hfault] at hi
        cases hi
  rintro ⟨n, i⟩
  rw [h.instructions n i]
  constructor
  · rintro ⟨hn, hi⟩
    rcases h.least.2 hclosed hn with rfl | rfl
    · obtain rfl := Except.ok.inj (hbranch.symm.trans hi)
      rfl
    · rw [hfault] at hi
      cases hi
  · intro he
    cases he
    refine ⟨h.least.1.seed _ ?_, hbranch⟩
    rw [hseeds]
    exact List.mem_cons_self

/-- The branch is confirmed, and its target has a label. -/
theorem confirmed_branchCartridge
    (h : survey branchCartridge branchHints edgeSettings (.still false) = .ok a) :
    a.instructions[branchCartridge.map.shownAt 0]? = some branchInside ∧
      (0x8000 : Int) ∈ a.labels ∧ (0x8001 : Int) ∈ a.labels := by
  have hc : branchHints.check branchCartridge = .ok (branchChecked, []) := rfl
  obtain ⟨t, ht, hof⟩ := exists_ofSurvey_of_check hc h
  have hexact := exact_of_unlimited hc rfl rfl Watch.uncancelled_still ht
  have hmem := instructions_branchCartridge hexact
  constructor
  · have hshown : branchCartridge.map.shownAt 0 = branchCartridge.map.canonical 0x8000 := by
      decide +kernel
    rw [hshown]
    refine hof.getElem?_of_only (fun s hs => ?_) List.mem_cons_self rfl ((hmem _).2 rfl)
      fun e he => ?_
    · rw [List.mem_singleton.1 hs]
    · rw [(hmem e).1 he]
  · rw [hof.labels_eq, (describe_labelsFor hc _ _).labelled,
      (describe_labelsFor hc _ _).labelled]
    refine ⟨.inr (.inl ⟨_, List.mem_cons_self, by decide +kernel⟩), .inl ?_⟩
    refine ⟨⟨0x8000, some 0x8001, .branch⟩, (hexact.xrefs _).2 (.inr ⟨_, _, (hmem _).2 rfl, ?_⟩),
      0x8001, rfl, by decide +kernel, by decide +kernel⟩
    have hxrefs : (successors branchCartridge.map branchInside branchChecked).xrefs =
        [⟨0x8000, some 0x8001, .branch⟩] := rfl
    rw [hxrefs]
    exact List.mem_cons_self

/-- The label of the entry point is defined. -/
theorem labels_listed_branch : ∃ atlas checked t lines label,
    survey branchCartridge branchHints edgeSettings (.still false) = .ok atlas ∧
      atlas.OfSurvey branchCartridge branchHints edgeSettings checked t ∧
      atlas.listing branchCartridge.image 0x8000 0x8002 = .ok lines ∧
      atlas.labels[(0x8000 : Int)]? = some label ∧ Line.Defines lines.toList 0x8000 label := by
  obtain ⟨atlas, hs⟩ := exists_survey_branchHints
  obtain ⟨-, hmem, -⟩ := confirmed_branchCartridge hs
  obtain ⟨label, hlabel⟩ := mem_iff_exists_getElem?.1 hmem
  have hfirst : branchCartridge.map.offset? 0x8000 = some 0 := by decide +kernel
  have hlast : branchCartridge.map.offset? (0x8002 - 1) = some 1 := by decide +kernel
  obtain ⟨checked, t, -, hof⟩ := exists_ofSurvey hs
  obtain ⟨lines, hlisting, hlists⟩ := labels_listed hof hfirst hlast
  refine ⟨atlas, checked, t, lines, label, hs, hof, hlisting, hlabel, ?_⟩
  refine hlists.defined _ label 0 hlabel hfirst (Nat.le_refl 0) (by decide) ?_
  rintro ⟨o, i, -, -, hlow, -⟩
  omega

/-- The label of the second byte is not, though the branch in front of it is written with its
name. -/
theorem label_passed_over : ∃ atlas lines label,
    survey branchCartridge branchHints edgeSettings (.still false) = .ok atlas ∧
      atlas.listing branchCartridge.image 0x8000 0x8002 = .ok lines ∧
      branchCartridge.map.offset? 0x8000 = some 0 ∧ branchCartridge.map.offset? 0x8001 = some 1 ∧
      atlas.labels[(0x8001 : Int)]? = some label ∧ Line.ofLabel 0x8001 label ∉ lines.toList ∧
      ∃ l ∈ lines.toList, l.address = 0x8000 ∧ l.text = Instruction.join .bra label.name := by
  obtain ⟨atlas, hs⟩ := exists_survey_branchHints
  obtain ⟨checked, t, -, hof⟩ := exists_ofSurvey hs
  have hfits := hof.fits
  obtain ⟨hi, -, hmem⟩ := confirmed_branchCartridge hs
  obtain ⟨label, hlabel⟩ := mem_iff_exists_getElem?.1 hmem
  have hfirst : branchCartridge.map.offset? 0x8000 = some 0 := by decide +kernel
  have hlast : branchCartridge.map.offset? 0x8001 = some 1 := by decide +kernel
  have hshown : branchCartridge.map.shownAt 0 = 0x8000 := by decide +kernel
  have hsize : 2 ≤ branchCartridge.map.size := by decide
  obtain ⟨body, hlines, hlays⟩ := hfits.exists_lays hsize 0 (Nat.le_refl 0) #[]
  rw [Array.empty_append] at hlines
  -- the first line is that of the branch
  have hline : ⟨branchCartridge.map.shownAt 0, branchInside.raw,
      atlas.instructionText branchInside⟩ ∈ atlas.withLabels body := by
    cases hlays with
    | done hle => omega
    | @line _ l rest _ hbody _ =>
      have hi' : atlas.instructions[l.address]? = some branchInside := hbody.address ▸ hi
      have hshows : atlas.ShowsInstruction l := hbody.instruction_iff.2
        ⟨hfits.code _ _ hi 0 hfirst, mem_iff_exists_getElem?.2 ⟨_, hi'⟩⟩
      have heq := hbody.instruction _ hshows hi'
      rw [hbody.address] at heq
      rw [← heq]
      exact Atlas.mem_withLabels.2 ⟨l, List.mem_cons_self, .inr rfl⟩
  have hover : atlas.PassesOver branchCartridge (atlas.withLabels body) 1 :=
    ⟨0, branchInside, hi, hline, by decide, by decide⟩
  refine ⟨atlas, _, label, hs, (hfits.listing_eq hfirst hlast).trans hlines, hfirst, hlast, hlabel,
    hlays.notMem_of_passesOver hsize hlast hover, _, hline, hshown, ?_⟩
  have htarget : branchInside.targets.head? = some 0x8001 := by decide +kernel
  have hcanonical : branchCartridge.map.canonical 0x8001 = 0x8001 := by decide +kernel
  have hnamed : atlas.label? 0x8001 = some label := by
    unfold Atlas.label?
    rw [hfits.map, hcanonical, hlabel]
  unfold Atlas.instructionText
  rw [htarget, Option.bind_some, hnamed]
  rfl

end RomAtlas
