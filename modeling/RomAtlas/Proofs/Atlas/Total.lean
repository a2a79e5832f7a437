import RomAtlas.Proofs.Atlas.Survey
import RomAtlas.Proofs.Hint.Refused

/-!
# Surveys return

No stage of a survey fails on what an earlier one made: the bytes of decoded instructions and of
accepted ranges are in the image, so they have offsets, addresses and regions. What remains is that
an integer with too many digits cannot be shown, neither in a rejection nor as a step budget.

* `Convoy.Run.conclude_ends`: how a run can end, in whatever order it went.
* `Trace.OfRun.exists_ofTrace`: **the trace of any run, wherever it was stopped, makes an atlas.**
* `survey_total`: **if names are texts, a survey returns regions that tile the image, unless an
  integer is too long.**
* `check_countHints`: a count that is too long does end a survey, at its first stage.
-/

namespace RomAtlas

variable {c : Cartridge} {given : Hints} {settings : TraceSettings} {watch : Watch}

/-! ## Traces -/

/-- A step budget that has too many digits to be shown. -/
def TraceSettings.LongBudget (settings : TraceSettings) : Prop :=
  ∃ b, settings.stepBudget = some b ∧ Numeral.IsLong b

/-- **A finished run shows its trace**, unless it would have to show a step budget that is too
long. -/
theorem Convoy.Run.conclude_ends {checked : CheckedHints} {g : Convoy}
    (h : Convoy.Run c checked (traceSeeds c checked settings) (traceLimits settings watch) g)
    (hf : g.Finished) :
    Ends (fun t => t.OfRun c checked settings)
      (fun fault => fault = .integerTooLong ∧ settings.LongBudget)
      (Machine.conclude (g.fleet.machine, g.stopped)) := by
  cases hend : Machine.conclude (g.fleet.machine, g.stopped) with
  | ok t => exact h.ofRun hf hend
  | error fault =>
    cases hstopped : g.stopped with
    | none =>
      rw [hstopped] at hend
      cases hend
    | some reason =>
      obtain ⟨hstop, -⟩ := h.held.stopped reason hstopped
      rw [hstopped, Machine.conclude] at hend
      split at hend
      · cases hend
      next hnone =>
      refine ⟨(Except.error.inj hend).symm, ?_⟩
      -- the other reasons can always be shown
      rcases Limits.stop?_eq_some hstop with ⟨rfl, -⟩ | ⟨b, rfl, hb, -⟩ | ⟨b, rfl, -⟩
      · cases hnone
      · rw [Interruption.text?, Option.map_eq_none_iff] at hnone
        exact ⟨b, hb, Numeral.text?_eq_none.1 hnone⟩
      · cases hnone

/-- **Tracing returns**, unless it would have to show a step budget that is too long. -/
theorem trace_ends {checked : CheckedHints} {rejected : List Conflict}
    (hc : given.check c = .ok (checked, rejected)) :
    Ends (fun t => t.OfRun c checked settings)
      (fun fault => fault = .integerTooLong ∧ settings.LongBudget)
      (trace c checked settings watch) := by
  rw [trace]
  rcases he : explore c checked settings watch with ⟨m, stopped⟩
  obtain ⟨hrun, hf⟩ := (remembered_traceSeeds hc settings).convoyRun_explore he
  exact hrun.conclude_ends hf

/-! ## Atlases -/

/-- A partition of an image into regions that follow each other, have different classes where they
meet, and are found by each address that is mapped. -/
structure Partition.Covers (m : AddressMap) (p : Partition) : Prop where
  map : p.map = m
  tiles : Tiles 0 p.regions.toList m.size
  alternating : p.Alternating
  region : ∀ a o, m.offset? a = some o →
    ∃ r, p.regionOf o = .ok r ∧ r ∈ p.regions ∧ r.contains o = true

/-- What the stages of a survey hand on lies in the image: the ranges of hints, the bytes of
instructions and the pointers of tables, all that were declared. -/
structure InBounds (c : Cartridge) (given : Hints) (checked : CheckedHints) (t : Trace) :
    Prop where
  ranges : ∀ s ∈ checked.ranges, s.range.Within c.map.size
  bytes : ∀ n i, (n, i) ∈ t.instructions → ∀ k < i.length,
    ∃ o < c.map.size, c.map.offset? (stepInBank i.address k) = some o
  pointers : ∀ h ∈ given.jumpTables, ∀ table pointers range,
    h.readPointers c table = .ok (pointers, range) → (pointers.length : Int) = h.count

section

variable {checked : CheckedHints} {rejected : List Conflict} {t : Trace}
  (hc : given.check c = .ok (checked, rejected))
include hc

theorem Trace.OfRun.inBounds (ht : t.OfRun c checked settings) : InBounds c given checked t := by
  refine ⟨(Hints.check_sound hc).within, fun n i hi k hk => ?_,
    fun h _ table pointers range => JumpTableHint.length_of_readPointers⟩
  obtain ⟨o, ho⟩ := (ht.decodedFrom.readFrom hi).shown hk
  exact ⟨o, AddressMap.lt_size_of_offset? ho, ho⟩

/-- **The trace of any run makes an atlas**, whose regions cover the image. -/
theorem Trace.OfRun.exists_ofTrace (ht : t.OfRun c checked settings) :
    ∃ a, Atlas.ofTrace c checked rejected t = .ok a ∧ a.regions.Covers c.map := by
  obtain ⟨regions, conflicts, hclassify, halt⟩ :=
    exists_classify ht.decodedFrom (Hints.check_sound hc).within
  obtain ⟨spans, -, hclasses, -⟩ := classify_eq_ok hclassify
  obtain ⟨hmap, -⟩ := Partition.regions_of_ofClasses hclasses
  refine ⟨_, bind_eq_ok.2 ⟨_, hclassify, rfl⟩, hmap, hmap ▸ regions.tiles, halt, fun a o ho => ?_⟩
  have hlt := AddressMap.lt_size_of_offset? ho
  exact regions.exists_regionOf (by omega) (by rw [hmap]; omega)

end

/-! ## Surveys -/

/-- **How a survey can end**: with an atlas, or with a fault of its hints or its step budget. -/
theorem survey_ends (c : Cartridge) (given : Hints) (settings : TraceSettings) (watch : Watch) :
    Ends (fun a => a.regions.Covers c.map)
      (fun fault => Breaks given.parts given.names fault ∨
        fault = .integerTooLong ∧ settings.LongBudget)
      (survey c given settings watch) := by
  unfold survey
  refine (given.check_ends.with_eq.imp (fun _ h => h) fun _ => .inl).bind fun found hc => ?_
  refine ((trace_ends hc).imp (fun _ h => h) fun _ => .inr).bind fun t ht => ?_
  obtain ⟨a, hmade, hcovers⟩ := ht.exists_ofTrace hc
  rw [hmade]
  exact hcovers

/-- A survey of hints whose names are texts fails only for an integer that is too long. -/
theorem exists_survey_or_long (hnames : ∀ v ∈ given.names, v.IsName) (settings : TraceSettings)
    (watch : Watch) :
    (∃ a, survey c given settings watch = .ok a ∧ a.regions.Covers c.map) ∨
    survey c given settings watch = .error .integerTooLong ∧
      ((∃ n, .int n ∈ given.parts ∧ Numeral.IsLong n) ∨ settings.LongBudget) := by
  rcases (survey_ends c given settings watch).ok_or_error with
    hok | ⟨fault, hs, hbreaks | ⟨rfl, hlong⟩⟩
  · exact .inl hok
  · obtain ⟨rfl, hlong⟩ := Hints.exists_long_of_breaks hnames hbreaks
    exact .inr ⟨hs, .inl hlong⟩
  · exact .inr ⟨hs, .inr hlong⟩

/-- A survey of hints without names and with short integers returns, if it has no step budget. -/
theorem exists_survey (hnames : ∀ v ∈ given.names, v = .null)
    (hshort : ∀ n, .int n ∈ given.parts → n.natAbs < 0x1000000)
    (hbudget : settings.stepBudget = none) :
    ∃ a, survey c given settings watch = .ok a := by
  have hname : ∀ v ∈ given.names, v.IsName := by
    intro v hv
    rw [hnames v hv]
    exact nofun
  rcases exists_survey_or_long (c := c) hname settings watch with
    ⟨a, hs, -⟩ | ⟨-, ⟨n, hn, hlong⟩ | ⟨b, hb, -⟩⟩
  · exact ⟨a, hs⟩
  · have hlt := hshort n hn
    exact absurd hlong (Numeral.not_isLong (by omega))
  · rw [hbudget] at hb
    cases hb

/-- The hints of a survey are checked, if their names are texts and no integer is too long. -/
theorem exists_check_or_long (c : Cartridge) (hnames : ∀ v ∈ given.names, v.IsName) :
    (∃ checked rejected, given.check c = .ok (checked, rejected)) ∨
    given.check c = .error .integerTooLong ∧ ∃ n, .int n ∈ given.parts ∧ Numeral.IsLong n := by
  rcases (given.check_ends (c := c)).ok_or_error with ⟨found, hc, -⟩ | ⟨fault, hc, hbreaks⟩
  · exact .inl ⟨found.1, found.2, hc⟩
  · obtain ⟨rfl, hlong⟩ := Hints.exists_long_of_breaks hnames hbreaks
    exact .inr ⟨hc, hlong⟩

/-- **A survey returns.** If names are texts, hints are checked. Then every run comes to its end, in
whatever order it goes and wherever the budgets, the clock or a cancellation stop it, and shows a
trace. From the trace of any run an atlas is made, with regions that tile the image and have
different classes where they meet, and what the stages hand on lies in the image. So a survey
returns such an atlas. Each of these fails only if an integer of a hint or the step budget is too
long to be shown. -/
theorem survey_total (c : Cartridge) (hnames : ∀ v ∈ given.names, v.IsName)
    (settings : TraceSettings) :
    ((∃ checked rejected, given.check c = .ok (checked, rejected)) ∨
      given.check c = .error .integerTooLong ∧ ∃ n, .int n ∈ given.parts ∧ Numeral.IsLong n) ∧
    (∀ checked rejected, given.check c = .ok (checked, rejected) →
      (∀ watch g,
        Convoy.Run c checked (traceSeeds c checked settings) (traceLimits settings watch) g →
        g.ComesToEnd c checked (traceLimits settings watch) ∧
        (g.Finished →
          (∃ t, Machine.conclude (g.fleet.machine, g.stopped) = .ok t ∧
            t.OfRun c checked settings) ∨
          Machine.conclude (g.fleet.machine, g.stopped) = .error .integerTooLong ∧
            settings.LongBudget)) ∧
      ∀ t, t.OfRun c checked settings →
        ∃ a, Atlas.ofTrace c checked rejected t = .ok a ∧ a.regions.Covers c.map ∧
          InBounds c given checked t) ∧
    ∀ watch,
      (∃ a checked t, survey c given settings watch = .ok a ∧
        trace c checked settings watch = .ok t ∧ a.OfSurvey c given settings checked t ∧
        a.regions.Covers c.map ∧ InBounds c given checked t) ∨
      survey c given settings watch = .error .integerTooLong ∧
        ((∃ n, .int n ∈ given.parts ∧ Numeral.IsLong n) ∨ settings.LongBudget) := by
  refine ⟨exists_check_or_long c hnames, fun checked rejected hc => ⟨fun watch g hg => ?_, ?_⟩, ?_⟩
  · obtain ⟨moves, hrun⟩ := hg.held.run
    refine ⟨hrun.comesToEnd (remembered_traceSeeds hc settings), fun hf => ?_⟩
    rcases (hg.conclude_ends hf).ok_or_error with hok | ⟨fault, hend, rfl, hlong⟩
    · exact .inl hok
    · exact .inr ⟨hend, hlong⟩
  · intro t ht
    obtain ⟨a, hmade, hcovers⟩ := ht.exists_ofTrace hc
    exact ⟨a, hmade, hcovers, ht.inBounds hc⟩
  · intro watch
    rcases exists_survey_or_long (c := c) hnames settings watch with ⟨a, hs, hcovers⟩ | hlong
    · obtain ⟨checked, t, ht, ha⟩ := exists_ofSurvey hs
      obtain ⟨rejected, hc, -⟩ := ha.made
      exact .inl ⟨a, checked, t, hs, ht, ha, hcovers, ha.traced.inBounds hc⟩
    · exact .inr hlong

theorem survey_total_short : (∀ v ∈ startHints.names, v.IsName) ∧
    ∃ a, survey shortCartridge startHints unlimitedSettings (.still false) = .ok a ∧
      a.regions.Covers shortCartridge.map := by
  have hnames : ∀ v ∈ startHints.names, v.IsName := by
    intro v hv
    rw [List.mem_singleton.1 hv]
    exact nofun
  refine ⟨hnames, ?_⟩
  obtain ⟨-, -, hsurvey⟩ := survey_total shortCartridge hnames unlimitedSettings
  rcases hsurvey (.still false) with
    ⟨a, _, _, hs, -, -, hcovers, -⟩ | ⟨-, ⟨n, hn, hlong⟩ | ⟨b, hb, -⟩⟩
  · exact ⟨a, hs, hcovers⟩
  · rcases List.mem_cons.1 hn with hn | hn
    · cases hn
      exact absurd hlong (Numeral.not_isLong (by decide))
    · cases List.mem_singleton.1 hn
  · cases hb

/-! ## Integers that are too long -/

/-- A table with more pointers than an image has bytes is rejected. -/
theorem JumpTableHint.exists_rejection {h : JumpTableHint} (hcount : 0x400000 < h.count.natAbs)
    {table : Int} (htable : h.table = some table) (hname : h.label.IsName) :
    ∃ x, h.read c = .error (.rejected x) := by
  have hends : Ends (fun _ => True) (Refusal.Allowed h.label) (h.read c) :=
    h.read_ends.imp (fun _ _ => trivial) fun _ hr => hr
  cases hr : h.read c with
  | ok reading =>
    unfold read at hr
    obtain ⟨-, -, hr⟩ := bind_eq_ok.1 hr
    obtain ⟨-, -, hr⟩ := bind_eq_ok.1 hr
    rw [htable] at hr
    obtain ⟨⟨pointers, range⟩, hp, -⟩ := bind_eq_ok.1 hr
    -- two bytes or more for each pointer are too many
    obtain ⟨first, size, hcover, hpos, -, hlast, -, -⟩ := readPointers_eq_ok_iff.1 hp
    have hlt := AddressMap.lt_size_of_offset? hlast
    have hsize := c.map.size_le
    unfold maxImageSize at hsize
    have hwidth : h.pointerWidth = 3 ∨ h.pointerWidth = 2 := by
      unfold pointerWidth
      split
      · exact .inl rfl
      · exact .inr rfl
    rcases hwidth with hwidth | hwidth <;> rw [hwidth] at hcover <;> omega
  | error refusal =>
    rw [hr] at hends
    cases refusal with
    | rejected x => exact ⟨x, rfl⟩
    | broken fault => exact absurd hname hends.2

/-- A jump table at the first byte with a given number of pointers. -/
def countHints (n : Int) : Hints :=
  ⟨[], [], [], [⟨0x8000, [], some 0x8000, n, false, false, .null⟩]⟩

/-- **A count that is too long ends the checking of hints**, though the hint alone is wrong. -/
theorem check_countHints {n : Int} (h : Numeral.IsLong n) :
    (countHints n).check c = .error .integerTooLong := by
  have hcount : 0x400000 < n.natAbs := by
    by_contra hle
    exact Numeral.not_isLong (by omega) h
  obtain ⟨x, hx⟩ := JumpTableHint.exists_rejection (c := c)
    (h := ⟨0x8000, [], some 0x8000, n, false, false, .null⟩) hcount rfl nofun
  have hparts : (Value.inners? [.int 0x8000, .int n, .null, .int 0x8000]).isSome = false := by
    rw [Value.inners?_eq_none.2 ⟨.int n, by simp, Numeral.text?_eq_none.2 h⟩]
    rfl
  have htable : ∀ r : HintLedger, r.addTable c ⟨0x8000, [], some 0x8000, n, false, false, .null⟩
      (.jumpTable 0) = .error .integerTooLong := by
    intro r
    unfold HintLedger.addTable HintLedger.guard HintLedger.reject
    rw [hx]
    exact if_neg (by rw [JumpTableHint.parts]; exact Bool.eq_false_iff.1 hparts)
  unfold Hints.check countHints
  simp only [List.zipIdx_nil, List.zipIdx_cons, List.foldlM_nil, List.foldlM_cons, htable]
  rfl

/-- A survey of a good image fails on the first count that is too long. -/
theorem survey_fails_on_long_count :
    survey shortCartridge (countHints (Nat.pow 10 Numeral.maxDecimalDigits : Nat))
      unlimitedSettings (.still false) = .error .integerTooLong := by
  have hlong : Numeral.IsLong (Nat.pow 10 Numeral.maxDecimalDigits : Nat) := by
    unfold Numeral.IsLong
    rw [Int.natAbs_natCast]
  unfold survey
  rw [check_countHints hlong]
  rfl

end RomAtlas
