import RomAtlas.Proofs.Atlas.Total
import RomAtlas.Proofs.Region.Doubt

/-!
# More evidence never removes doubt

The instructions, failures and unresolved transfers of a trace are evidence on the bytes of an
image. A trace with more of it leaves no byte with less: what was code stays code or becomes
ambiguous, and what was ambiguous stays so. Bytes under range hints are not touched by it.

* `Trace.EvidenceIn.doubts`: doubt is kept.
* `Trace.EvidenceIn.classedBelow`: so is the order of the classes.
* `Fleet.Run.evidenceIn`: **a run that was cut off has part of the evidence of the whole run.**
* `evidence_never_removes_doubt`: all of these.
-/

namespace RomAtlas

/-- The place of a class in the order of what a trace can say of a byte: nothing, that it is code,
or that it is in doubt. Data is declared and never traced. -/
def ByteClass.evidence? : ByteClass → Option Nat
  | unknown => some 0
  | code => some 1
  | ambiguous => some 2
  | data => none

/-- One class stands at or below another one in the order of what a trace can say. -/
def ByteClass.AtMost (a b : ByteClass) : Prop :=
  ∃ x y, a.evidence? = some x ∧ b.evidence? = some y ∧ x ≤ y

/-- All that a trace says of bytes another one says too. -/
structure Trace.EvidenceIn (t u : Trace) : Prop where
  instructions : t.instructions ⊆ u.instructions
  failures : t.failures ⊆ u.failures
  sites : ∀ x ∈ t.xrefs, x.kind = .indirectUnresolved → x ∈ u.xrefs

/-- Two traces can be classified under the same hints. The second gives each byte that a range hint
covers the same class, and each other byte the same class or one that stands higher. -/
def Trace.ClassedBelow (c : Cartridge) (hints : CheckedHints) (t u : Trace) : Prop :=
  ∃ before after conflicts conflicts', classify c.map t hints = .ok (before, conflicts) ∧
    classify c.map u hints = .ok (after, conflicts') ∧
    ∀ o < c.map.size, ∃ r s, before.regionOf o = .ok r ∧ after.regionOf o = .ok s ∧
      ((∃ d ∈ hints.ranges, d.range.contains o = true) → r.cls = s.cls) ∧
      ((∀ d ∈ hints.ranges, d.range.contains o = false) → r.cls.AtMost s.cls)

/-- The settings of a trace that runs to its end. -/
def TraceSettings.unlimited (settings : TraceSettings) : TraceSettings :=
  { settings with stepBudget := none, timeBudget := none }

variable {c : Cartridge} {hints : CheckedHints} {t u : Trace} {o : Nat}

/-! ## Two traces -/

namespace Trace.EvidenceIn

theorem decoded (h : t.EvidenceIn u) {i : Instruction} (hi : t.Decoded i) : u.Decoded i := by
  obtain ⟨n, hn⟩ := hi
  exact ⟨n, h.instructions hn⟩

/-- **Doubt is kept**, each reason by itself. -/
theorem doubts (h : t.EvidenceIn u) (ho : t.Doubts c.map o) : u.Doubts c.map o := by
  cases ho with
  | widths hi hj ho hstart hw => exact .widths (h.decoded hi) (h.decoded hj) ho hstart hw
  | collision hi hj ho hcol => exact .collision (h.decoded hi) (h.decoded hj) ho hcol
  | undefined hfault hreason ho => exact .undefined (h.failures hfault) hreason ho
  | outOfBounds hfault hreason hat hi ho =>
    exact .outOfBounds (h.failures hfault) hreason hat (h.decoded hi) ho
  | unresolved hi ho hx hkind hsource =>
    exact .unresolved (h.decoded hi) ho (h.sites _ hx hkind) hkind hsource

end Trace.EvidenceIn

section

variable {before after : Partition} {conflicts conflicts' : List Conflict} {r s : Region}

/-- Under range hints the trace does not show. -/
theorem cls_eq_of_covered (hw : ∀ d ∈ hints.ranges, d.range.Within c.map.size)
    (ht : classify c.map t hints = .ok (before, conflicts))
    (hu : classify c.map u hints = .ok (after, conflicts')) (hr : before.regionOf o = .ok r)
    (hs : after.regionOf o = .ok s) (hover : ∃ d ∈ hints.ranges, d.range.contains o = true) :
    r.cls = s.cls := by
  obtain ⟨spans, -, hbefore, -⟩ := classify_eq_ok ht
  obtain ⟨spans', -, hafter, -⟩ := classify_eq_ok hu
  obtain ⟨d, hd, hcontains⟩ := hover
  -- the range on top is found among the hints alone
  have hfound : ((layers hints.ranges).reverse.find? (·.range.contains o)).isSome = true := by
    rw [List.find?_isSome]
    exact ⟨d, List.mem_reverse.2 (mem_layers.2 hd), hcontains⟩
  obtain ⟨top, htop⟩ := Option.isSome_iff_exists.1 hfound
  rw [cls_of_top hw hbefore hr htop, cls_of_top hw hafter hs htop]

/-- Outside range hints the class follows the evidence. -/
theorem Trace.EvidenceIn.cls_atMost (h : t.EvidenceIn u) (htd : t.DecodedFrom c)
    (hud : u.DecodedFrom c) (hw : ∀ d ∈ hints.ranges, d.range.Within c.map.size)
    (ht : classify c.map t hints = .ok (before, conflicts))
    (hu : classify c.map u hints = .ok (after, conflicts')) (ho : o < c.map.size)
    (hr : before.regionOf o = .ok r) (hs : after.regionOf o = .ok s)
    (hno : ∀ d ∈ hints.ranges, d.range.contains o = false) : r.cls.AtMost s.cls := by
  rw [cls_of_uncovered htd hw ht ho hr hno, cls_of_uncovered hud hw hu ho hs hno]
  by_cases hdoubt : u.Doubts c.map o
  · rw [if_pos hdoubt]
    split
    · exact ⟨2, 2, rfl, rfl, le_rfl⟩
    · split
      · exact ⟨1, 2, rfl, rfl, by omega⟩
      · exact ⟨0, 2, rfl, rfl, by omega⟩
  · have hdoubt' : ¬ t.Doubts c.map o := fun ht => hdoubt (h.doubts ht)
    rw [if_neg hdoubt, if_neg hdoubt']
    by_cases hcover : ∃ i, t.Decoded i ∧ i.Covers c.map o
    · have hcover' : ∃ i, u.Decoded i ∧ i.Covers c.map o := by
        obtain ⟨i, hi, hio⟩ := hcover
        exact ⟨i, h.decoded hi, hio⟩
      rw [if_pos hcover, if_pos hcover']
      exact ⟨1, 1, rfl, rfl, le_rfl⟩
    · rw [if_neg hcover]
      split
      · exact ⟨0, 1, rfl, rfl, by omega⟩
      · exact ⟨0, 0, rfl, rfl, le_rfl⟩

end

/-- **More evidence never removes doubt.** -/
theorem Trace.EvidenceIn.classedBelow (h : t.EvidenceIn u) (ht : t.DecodedFrom c)
    (hu : u.DecodedFrom c) (hw : ∀ d ∈ hints.ranges, d.range.Within c.map.size) :
    t.ClassedBelow c hints u := by
  obtain ⟨before, conflicts, hbefore, -⟩ := exists_classify ht hw
  obtain ⟨after, conflicts', hafter, -⟩ := exists_classify hu hw
  refine ⟨before, after, conflicts, conflicts', hbefore, hafter, fun o ho => ?_⟩
  obtain ⟨spans, -, hclasses, -⟩ := classify_eq_ok hbefore
  obtain ⟨spans', -, hclasses', -⟩ := classify_eq_ok hafter
  obtain ⟨r, hr⟩ := Partition.exists_regionOf_of_ofClasses hclasses ho
  obtain ⟨s, hs⟩ := Partition.exists_regionOf_of_ofClasses hclasses' ho
  exact ⟨r, s, hr, hs, cls_eq_of_covered hw hbefore hafter hr hs,
    h.cls_atMost ht hu hw hbefore hafter ho hr hs⟩

/-! ## Runs that were cut off -/

section

variable {seeds : Edges} {f g : Fleet} {moves moves' : List Move}

/-- What a run has completed a finished run has completed too. -/
theorem Fleet.Run.completions_subset (h : Fleet.Run c hints seeds moves f)
    (h' : Fleet.Run c hints seeds moves' g) (hg : g.Finished) :
    completions moves ⊆ completions moves' := by
  intro n hn
  have hsent : n ∈ dispatches moves := h.ok.flying.mem_iff.2 (List.mem_append_right _ hn)
  exact (h'.mem_completions hg).2 (h.reachable_of_dispatched hsent)

theorem flatMap_append_subset {α β : Type} {l k : List α} (h : l ⊆ k) (part : α → List β)
    (rest : List β) : l.flatMap part ++ rest ⊆ k.flatMap part ++ rest := by
  intro x hx
  rcases List.mem_append.1 hx with hx | hx
  · obtain ⟨a, ha, hx⟩ := List.mem_flatMap.1 hx
    exact List.mem_append_left _ (List.mem_flatMap.2 ⟨a, h ha, hx⟩)
  · exact List.mem_append_right _ hx

/-- What refers to an address in a run refers to it in a finished run. -/
theorem Fleet.Run.xrefs_subset (h : Fleet.Run c hints seeds moves f)
    (h' : Fleet.Run c hints seeds moves' g) (hg : g.Finished) (stopped stopped' : Option String) :
    (f.machine.toTrace stopped).xrefs ⊆ (g.machine.toTrace stopped').xrefs := by
  intro x hx
  have hx : x ∈ f.machine.xrefs := mem_sortUnique.1 hx
  refine mem_sortUnique.2 ?_
  rw [h.ok.records.xrefs] at hx
  rw [h'.ok.records.xrefs]
  exact flatMap_append_subset (h.completions_subset h' hg) _ _ hx

/-- **A run that was cut off has part of the evidence of the whole run**, wherever it was cut off
and in whatever order its nodes were completed. -/
theorem Fleet.Run.evidenceIn (h : Fleet.Run c hints seeds moves f)
    (h' : Fleet.Run c hints seeds moves' g) (hg : g.Finished) (stopped stopped' : Option String) :
    (f.machine.toTrace stopped).EvidenceIn (g.machine.toTrace stopped') := by
  have hsub := h.completions_subset h' hg
  have hr := h.ok.records
  have hr' := h'.ok.records
  refine ⟨?_, ?_, ?_⟩
  · rintro ⟨n, i⟩ hi
    obtain ⟨hn, hdecode⟩ := hr.mem_instructions.1 (mem_sortByNode.1 hi)
    exact mem_sortByNode.2 (hr'.mem_instructions.2 ⟨hsub hn, hdecode⟩)
  · rintro ⟨n, fault⟩ hf
    obtain ⟨hn, hdecode⟩ := hr.mem_failures.1 (mem_sortByNode.1 hf)
    exact mem_sortByNode.2 (hr'.mem_failures.2 ⟨hsub hn, hdecode⟩)
  · intro x hx _
    exact h.xrefs_subset h' hg stopped stopped' hx

end

/-- **More evidence never removes doubt.** If a trace of decoded instructions says all that another
one says, it gives each byte under a range hint the same class, and each other byte the same class
or one that stands higher. So does the whole run, compared with a run that was cut off anywhere, in
whatever order it went, and with a trace that its budgets, the clock or a cancellation have stopped.
The ranges of checked hints lie in the image. -/
theorem evidence_never_removes_doubt (c : Cartridge) :
    (∀ (hints : CheckedHints) (t u : Trace),
      (∀ d ∈ hints.ranges, d.range.Within c.map.size) → t.DecodedFrom c → u.DecodedFrom c →
      t.EvidenceIn u → t.ClassedBelow c hints u) ∧
    ∀ (given : Hints) (checked : CheckedHints) (rejected : List Conflict),
      given.check c = .ok (checked, rejected) → ∀ settings : TraceSettings,
      ∃ u, (∀ watch : Watch, watch.Uncancelled → trace c checked settings.unlimited watch = .ok u) ∧
        u.truncated = false ∧
        (∀ moves f stopped, Fleet.Run c checked (traceSeeds c checked settings) moves f →
          (f.machine.toTrace stopped).ClassedBelow c checked u) ∧
        ∀ watch t, trace c checked settings watch = .ok t → t.ClassedBelow c checked u := by
  refine ⟨fun hints t u hw ht hu h => h.classedBelow ht hu hw, ?_⟩
  intro given checked rejected hc settings
  have hw := (Hints.check_sound hc).within
  obtain ⟨whole, moves', hrun, hfinished, -⟩ := (remembered_traceSeeds hc
    settings.unlimited).exists_trace_unlimited rfl rfl Watch.uncancelled_still
  have hbelow : ∀ moves f stopped, Fleet.Run c checked (traceSeeds c checked settings) moves f →
      (f.machine.toTrace stopped).ClassedBelow c checked (whole.machine.toTrace none) := by
    intro moves f stopped h
    exact (h.evidenceIn hrun hfinished stopped none).classedBelow (h.decodedFrom stopped)
      (hrun.decodedFrom none) hw
  refine ⟨whole.machine.toTrace none, fun watch hwatch => ?_, rfl, hbelow, fun watch t ht => ?_⟩
  · exact hrun.trace_eq hc hfinished rfl rfl hwatch
  · obtain ⟨moves, f, stopped, h, -, rfl⟩ := ofRun_of_trace hc ht
    exact hbelow moves f stopped h

/-- A trace that met the byte of `tornTrace` at the first of its two addresses only. -/
def intactTrace : Trace := { tornTrace with instructions := tornTrace.instructions.take 1 }

theorem intactTrace_evidenceIn : intactTrace.EvidenceIn tornTrace :=
  ⟨List.take_subset 1 _, fun _ h => h, fun _ h _ => h⟩

theorem intactTrace_decodedFrom : intactTrace.DecodedFrom shortCartridge := fun n i hi =>
  tornTrace_decodedFrom n i (intactTrace_evidenceIn.instructions hi)

/-- One step is all that the budget leaves. -/
def oneStepSettings : TraceSettings := { unlimitedSettings with stepBudget := some 1 }

theorem exists_trace_oneStep {given : Hints} {checked : CheckedHints} {rejected : List Conflict}
    (hc : given.check c = .ok (checked, rejected)) :
    ∃ t, trace c checked oneStepSettings (.still false) = .ok t := by
  rcases (trace_ends hc).ok_or_error with ⟨t, ht, -⟩ | ⟨fault, -, -, b, hb, hlong⟩
  · exact ⟨t, ht⟩
  · obtain rfl := Option.some.inj hb
    exact absurd hlong (Numeral.not_isLong (by decide))

theorem evidence_never_removes_doubt_torn :
    (∀ d ∈ tailHints.ranges, d.range.Within shortCartridge.map.size) ∧
    intactTrace.DecodedFrom shortCartridge ∧ tornTrace.DecodedFrom shortCartridge ∧
    intactTrace.EvidenceIn tornTrace ∧
    intactTrace.ClassedBelow shortCartridge tailHints tornTrace ∧
    ∃ t u, startHints.check shortCartridge = .ok (startChecked, []) ∧
      trace shortCartridge startChecked oneStepSettings (.still false) = .ok t ∧
      trace shortCartridge startChecked oneStepSettings.unlimited (.still false) = .ok u ∧
      t.ClassedBelow shortCartridge startChecked u := by
  have hw : ∀ d ∈ tailHints.ranges, d.range.Within shortCartridge.map.size := by
    intro d hd
    obtain rfl := List.mem_singleton.1 hd
    exact ⟨by decide, by decide, by decide⟩
  obtain ⟨htraces, hruns⟩ := evidence_never_removes_doubt shortCartridge
  refine ⟨hw, intactTrace_decodedFrom, tornTrace_decodedFrom, intactTrace_evidenceIn,
    htraces _ _ _ hw intactTrace_decodedFrom tornTrace_decodedFrom intactTrace_evidenceIn, ?_⟩
  obtain ⟨t, ht⟩ := exists_trace_oneStep check_startHints
  obtain ⟨u, hu, -, -, hbelow⟩ := hruns _ _ _ check_startHints oneStepSettings
  exact ⟨t, u, check_startHints, ht, hu _ Watch.uncancelled_still, hbelow _ t ht⟩

end RomAtlas
