import RomAtlas.Proofs.Atlas.Total
import RomAtlas.Proofs.Hint.Removal
import RomAtlas.Proofs.Report
import RomAtlas.Proofs.Trace.Budget

/-!
# Reports of surveys

A survey reports rejected hints, what its trace noted and what its classification found. All of these
stand at an address, even one that is negative, but for the one conflict that says why a trace was
stopped. So no report of a survey has twins, in whatever order its trace went and wherever it was
stopped.

* `isPlaced_of_classify`, `isPlaced_of_check`: what stands at an address.
* `Report.OfSurvey.address_eq_none_iff`: **only a stopped run is noted without an address.**
* `reports_in_one_order`: **a report is a set in one order**, however its conflicts came.
-/

namespace RomAtlas

variable {c : Cartridge} {m : AddressMap} {t : Trace} {k : Conflict}

/-! ## Conflicts at an address -/

theorem Clash.isPlaced {x : Clash} (h : x.conflict m = .ok k) : k.IsPlaced := by
  unfold conflict at h
  obtain ⟨address, -, h⟩ := bind_eq_ok.1 h
  dsimp only at h
  split at h
  · cases h
    exact ⟨nofun, nofun⟩
  · cases h
    exact ⟨nofun, nofun⟩

theorem Overlap.isPlaced {x : Overlap} (h : x.conflict m = .ok k) : k.IsPlaced := by
  unfold conflict at h
  obtain ⟨address, -, h⟩ := bind_eq_ok.1 h
  obtain ⟨start, -, h⟩ := bind_eq_ok.1 h
  cases h
  exact ⟨nofun, nofun⟩

theorem HintOverlap.isPlaced {x : HintOverlap} (h : x.conflict m = .ok k) : k.IsPlaced := by
  obtain ⟨_, _, _, -, -, -, rfl⟩ := conflict_eq_ok h
  exact ⟨nofun, nofun⟩

theorem OverrideRun.isPlaced {run : OverrideRun} {layers : List DeclaredRange}
    (h : run.conflict m layers = .ok k) : k.IsPlaced := by
  obtain ⟨_, _, _, -, -, -, rfl⟩ := conflict_eq_ok h
  exact ⟨nofun, nofun⟩

/-- All that a classification finds stands at an address. -/
theorem isPlaced_of_classify {hints : CheckedHints} {regions : Partition}
    {conflicts : List Conflict} (h : classify m t hints = .ok (regions, conflicts)) :
    ∀ k ∈ conflicts, k.IsPlaced := by
  obtain ⟨spans, -, -, inTrace, inHints, hinTrace, hinHints, rfl⟩ := classify_eq_ok h
  intro k hk
  rcases List.mem_append.1 hk with hk | hk
  · rcases source_of_tracedConflicts hinTrace hk with ⟨x, -, hx⟩ | ⟨x, -, hx⟩ | ⟨u, -, rfl⟩
    · exact Clash.isPlaced hx
    · exact Overlap.isPlaced hx
    · exact ⟨nofun, nofun⟩
  · obtain ⟨overlaps, overrides, hoverlaps, hoverrides, rfl, -, -⟩ := hintConflicts_eq_ok hinHints
    rcases List.mem_append.1 hk with hk | hk
    · obtain ⟨x, -, hx⟩ := exists_of_mem_mapM hoverlaps hk
      exact HintOverlap.isPlaced hx
    · obtain ⟨run, -, hrun⟩ := exists_of_mem_mapM hoverrides hk
      exact OverrideRun.isPlaced hrun

/-- Hints are rejected at an address. -/
theorem isPlaced_of_check {given : Hints} {checked : CheckedHints} {rejected : List Conflict}
    (h : given.check c = .ok (checked, rejected)) : ∀ k ∈ rejected, k.IsPlaced := by
  intro k hk
  have hends := given.check_ends (c := c)
  rw [h] at hends
  obtain ⟨hkind, haddress⟩ := hends k hk
  exact ⟨haddress, by simp [hkind]⟩

/-- What a run notes stands at an address, but for the conflict that says why it was stopped. -/
theorem Fleet.Run.isPlaced_or_stopped {checked : CheckedHints} {settings : TraceSettings}
    {moves : List Move} {f : Fleet} {stopped : Option String}
    (h : Fleet.Run c checked (traceSeeds c checked settings) moves f)
    (hk : k ∈ (f.machine.toTrace stopped).conflicts) :
    k.IsPlaced ∨ ∃ text, k = Machine.budgetConflict f.machine.steps text := by
  rcases Machine.mem_conflicts_toTrace.1 hk with hk | hk
  · obtain ⟨text, -, hstopped⟩ := Option.map_eq_some_iff.1 (Option.mem_toList.1 hk)
    exact .inr ⟨text, hstopped.symm⟩
  · exact .inl (h.ok.records.isPlaced (placed_traceSeeds checked settings) k hk)

/-! ## The report of a survey -/

/-- The reports of surveys: rejected hints, what a trace noted and what its classification found,
where the trace may go in any order and be stopped at any point. -/
inductive Report.OfSurvey (c : Cartridge) (given : Hints) (settings : TraceSettings) :
    Report → Prop
  | mk {checked : CheckedHints} {rejected conflicts : List Conflict} {moves : List Move} {f : Fleet}
      {stopped : Option String} {regions : Partition} (hc : given.check c = .ok (checked, rejected))
      (hrun : Fleet.Run c checked (traceSeeds c checked settings) moves f)
      (hclassify : classify c.map (f.machine.toTrace stopped) checked = .ok (regions, conflicts)) :
      OfSurvey c given settings
        (((Report.mk rejected).addAll (f.machine.toTrace stopped).conflicts).addAll conflicts)

section

variable {given : Hints} {settings : TraceSettings} {r : Report}

theorem ofSurvey_of_survey {watch : Watch} {atlas : Atlas}
    (hs : survey c given settings watch = .ok atlas) :
    atlas.report.OfSurvey c given settings := by
  obtain ⟨checked, t, -, hmade⟩ := exists_ofSurvey hs
  obtain ⟨rejected, conflicts, hc, hclassify, hadded⟩ := hmade.report_eq
  obtain ⟨moves, f, stopped, hrun, -, rfl⟩ := hmade.traced
  have hreport : atlas.report =
      ((Report.mk rejected).addAll (f.machine.toTrace stopped).conflicts).addAll conflicts :=
    congrArg Report.mk hadded
  have hof := Report.OfSurvey.mk hc hrun hclassify
  rw [hreport]
  exact hof

/-- **Only a stopped run is noted without an address**, and only there. -/
theorem Report.OfSurvey.address_eq_none_iff (h : r.OfSurvey c given settings)
    (hk : k ∈ r.added) : k.address = none ↔ k.kind = .budgetExhausted := by
  have hplaced : k.IsPlaced → (k.address = none ↔ k.kind = .budgetExhausted) :=
    fun hk => iff_of_false hk.1 hk.2
  cases h with
  | @mk checked rejected conflicts moves f stopped regions hc hrun hclassify =>
    rw [added_addAll, added_addAll, List.mem_append, List.mem_append] at hk
    rcases hk with (hk | hk) | hk
    · exact hplaced (isPlaced_of_check hc k hk)
    · rcases hrun.isPlaced_or_stopped hk with hk | ⟨text, rfl⟩
      · exact hplaced hk
      · exact iff_of_true rfl rfl
    · exact hplaced (isPlaced_of_classify hclassify k hk)

/-- No report of a survey has twins. -/
theorem Report.OfSurvey.untwinned (h : r.OfSurvey c given settings) : r.Untwinned := by
  rintro a ha b hb ⟨hnone, rfl⟩
  have hkind := (h.address_eq_none_iff ha).1 hnone
  have haddress := (h.address_eq_none_iff hb).2 hkind
  cases haddress

end

/-- **Reports are sets in one order.** Twins alone have one key. After any calls a report holds what
was added, and it is a set in one order. Calls that add the same conflicts, of which no two are
twins, make the same list. In the report of a survey only a stopped run has no address, and no two
conflicts are twins. -/
theorem reports_in_one_order :
    (∀ a b : Conflict, a.compareKeys b = .eq ↔ a = b ∨ a.IsTwin b ∨ b.IsTwin a) ∧
    (∀ (r : Report) (calls : List Report.Call), (r.after calls).InOrder ∧
      ∀ k, k ∈ (r.after calls).toList ↔ k ∈ r.added ∨ ∃ call ∈ calls, k ∈ call.conflicts) ∧
    (∀ (r r' : Report) (calls calls' : List Report.Call),
      (∀ k, k ∈ (r.after calls).added ↔ k ∈ (r'.after calls').added) →
      (r.after calls).Untwinned → (r.after calls).toList = (r'.after calls').toList) ∧
    ∀ (c : Cartridge) (given : Hints) (settings : TraceSettings),
      (∀ watch atlas, survey c given settings watch = .ok atlas →
        atlas.report.OfSurvey c given settings) ∧
      ∀ r : Report, r.OfSurvey c given settings →
        (∀ k ∈ r.toList, k.address = none → k.kind = .budgetExhausted) ∧ r.Untwinned := by
  refine ⟨fun a b => Conflict.compareKeys_eq_iff, fun r calls => ?_, ?_, fun c given settings => ?_⟩
  · exact ⟨(r.after calls).inOrder, fun k => Report.mem_toList.trans Report.mem_added_after⟩
  · intro r r' calls calls' hsame hr
    -- the list of the other report is a sorted list of the same conflicts, so it is this one
    have hr' : (r'.after calls').Untwinned :=
      fun a ha b hb => hr a ((hsame a).2 ha) b ((hsame b).2 hb)
    have hother := (r'.after calls').inOrder
    refine ((r.after calls).inOrder.unique hr _ (fun k => ?_) hother.nodup ?_).symm
    · rw [hother.mem, hsame]
    · exact (hother.ascending hr').imp fun hab => by rw [hab]; rfl
  · refine ⟨fun watch atlas => ofSurvey_of_survey, fun r hr => ⟨fun k hk => ?_, hr.untwinned⟩⟩
    exact (hr.address_eq_none_iff (Report.mem_toList.1 hk)).1

/-- A hint is rejected at the address that counts as the place of a whole run. -/
def negativeNote : Conflict :=
  ⟨some (-1), .invalidHint, "entry_points[0]: entry point $FFFFFF is not mapped to ROM", []⟩

/-- A run was stopped before its first step. -/
def stopNote : Conflict := Machine.budgetConflict 0 "cancelled"

/-- Code starts at an address that shows no byte, and at the first byte. -/
def negativeHints : Hints := ⟨[⟨-1, .null, none⟩, ⟨0x8000, .null, none⟩], [], [], []⟩

theorem rejected_negativeHints {checked : CheckedHints} {rejected : List Conflict}
    (h : negativeHints.check shortCartridge = .ok (checked, rejected)) :
    rejected = [negativeNote] := by
  rw [Hints.check_eq] at h
  obtain ⟨r, hr, h⟩ := bind_eq_ok.1 h
  have hlisted : negativeHints.listed = [(.entryPoint ⟨-1, .null, none⟩, .entryPoint 0),
      (.entryPoint ⟨0x8000, .null, none⟩, .entryPoint 1)] := rfl
  rw [hlisted, List.foldlM_cons] at hr
  obtain ⟨r₁, h₁, hr⟩ := bind_eq_ok.1 hr
  have hverdict : (⟨-1, .null, none⟩ : EntryHint).verdict shortCartridge [] =
      .error (.rejected ⟨.unmapped .entryPoint (-1), -1⟩) := rfl
  obtain rfl := HintLedger.add_entryPoint_of_refused hverdict h₁
  cases hr
  cases h
  change [HintNote.conflict ⟨.entryPoint 0, .unmapped .entryPoint (-1), -1⟩] = [negativeNote]
  decide +kernel

theorem exists_survey_negativeHints :
    ∃ atlas, survey shortCartridge negativeHints unlimitedSettings (.still true) = .ok atlas ∧
      negativeNote ∈ atlas.report.toList := by
  have hnames : ∀ v ∈ negativeHints.names, v = .null := by
    intro v hv
    simpa [Hints.names, negativeHints] using hv
  have hshort : ∀ n, .int n ∈ negativeHints.parts → n.natAbs < 0x1000000 := by
    intro n hn
    have hn : n = -1 ∨ n = 0x8000 := by
      simpa [Hints.parts, negativeHints, EntryHint.parts] using hn
    omega
  have hsurvey :
      ∃ atlas, survey shortCartridge negativeHints unlimitedSettings (.still true) = .ok atlas :=
    exists_survey hnames hshort rfl
  obtain ⟨atlas, hs⟩ := hsurvey
  refine ⟨atlas, hs, ?_⟩
  obtain ⟨checked, t, -, hmade⟩ := exists_ofSurvey hs
  obtain ⟨rejected, conflicts, hc, -, hadded⟩ := hmade.report_eq
  rw [Report.mem_toList, hadded, rejected_negativeHints hc]
  simp

theorem reports_in_one_order_negative :
    ((Report.mk [negativeNote]).after [.add stopNote]).Untwinned ∧
    ((Report.mk [negativeNote]).after [.add stopNote]).toList =
      ((Report.mk []).after [.addAll [stopNote, negativeNote], .add negativeNote]).toList ∧
    (((Report.mk [negativeNote]).after [.add stopNote]).toList.Pairwise
      fun a b => a.compareKeys b = .lt) ∧
    ∃ atlas, survey shortCartridge negativeHints unlimitedSettings (.still true) = .ok atlas ∧
      negativeNote ∈ atlas.report.toList ∧
      (∀ k ∈ atlas.report.toList, k.address = none → k.kind = .budgetExhausted) ∧
      atlas.report.Untwinned := by
  obtain ⟨-, hcalls, hsame, hsurvey⟩ := reports_in_one_order
  have huntwinned : ((Report.mk [negativeNote]).after [.add stopNote]).Untwinned := by decide
  obtain ⟨atlas, hs, hnote⟩ := exists_survey_negativeHints
  obtain ⟨hof, hreports⟩ := hsurvey shortCartridge negativeHints unlimitedSettings
  refine ⟨huntwinned, hsame _ _ _ _ (fun k => ?_) huntwinned,
    (hcalls _ _).1.ascending huntwinned, atlas, hs, hnote, hreports _ (hof _ atlas hs)⟩
  simp [Report.mem_added_after, Report.Call.conflicts, or_comm]

end RomAtlas
