import RomAtlas.Proofs.Trace.Exact

/-!
# Unresolved jumps are noted

A trace leaves two marks of a jump whose target it does not know: a cross reference, by which the
jump is found again when bytes are classified, and a conflict, which is reported. Both come from the
same instruction and stand at its address, so neither occurs without the other.

* `noted_successors`: this, for what follows one instruction.
* `Trace.OfRun.notesSites`: **this, for a whole trace**, cut off or not.
-/

namespace RomAtlas

/-- The kinds of conflicts that say of a byte that it is in doubt. -/
def ConflictKind.doubts : List ConflictKind :=
  [ambiguousWidth, widthDivergence, overlappingInstruction, decodeFailure, indirectUnresolved]

/-! ## Edges -/

namespace Edges

variable {e f : Edges} {a : Int}

/-- Edges that leave no byte in doubt. -/
structure Quiet (e : Edges) : Prop where
  xrefs : ∀ x ∈ e.xrefs, x.kind ≠ .indirectUnresolved
  conflicts : ∀ k ∈ e.conflicts, k.kind ∉ ConflictKind.doubts

/-- Edges that leave in doubt at most where the instruction at an address goes, and say so in both
ways. -/
structure Noted (a : Int) (e : Edges) : Prop where
  noted : ∀ x ∈ e.xrefs, x.kind = .indirectUnresolved → x.source = a ∧
    ∃ k ∈ e.conflicts, k.kind = .indirectUnresolved ∧ k.address = some a
  site : ∀ k ∈ e.conflicts, k.kind ∈ ConflictKind.doubts →
    k.kind = .indirectUnresolved ∧ k.address = some a ∧
      ∃ x ∈ e.xrefs, x.kind = .indirectUnresolved ∧ x.source = a

theorem quiet_empty : empty.Quiet := ⟨nofun, nofun⟩

theorem Quiet.append (he : e.Quiet) (hf : f.Quiet) : (e ++ f).Quiet :=
  ⟨fun x hx => (List.mem_append.1 hx).elim (he.xrefs x) (hf.xrefs x),
    fun k hk => (List.mem_append.1 hk).elim (he.conflicts k) (hf.conflicts k)⟩

theorem Quiet.noted (h : e.Quiet) : e.Noted a :=
  ⟨fun x hx hkind => absurd hkind (h.xrefs x hx), fun k hk hkind => absurd hkind (h.conflicts k hk)⟩

theorem Noted.append (he : e.Noted a) (hf : f.Noted a) : (e ++ f).Noted a := by
  constructor
  · intro x hx hkind
    rcases List.mem_append.1 hx with hx | hx
    · obtain ⟨hsource, k, hk, hnote⟩ := he.noted x hx hkind
      exact ⟨hsource, k, List.mem_append_left _ hk, hnote⟩
    · obtain ⟨hsource, k, hk, hnote⟩ := hf.noted x hx hkind
      exact ⟨hsource, k, List.mem_append_right _ hk, hnote⟩
  · intro k hk hkind
    rcases List.mem_append.1 hk with hk | hk
    · obtain ⟨hkind, haddress, x, hx, hsite⟩ := he.site k hk hkind
      exact ⟨hkind, haddress, x, List.mem_append_left _ hx, hsite⟩
    · obtain ⟨hkind, haddress, x, hx, hsite⟩ := hf.site k hk hkind
      exact ⟨hkind, haddress, x, List.mem_append_right _ hx, hsite⟩

end Edges

/-! ## Instructions -/

section

variable {m : AddressMap} {i : Instruction} {hints : CheckedHints} {states : List WidthState}

theorem quiet_fallThrough : (fallThrough i states).Quiet := ⟨nofun, nofun⟩

theorem quiet_uncertainWidth : (uncertainWidth i states).Quiet := by
  unfold uncertainWidth
  split
  · refine ⟨nofun, fun k hk => ?_⟩
    rw [List.mem_singleton.1 hk]
    simp [ConflictKind.doubts]
  · exact Edges.quiet_empty

theorem quiet_transferTo {kind : XrefKind} (hkind : kind ≠ .indirectUnresolved)
    (targets : List Int) : (transferTo m i states kind targets).Quiet := by
  constructor
  · intro x hx
    obtain ⟨t, -, rfl⟩ := List.mem_map.1 hx
    exact hkind
  · intro k hk
    obtain ⟨t, -, rfl⟩ := List.mem_map.1 hk
    simp [ConflictKind.doubts]

theorem noted_unresolved : (unresolved m i).Noted i.address := by
  refine ⟨fun x hx _ => ?_, fun k hk _ => ?_⟩
  · rw [List.mem_singleton.1 hx]
    exact ⟨rfl, _, List.mem_singleton_self _, rfl, rfl⟩
  · rw [List.mem_singleton.1 hk]
    exact ⟨rfl, rfl, _, List.mem_singleton_self _, rfl, rfl⟩

/-- **What follows an instruction leaves a cross reference to an unknown place exactly if it leaves
a conflict**, and no other conflict that puts a byte in doubt. -/
theorem noted_successors : (successors m i hints).Noted i.address :=
  successors_parts Edges.quiet_empty.noted (fun _ _ => .append) quiet_fallThrough.noted
    quiet_uncertainWidth.noted (fun _ targets _ hkind _ => (quiet_transferTo hkind targets).noted)
    fun _ _ => noted_unresolved

end

/-! ## Seeds -/

section

variable {c : Cartridge} {m : AddressMap} {state : WidthState}

theorem quiet_vectorEdge (slot : Int) (name : String) (target : Nat) :
    (vectorEdge m state slot name target).Quiet := by
  unfold vectorEdge
  split
  · exact Edges.quiet_empty
  split
  · refine ⟨fun x hx => ?_, nofun⟩
    rw [List.mem_singleton.1 hx]
    exact nofun
  · refine ⟨fun x hx => ?_, fun k hk => ?_⟩
    · rw [List.mem_singleton.1 hx]
      exact nofun
    · rw [List.mem_singleton.1 hk]
      simp [ConflictKind.doubts]

theorem quiet_traceSeeds (hints : CheckedHints) (settings : TraceSettings) :
    (traceSeeds c hints settings).Quiet :=
  seedEdges_parts Edges.quiet_empty (fun _ _ => .append) (fun _ _ he => ⟨he.xrefs, he.conflicts⟩)
    quiet_vectorEdge _

end

/-! ## Traces -/

/-- A trace notes each jump to an unknown place, at an instruction that it decoded, and has no other
conflict that puts a byte in doubt. -/
structure Trace.NotesSites (t : Trace) : Prop where
  noted : ∀ x ∈ t.xrefs, x.kind = .indirectUnresolved →
    ∃ k ∈ t.conflicts, k.kind = .indirectUnresolved ∧ k.address = some x.source
  site : ∀ k ∈ t.conflicts, k.kind ∈ ConflictKind.doubts → k.kind = .indirectUnresolved ∧
    ∃ n i, (n, i) ∈ t.instructions ∧ k.address = some i.address ∧
      ∃ x ∈ t.xrefs, x.kind = .indirectUnresolved ∧ x.source = i.address

/-- **A machine notes each jump to an unknown place**, whether or not it was stopped. -/
theorem Machine.Records.notesSites {c : Cartridge} {hints : CheckedHints} {seeds : Edges}
    {done : List Node} {m : Machine} (h : m.Records c hints seeds done) (hseeds : seeds.Quiet)
    (stopped : Option String) : (m.toTrace stopped).NotesSites := by
  constructor
  · intro x hx hkind
    rcases (h.mem_xrefs_toTrace stopped).1 hx with ⟨n, i, hi, hx⟩ | hx
    · obtain ⟨hsource, k, hk, hnote, haddress⟩ := noted_successors.noted x hx hkind
      have hmem := (h.mem_conflicts_toTrace stopped).2 (.inr (.inl ⟨n, i, hi, hk⟩))
      exact ⟨k, hmem, hnote, hsource ▸ haddress⟩
    · exact absurd hkind (hseeds.xrefs x hx)
  · intro k hk hkind
    rcases (h.mem_conflicts_toTrace stopped).1 hk with hk | ⟨n, i, hi, hk⟩ | hk
    · obtain ⟨text, -, rfl⟩ := Option.map_eq_some_iff.1 (Option.mem_toList.1 hk)
      exact absurd hkind (by simp [Machine.budgetConflict, ConflictKind.doubts])
    · obtain ⟨hkind, haddress, x, hx, hsite⟩ := noted_successors.site k hk hkind
      have hmem := (h.mem_xrefs_toTrace stopped).2 (.inl ⟨n, i, hi, hx⟩)
      exact ⟨hkind, n, i, hi, haddress, x, hmem, hsite⟩
    · exact absurd hkind (hseeds.conflicts k hk)

/-- **A trace notes each jump to an unknown place**, whether or not it was cut off. -/
theorem Trace.OfRun.notesSites {c : Cartridge} {hints : CheckedHints} {settings : TraceSettings}
    {t : Trace} (h : t.OfRun c hints settings) : t.NotesSites := by
  obtain ⟨moves, f, stopped, hrun, -, rfl⟩ := h
  exact hrun.ok.records.notesSites (quiet_traceSeeds hints settings) stopped

end RomAtlas
