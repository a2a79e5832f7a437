import RomAtlas.Proofs.Decode.Faithful
import RomAtlas.Proofs.Hint.Growth
import RomAtlas.Proofs.Trace.Unresolved

/-!
# Every transfer of control is accounted for

A transfer leaves up to three marks: a cross reference, nodes to visit, and a conflict if its target
is not known or is not part of the image. The marks are made in different places, for vectors and
for nine kinds of flow with and without hints. None of them stands alone.

* `Edges.Balanced`: which conflicts come with which cross references.
* `Edges.Followed`: which nodes come with the cross references of an instruction.
* `exists_unresolved_iff`: when an instruction goes to an unknown place.
* `transfers_accounted`: **all of this for every run**, in whatever order it goes and wherever it
  stops.
-/

namespace RomAtlas

/-- A cross reference to an address that shows no byte of the image. -/
def Xref.Leaves (m : AddressMap) (x : Xref) : Prop :=
  ∃ target, x.target = some target ∧ m.shows target = false

/-! ## Edges -/

namespace Edges

variable {m : AddressMap} {a : Int} {states : List WidthState} {e f : Edges}

/-- Edges in which only a cross reference to an unknown place has no target, and in which a conflict
stands exactly at the sources of those that leave the image. -/
structure Balanced (m : AddressMap) (e : Edges) : Prop where
  target : ∀ x ∈ e.xrefs, x.target = none ↔ x.kind = .indirectUnresolved
  noted : ∀ x ∈ e.xrefs, x.Leaves m →
    ∃ k ∈ e.conflicts, k.kind = .unmappedTarget ∧ k.address = some x.source
  left : ∀ k ∈ e.conflicts, k.kind = .unmappedTarget →
    ∃ x ∈ e.xrefs, x.Leaves m ∧ k.address = some x.source

/-- Edges of the instruction at an address: with each target that a cross reference names and that
is part of the image go nodes in all states. -/
structure Followed (m : AddressMap) (a : Int) (states : List WidthState) (e : Edges) : Prop where
  source : ∀ x ∈ e.xrefs, x.source = a
  kind : ∀ x ∈ e.xrefs, x.kind ≠ .interruptVector
  visited : ∀ x ∈ e.xrefs, ∀ target, x.target = some target → m.shows target = true →
    ∀ s ∈ states, ⟨target, s⟩ ∈ e.nodes

theorem Balanced.append (he : e.Balanced m) (hf : f.Balanced m) : (e ++ f).Balanced m := by
  refine ⟨fun x hx => ?_, fun x hx hleaves => ?_, fun k hk hkind => ?_⟩
  · rcases List.mem_append.1 hx with hx | hx
    · exact he.target x hx
    · exact hf.target x hx
  · rcases List.mem_append.1 hx with hx | hx
    · obtain ⟨k, hk, hnote⟩ := he.noted x hx hleaves
      exact ⟨k, List.mem_append_left _ hk, hnote⟩
    · obtain ⟨k, hk, hnote⟩ := hf.noted x hx hleaves
      exact ⟨k, List.mem_append_right _ hk, hnote⟩
  · rcases List.mem_append.1 hk with hk | hk
    · obtain ⟨x, hx, hleft⟩ := he.left k hk hkind
      exact ⟨x, List.mem_append_left _ hx, hleft⟩
    · obtain ⟨x, hx, hleft⟩ := hf.left k hk hkind
      exact ⟨x, List.mem_append_right _ hx, hleft⟩

theorem Followed.append (he : e.Followed m a states) (hf : f.Followed m a states) :
    (e ++ f).Followed m a states := by
  refine ⟨fun x hx => ?_, fun x hx => ?_, fun x hx target ht hshown s hs => ?_⟩
  · exact (List.mem_append.1 hx).elim (he.source x) (hf.source x)
  · exact (List.mem_append.1 hx).elim (he.kind x) (hf.kind x)
  · rw [nodes_append, List.mem_append]
    rcases List.mem_append.1 hx with hx | hx
    · exact .inl (he.visited x hx target ht hshown s hs)
    · exact .inr (hf.visited x hx target ht hshown s hs)

end Edges

/-! ## Instructions -/

section

variable {m : AddressMap} {i : Instruction} {hints : CheckedHints} {states : List WidthState}

theorem balanced_transferTo {kind : XrefKind} (hkind : kind ≠ .indirectUnresolved)
    (targets : List Int) : (transferTo m i states kind targets).Balanced m := by
  refine ⟨fun x hx => ?_, fun x hx hleaves => ?_, fun k hk _ => ?_⟩
  · obtain ⟨t, -, rfl⟩ := List.mem_map.1 hx
    exact iff_of_false nofun hkind
  · obtain ⟨t, ht, rfl⟩ := List.mem_map.1 hx
    obtain ⟨target, htarget, hout⟩ := hleaves
    obtain rfl := Option.some.inj htarget
    have hmem : t ∈ targets.filter (!m.shows ·) := List.mem_filter.2 ⟨ht, by rw [hout]; rfl⟩
    exact ⟨_, List.mem_map_of_mem hmem, rfl, rfl⟩
  · obtain ⟨t, ht, rfl⟩ := List.mem_map.1 hk
    obtain ⟨hmem, hout⟩ := List.mem_filter.1 ht
    exact ⟨_, List.mem_map_of_mem hmem, ⟨t, rfl, by simpa using hout⟩, rfl⟩

theorem followed_transferTo {kind : XrefKind} (hkind : kind ≠ .interruptVector)
    (targets : List Int) :
    (transferTo m i states kind targets).Followed m i.address states := by
  refine ⟨fun x hx => ?_, fun x hx => ?_, fun x hx target htarget hshown s hs => ?_⟩ <;>
    obtain ⟨t, ht, rfl⟩ := List.mem_map.1 hx
  · rfl
  · exact hkind
  · obtain rfl := Option.some.inj htarget
    have hmem : t ∈ targets.filter m.shows := List.mem_filter.2 ⟨ht, hshown⟩
    exact List.mem_flatMap.2 ⟨t, hmem, List.mem_map_of_mem hs⟩

theorem balanced_unresolved : (unresolved m i).Balanced m := by
  refine ⟨fun x hx => ?_, fun x hx hleaves => ?_, fun k hk hkind => ?_⟩
  · rw [List.mem_singleton.1 hx]
    exact iff_of_true rfl rfl
  · obtain ⟨target, htarget, -⟩ := hleaves
    rw [List.mem_singleton.1 hx] at htarget
    cases htarget
  · rw [List.mem_singleton.1 hk] at hkind
    cases hkind

theorem followed_unresolved : (unresolved m i).Followed m i.address states := by
  refine ⟨fun x hx => ?_, fun x hx => ?_, fun x hx target htarget => ?_⟩ <;>
    rw [List.mem_singleton.1 hx] at *
  · exact nofun
  · cases htarget

theorem balanced_uncertainWidth : (uncertainWidth i states).Balanced m := by
  unfold uncertainWidth
  split
  · refine ⟨nofun, nofun, fun k hk hkind => ?_⟩
    rw [List.mem_singleton.1 hk] at hkind
    cases hkind
  · exact ⟨nofun, nofun, nofun⟩

theorem followed_uncertainWidth : (uncertainWidth i states).Followed m i.address states := by
  unfold uncertainWidth
  split <;> exact ⟨nofun, nofun, nofun⟩

theorem balanced_successors : (successors m i hints).Balanced m :=
  successors_parts ⟨nofun, nofun, nofun⟩ (fun _ _ => .append) ⟨nofun, nofun, nofun⟩
    balanced_uncertainWidth (fun _ targets _ hkind _ => balanced_transferTo hkind targets)
    fun _ _ => balanced_unresolved

/-- **Each target of an instruction that is part of the image is visited** in all states after
it. -/
theorem followed_successors :
    (successors m i hints).Followed m i.address (i.state.possibleAfter i) :=
  successors_parts ⟨nofun, nofun, nofun⟩ (fun _ _ => .append) ⟨nofun, nofun, nofun⟩
    followed_uncertainWidth (fun _ targets hkind _ _ => followed_transferTo hkind targets)
    fun _ _ => followed_unresolved

/-- **When an instruction goes to an unknown place**: its flow is indirect and no hint names a
target. -/
theorem exists_unresolved_iff :
    (∃ x ∈ (successors m i hints).xrefs, x.kind = .indirectUnresolved) ↔
      i.flow.isIndirect = true ∧ hints.hintedTargets (m.canonical i.address) = [] := by
  constructor
  · rintro ⟨x, hx, hkind⟩
    revert hx
    -- no other part has such a cross reference
    refine successors_parts (P := fun e => x ∈ e.xrefs → _) ?_ ?_ ?_ ?_ ?_ ?_
    · exact nofun
    · intro e f he hf hx
      exact (List.mem_append.1 hx).elim he hf
    · exact nofun
    · intro hx
      exact absurd hkind (quiet_uncertainWidth.xrefs x hx)
    · intro kind targets _ hne _ hx
      exact absurd hkind ((quiet_transferTo hne targets).xrefs x hx)
    · intro hflow hnone _
      exact ⟨hflow, hnone⟩
  · rintro ⟨hflow, hnone⟩
    refine ⟨⟨i.address, none, .indirectUnresolved⟩, List.mem_append_right _ ?_, rfl⟩
    unfold transfers
    dsimp only
    rw [hnone]
    cases hf : i.flow <;> rw [hf] at hflow <;> dsimp only
    case indirectJump => exact List.mem_singleton_self _
    case indirectCall => exact List.mem_append_left _ (List.mem_singleton_self _)
    all_goals cases hflow

end

/-! ## Seeds -/

section

variable {c : Cartridge} {m : AddressMap} {state : WidthState}

theorem balanced_vectorEdge (slot : Int) (name : String) (target : Nat) :
    (vectorEdge m state slot name target).Balanced m := by
  unfold vectorEdge
  split
  · exact ⟨nofun, nofun, nofun⟩
  split
  · next hshown =>
    refine ⟨fun x hx => ?_, fun x hx hleaves => ?_, nofun⟩
    · rw [List.mem_singleton.1 hx]
      exact iff_of_false nofun nofun
    · obtain ⟨t, ht, hout⟩ := hleaves
      rw [List.mem_singleton.1 hx] at ht
      obtain rfl := Option.some.inj ht
      rw [hshown] at hout
      cases hout
  · next hout =>
    refine ⟨fun x hx => ?_, fun x hx _ => ?_, fun k hk _ => ?_⟩
    · rw [List.mem_singleton.1 hx]
      exact iff_of_false nofun nofun
    · rw [List.mem_singleton.1 hx]
      exact ⟨_, List.mem_singleton_self _, rfl, rfl⟩
    · rw [List.mem_singleton.1 hk]
      exact ⟨_, List.mem_singleton_self _, ⟨_, rfl, by simpa using hout⟩, rfl⟩

theorem balanced_traceSeeds (hints : CheckedHints) (settings : TraceSettings) :
    (traceSeeds c hints settings).Balanced c.map :=
  seedEdges_parts ⟨nofun, nofun, nofun⟩ (fun _ _ => .append)
    (fun _ _ he => ⟨he.target, he.noted, he.left⟩) balanced_vectorEdge _

/-- The cross references of the seeds are those of vectors. -/
theorem kind_of_mem_traceSeeds {hints : CheckedHints} {settings : TraceSettings} :
    ∀ x ∈ (traceSeeds c hints settings).xrefs, x.kind = .interruptVector := by
  refine seedEdges_parts (P := fun e => ∀ x ∈ e.xrefs, x.kind = .interruptVector) ?_ ?_ ?_ ?_ _
  · exact nofun
  · intro e f he hf x hx
    exact (List.mem_append.1 hx).elim (he x) (hf x)
  · exact fun _ _ he => he
  · intro slot name target x hx
    unfold vectorEdge at hx
    split at hx
    · cases hx
    · split at hx <;> rw [List.mem_singleton.1 hx]

end

/-! ## Traces -/

/-- A trace accounts for each transfer of control. Cross references other than those of vectors are
those of decoded instructions and start at them. Only one to an unknown place has no target; such
cross references, the conflicts that note them and the indirect instructions without a jump table
stand at the same addresses. Conflicts on targets outside the image stand at the sources of cross
references that leave it. If nothing was cut off, each target inside the image is visited in every
state after each instruction that goes there. -/
structure Trace.AccountsForTransfers (c : Cartridge) (hints : CheckedHints) (t : Trace) : Prop where
  source : ∀ x, x.kind ≠ .interruptVector → (x ∈ t.xrefs ↔ ∃ n i, (n, i) ∈ t.instructions ∧
    n.address = x.source ∧ x ∈ (successors c.map i hints).xrefs)
  target : ∀ x ∈ t.xrefs, x.target = none ↔ x.kind = .indirectUnresolved
  noted : ∀ a, (∃ x ∈ t.xrefs, x.source = a ∧ x.target = none) ↔
    ∃ k ∈ t.conflicts, k.kind = .indirectUnresolved ∧ k.address = some a
  site : ∀ a, (∃ x ∈ t.xrefs, x.source = a ∧ x.target = none) ↔
    ∃ n i, (n, i) ∈ t.instructions ∧ n.address = a ∧ i.flow.isIndirect = true ∧
      hints.jumpTables[c.map.canonical a]? = none
  unmapped : ∀ a, (∃ k ∈ t.conflicts, k.kind = .unmappedTarget ∧ k.address = some a) ↔
    ∃ x ∈ t.xrefs, x.source = a ∧ x.Leaves c.map
  followed : t.truncated = false → ∀ n i, (n, i) ∈ t.instructions →
    ∀ x ∈ (successors c.map i hints).xrefs, ∀ b, x.target = some b → c.map.shows b = true →
      ∀ s ∈ i.state.possibleAfter i, ⟨b, s⟩ ∈ t.visited

section

variable {c : Cartridge} {hints : CheckedHints} {settings : TraceSettings} {seeds : Edges}
  {m : Machine} {done : List Node} {stopped : Option String}

/-- The balance of its seeds is that of all that a machine has found. -/
theorem Machine.Records.balanced (h : m.Records c hints seeds done) (hseeds : seeds.Balanced c.map)
    (stopped : Option String) :
    Edges.Balanced c.map ⟨[], (m.toTrace stopped).xrefs, (m.toTrace stopped).conflicts⟩ := by
  refine ⟨fun x hx => ?_, fun x hx hleaves => ?_, fun k hk hkind => ?_⟩
  · rcases (h.mem_xrefs_toTrace stopped).1 hx with ⟨n, i, hi, hx⟩ | hx
    · exact balanced_successors.target x hx
    · exact hseeds.target x hx
  · rcases (h.mem_xrefs_toTrace stopped).1 hx with ⟨n, i, hi, hx⟩ | hx
    · obtain ⟨k, hk, hnote⟩ := balanced_successors.noted x hx hleaves
      exact ⟨k, (h.mem_conflicts_toTrace stopped).2 (.inr (.inl ⟨n, i, hi, hk⟩)), hnote⟩
    · obtain ⟨k, hk, hnote⟩ := hseeds.noted x hx hleaves
      exact ⟨k, (h.mem_conflicts_toTrace stopped).2 (.inr (.inr hk)), hnote⟩
  · rcases (h.mem_conflicts_toTrace stopped).1 hk with hk | ⟨n, i, hi, hk⟩ | hk
    · -- the conflict that says why a run was stopped is of another kind
      obtain ⟨text, -, rfl⟩ := Option.map_eq_some_iff.1 (Option.mem_toList.1 hk)
      cases hkind
    · obtain ⟨x, hx, hleft⟩ := balanced_successors.left k hk hkind
      exact ⟨x, (h.mem_xrefs_toTrace stopped).2 (.inl ⟨n, i, hi, hx⟩), hleft⟩
    · obtain ⟨x, hx, hleft⟩ := hseeds.left k hk hkind
      exact ⟨x, (h.mem_xrefs_toTrace stopped).2 (.inr hx), hleft⟩

/-- A node and the instruction decoded there have one address. -/
theorem Machine.Records.address_eq (h : m.Records c hints seeds done) {n : Node} {i : Instruction}
    (hi : (n, i) ∈ (m.toTrace stopped).instructions) : n.address = i.address := by
  have hdecode := (h.mem_instructions.1 (mem_sortByNode.1 hi)).2
  exact (Node.decode_eq_ok_iff.1 hdecode).1.symm

/-- Cross references other than those of vectors are those of decoded instructions, at their
addresses. -/
theorem Machine.Records.mem_xrefs_iff (h : m.Records c hints seeds done)
    (hseeds : ∀ x ∈ seeds.xrefs, x.kind = .interruptVector) {x : Xref}
    (hx : x.kind ≠ .interruptVector) :
    x ∈ (m.toTrace stopped).xrefs ↔ ∃ n i, (n, i) ∈ (m.toTrace stopped).instructions ∧
      n.address = x.source ∧ x ∈ (successors c.map i hints).xrefs := by
  rw [h.mem_xrefs_toTrace stopped]
  constructor
  · rintro (⟨n, i, hi, hmem⟩ | hmem)
    · have haddress := h.address_eq hi
      exact ⟨n, i, hi, by rw [haddress, followed_successors.source x hmem], hmem⟩
    · exact absurd (hseeds x hmem) hx
  · rintro ⟨n, i, hi, -, hmem⟩
    exact .inl ⟨n, i, hi, hmem⟩

end

section

variable {c : Cartridge} {given : Hints} {checked : CheckedHints} {rejected : List Conflict}
  {settings : TraceSettings} {f : Fleet} {moves : List Move}

/-- A run accounts for each transfer of control, at any time. -/
theorem Fleet.Run.accountsForTransfers (hc : given.check c = .ok (checked, rejected))
    (h : Fleet.Run c checked (traceSeeds c checked settings) moves f) {stopped : Option String}
    (hf : stopped = none → f.Finished) :
    (f.machine.toTrace stopped).AccountsForTransfers c checked := by
  have hr := h.ok.records
  have hbalanced := hr.balanced (balanced_traceSeeds checked settings) stopped
  have hnotes := hr.notesSites (quiet_traceSeeds checked settings) stopped
  have hmem : ∀ x, x.kind ≠ .interruptVector → (x ∈ (f.machine.toTrace stopped).xrefs ↔
      ∃ n i, (n, i) ∈ (f.machine.toTrace stopped).instructions ∧ n.address = x.source ∧
        x ∈ (successors c.map i checked).xrefs) :=
    fun x hx => hr.mem_xrefs_iff kind_of_mem_traceSeeds hx
  refine ⟨hmem, hbalanced.target, fun a => ⟨?_, ?_⟩, fun a => ⟨?_, ?_⟩, fun a => ⟨?_, ?_⟩, ?_⟩
  · rintro ⟨x, hx, rfl, htarget⟩
    exact hnotes.noted x hx ((hbalanced.target x hx).1 htarget)
  · rintro ⟨k, hk, hkind, haddress⟩
    have hdoubts : k.kind ∈ ConflictKind.doubts := by
      rw [hkind]
      decide
    obtain ⟨-, n, i, -, hsite, x, hx, hxkind, hsource⟩ := hnotes.site k hk hdoubts
    have hsame : i.address = a := Option.some.inj (hsite.symm.trans haddress)
    exact ⟨x, hx, hsource.trans hsame, (hbalanced.target x hx).2 hxkind⟩
  · rintro ⟨x, hx, rfl, htarget⟩
    have hkind := (hbalanced.target x hx).1 htarget
    have hvector : x.kind ≠ .interruptVector := by
      rw [hkind]
      decide
    obtain ⟨n, i, hi, hsource, hx⟩ := (hmem x hvector).1 hx
    obtain ⟨hflow, hnone⟩ := exists_unresolved_iff.1 ⟨x, hx, hkind⟩
    rw [followed_successors.source x hx] at hsource ⊢
    exact ⟨n, i, hi, hsource, hflow, (Hints.hintedTargets_eq_nil_iff hc _).1 hnone⟩
  · rintro ⟨n, i, hi, rfl, hflow, htable⟩
    have haddress := hr.address_eq hi
    rw [haddress] at htable ⊢
    have hnone := (Hints.hintedTargets_eq_nil_iff hc _).2 htable
    obtain ⟨x, hx, hkind⟩ := exists_unresolved_iff.2 ⟨hflow, hnone⟩
    have hin : x ∈ (f.machine.toTrace stopped).xrefs :=
      (hr.mem_xrefs_toTrace stopped).2 (.inl ⟨n, i, hi, hx⟩)
    exact ⟨x, hin, followed_successors.source x hx, (hbalanced.target x hin).2 hkind⟩
  · rintro ⟨k, hk, hkind, haddress⟩
    obtain ⟨x, hx, hleaves, hsource⟩ := hbalanced.left k hk hkind
    exact ⟨x, hx, Option.some.inj (hsource.symm.trans haddress), hleaves⟩
  · rintro ⟨x, hx, rfl, hleaves⟩
    exact hbalanced.noted x hx hleaves
  · intro hwhole n i hi x hx b hb hshown s hs
    have hnode := followed_successors.visited x hx b hb hshown s hs
    cases stopped with
    | some text => cases hwhole
    | none =>
      -- what a finished run shows is closed under the flow of control
      have hexact := h.exact (hf rfl)
      obtain ⟨hvisited, hdecode⟩ := (hexact.instructions n i).1 hi
      exact hexact.least.1.next n hvisited i hdecode _ hnode

end

/-- **Every transfer of control is accounted for**, in every run on checked hints: in whatever order
the nodes were completed, and wherever the run was stopped by a budget or a cancellation. So it is
in each trace. -/
theorem transfers_accounted {c : Cartridge} {given : Hints} {checked : CheckedHints}
    {rejected : List Conflict} (hc : given.check c = .ok (checked, rejected))
    (settings : TraceSettings) :
    (∀ moves f stopped, Fleet.Run c checked (traceSeeds c checked settings) moves f →
      (stopped = none → f.Finished) →
      (f.machine.toTrace stopped).AccountsForTransfers c checked) ∧
    ∀ watch t, trace c checked settings watch = .ok t →
      t.AccountsForTransfers c checked := by
  refine ⟨fun moves f stopped h hf => h.accountsForTransfers hc hf, fun watch t ht => ?_⟩
  obtain ⟨moves, f, stopped, hrun, hf, rfl⟩ := ofRun_of_trace hc ht
  exact hrun.accountsForTransfers hc hf

/-- A call whose target is read from a table that no hint gives. -/
def callCartridge : Cartridge :=
  ⟨⟨#[0xfc, 0x00, 0x80], by decide⟩, truncatedLoad.map, rfl⟩

/-- The instruction of `callCartridge`. -/
def callThroughTable : Instruction :=
  ⟨0x8000, 0xfc, ⟨.jsr, .absoluteXInd, .indirectCall⟩, [0x00, 0x80], ⟨.narrow, [], none⟩⟩

theorem decode_callCartridge :
    Node.decode callCartridge ⟨0x8000, ⟨.narrow, [], none⟩⟩ = .ok callThroughTable := by
  have hbyte : callCartridge.byteAt 0x8000 = .ok 0xfc := rfl
  have hshape : Shape.ofCode? ((0xfc : UInt8).toNat : Int) =
      some ⟨.jsr, .absoluteXInd, .indirectCall⟩ := by
    decide +kernel
  exact Node.decode_eq_ok_iff.2 ⟨rfl, rfl, hbyte, hshape, rfl⟩

theorem transfers_accounted_call : ∃ t,
    startHints.check callCartridge = .ok (startChecked, []) ∧
    trace callCartridge startChecked unlimitedSettings (.still false) = .ok t ∧
    t.AccountsForTransfers callCartridge startChecked ∧
    ∃ k ∈ t.conflicts, k.kind = .indirectUnresolved ∧ k.address = some 0x8000 := by
  have hc : startHints.check callCartridge = .ok (startChecked, []) := rfl
  have hwatch := Watch.uncancelled_still
  obtain ⟨f, -, -, -, ht⟩ :=
    (remembered_traceSeeds hc unlimitedSettings).exists_trace_unlimited rfl rfl hwatch
  have haccounts := (transfers_accounted hc unlimitedSettings).2 _ _ ht
  refine ⟨_, hc, ht, haccounts, ?_⟩
  -- the entry point is decoded, and its call goes to an unknown place
  have hexact := exact_of_unlimited hc rfl rfl hwatch ht
  have hvisited : ⟨0x8000, ⟨.narrow, [], none⟩⟩ ∈ (f.machine.toTrace none).visited :=
    hexact.least.1.seed _ (List.mem_append_right _ List.mem_cons_self)
  have hcall := (hexact.instructions _ _).2 ⟨hvisited, decode_callCartridge⟩
  exact (haccounts.noted _).1 ((haccounts.site _).2 ⟨_, _, hcall, rfl, by decide, rfl⟩)

end RomAtlas
