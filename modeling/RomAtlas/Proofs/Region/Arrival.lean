import RomAtlas.Proofs.Decode.Wider
import RomAtlas.Proofs.Region.Classification

/-!
# Classification and the order of arrival

The workers of a trace hand in what they decoded in any order. Instructions are sorted by their
nodes, but failures are grouped as they come, and the text of a group is that of the one that came
last. It is the same for all of them: whatever the widths, a decoder that fails has met the same
byte first (`decode_error_congr`).

* `Unreadable.map_conflict_find_congr`: groups of failures are noted alike in any order.
* `classify_ignores_arrival`: **neither the regions nor the conflicts show an order.**
-/

namespace RomAtlas

variable {c : Cartridge}

/-! ## Groups of failures -/

namespace Unreadable

variable {failures failures' : List (Node × DecodeFault)}

/-- What failures are grouped by. -/
def keyOf (entry : Node × DecodeFault) : UnreadableKey := ⟨entry.1.address, entry.2.reason⟩

/-- The group of a key holds the failures with that key, in the order in which they came. -/
theorem find_eq (failures : List (Node × DecodeFault)) :
    find failures = (sortUnique (failures.map keyOf)).map fun k =>
      ⟨k, failures.filter fun entry => keyOf entry == k⟩ := by
  unfold find
  simp only [getD_groupBy]
  rfl

theorem map_key_find (failures : List (Node × DecodeFault)) :
    (find failures).map key = sortUnique (failures.map keyOf) := by
  rw [find_eq, List.map_map]
  exact List.map_id _

/-- Failures with the same details are noted alike in any order. -/
theorem conflict_congr {k : UnreadableKey} (hmem : ∀ e, e ∈ failures ↔ e ∈ failures')
    (hdetail : ∀ e ∈ failures, ∀ e' ∈ failures, e.2.detail = e'.2.detail) :
    conflict ⟨k, failures⟩ = conflict ⟨k, failures'⟩ := by
  have hstates : sortUnique (failures.map fun entry => entry.1.state.name) =
      sortUnique (failures'.map fun entry => entry.1.state.name) := by
    apply sortUnique_congr
    intro x
    simp only [List.mem_map, hmem]
  have hlast : failures.getLast?.map (fun entry => entry.2.detail) =
      failures'.getLast?.map fun entry => entry.2.detail := by
    cases hl : failures.getLast? with
    | none =>
      obtain rfl := List.getLast?_eq_none_iff.1 hl
      obtain rfl := List.eq_nil_iff_forall_not_mem.2 fun e he => List.not_mem_nil ((hmem e).2 he)
      rfl
    | some e =>
      have he : e ∈ failures := List.mem_of_getLast? hl
      cases hl' : failures'.getLast? with
      | none =>
        obtain rfl := List.getLast?_eq_none_iff.1 hl'
        cases (hmem e).1 he
      | some e' =>
        have he' : e' ∈ failures := (hmem e').2 (List.mem_of_getLast? hl')
        exact congrArg some (hdetail e he e' he')
  unfold conflict
  simp only [hstates, hlast]

/-- **Groups of failures are noted alike in any order**, if those of a group have one text. -/
theorem map_conflict_find_congr (hmem : ∀ e, e ∈ failures ↔ e ∈ failures')
    (hdetail : ∀ e ∈ failures, ∀ e' ∈ failures, keyOf e = keyOf e' → e.2.detail = e'.2.detail) :
    (find failures).map conflict = (find failures').map conflict := by
  have hkeys : sortUnique (failures.map keyOf) = sortUnique (failures'.map keyOf) := by
    apply sortUnique_congr
    intro x
    simp only [List.mem_map, hmem]
  rw [find_eq, find_eq, hkeys, List.map_map, List.map_map]
  apply List.map_congr_left
  intro k _
  apply conflict_congr
  · intro e
    rw [List.mem_filter, List.mem_filter, hmem]
  · intro e he e' he'
    obtain ⟨he, hk⟩ := List.mem_filter.1 he
    obtain ⟨he', hk'⟩ := List.mem_filter.1 he'
    exact hdetail e he e' he' ((beq_iff_eq.1 hk).trans (beq_iff_eq.1 hk').symm)

/-- Marking looks at the keys only. -/
theorem foldl_markUnreadable_find (m : AddressMap) (classes : Array ByteClass) :
    (find failures).foldl (markUnreadable m) classes =
      (sortUnique (failures.map keyOf)).foldl (fun cs k => markUnreadable m cs ⟨k, []⟩)
        classes := by
  rw [← map_key_find, List.foldl_map]
  rfl

theorem foldl_markUnreadable_find_congr (hmem : ∀ e, e ∈ failures ↔ e ∈ failures')
    (m : AddressMap) (classes : Array ByteClass) :
    (find failures).foldl (markUnreadable m) classes =
      (find failures').foldl (markUnreadable m) classes := by
  rw [foldl_markUnreadable_find, foldl_markUnreadable_find, sortUnique_congr fun x => ?_]
  simp only [List.mem_map, hmem]

end Unreadable

/-! ## Whole traces -/

variable {t : Trace}

/-- All failures of a trace come from a cartridge, each at its node. -/
def Trace.FailedFrom (c : Cartridge) (t : Trace) : Prop :=
  ∀ n fault, (n, fault) ∈ t.failures → n.decode c = .error fault

/-- The failures of a trace at one address are one fault. -/
theorem Trace.FailedFrom.detail_congr (h : t.FailedFrom c) :
    ∀ e ∈ t.failures, ∀ e' ∈ t.failures, Unreadable.keyOf e = Unreadable.keyOf e' →
      e.2.detail = e'.2.detail := by
  rintro ⟨n, fault⟩ he ⟨n', fault'⟩ he' hkey
  have hn := h n fault he
  have hn' := h n' fault' he'
  have haddress : n.address = n'.address := congrArg UnreadableKey.address hkey
  unfold Node.decode at hn hn'
  rw [haddress] at hn
  exact congrArg DecodeFault.detail (decode_error_congr hn hn')

/-- The spans of a trace do not show an order: a node has one instruction. -/
theorem Trace.DecodedFrom.spans_congr (h : t.DecodedFrom c)
    {instructions : List (Node × Instruction)} {failures : List (Node × DecodeFault)}
    (hi : instructions.Perm t.instructions) (m : AddressMap) :
    Trace.spans m { t with instructions := instructions, failures := failures } = t.spans m := by
  have hsort : sortByNode t.instructions = sortByNode instructions := by
    apply sortByNode_congr_of_eq hi.symm
    rintro ⟨n, i⟩ hn ⟨n', i'⟩ hn' (rfl : n = n')
    have hsame : i = i' := Except.ok.inj ((h n i hn).symm.trans (h n i' hn'))
    rw [hsame]
  unfold Trace.spans
  rw [hsort]

/-- **The classes and conflicts of a trace do not show the order in which its instructions and
failures arrived**, whatever the range hints, also where classification fails; it does not where
the hints lie in the image. For failures at one address have one reason and one text, whatever the
states. -/
theorem classify_ignores_arrival (hdecoded : t.DecodedFrom c) (hfailed : t.FailedFrom c) :
    (∀ (instructions : List (Node × Instruction)) (failures : List (Node × DecodeFault))
      (hints : CheckedHints), instructions.Perm t.instructions → failures.Perm t.failures →
      classify c.map { t with instructions := instructions, failures := failures } hints =
        classify c.map t hints) ∧
    (∀ hints : CheckedHints, (∀ s ∈ hints.ranges, s.range.Within c.map.size) →
      ∃ regions conflicts, classify c.map t hints = .ok (regions, conflicts)) ∧
    ∀ (a : Int) (s s' : WidthState) (fault fault' : DecodeFault),
      decode c a s = .error fault → decode c a s' = .error fault' →
      fault.reason = fault'.reason ∧ fault.detail = fault'.detail := by
  refine ⟨fun instructions failures hints hi hf => ?_, fun hints hw => ?_, ?_⟩
  · have hmem : ∀ e, e ∈ failures ↔ e ∈ t.failures := fun e => hf.mem_iff
    have hnoted := Unreadable.map_conflict_find_congr (fun e => (hmem e).symm) hfailed.detail_congr
    unfold classify tracedClasses tracedConflicts
    simp only [hdecoded.spans_congr hi, Unreadable.foldl_markUnreadable_find_congr hmem, ← hnoted]
  · obtain ⟨regions, conflicts, h, -⟩ := exists_classify hdecoded hw
    exact ⟨regions, conflicts, h⟩
  · intro a s s' fault fault' h h'
    obtain rfl := decode_error_congr h h'
    exact ⟨rfl, rfl⟩

/-- A trace that met the load of `truncatedLoad` under all widths. A wide accumulator takes one byte
more than there is. -/
def disputedTrace : Trace where
  instructions := [false, true].map fun x16 =>
    (⟨0x8001, ⟨⟨false, x16⟩, [], none⟩⟩,
      ⟨0x8001, 0xa9, ⟨.lda, .immediateM, .sequential⟩, [0x10], ⟨⟨false, x16⟩, [], none⟩⟩)
  failures := [false, true].map fun x16 =>
    (⟨0x8001, ⟨⟨true, x16⟩, [], none⟩⟩, ⟨0x8001, .operandUnread .lda (.unmapped 0x8003)⟩)
  xrefs := []
  conflicts := []
  truncated := false
  steps := 4

theorem classify_ignores_arrival_disputed :
    disputedTrace.DecodedFrom truncatedLoad ∧ disputedTrace.FailedFrom truncatedLoad ∧
      ∃ regions conflicts,
        classify truncatedLoad.map disputedTrace .empty = .ok (regions, conflicts) ∧
        classify truncatedLoad.map { disputedTrace with
          instructions := disputedTrace.instructions.reverse,
          failures := disputedTrace.failures.reverse } .empty = .ok (regions, conflicts) := by
  have hbyte : truncatedLoad.byteAt 0x8001 = .ok 0xa9 := rfl
  have hshape : Shape.ofCode? ((0xa9 : UInt8).toNat : Int) =
      some ⟨.lda, .immediateM, .sequential⟩ := by
    decide +kernel
  have hoperand : truncatedLoad.bytesFrom (stepInBank 0x8001 1) 1 = .ok [0x10] := rfl
  have hdecoded : disputedTrace.DecodedFrom truncatedLoad := by
    intro n i hi
    obtain ⟨x16, -, he⟩ := List.mem_map.1 hi
    cases he
    exact Node.decode_eq_ok_iff.2 ⟨rfl, rfl, hbyte, hshape, hoperand⟩
  have hfailed : disputedTrace.FailedFrom truncatedLoad := by
    intro n fault hf
    obtain ⟨x16, -, he⟩ := List.mem_map.1 hf
    cases he
    unfold Node.decode decode
    simp only [hbyte, hshape]
    rfl
  obtain ⟨hsame, hreturns, -⟩ := classify_ignores_arrival hdecoded hfailed
  obtain ⟨regions, conflicts, h⟩ := hreturns .empty fun s hs => by cases hs
  refine ⟨hdecoded, hfailed, regions, conflicts, h, ?_⟩
  rw [hsame _ _ _ (List.reverse_perm _) (List.reverse_perm _), h]

end RomAtlas
