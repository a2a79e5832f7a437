import RomAtlas.Proofs.Carry
import RomAtlas.Proofs.Label.Evidence
import RomAtlas.Proofs.Region.Doubt
import RomAtlas.Proofs.Trace.Vectors

/-!
# Labels inside instructions

A label says that something starts at its address, and a confirmed instruction says that nothing
else starts inside it. The two are kept apart by the trace: it goes to whatever has a label, and
what it meets inside an instruction puts the byte in doubt. They meet where the trace did not get to
the label, or where a range of code overrules the doubt.

* `Trace.Exact.exists_visited_of_leadsTo`: an exact trace goes to the targets of its cross
  references.
* `doubts_of_visited`: what is met inside an instruction puts the byte in doubt.
* `label_inside_confirmed`: **the three ways for a label to stand inside a confirmed instruction.**
-/

namespace RomAtlas

variable {c : Cartridge} {given : Hints} {checked : CheckedHints} {rejected : List Conflict}
  {settings : TraceSettings} {t : Trace}

/-- An exact trace goes to the targets of its cross references, unless they are those of a vector
table that is not shown as a whole. -/
theorem Trace.Exact.exists_visited_of_leadsTo (h : t.Exact c checked settings)
    (hends : settings.useVectors = true → ¬ c.EndsInVectors) {x : Xref} {k : Int}
    (hx : x ∈ t.xrefs) (hk : x.LeadsTo c.map k) :
    ∃ n ∈ t.visited, c.map.canonical n.address = k := by
  obtain ⟨b, hb, hshown, rfl⟩ := hk
  rcases (h.xrefs x).1 hx with ⟨hv, hx⟩ | ⟨n, i, hi, hx⟩
  · obtain ⟨slot, hs, target, hpoints, rfl⟩ := mem_xrefs_vectorEdges.1 hx
    obtain rfl := Option.some.inj hb
    have hread := forall_word_of_word (hends hv) hs ⟨target, hpoints.word⟩
    exact ⟨_, h.visited_of_points hv hread hs hpoints hshown, rfl⟩
  · obtain ⟨s, hs⟩ := List.exists_mem_of_ne_nil _ (i.state.possibleAfter_ne_nil i)
    obtain ⟨hvisited, hdecode⟩ := (h.instructions n i).1 hi
    have hnode := followed_successors.visited x hx b hb hshown s hs
    exact ⟨_, h.least.1.next n hvisited i hdecode _ hnode, rfl⟩

/-- **What is met inside an instruction puts the byte in doubt**, whether it can be decoded or
not. -/
theorem doubts_of_visited (hd : t.DecodedFrom c) {n : Node} {i : Instruction} {p : Nat}
    (hn : n ∈ t.visited) (hat : c.map.offset? n.address = some p) (hi : t.Decoded i)
    (hcover : i.Covers c.map p) (hne : c.map.offset? i.address ≠ some p) : t.Doubts c.map p := by
  rcases hn with hn | hn
  · obtain ⟨⟨n, j⟩, hj, rfl⟩ := List.mem_map.1 hn
    obtain ⟨k, hk⟩ := hi
    obtain ⟨o, ho⟩ := (hd.readFrom hk).exists_start
    have haddress : j.address = n.address := (Node.decode_eq_ok_iff.1 (hd n j hj)).1
    have hne : o ≠ p := fun heq => hne (heq ▸ ho)
    refine .collision ⟨k, hk⟩ ⟨n, hj⟩ hcover ⟨o, p, ho, ?_, hne, .inl hcover⟩
    rw [haddress]
    exact hat
  · obtain ⟨⟨n, fault⟩, hfault, rfl⟩ := List.mem_map.1 hn
    cases hreason : fault.reason with
    | undefined => exact .undefined hfault hreason hat
    | outOfBounds => exact .outOfBounds hfault hreason hat hi hcover

/-- A range has the byte that it starts at. -/
theorem DeclaredRange.StartsAt.contains {m : AddressMap} {s : DeclaredRange} {k : Int} {p : Nat}
    (h : s.StartsAt m k) (hw : s.range.Within m.size) (hp : m.offset? k = some p) :
    s.range.contains p = true := by
  have hlow := hw.start_nonneg
  have hlt := hw.start_lt
  have hstop := hw.stop_le
  unfold StartsAt at h
  rw [AddressMap.addressOf_eq_ok hlow (by omega)] at h
  obtain rfl := Except.ok.inj h
  rw [AddressMap.offset?_shownAt (by omega)] at hp
  obtain rfl := Option.some.inj hp
  exact Extent.contains_iff.2 (by omega)

/-- In an exact trace, something starts at each label: the trace went there, or a range starts
there. -/
theorem Trace.Exact.visited_or_startsAt (h : t.Exact c checked settings)
    (hc : given.check c = .ok (checked, rejected))
    (hends : settings.useVectors = true → ¬ c.EndsInVectors) {regions : Option Partition} {k : Int}
    (hk : k ∈ labelsFor c.map t.xrefs checked regions) :
    (∃ n ∈ t.visited, c.map.canonical n.address = k) ∨
      ∃ s ∈ checked.ranges, s.StartsAt c.map k := by
  rw [(describe_labelsFor hc _ _).labelled] at hk
  rcases hk with ⟨x, hx, hleads⟩ | ⟨e, he, hk⟩ | ⟨s, hs, hk⟩ | ⟨s, hs, -, hk⟩
  · exact .inl (h.exists_visited_of_leadsTo hends hx hleads)
  · exact .inl ⟨_, h.least.1.seed _ (mem_nodes_traceSeeds.2 (.inr ⟨e, he, rfl⟩)), hk⟩
  · exact .inr ⟨s, List.mem_of_mem_filter hs, hk⟩
  · exact .inr ⟨s, List.mem_of_mem_filter hs, hk⟩

/-- Outside the ranges of code, the bytes of a confirmed instruction are outside all ranges and the
trace has no doubt about them. -/
theorem Atlas.OfSurvey.not_doubts {atlas : Atlas} {key : Int} {i : Instruction} {p : Nat}
    (hof : atlas.OfSurvey c given settings checked t) (h : Confirmed c.map t atlas.regions key i)
    (hp : p < c.map.size) (hcover : i.Covers c.map p)
    (hcode : ∀ s ∈ checked.ranges, s.cls = .code → s.range.contains p = false) :
    (∀ s ∈ checked.ranges, s.range.contains p = false) ∧ ¬ t.Doubts c.map p := by
  have hw := hof.sound.within
  obtain ⟨conflicts, hclassify⟩ := hof.exists_classify
  obtain ⟨spans, -, hclasses, -⟩ := classify_eq_ok hclassify
  obtain ⟨r, hr, hcls⟩ := h.exists_regionOf hof.map_eq hcover
  rcases exists_range_or_uncovered hw hclasses hr with ⟨s, hs, hover, hsame⟩ | hno
  · rw [hcode s hs (hsame.trans hcls)] at hover
    cases hover
  · refine ⟨hno, fun hdoubt => ?_⟩
    have htraced := cls_of_uncovered hof.decodedFrom hw hclassify hp hr hno
    rw [if_pos hdoubt, hcls] at htraced
    cases htraced

/-- **The three ways for a label to stand inside a confirmed instruction**: the trace was cut off,
the image ends inside the vector table, or a range of code overrules what the trace says of the
byte. -/
theorem label_inside_confirmed {atlas : Atlas} {k key : Int} {i : Instruction} {p : Nat}
    (hof : atlas.OfSurvey c given settings checked t) (hlabel : k ∈ atlas.labels)
    (hp : c.map.offset? k = some p)
    (hi : atlas.instructions[key]? = some i) (hcover : i.Covers c.map p)
    (hne : c.map.offset? i.address ≠ some p) :
    atlas.truncated = true ∨ settings.useVectors = true ∧ c.EndsInVectors ∨
      ∃ s ∈ checked.ranges, s.cls = .code ∧ s.range.contains p = true := by
  obtain ⟨rejected, hc, -⟩ := hof.made
  rw [hof.instructions_eq] at hi
  have hconfirmed := confirmed_of_getElem? hi
  by_contra hother
  simp only [not_or, not_and, not_exists, Bool.not_eq_true] at hother
  obtain ⟨hwhole, hends, hcode⟩ := hother
  have hexact := hof.traced.exact (hof.truncated_eq ▸ hwhole)
  obtain ⟨hno, hsure⟩ :=
    hof.not_doubts hconfirmed (AddressMap.lt_size_of_offset? hp) hcover hcode
  rw [hof.labels_eq] at hlabel
  rcases hexact.visited_or_startsAt hc hends hlabel with ⟨n, hn, rfl⟩ | ⟨s, hs, hstarts⟩
  · rw [AddressMap.offset?_canonical_eq] at hp
    exact hsure (doubts_of_visited hof.decodedFrom hn hp hconfirmed.traced hcover hne)
  · have hover := hstarts.contains (hof.sound.within s hs) hp
    rw [hno s hs] at hover
    cases hover

end RomAtlas
