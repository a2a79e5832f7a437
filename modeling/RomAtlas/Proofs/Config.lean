import RomAtlas.Config.Reading
import RomAtlas.Proofs.Decimal.Range
import RomAtlas.Proofs.Hint.Refused

/-!
# What becomes of a project file

Settings may be written as any JSON value, with a wrong kind of value anywhere. Reading them ends
with the settings or with a refusal that says what is wrong, except for three shapes that are not
looked for.

* `Value.IsJson`: the values of JSON documents whose integers are not too long.
* `ConfigFault.IsRefusal`, `Value.Escapes`: the refusals, and the three shapes with their faults.
* `Config.ofValue_total`: **a JSON value gives settings, a refusal, or the fault of its shape; the
  hints of the settings are those that the value lists, one by one and in order.**
-/

namespace RomAtlas

/-! ## JSON values -/

/-- The values of JSON documents. Their integers can be shown. -/
inductive Value.IsJson : Value → Prop
  | null : IsJson .null
  | bool (b : Bool) : IsJson (.bool b)
  | int {n : Int} : ¬ Numeral.IsLong n → IsJson (.int n)
  | float (x : Float) : IsJson (.float x)
  | text (t : Text) : IsJson (.text t)
  | list {items : List Value} : (∀ v ∈ items, IsJson v) → IsJson (.list items)
  | mapping {entries : List (Value × Value)} :
      (∀ entry ∈ entries, ∃ t, entry.1 = .text t) → (∀ entry ∈ entries, IsJson entry.2) →
      IsJson (.mapping entries)

namespace Value

variable {v d : Value} {key : String} {entries : List (Value × Value)}

theorem innerEntries?_ne_none
    (h : ∀ entry ∈ entries, entry.1.inner? ≠ none ∧ entry.2.inner? ≠ none) :
    innerEntries? entries ≠ none := by
  induction entries with
  | nil => simp [innerEntries?]
  | cons entry rest ih =>
    obtain ⟨hkey, hvalue⟩ := h entry List.mem_cons_self
    have hrest := ih fun e he => h e (List.mem_cons_of_mem _ he)
    obtain ⟨k, hk⟩ := Option.ne_none_iff_exists'.1 hkey
    obtain ⟨s, hs⟩ := Option.ne_none_iff_exists'.1 hvalue
    obtain ⟨parts, hparts⟩ := Option.ne_none_iff_exists'.1 hrest
    simp [innerEntries?, hk, hs, hparts]

/-- A JSON value can be shown. -/
theorem IsJson.inner?_ne_none (h : v.IsJson) : v.inner? ≠ none := by
  induction h with
  | null => simp [inner?]
  | bool b => cases b <;> simp [inner?]
  | int hn => rwa [inner?, ne_eq, Numeral.text?_eq_none]
  | float x => simp [inner?]
  | text t => simp [inner?]
  | @list items _ ih =>
    have hitems : inners? items ≠ none := fun hnone => by
      obtain ⟨v, hv, hinner⟩ := inners?_eq_none.1 hnone
      exact ih v hv hinner
    simpa [inner?] using hitems
  | @mapping entries hkeys _ ih =>
    have hall : innerEntries? entries ≠ none := innerEntries?_ne_none fun entry he => by
      obtain ⟨t, ht⟩ := hkeys entry he
      exact ⟨by simp [ht, inner?], ih entry he⟩
    simpa [inner?] using hall

theorem IsJson.exists_display (h : v.IsJson) : ∃ shown, v.display = .ok shown := by
  have hinner := h.inner?_ne_none
  have hshown : v.shown? ≠ none := by
    cases h with
    | text t => simp [shown?]
    | _ => exact hinner
  obtain ⟨shown, hs⟩ := Option.ne_none_iff_exists'.1 hshown
  exact ⟨shown, by rw [display, hs]⟩

theorem IsJson.of_find? (h : (Value.mapping entries).IsJson) (hv : find? key entries = some v) :
    v.IsJson := by
  obtain ⟨entry, hentry, rfl⟩ := Option.map_eq_some_iff.1 hv
  cases h with
  | mapping _ hvalues => exact hvalues entry (List.mem_of_find?_eq_some hentry)

theorem IsJson.getD (h : (Value.mapping entries).IsJson) (hd : d.IsJson) :
    (Value.getD key entries d).IsJson := by
  unfold Value.getD
  cases hv : find? key entries with
  | none => exact hd
  | some v => exact h.of_find? hv

theorem find?_of_getD {w : Value} (h : Value.getD key entries d = w) (hne : w ≠ d) :
    find? key entries = some w := by
  unfold Value.getD at h
  cases hv : find? key entries with
  | none =>
    rw [hv] at h
    exact absurd h.symm hne
  | some v =>
    rw [hv] at h
    exact congrArg some h

end Value

/-! ## Single settings -/

/-- The faults that say which setting is wrong. -/
inductive ConfigFault.IsRefusal : ConfigFault → Prop
  | notMapping (v : Value) : IsRefusal (.notMapping v)
  | badInteger (shown : String) : IsRefusal (.badInteger shown)
  | badNumber (shown : String) : IsRefusal (.badNumber shown)
  | badWidths (shown : String) : IsRefusal (.badWidths shown)
  | notMappings (key : String) : IsRefusal (.notMappings key)

namespace Value

variable {v : Value} {key : String} {entries : List (Value × Value)} {bad : ConfigFault → Prop}

theorem IsJson.refuse_ends {α : Type} {good : α → Prop} (h : v.IsJson)
    {fault : String → ConfigFault} (hfault : ∀ shown, bad (fault shown)) :
    Ends good bad (v.refuse fault : Except ConfigFault α) := by
  obtain ⟨shown, hs⟩ := h.exists_display
  unfold refuse
  rw [hs]
  exact hfault shown

theorem IsJson.toInteger_ends (h : v.IsJson) (hbad : ∀ fault, fault.IsRefusal → bad fault) :
    Ends (fun n => v.toInteger = .ok n) bad v.toInteger := by
  suffices hends : Ends (fun _ => True) bad v.toInteger from hends.with_eq
  unfold toInteger
  split
  · trivial
  · split
    · trivial
    · exact h.refuse_ends fun shown => hbad _ (.badInteger shown)
  · exact h.refuse_ends fun shown => hbad _ (.badInteger shown)

/-- A number may be too large, if it is an integer outside the range. -/
theorem IsJson.toNumber_ends (h : v.IsJson) (hbad : ∀ fault, fault.IsRefusal → bad fault)
    (hlarge : ∀ n : Int, v = .int n → Decimal.overflow ≤ n.natAbs → bad .numberTooLarge) :
    Ends (fun _ => True) bad v.toNumber := by
  unfold toNumber
  split
  · next n =>
    dsimp only
    split
    · next hinf => exact hlarge n rfl ((Decimal.isInf_toFloat _ _).1 hinf)
    · trivial
  · trivial
  · exact h.refuse_ends fun shown => hbad _ (.badNumber shown)

theorem IsJson.toWidths_ends (h : v.IsJson) (hbad : ∀ fault, fault.IsRefusal → bad fault) :
    Ends (fun widths => v.toWidths = .ok widths) bad v.toWidths := by
  suffices hends : Ends (fun _ => True) bad v.toWidths from hends.with_eq
  unfold toWidths
  split
  · trivial
  · split
    · trivial
    · exact h.refuse_ends fun shown => hbad _ (.badWidths shown)
  · trivial
  · exact h.refuse_ends fun shown => hbad _ (.badWidths shown)

theorem optional_ends {α : Type} {read : Value → Except ConfigFault α} {good : α → Prop}
    (h : Ends good bad (read v)) :
    Ends (fun a => v.optional read = .ok a) bad (v.optional read) := by
  suffices hends : Ends (fun _ => True) bad (v.optional read) from hends.with_eq
  unfold optional
  split
  · trivial
  · cases hread : read v with
    | ok a => trivial
    | error fault =>
      rw [hread] at h
      exact h

/-- What can be listed: items, characters or keys. -/
def IsIterable : Value → Prop
  | .list _ | .text _ | .mapping _ => True
  | _ => False

theorem IsJson.toItems_ends (h : v.IsJson) (hiter : ¬ v.IsIterable → bad .notIterable) :
    Ends (fun items => v.toItems = .ok items ∧ ∀ item ∈ items, item.IsJson) bad v.toItems := by
  cases h with
  | list hitems => exact ⟨rfl, hitems⟩
  | text t =>
    refine ⟨rfl, fun item hitem => ?_⟩
    obtain ⟨p, -, rfl⟩ := List.mem_map.1 hitem
    exact .text _
  | mapping hkeys _ =>
    refine ⟨rfl, fun item hitem => ?_⟩
    obtain ⟨entry, hentry, rfl⟩ := List.mem_map.1 hitem
    obtain ⟨t, ht⟩ := hkeys entry hentry
    exact ht ▸ .text t
  | null => exact hiter id
  | bool b => exact hiter id
  | int hn => exact hiter id
  | float x => exact hiter id

/-- Nothing is given under a key. -/
def Lacks (key : String) (entries : List (Value × Value)) : Prop :=
  ∀ v, find? key entries = some v → v.isGiven = false

/-- The entries under a key: those of the mapping there, and none if nothing is given. -/
def Holds (key : String) (entries inner : List (Value × Value)) : Prop :=
  find? key entries = some (.mapping inner) ∨ inner = [] ∧ Lacks key entries

/-- The mappings listed under a key: those of the list there, and none if nothing is given. -/
def Lists (key : String) (entries : List (Value × Value)) (listed : List (List (Value × Value))) :
    Prop :=
  find? key entries = some (.list (listed.map .mapping)) ∨ listed = [] ∧ Lacks key entries

/-- Nothing is given under a key, or the value that is looked up there is. -/
theorem lacks_or_given (key : String) (entries : List (Value × Value)) :
    ((Value.getD key entries .null).isGiven = false ∧ Lacks key entries) ∨
      ∃ v, find? key entries = some v ∧ Value.getD key entries .null = v ∧ v.isGiven = true := by
  unfold Value.getD Lacks
  cases hv : find? key entries with
  | none => exact Or.inl ⟨rfl, by simp⟩
  | some v =>
    cases hgiven : v.isGiven with
    | false => exact Or.inl ⟨hgiven, by simp [hgiven]⟩
    | true => exact Or.inr ⟨v, rfl, rfl, hgiven⟩

theorem IsJson.toEntries_ends (h : (Value.mapping entries).IsJson)
    (hnone : ∀ v, find? key entries = some v → v.isGiven = true →
      (∀ inner, v ≠ .mapping inner) → bad .noEntries) :
    Ends (fun inner => Holds key entries inner ∧ (Value.mapping inner).IsJson) bad
      (Value.getD key entries .null).toEntries := by
  unfold toEntries
  rcases lacks_or_given key entries with ⟨hnot, hlacks⟩ | ⟨v, hv, hget, hgiven⟩
  · rw [hnot, if_neg Bool.false_ne_true]
    exact ⟨Or.inr ⟨rfl, hlacks⟩, .mapping (by simp) (by simp)⟩
  · rw [hget, hgiven, if_pos rfl]
    split
    · next inner => exact ⟨Or.inl hv, h.of_find? hv⟩
    · next hother => exact hnone v hv hgiven hother

theorem eq_map_of_mapM {f : Value → Option (List (Value × Value))}
    (hf : ∀ v es, f v = some es → v = .mapping es) {items : List Value}
    {listed : List (List (Value × Value))} (h : items.mapM f = some listed) :
    items = listed.map .mapping := by
  induction items generalizing listed with
  | nil =>
    cases h
    rfl
  | cons v items ih =>
    rw [List.mapM_cons] at h
    obtain ⟨es, hes, h⟩ := Option.bind_eq_some_iff.1 h
    obtain ⟨rest, hrest, h⟩ := Option.bind_eq_some_iff.1 h
    cases h
    rw [List.map_cons, hf v es hes, ih hrest]

theorem IsJson.mappingsAt_ends (h : (Value.mapping entries).IsJson)
    (hbad : ∀ fault, fault.IsRefusal → bad fault) :
    Ends (fun listed => Lists key entries listed ∧ ∀ es ∈ listed, (Value.mapping es).IsJson) bad
      (mappingsAt key entries) := by
  unfold mappingsAt
  dsimp only
  rcases lacks_or_given key entries with ⟨hnot, hlacks⟩ | ⟨v, hv, hget, hgiven⟩
  · rw [hnot, if_neg Bool.false_ne_true]
    exact ⟨Or.inr ⟨rfl, hlacks⟩, by simp⟩
  · rw [hget, hgiven, if_pos rfl]
    split
    · next items =>
      split
      · next listed hlisted =>
        have hitems := eq_map_of_mapM (fun v es hes => by
          split at hes
          · cases hes; rfl
          · cases hes) hlisted
        refine ⟨Or.inl (hitems ▸ hv), fun es hes => ?_⟩
        have hjson := h.of_find? hv
        cases hjson with
        | list hall => exact hall _ (hitems ▸ List.mem_map_of_mem hes)
      · exact hbad _ (.notMappings key)
    · exact hbad _ (.notMappings key)

end Value

/-! ## Hints -/

/-- An entry point is what a mapping says. -/
structure EntryHint.ReadFrom (entries : List (Value × Value)) (hint : EntryHint) : Prop where
  address : (Value.getD "address" entries .null).toInteger = .ok hint.address
  name : hint.name = Value.getD "name" entries (.text (Text.ofString ""))
  widths : (Value.getD "state" entries .null).toWidths = .ok hint.widths

/-- A range is what a mapping says. -/
structure RangeHint.ReadFrom (entries : List (Value × Value)) (hint : RangeHint) : Prop where
  first : (Value.getD "start" entries .null).toInteger = .ok hint.first
  last : (Value.getD "end" entries .null).toInteger = .ok hint.last
  label : hint.label = Value.getD "label" entries (.text (Text.ofString ""))

/-- A jump table is what a mapping says; its targets are the integers listed there, in order. -/
structure JumpTableHint.ReadFrom (entries : List (Value × Value)) (hint : JumpTableHint) :
    Prop where
  site : (Value.getD "site" entries .null).toInteger = .ok hint.site
  targets : ∃ items, (Value.getD "targets" entries (.list [])).toItems = .ok items ∧
    List.Forall₂ (fun v a => v.toInteger = .ok a) items hint.targets
  table : (Value.getD "table" entries .null).optional Value.toInteger = .ok hint.table
  count : (Value.getD "count" entries (.int 0)).toInteger = .ok hint.count
  longPointers : hint.longPointers = (Value.getD "long_pointers" entries (.bool false)).isGiven
  returns : hint.returns = (Value.getD "returns" entries (.bool false)).isGiven
  label : hint.label = Value.getD "label" entries (.text (Text.ofString ""))

/-- The hints are those that the mappings listed under the four keys say, one by one and in
order. -/
structure Hints.ReadFrom (entries : List (Value × Value)) (hints : Hints) : Prop where
  entryPoints : ∃ listed, Value.Lists "entry_points" entries listed ∧
    List.Forall₂ EntryHint.ReadFrom listed hints.entryPoints
  jumpTables : ∃ listed, Value.Lists "jump_tables" entries listed ∧
    List.Forall₂ JumpTableHint.ReadFrom listed hints.jumpTables
  dataRanges : ∃ listed, Value.Lists "data_ranges" entries listed ∧
    List.Forall₂ RangeHint.ReadFrom listed hints.dataRanges
  codeRanges : ∃ listed, Value.Lists "code_ranges" entries listed ∧
    List.Forall₂ RangeHint.ReadFrom listed hints.codeRanges

section

variable {entries : List (Value × Value)} {bad : ConfigFault → Prop}
  (h : (Value.mapping entries).IsJson) (hbad : ∀ fault, fault.IsRefusal → bad fault)

include h hbad

theorem EntryHint.ofEntries_ends : Ends (ReadFrom entries) bad (ofEntries entries) := by
  unfold ofEntries
  refine ((h.getD .null).toInteger_ends hbad).bind fun address haddress => ?_
  refine ((h.getD .null).toWidths_ends hbad).bind fun widths hwidths => ?_
  exact ⟨haddress, rfl, hwidths⟩

theorem RangeHint.ofEntries_ends : Ends (ReadFrom entries) bad (ofEntries entries) := by
  unfold ofEntries
  refine ((h.getD .null).toInteger_ends hbad).bind fun first hfirst => ?_
  refine ((h.getD .null).toInteger_ends hbad).bind fun last hlast => ?_
  exact ⟨hfirst, hlast, rfl⟩

theorem JumpTableHint.ofEntries_ends
    (hiter : ∀ v, Value.find? "targets" entries = some v → ¬ v.IsIterable → bad .notIterable) :
    Ends (ReadFrom entries) bad (ofEntries entries) := by
  have hnull : Value.IsJson .null := .null
  have hzero : Value.IsJson (.int 0) := .int (Numeral.not_isLong (by decide))
  have htargets : ¬ (Value.getD "targets" entries (.list [])).IsIterable → bad .notIterable := by
    intro hnot
    refine hiter _ (Value.find?_of_getD rfl fun hlist => hnot ?_) hnot
    rw [hlist]
    trivial
  unfold ofEntries
  refine ((h.getD hnull).toInteger_ends hbad).bind fun site hsite => ?_
  refine ((h.getD (.list (by simp))).toItems_ends htargets).bind fun items hitems => ?_
  refine (ends_mapM fun v hv => (hitems.2 v hv).toInteger_ends hbad).bind fun targets hread => ?_
  refine (Value.optional_ends ((h.getD hnull).toInteger_ends hbad)).bind fun table htable => ?_
  refine ((h.getD hzero).toInteger_ends hbad).bind fun count hcount => ?_
  exact ⟨hsite, ⟨items, hitems.1, hread⟩, htable, hcount, rfl, rfl, rfl⟩

/-- The mappings listed under a key are read one by one. -/
theorem ends_mappingsAt_bind {β γ : Type} {key : String} {good : List (Value × Value) → β → Prop}
    {after : γ → Prop} {read : List (Value × Value) → Except ConfigFault β}
    {next : List β → Except ConfigFault γ}
    (hread : ∀ listed, Value.Lists key entries listed → ∀ es ∈ listed, (Value.mapping es).IsJson →
      Ends (good es) bad (read es))
    (hnext : ∀ hints, (∃ listed, Value.Lists key entries listed ∧
      List.Forall₂ good listed hints) → Ends after bad (next hints)) :
    Ends after bad (Value.mappingsAt key entries >>= fun listed => listed.mapM read >>= next) := by
  refine (h.mappingsAt_ends hbad).bind fun listed hlisted => ?_
  have hall := ends_mapM fun es hes => hread listed hlisted.1 es hes (hlisted.2 es hes)
  exact hall.bind fun hints hhints => hnext hints ⟨listed, hlisted.1, hhints⟩

theorem Hints.ofEntries_ends
    (hiter : ∀ tables table v, Value.find? "jump_tables" entries = some (.list tables) →
      .mapping table ∈ tables → Value.find? "targets" table = some v → ¬ v.IsIterable →
      bad .notIterable) :
    Ends (ReadFrom entries) bad (ofEntries entries) := by
  have hrange : ∀ {key listed}, Value.Lists key entries listed → ∀ es ∈ listed,
      (Value.mapping es).IsJson → Ends (RangeHint.ReadFrom es) bad (RangeHint.ofEntries es) :=
    fun _ es _ hes => RangeHint.ofEntries_ends hes hbad
  have htable : ∀ listed, Value.Lists "jump_tables" entries listed → ∀ es ∈ listed,
      (Value.mapping es).IsJson → Ends (JumpTableHint.ReadFrom es) bad
        (JumpTableHint.ofEntries es) := by
    intro listed hlisted es hmem hes
    refine JumpTableHint.ofEntries_ends hes hbad fun v hv hnot => ?_
    rcases hlisted with hlist | ⟨rfl, -⟩
    · exact hiter _ es v hlist (List.mem_map_of_mem hmem) hv hnot
    · cases hmem
  unfold ofEntries
  refine ends_mappingsAt_bind h hbad (fun _ _ es _ hes => EntryHint.ofEntries_ends hes hbad)
    fun entryPoints hentryPoints => ?_
  refine ends_mappingsAt_bind h hbad htable fun jumpTables hjumpTables => ?_
  refine ends_mappingsAt_bind h hbad (fun _ => hrange) fun dataRanges hdataRanges => ?_
  refine ends_mappingsAt_bind h hbad (fun _ => hrange) fun codeRanges hcodeRanges => ?_
  exact ⟨hentryPoints, hjumpTables, hdataRanges, hcodeRanges⟩

theorem TraceSettings.ofEntries_ends
    (hlarge : ∀ n : Int, Value.find? "time_budget" entries = some (.int n) →
      Decimal.overflow ≤ n.natAbs → bad .numberTooLarge) :
    Ends (fun _ => True) bad (ofEntries entries) := by
  have hfour : Value.IsJson (.int 4) := .int (Numeral.not_isLong (by decide))
  have hmillion : Value.IsJson (.int 1000000) := .int (Numeral.not_isLong (by decide))
  have hnumber : Ends (fun _ => True) bad (Value.getD "time_budget" entries .null).toNumber := by
    refine (h.getD .null).toNumber_ends hbad fun n hn => hlarge n ?_
    exact Value.find?_of_getD hn fun hnull => by cases hnull
  unfold ofEntries
  refine ((h.getD .null).toWidths_ends hbad).bind fun initial _ => ?_
  refine ((h.getD hfour).toInteger_ends hbad).bind fun workers _ => ?_
  refine (Value.optional_ends ((h.getD hmillion).toInteger_ends hbad)).bind fun steps _ => ?_
  refine (Value.optional_ends hnumber).bind fun time _ => ?_
  trivial

end

/-! ## Settings -/

/-- The shapes of a project file that are not looked for, with the fault that each gives: no mapping
where one is looked up, targets that cannot be listed, and a budget of time without a floating-point
number. -/
inductive Value.Escapes : Value → ConfigFault → Prop
  | noEntries {entries : List (Value × Value)} {key : String} {v : Value} :
      key = "trace" ∨ key = "hints" → find? key entries = some v → v.isGiven = true →
      (∀ inner, v ≠ .mapping inner) → Escapes (.mapping entries) .noEntries
  | notIterable {entries hints table : List (Value × Value)} {tables : List Value} {v : Value} :
      find? "hints" entries = some (.mapping hints) →
      find? "jump_tables" hints = some (.list tables) → .mapping table ∈ tables →
      find? "targets" table = some v → ¬ v.IsIterable → Escapes (.mapping entries) .notIterable
  | numberTooLarge {entries trace : List (Value × Value)} {n : Int} :
      find? "trace" entries = some (.mapping trace) →
      find? "time_budget" trace = some (.int n) → Decimal.overflow ≤ n.natAbs →
      Escapes (.mapping entries) .numberTooLarge

theorem Value.Holds.of_find? {key key' : String} {entries inner : List (Value × Value)} {v : Value}
    (h : Holds key entries inner) (hv : find? key' inner = some v) :
    find? key entries = some (.mapping inner) := by
  rcases h with h | ⟨rfl, -⟩
  · exact h
  · cases hv

namespace Config

/-- Settings have the hints that a project file lists. -/
def ListsHints (v : Value) (config : Config) : Prop :=
  ∃ entries hints, v = .mapping entries ∧ Value.Holds "hints" entries hints ∧
    config.hints.ReadFrom hints

theorem ofValue_ends {v : Value} (h : v.IsJson) :
    Ends (ListsHints v) (fun fault => fault.IsRefusal ∨ v.Escapes fault) (ofValue v) := by
  unfold ofValue
  split
  · next entries =>
    have hbad : ∀ fault, ConfigFault.IsRefusal fault →
        ConfigFault.IsRefusal fault ∨ Value.Escapes (.mapping entries) fault := fun _ => Or.inl
    have hentries : ∀ {key}, key = "trace" ∨ key = "hints" → Ends
        (fun inner => Value.Holds key entries inner ∧ (Value.mapping inner).IsJson)
        (fun fault => fault.IsRefusal ∨ Value.Escapes (.mapping entries) fault)
        (Value.getD key entries .null).toEntries := fun hkey =>
      h.toEntries_ends fun v hv hgiven hother => Or.inr (.noEntries hkey hv hgiven hother)
    have hshown : ∀ {key d}, Value.IsJson d → Ends (fun _ => True)
        (fun fault => fault.IsRefusal ∨ Value.Escapes (.mapping entries) fault)
        (Value.getD key entries d).display := by
      intro key d hd
      obtain ⟨shown, hs⟩ := (h.getD hd).exists_display
      rw [hs]
      trivial
    refine (hentries (Or.inl rfl)).bind fun trace htrace => ?_
    refine (TraceSettings.ofEntries_ends htrace.2 hbad fun n hn hlarge =>
      Or.inr (.numberTooLarge (htrace.1.of_find? hn) hn hlarge)).bind fun settings _ => ?_
    refine (hentries (Or.inr rfl)).bind fun hints hhints => ?_
    refine (Hints.ofEntries_ends hhints.2 hbad fun tables table v htables hmem hv hnot =>
      Or.inr (.notIterable (hhints.1.of_find? htables) htables hmem hv hnot)).bind
        fun read hread => ?_
    refine (hshown (.text _)).bind fun layout _ => ?_
    refine (hshown (.text _)).bind fun speed _ => ?_
    exact ⟨entries, hints, rfl, hhints.1, hread⟩
  · exact Or.inl (.notMapping v)

/-- **A JSON value gives settings or is refused, unless it has one of three shapes.** The settings
have exactly the hints that the value lists, in order. -/
theorem ofValue_total {v : Value} (h : v.IsJson) :
    (∃ config, ofValue v = .ok config ∧ config.ListsHints v) ∨
      ∃ fault, ofValue v = .error fault ∧ (fault.IsRefusal ∨ v.Escapes fault) :=
  (ofValue_ends h).ok_or_error

/-- A document with one entry point and a budget of time. -/
def entryDocument : Value := .mapping [
  (.text (Text.ofString "trace"), .mapping [(.text (Text.ofString "time_budget"), .int 60)]),
  (.text (Text.ofString "hints"), .mapping [(.text (Text.ofString "entry_points"),
    .list [.mapping [(.text (Text.ofString "address"), .int 0x8000)]])])]

theorem isJson_entryDocument : entryDocument.IsJson := by
  have hint : ∀ n : Int, n.natAbs < 10000000000 → Value.IsJson (.int n) :=
    fun n hn => .int (Numeral.not_isLong hn)
  have hsingle : ∀ {t v}, Value.IsJson v → Value.IsJson (.mapping [(.text t, v)]) :=
    fun hv => .mapping (by simp) (by simpa using hv)
  have hlist : ∀ {v}, Value.IsJson v → Value.IsJson (.list [v]) :=
    fun hv => .list (by simpa using hv)
  have htrace := hsingle (t := Text.ofString "time_budget") (hint 60 (by decide))
  have hhints := hsingle (t := Text.ofString "entry_points")
    (hlist (hsingle (t := Text.ofString "address") (hint 0x8000 (by decide))))
  exact .mapping (by simp) (by simpa using ⟨htrace, hhints⟩)

theorem ofValue_total_entry :
    ∃ config, ofValue entryDocument = .ok config ∧ config.hints.entryPoints.length = 1 ∧
      config.ListsHints entryDocument := by
  have hcount : (ofValue entryDocument).toOption.map (·.hints.entryPoints.length) = some 1 := by
    decide +kernel
  rcases ofValue_total isJson_entryDocument with ⟨config, hread, hlists⟩ | ⟨fault, hread, -⟩
  · rw [hread] at hcount
    exact ⟨config, hread, Option.some_inj.1 hcount, hlists⟩
  · rw [hread] at hcount
    cases hcount

end Config

end RomAtlas
