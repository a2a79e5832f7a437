import Mathlib.Data.List.Forall2

/-!
# Computations that may fail

How a composed computation can succeed: a sequence (`bind_eq_ok`), one computation for each member
of a list (`mapM_eq_ok`), and a fold (`foldlM_invariant`). `Ends` says what holds after it succeeds
and what holds after it fails, and `Alike` relates two computations that end in the same way.
-/

namespace RomAtlas

variable {ε α β : Type}

theorem bind_eq_ok {x : Except ε α} {f : α → Except ε β} {b : β} :
    x >>= f = .ok b ↔ ∃ a, x = .ok a ∧ f a = .ok b := by
  cases x with
  | error e =>
    constructor
    · intro h; cases h
    · rintro ⟨a, h, -⟩; cases h
  | ok a =>
    constructor
    · intro h; exact ⟨a, rfl, h⟩
    · rintro ⟨a, h, hf⟩; cases h; exact hf

theorem pure_eq_ok {a b : α} : (pure a : Except ε α) = .ok b ↔ a = b := by
  constructor
  · intro h; cases h; rfl
  · intro h; cases h; rfl

theorem discard_eq_ok {x : Except ε α} {u : PUnit} :
    discard x = .ok u ↔ ∃ a, x = .ok a := by
  cases x with
  | error e =>
    constructor
    · intro h; cases h
    · rintro ⟨a, h⟩; cases h
  | ok a => exact ⟨fun _ => ⟨a, rfl⟩, fun _ => rfl⟩

/-- A list of computations succeeds if each of them does. -/
theorem mapM_eq_ok {f : α → Except ε β} {l : List α} {bs : List β} :
    l.mapM f = .ok bs ↔ List.Forall₂ (fun a b => f a = .ok b) l bs := by
  induction l generalizing bs with
  | nil => rw [List.mapM_nil, pure_eq_ok, List.forall₂_nil_left_iff, eq_comm]
  | cons a l ih =>
    rw [List.mapM_cons, bind_eq_ok, List.forall₂_cons_left_iff]
    constructor
    · rintro ⟨b, hb, h⟩
      obtain ⟨rest, hrest, h⟩ := bind_eq_ok.1 h
      exact ⟨b, rest, hb, ih.1 hrest, (pure_eq_ok.1 h).symm⟩
    · rintro ⟨b, rest, hb, hrest, rfl⟩
      exact ⟨b, hb, bind_eq_ok.2 ⟨rest, ih.2 hrest, rfl⟩⟩

theorem exists_ok_of_mapM {f : α → Except ε β} {l : List α} {bs : List β} (h : l.mapM f = .ok bs)
    {a : α} (ha : a ∈ l) : ∃ b ∈ bs, f a = .ok b := by
  have hf := mapM_eq_ok.1 h
  induction hf with
  | nil => cases ha
  | cons hab hrest ih =>
    rcases List.mem_cons.1 ha with rfl | ha
    · exact ⟨_, List.mem_cons_self, hab⟩
    · obtain ⟨b, hb, he⟩ := ih (mapM_eq_ok.2 hrest) ha
      exact ⟨b, List.mem_cons_of_mem _ hb, he⟩

theorem exists_of_mem_mapM {f : α → Except ε β} {l : List α} {bs : List β} (h : l.mapM f = .ok bs)
    {b : β} (hb : b ∈ bs) : ∃ a ∈ l, f a = .ok b := by
  have hf := mapM_eq_ok.1 h
  induction hf with
  | nil => cases hb
  | cons hab hrest ih =>
    rcases List.mem_cons.1 hb with rfl | hb
    · exact ⟨_, List.mem_cons_self, hab⟩
    · obtain ⟨a, ha, he⟩ := ih (mapM_eq_ok.2 hrest) hb
      exact ⟨a, List.mem_cons_of_mem _ ha, he⟩

/-- Computations that never give one result twice give different results. -/
theorem nodup_of_mapM {f : α → Except ε β} {l : List α} {bs : List β} (h : l.mapM f = .ok bs)
    (hl : l.Nodup) (hf : ∀ a ∈ l, ∀ a' ∈ l, ∀ b, f a = .ok b → f a' = .ok b → a = a') :
    bs.Nodup := by
  have hall := mapM_eq_ok.1 h
  induction hall with
  | nil => exact List.nodup_nil
  | @cons a b l bs hab hrest ih =>
    have hrest := mapM_eq_ok.2 hrest
    obtain ⟨hfirst, hl⟩ := List.nodup_cons.1 hl
    refine List.nodup_cons.2 ⟨fun hb => ?_, ih hrest hl ?_⟩
    · obtain ⟨a', ha', hb'⟩ := exists_of_mem_mapM hrest hb
      have hsame := hf a List.mem_cons_self a' (List.mem_cons_of_mem _ ha') b hab hb'
      exact hfirst (hsame ▸ ha')
    · intro x hx y hy
      exact hf x (List.mem_cons_of_mem _ hx) y (List.mem_cons_of_mem _ hy)

/-- Computations that succeed one by one succeed together. -/
theorem exists_mapM {f : α → Except ε β} {l : List α} (h : ∀ a ∈ l, ∃ b, f a = .ok b) :
    ∃ bs, l.mapM f = .ok bs := by
  induction l with
  | nil => exact ⟨[], rfl⟩
  | cons a l ih =>
    obtain ⟨b, hb⟩ := h a List.mem_cons_self
    obtain ⟨bs, hbs⟩ := ih fun x hx => h x (List.mem_cons_of_mem _ hx)
    exact ⟨b :: bs, mapM_eq_ok.2 (.cons hb (mapM_eq_ok.1 hbs))⟩

/-- If each computation succeeds with a result that belongs to it, all results belong to one. -/
theorem exists_mapM_related {R : α → β → Prop} {f : α → Except ε β} {l : List α}
    (h : ∀ a ∈ l, ∃ b, f a = .ok b ∧ R a b) :
    ∃ bs, l.mapM f = .ok bs ∧ (∀ a ∈ l, ∃ b ∈ bs, R a b) ∧ ∀ b ∈ bs, ∃ a ∈ l, R a b := by
  obtain ⟨bs, hbs⟩ := exists_mapM fun a ha => (h a ha).imp fun _ hb => hb.1
  have hrel : ∀ a ∈ l, ∀ b, f a = .ok b → R a b := by
    intro a ha b hb
    obtain ⟨b', hb', hR⟩ := h a ha
    rw [hb] at hb'
    cases hb'
    exact hR
  refine ⟨bs, hbs, fun a ha => ?_, fun b hb => ?_⟩
  · obtain ⟨b, hb, he⟩ := exists_ok_of_mapM hbs ha
    exact ⟨b, hb, hrel a ha b he⟩
  · obtain ⟨a, ha, he⟩ := exists_of_mem_mapM hbs hb
    exact ⟨a, ha, hrel a ha b he⟩

/-- What a successful step keeps, a successful fold keeps. -/
theorem foldlM_invariant {P : β → Prop} {f : β → α → Except ε β} {l : List α} {b b' : β}
    (hstep : ∀ a ∈ l, ∀ b b', P b → f b a = .ok b' → P b') (hb : P b)
    (h : l.foldlM f b = .ok b') : P b' := by
  induction l generalizing b with
  | nil => rw [List.foldlM_nil, pure_eq_ok] at h; exact h ▸ hb
  | cons a l ih =>
    rw [List.foldlM_cons] at h
    obtain ⟨b₁, h₁, h⟩ := bind_eq_ok.1 h
    exact ih (fun x hx => hstep x (List.mem_cons_of_mem _ hx))
      (hstep a List.mem_cons_self _ _ hb h₁) h

/-! ## Both ends of a computation -/

/-- A computation ends with a good value or with a bad error. -/
def Ends (good : α → Prop) (bad : ε → Prop) : Except ε α → Prop
  | .ok a => good a
  | .error e => bad e

theorem Ends.bind {good : α → Prop} {after : β → Prop} {bad : ε → Prop} {x : Except ε α}
    {f : α → Except ε β} (h : Ends good bad x) (hf : ∀ a, good a → Ends after bad (f a)) :
    Ends after bad (x >>= f) := by
  cases x with
  | ok a => exact hf a h
  | error e => exact h

theorem Ends.imp {good good' : α → Prop} {bad bad' : ε → Prop} {x : Except ε α}
    (h : Ends good bad x) (hgood : ∀ a, good a → good' a) (hbad : ∀ e, bad e → bad' e) :
    Ends good' bad' x := by
  cases x with
  | ok a => exact hgood a h
  | error e => exact hbad e h

/-- What is known of a value otherwise holds after a computation that ends with it. -/
theorem Ends.of_eq_ok {good good' : α → Prop} {bad : ε → Prop} {x : Except ε α}
    (h : Ends good bad x) (hok : ∀ a, x = .ok a → good' a) : Ends good' bad x := by
  cases x with
  | ok a => exact hok a rfl
  | error e => exact h

theorem Ends.with_eq {good : α → Prop} {bad : ε → Prop} {x : Except ε α} (h : Ends good bad x) :
    Ends (fun a => x = .ok a) bad x :=
  h.of_eq_ok fun _ ha => ha

theorem Ends.ok_or_error {good : α → Prop} {bad : ε → Prop} {x : Except ε α}
    (h : Ends good bad x) : (∃ a, x = .ok a ∧ good a) ∨ ∃ e, x = .error e ∧ bad e := by
  cases x with
  | ok a => exact .inl ⟨a, rfl, h⟩
  | error e => exact .inr ⟨e, rfl, h⟩

theorem Ends.discard {good : α → Prop} {bad : ε → Prop} {x : Except ε α} (h : Ends good bad x) :
    Ends (fun _ => True) bad (discard x) := by
  cases x with
  | ok a => trivial
  | error e => exact h

/-- A fold ends well if each step keeps what is good. -/
theorem ends_foldlM (good : β → Prop) {bad : ε → Prop} {f : β → α → Except ε β} {l : List α}
    (hstep : ∀ a ∈ l, ∀ b, good b → Ends good bad (f b a)) {b : β} (hb : good b) :
    Ends good bad (l.foldlM f b) := by
  induction l generalizing b with
  | nil => exact hb
  | cons a l ih =>
    rw [List.foldlM_cons]
    refine (hstep a List.mem_cons_self b hb).bind fun b' hb' => ih ?_ hb'
    exact fun x hx => hstep x (List.mem_cons_of_mem a hx)

theorem ends_mapM {good : α → β → Prop} {bad : ε → Prop} {f : α → Except ε β} {l : List α}
    (h : ∀ a ∈ l, Ends (good a) bad (f a)) : Ends (List.Forall₂ good l) bad (l.mapM f) := by
  induction l with
  | nil => exact .nil
  | cons a l ih =>
    rw [List.mapM_cons]
    refine (h a List.mem_cons_self).bind fun b hb => ?_
    refine (ih fun x hx => h x (List.mem_cons_of_mem a hx)).bind fun bs hbs => ?_
    exact .cons hb hbs

/-! ## Computations that end alike -/

/-- Two computations that both succeed, with related values, or end in the same fault. -/
inductive Alike (R : α → β → Prop) : Except ε α → Except ε β → Prop
  | ok {a : α} {b : β} (h : R a b) : Alike R (.ok a) (.ok b)
  | error (e : ε) : Alike R (.error e) (.error e)

variable {γ δ ι : Type} {R : α → β → Prop} {S : γ → δ → Prop}

theorem Alike.bind {x : Except ε α} {y : Except ε β} {f : α → Except ε γ} {g : β → Except ε δ}
    (h : Alike R x y) (hfg : ∀ a b, R a b → Alike S (f a) (g b)) :
    Alike S (x >>= f) (y >>= g) := by
  cases h with
  | ok h => exact hfg _ _ h
  | error e => exact .error e

theorem Alike.exists_eq_ok {x : Except ε α} {y : Except ε β} (h : Alike R x y) {a : α}
    (hx : x = .ok a) : ∃ b, y = .ok b ∧ R a b := by
  cases h with
  | ok h =>
    cases hx
    exact ⟨_, rfl, h⟩
  | error e => cases hx

theorem Alike.eq_error {x : Except ε α} {y : Except ε β} (h : Alike R x y) {e : ε}
    (hx : x = .error e) : y = .error e := by
  cases h with
  | ok h => cases hx
  | error e => exact congrArg _ (Except.error.inj hx)

/-- Folds end alike if their steps do. -/
theorem Alike.foldlM {f : α → ι → Except ε α} {g : β → ι → Except ε β} {l : List ι}
    (hstep : ∀ i ∈ l, ∀ a b, R a b → Alike R (f a i) (g b i)) {a : α} {b : β} (h : R a b) :
    Alike R (l.foldlM f a) (l.foldlM g b) := by
  induction l generalizing a b with
  | nil => exact .ok h
  | cons i l ih =>
    rw [List.foldlM_cons, List.foldlM_cons]
    refine (hstep i List.mem_cons_self a b h).bind fun a' b' h' => ih ?_ h'
    exact fun j hj => hstep j (List.mem_cons_of_mem i hj)

end RomAtlas
