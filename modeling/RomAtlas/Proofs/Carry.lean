import Mathlib.Data.Set.Basic
import RomAtlas.Cpu.Effect

/-!
# Unknown carry

Where a mode switch is reached under an unknown carry, both widths that it can leave are followed.
Every other instruction leaves the carry alone, or leaves one that does not depend on what it was.
So an unknown carry stands for the two known ones, however many instructions are executed.

* `WidthState.after_withCarry`: what an instruction does to the carry, mode switches apart.
* `WidthState.keepsCarry_or_settlesCarry`: what each instruction does to an unknown carry.
* `WidthState.unknown_carry_is_both`: **an unknown carry is both known ones**, after any list of
  instructions.
-/

namespace RomAtlas.WidthState

variable {s t u : WidthState} {i : Instruction} {l : List Instruction}

/-! ## One instruction -/

/-- An instruction treats all carries alike and leaves them. -/
def KeepsCarry (i : Instruction) : Prop :=
  ∀ (s : WidthState) (carry : Option Bool),
    (s.withCarry carry).possibleAfter i = [(s.after i).withCarry carry]

/-- Under an unknown carry an instruction leaves what it leaves under the two known ones. -/
def SettlesCarry (i : Instruction) : Prop :=
  ∀ s t : WidthState, t ∈ (s.withCarry none).possibleAfter i ↔
    t ∈ (s.withCarry (some true)).possibleAfter i ∨ t ∈ (s.withCarry (some false)).possibleAfter i

theorem possibleAfter_of_ne (h : i.shape.mnemonic ≠ .xce) (s : WidthState) :
    s.possibleAfter i = [s.after i] := by
  unfold possibleAfter
  rw [if_neg fun hx => h hx.1]

/-- Any other instruction than a mode switch leaves the carry, or one that does not depend on
it. -/
theorem after_withCarry (h : i.shape.mnemonic ≠ .xce) :
    (∀ s carry, (withCarry s carry).after i = (s.after i).withCarry carry) ∨
      ∀ s carry carry', (withCarry s carry).after i = (withCarry s carry').after i := by
  unfold after
  split
  · -- masks say whether the carry is among the bits that are cleared
    by_cases hmask : (StatusMask.ofByte (i.operand.headD 0)).carry = true
    · right
      intro s carry carry'
      simp only [clearBits, hmask, if_true]
      rfl
    · left
      intro s carry
      simp only [clearBits, hmask]
      rfl
  · by_cases hmask : (StatusMask.ofByte (i.operand.headD 0)).carry = true
    · right
      intro s carry carry'
      simp only [setBits, hmask, if_true]
      rfl
    · left
      intro s carry
      simp only [setBits, hmask]
      rfl
  · exact .inr fun s carry carry' => rfl
  · exact .inr fun s carry carry' => rfl
  · next hx => exact absurd hx h
  · exact .inl fun s carry => rfl
  · right
    intro s carry carry'
    unfold pop withCarry
    split <;> simp_all
  · split
    · exact .inr fun s carry carry' => rfl
    · exact .inl fun s carry => rfl

/-- A mode switch keeps the widths under a clear carry and makes them narrow under a set one. Under
an unknown one it does both, which is the same if they are narrow before. -/
theorem settlesCarry_of_xce (h : i.shape.mnemonic = .xce) : SettlesCarry i := by
  intro s t
  have hafter : ∀ s : WidthState, s.after i = s.exchange := by
    intro s
    simp only [after, h]
  have hknown : ∀ carry : Bool, (s.withCarry (some carry)).possibleAfter i =
      [(s.withCarry (some carry)).exchange] := by
    intro carry
    unfold possibleAfter
    rw [if_neg fun hx => (nomatch hx.2.1), hafter]
  have hset : (s.withCarry (some true)).exchange = (s.withWidths .narrow).withCarry none := rfl
  have hclear : (s.withCarry (some false)).exchange = s.withCarry none := rfl
  have hunknown : (s.withCarry none).exchange = (s.withWidths .narrow).withCarry none := rfl
  rw [hknown, hknown, hset, hclear, List.mem_singleton, List.mem_singleton]
  unfold possibleAfter
  rw [hafter, hunknown]
  by_cases hw : s.widths = .narrow
  · have hsame : (s.withWidths .narrow).withCarry none = s.withCarry none := by
      unfold withWidths
      rw [← hw]
    rw [if_neg fun hx => hx.2.2 hw, List.mem_singleton, hsame, or_self]
  · rw [if_pos ⟨h, rfl, hw⟩, List.mem_cons, List.mem_singleton]
    exact or_comm

/-- **What an instruction does to an unknown carry.** -/
theorem keepsCarry_or_settlesCarry (i : Instruction) : KeepsCarry i ∨ SettlesCarry i := by
  by_cases hx : i.shape.mnemonic = .xce
  · exact .inr (settlesCarry_of_xce hx)
  rcases after_withCarry hx with hkeep | hsettle
  · left
    intro s carry
    rw [possibleAfter_of_ne hx, hkeep]
  · right
    intro s t
    rw [possibleAfter_of_ne hx, possibleAfter_of_ne hx, possibleAfter_of_ne hx,
      hsettle s none (some true), hsettle s (some false) (some true), or_self]

theorem possibleAfter_ne_nil (s : WidthState) (i : Instruction) : s.possibleAfter i ≠ [] := by
  unfold possibleAfter
  split <;> simp

/-! ## Any number of instructions -/

/-- Instructions that are executed one after the other may lead from a state to another: after each
of them any of the states is taken that it may leave. -/
inductive Executes : WidthState → List Instruction → WidthState → Prop
  | nil (s : WidthState) : Executes s [] s
  | cons {s t u : WidthState} {i : Instruction} {l : List Instruction}
    (h : t ∈ s.possibleAfter i) (hrest : Executes t l u) : Executes s (i :: l) u

theorem executes_nil_iff : s.Executes [] u ↔ u = s := by
  constructor
  · rintro ⟨⟩
    rfl
  · rintro rfl
    exact .nil u

theorem executes_cons_iff :
    s.Executes (i :: l) u ↔ ∃ t ∈ s.possibleAfter i, t.Executes l u := by
  constructor
  · rintro (_ | ⟨h, hrest⟩)
    exact ⟨_, h, hrest⟩
  · rintro ⟨t, h, hrest⟩
    exact .cons h hrest

/-- Execution never gets stuck. -/
theorem exists_executes (s : WidthState) (l : List Instruction) : ∃ u, s.Executes l u := by
  induction l generalizing s with
  | nil => exact ⟨s, .nil s⟩
  | cons i l ih =>
    obtain ⟨t, ht⟩ := List.exists_mem_of_ne_nil _ (s.possibleAfter_ne_nil i)
    obtain ⟨u, hu⟩ := ih t
    exact ⟨u, .cons ht hu⟩

/-- The widths and the saved widths that may be left by instructions. -/
def widthsAfter (s : WidthState) (l : List Instruction) : Set (Widths × List Widths) :=
  {w | ∃ u, s.Executes l u ∧ (u.widths, u.saved) = w}

theorem widthsAfter_cons_of_keepsCarry (h : KeepsCarry i) (s : WidthState) (carry : Option Bool)
    (l : List Instruction) :
    (s.withCarry carry).widthsAfter (i :: l) = ((s.after i).withCarry carry).widthsAfter l := by
  ext w
  simp only [widthsAfter, Set.mem_ofPred_eq, executes_cons_iff, h s carry, List.mem_singleton,
    exists_eq_left]

/-- **An unknown carry is both known ones.** The widths and saved widths that any list of
instructions may leave under an unknown carry are those that it may leave under a set and under a
clear one, and there are some. -/
theorem unknown_carry_is_both (s : WidthState) (l : List Instruction) :
    (s.withCarry none).widthsAfter l =
        (s.withCarry (some true)).widthsAfter l ∪ (s.withCarry (some false)).widthsAfter l ∧
      ∀ carry, ((s.withCarry carry).widthsAfter l).Nonempty := by
  constructor
  · induction l generalizing s with
    | nil =>
      ext w
      simp [widthsAfter, executes_nil_iff, withCarry]
    | cons i l ih =>
      rcases keepsCarry_or_settlesCarry i with hkeep | hsettle
      · -- the rest is executed under the same three carries
        rw [widthsAfter_cons_of_keepsCarry hkeep, widthsAfter_cons_of_keepsCarry hkeep,
          widthsAfter_cons_of_keepsCarry hkeep]
        exact ih (s.after i)
      · -- the rest is executed from the same states
        ext w
        simp only [widthsAfter, Set.mem_union, Set.mem_ofPred_eq, executes_cons_iff, hsettle s]
        constructor
        · rintro ⟨u, ⟨t, ht | ht, hu⟩, hw⟩
          · exact .inl ⟨u, ⟨t, ht, hu⟩, hw⟩
          · exact .inr ⟨u, ⟨t, ht, hu⟩, hw⟩
        · rintro (⟨u, ⟨t, ht, hu⟩, hw⟩ | ⟨u, ⟨t, ht, hu⟩, hw⟩)
          · exact ⟨u, ⟨t, .inl ht, hu⟩, hw⟩
          · exact ⟨u, ⟨t, .inr ht, hu⟩, hw⟩
  · intro carry
    obtain ⟨u, hu⟩ := (s.withCarry carry).exists_executes l
    exact ⟨_, u, hu, rfl⟩

end RomAtlas.WidthState
