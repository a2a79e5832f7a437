import RomAtlas.Proofs.Carry
import RomAtlas.Proofs.Decode

/-!
# Saved widths

Widths that are saved before a piece of code are restored after it, if the code restores what it
saves itself and does not nest its own saves too deep. Only so many saved widths are remembered, so
each level of nesting pushes out the oldest ones from before; what is left is a matter of the depth
alone, and not of the path that is taken.

* `WidthState.nesting?`: how deep a piece of code nests its saves, if they are balanced.
* `WidthState.Executes.saved_eq`: **what balanced code leaves of the saved widths.**
* `WidthState.saved_widths_restored`: **saved widths are restored** after balanced code.
-/

namespace RomAtlas.WidthState

variable {s t u : WidthState} {i save restore : Instruction} {l l' : List Instruction} {d k : Nat}

/-! ## Balanced code -/

/-- The largest number of saves that code has open at once, if some are open before it and all are
closed after it. A restore closes the latest save that is open, of which there must be one. -/
def nestingFrom : Nat → List Instruction → Option Nat
  | opened, [] => if opened = 0 then some 0 else none
  | opened, i :: l =>
    if i.shape.mnemonic = .php then (nestingFrom (opened + 1) l).map (max (opened + 1))
    else if i.shape.mnemonic = .plp then
      match opened with
      | 0 => none
      | opened + 1 => nestingFrom opened l
    else nestingFrom opened l

/-- How deep code nests its saves. There is an answer if each restore matches an earlier save of the
code and each save is matched. -/
def nesting? (l : List Instruction) : Option Nat := nestingFrom 0 l

/-! ## One instruction -/

theorem mem_possibleAfter_of_php (h : i.shape.mnemonic = .php) :
    t ∈ s.possibleAfter i ↔ t = s.push := by
  have hafter : s.after i = s.push := by simp only [after, h]
  rw [possibleAfter_of_ne (by simp [h]), hafter, List.mem_singleton]

theorem mem_possibleAfter_of_plp (h : i.shape.mnemonic = .plp) :
    t ∈ s.possibleAfter i ↔ t = s.pop := by
  have hafter : s.after i = s.pop := by simp only [after, h]
  rw [possibleAfter_of_ne (by simp [h]), hafter, List.mem_singleton]

theorem saved_after (hphp : i.shape.mnemonic ≠ .php) (hplp : i.shape.mnemonic ≠ .plp) :
    (s.after i).saved = s.saved := by
  unfold after
  split
  · unfold clearBits
    split <;> rfl
  · unfold setBits
    split <;> rfl
  · rfl
  · rfl
  · unfold exchange
    split <;> rfl
  · next h => exact absurd h hphp
  · next h => exact absurd h hplp
  · split <;> rfl

/-- **Only saves and restores change the saved widths**, on both ways out of a mode switch. -/
theorem saved_of_mem_possibleAfter (hphp : i.shape.mnemonic ≠ .php)
    (hplp : i.shape.mnemonic ≠ .plp) (h : t ∈ s.possibleAfter i) : t.saved = s.saved := by
  unfold possibleAfter at h
  split at h
  · rcases List.mem_cons.1 h with rfl | h
    · rfl
    · rw [List.mem_singleton.1 h, saved_after hphp hplp]
  · rw [List.mem_singleton.1 h, saved_after hphp hplp]

theorem saved_pop (s : WidthState) : s.pop.saved = s.saved.tail := by
  unfold pop
  split
  · next h => simp [withCarry, h]
  · next h => simp [h]

/-! ## Any number of instructions -/

theorem executes_append_iff :
    s.Executes (l ++ l') u ↔ ∃ t, s.Executes l t ∧ t.Executes l' u := by
  induction l generalizing s with
  | nil => simp [executes_nil_iff]
  | cons i l ih =>
    simp only [List.cons_append, executes_cons_iff, ih]
    constructor
    · rintro ⟨a, ha, t, ht, hu⟩
      exact ⟨t, ⟨a, ha, ht⟩, hu⟩
    · rintro ⟨t, ⟨a, ha, ht⟩, hu⟩
      exact ⟨a, ha, t, ht, hu⟩

/-- **What balanced code leaves of the saved widths.** Those of the open saves are used up, and of
the others as many are left as fit beside the deepest nesting. -/
theorem Executes.saved_eq (h : s.Executes l u) (hnest : nestingFrom k l = some d)
    (hs : s.saved.length ≤ maxSaved) : u.saved = (s.saved.drop k).take (maxSaved - d) := by
  induction h generalizing k d with
  | nil s =>
    have hk : k = 0 ∧ d = 0 := by
      unfold nestingFrom at hnest
      split at hnest
      · next hk => exact ⟨hk, (Option.some.inj hnest).symm⟩
      · cases hnest
    rw [hk.1, hk.2, List.drop_zero, Nat.sub_zero, List.take_of_length_le hs]
  | @cons s t u i l ht _ ih =>
    have hlength := length_saved_possibleAfter hs ht
    unfold nestingFrom at hnest
    split at hnest
    · -- one more save is open, so one place less is left for the widths from before
      next hphp =>
      obtain ⟨e, he, rfl⟩ := Option.map_eq_some_iff.1 hnest
      have hsaved : t.saved = (s.widths :: s.saved).take maxSaved := by
        rw [(mem_possibleAfter_of_php hphp).1 ht]
        rfl
      have hroom : min (maxSaved - e) (maxSaved - (k + 1)) = maxSaved - max (k + 1) e := by omega
      rw [ih he hlength, hsaved, List.drop_take, List.take_take, hroom, List.drop_succ_cons]
    · split at hnest
      · -- the latest of the open saves is closed
        next hplp =>
        have hsaved : t.saved = s.saved.drop 1 := by
          rw [(mem_possibleAfter_of_plp hplp).1 ht, saved_pop, List.drop_one]
        cases k with
        | zero => cases hnest
        | succ k => rw [ih hnest hlength, hsaved, List.drop_drop, Nat.add_comm 1 k]
      · next hphp hplp =>
        rw [ih hnest hlength, saved_of_mem_possibleAfter hphp hplp ht]

/-- **Where code between a save and a restore leads**, whatever path is taken through it. -/
theorem Executes.enclosed (h : s.Executes (save :: l ++ [restore]) u)
    (hsave : save.shape.mnemonic = .php) (hrestore : restore.shape.mnemonic = .plp)
    (hnest : nesting? l = some d) (hd : d < maxSaved) :
    u = ⟨s.widths, s.saved.take (maxSaved - 1 - d), none⟩ := by
  obtain ⟨b, hbody, hlast⟩ := executes_append_iff.1 h
  obtain ⟨a, ha, hbody⟩ := executes_cons_iff.1 hbody
  obtain ⟨v, hv, hend⟩ := executes_cons_iff.1 hlast
  obtain rfl := executes_nil_iff.1 hend
  obtain rfl := (mem_possibleAfter_of_php hsave).1 ha
  -- the widths of the save are the last that the code could push out
  have hb : b.saved = s.widths :: s.saved.take (maxSaved - 1 - d) := by
    have hlength : s.push.saved.length ≤ maxSaved := List.length_take_le _ _
    have hpushed : s.push.saved = (s.widths :: s.saved).take maxSaved := rfl
    have hroom : min (maxSaved - d) maxSaved = maxSaved - 1 - d + 1 := by omega
    rw [hbody.saved_eq hnest hlength, List.drop_zero, hpushed, List.take_take, hroom,
      List.take_succ_cons]
  rw [(mem_possibleAfter_of_plp hrestore).1 hv]
  unfold pop
  rw [hb]

/-- **Saved widths are restored.** Balanced code that nests less deep than widths are remembered is
put between a save and a restore. Whatever path is taken through it, in the end the widths are those
from before, the carry is unknown, and of the widths saved before the latest are still there, all of
them if there is room for them. Some path can be taken. -/
theorem saved_widths_restored (hsave : save.shape.mnemonic = .php)
    (hrestore : restore.shape.mnemonic = .plp) (hnest : nesting? l = some d)
    (hd : d < maxSaved) (s : WidthState) :
    (∃ u, s.Executes (save :: l ++ [restore]) u) ∧
      ∀ u, s.Executes (save :: l ++ [restore]) u →
        u.widths = s.widths ∧ u.carry = none ∧ u.savedUpward <:+ s.savedUpward ∧
          u.savedUpward.length = min s.saved.length (maxSaved - 1 - d) ∧
          (s.saved.length + 1 + d ≤ maxSaved → u.savedUpward = s.savedUpward) := by
  refine ⟨exists_executes s _, fun u h => ?_⟩
  obtain rfl := h.enclosed hsave hrestore hnest hd
  refine ⟨rfl, rfl, ?_, ?_, fun hroom => ?_⟩
  · exact List.reverse_suffix.2 (List.take_prefix _ _)
  · simp only [savedUpward, List.length_reverse, List.length_take]
    omega
  · have hall : s.saved.take (maxSaved - 1 - d) = s.saved := List.take_of_length_le (by omega)
    unfold savedUpward
    rw [hall]

/-- An instruction without an operand. -/
def bare (a : Int) (opcode : UInt8) (m : Mnemonic) : Instruction :=
  ⟨a, opcode, ⟨m, .implied, .sequential⟩, [], .reset⟩

/-- Two mode switches, each of which may make all widths narrow, and a save and a restore around the
first one. -/
def switchingCode : List Instruction :=
  [bare 0x8001 0x08 .php, bare 0x8002 0xfb .xce, bare 0x8003 0x28 .plp, bare 0x8004 0xfb .xce]

/-- Wide registers are wide again after it. Of eight widths saved before, two are forgotten. -/
theorem saved_widths_restored_switching :
    nesting? switchingCode = some 1 ∧
      ∃ u, Executes ⟨⟨true, true⟩, List.replicate 8 .narrow, none⟩
        (bare 0x8000 0x08 .php :: switchingCode ++ [bare 0x8005 0x28 .plp]) u ∧
        u.widths = ⟨true, true⟩ ∧ u.savedUpward.length = 6 := by
  have hnest : nesting? switchingCode = some 1 := by decide
  have hsave : (bare 0x8000 0x08 .php).shape.mnemonic = .php := rfl
  have hrestore : (bare 0x8005 0x28 .plp).shape.mnemonic = .plp := rfl
  obtain ⟨⟨u, hu⟩, hall⟩ := saved_widths_restored hsave hrestore hnest (by decide)
    ⟨⟨true, true⟩, List.replicate 8 .narrow, none⟩
  obtain ⟨hwidths, -, -, hlength, -⟩ := hall u hu
  exact ⟨hnest, u, hu, hwidths, hlength⟩

end RomAtlas.WidthState
