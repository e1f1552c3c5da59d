import LinuxLikeOS.Drivers
import Mathlib.Logic.Function.Iterate

/-! # `read_terminal`, step by step

`readTerminal` is a whole call in one state.  Interrupts come between its steps, so here
the call is a program counter (`Stage`) and each iteration of each of its loops is one
step (`readStep`), taken in the state of that moment: every iteration looks up the
visible terminal again.

After the wait for its terminal the call disables interrupts, and nothing comes between
that and its return; this part is one step.  `readTerminal_reached` says that the steps
of a call that is left alone lead to what `readTerminal` says.
-/
namespace LinuxLikeOS
open CountedLoop

/-- How far a call of `read_terminal` has got. -/
inductive Stage
  /-- at the head of the outer `while` -/
  | polling
  /-- at the head of the copy loop, with its index and the bytes stored -/
  | copying (i : Nat) (stored : List Byte)
  /-- in the inner `while`, behind a newline -/
  | spinning (stored : List Byte)
  /-- `j` steps into clearing a line that had no newline -/
  | clearing (j : Nat) (stored : List Byte)
  | returned (ret : Word) (stored : List Byte)

/-- The assignments that clear a line: `enter`, `key_count`, and the buffer. -/
def Terminal.clearStep (v : Terminal) : Nat → Terminal
  | 0 => { v with enter := false }
  | 1 => { v with keyCount := 0 }
  | i + 2 => { v with keyboardBuffer := Function.update v.keyboardBuffer i 0 }

/-- The number of these assignments. -/
def clearSteps : Nat := 130

/-- One step of a call for `nbytes` bytes; `old i` is `buff[i]` before the call. -/
def readStep (old : Nat → Byte) (nbytes : Word) : Kernel × Stage → Kernel × Stage
  | (k, .polling) => (k, if k.visible.enter then .copying 0 [] else .polling)
  | (k, .copying i stored) =>
    -- an unsigned comparison: below 0, `nbytes` is a large bound
    if i < readingTask nbytes then
      let c := k.visible.keyboardBuffer i
      if c = 0x0A then ({ k with jammer := false }, .spinning (stored ++ [c]))
      else (k, .copying (i + 1) (stored ++ [c]))
    else (k, .clearing 0 (endLine stored old))
  | (k, .spinning stored) =>
    if k.currTerminalExecuting = k.currTerminalVisible then
      (clearVisibleLine k, .returned (returned stored.length) stored)
    else (k, .spinning stored)
  | (k, .clearing j stored) =>
    if j < clearSteps then
      (k.setTerminal k.currTerminalVisible (k.visible.clearStep j), .clearing (j + 1) stored)
    else (k, .returned (returned stored.length) stored)
  | (k, .returned ret stored) => (k, .returned ret stored)

/-- Where the steps of a call lead if it is left alone. -/
def TerminalRead.reached (k : Kernel) : TerminalRead → Kernel × Stage
  | .polling => (k, .polling)
  | .spinning k' stored => (k', .spinning stored)
  | .done k' ret stored => (k', .returned ret stored)

section Alone
variable (old : Nat → Byte) (nbytes : Word) (k : Kernel)

/-- The copy loop, `m` iterations before its end. -/
theorem copying_reached (m : Nat) : ∀ (i : Nat) (stored : List Byte), i + m = readingTask nbytes →
    ∃ n, (readStep old nbytes)^[n] (k, .copying i stored) =
      if 0x0A ∈ copyLine k.visible.keyboardBuffer m i then
        ({ k with jammer := false }, .spinning (stored ++ copyLine k.visible.keyboardBuffer m i))
      else (k, .clearing 0 (endLine (stored ++ copyLine k.visible.keyboardBuffer m i) old)) := by
  induction m with
  | zero =>
    intro i stored hi
    refine ⟨1, ?_⟩
    simp only [Function.iterate_one, readStep, copyLine, List.not_mem_nil, if_false,
      List.append_nil]
    rw [if_neg (by omega)]
  | succ m ih =>
    intro i stored hi
    have hlt : i < readingTask nbytes := by omega
    by_cases hline : k.visible.keyboardBuffer i = 0x0A
    · refine ⟨1, ?_⟩
      simp [readStep, copyLine, hlt, hline]
    · obtain ⟨n, hn⟩ := ih (i + 1) (stored ++ [k.visible.keyboardBuffer i]) (by omega)
      refine ⟨n + 1, ?_⟩
      rw [Function.iterate_succ_apply]
      simp only [readStep, hlt, hline, if_true, if_false]
      rw [hn]
      have hmem : ∀ l : List Byte, 0x0A ∈ k.visible.keyboardBuffer i :: l ↔ 0x0A ∈ l := fun l => by
        rw [List.mem_cons, or_iff_right (fun h => hline h.symm)]
      simp only [copyLine, hline, if_false, hmem, List.append_assoc, List.singleton_append]

/-- A terminal after the first `j` assignments that clear its line. -/
def Terminal.cleared (v : Terminal) : Nat → Terminal
  | 0 => v
  | j + 1 => (v.cleared j).clearStep j

theorem Terminal.cleared_eq (v : Terminal) (m : Nat) : v.cleared (m + 2) =
    { v with
      enter := false
      keyCount := 0
      keyboardBuffer := fun i => if i < m then 0 else v.keyboardBuffer i } := by
  induction m with
  | zero => simp [cleared, clearStep]
  | succ m ih =>
    rw [cleared, ih, clearStep]
    congr 1
    funext i
    by_cases hi : i = m
    · subst hi
      simp
    · rw [Function.update_of_ne hi]
      have hlt : i < m + 1 ↔ i < m := by omega
      simp only [hlt]

/-- All of them clear the line. -/
theorem Terminal.cleared_all (v : Terminal) : v.cleared clearSteps = v.clearLine :=
  v.cleared_eq 128

theorem clearing_reached (stored : List Byte) (j : Nat) (hj : j ≤ clearSteps) :
    (readStep old nbytes)^[j] (k, .clearing 0 stored) =
      (k.setTerminal k.currTerminalVisible (k.visible.cleared j), .clearing j stored) := by
  induction j with
  | zero =>
    have hsame : k.setTerminal k.currTerminalVisible k.visible = k := by
      simp [Kernel.setTerminal, Kernel.visible]
    rw [Terminal.cleared, hsame]
    rfl
  | succ j ih =>
    rw [Function.iterate_succ_apply', ih (by omega)]
    simp only [readStep, if_pos (show j < clearSteps by omega), Terminal.cleared]
    simp [Kernel.setTerminal, Kernel.visible]

theorem returned_reached (stored : List Byte) :
    (readStep old nbytes)^[clearSteps + 1] (k, .clearing 0 stored) =
      (clearVisibleLine k, .returned (returned stored.length) stored) := by
  rw [Function.iterate_succ_apply', clearing_reached old nbytes k stored clearSteps (Nat.le_refl _),
    Terminal.cleared_all]
  simp only [readStep, if_neg (Nat.lt_irrefl _)]
  rfl

/-- A finished line is copied. -/
theorem copied_reached (henter : k.visible.enter = true) :
    ∃ n, (readStep old nbytes)^[n] (k, .polling) =
      if 0x0A ∈ copiedLine k nbytes then
        ({ k with jammer := false }, .spinning (copiedLine k nbytes))
      else (k, .clearing 0 (endLine (copiedLine k nbytes) old)) := by
  obtain ⟨n, hn⟩ := copying_reached old nbytes k (readingTask nbytes) 0 [] (Nat.zero_add _)
  refine ⟨n + 1, ?_⟩
  rw [Function.iterate_succ_apply]
  simp only [readStep, henter, if_true]
  exact hn

end Alone

/-- **The steps of `read_terminal`** lead to what `readTerminal` says. -/
theorem readTerminal_reached (k : Kernel) (old : Nat → Byte) (nbytes : Word) :
    ∃ n, (readStep old nbytes)^[n] (k, .polling) = (readTerminal k old nbytes).reached k := by
  rcases readTerminal_cases k old nbytes with
    ⟨_, heq⟩ | ⟨henter, hline, _, heq⟩ | ⟨henter, hline, hexec, heq⟩ | ⟨henter, hline, heq⟩ <;>
    rw [heq]
  · exact ⟨0, rfl⟩
  · obtain ⟨n, hn⟩ := copied_reached old nbytes k henter
    rw [if_pos hline] at hn
    exact ⟨n, hn⟩
  · obtain ⟨n, hn⟩ := copied_reached old nbytes k henter
    rw [if_pos hline] at hn
    refine ⟨n + 1, ?_⟩
    rw [Function.iterate_succ_apply', hn]
    simp only [readStep, hexec, if_true]
    rfl
  · obtain ⟨n, hn⟩ := copied_reached old nbytes k henter
    rw [if_neg hline] at hn
    refine ⟨clearSteps + 1 + n, ?_⟩
    rw [Function.iterate_add_apply, hn, returned_reached]
    rfl

end LinuxLikeOS
