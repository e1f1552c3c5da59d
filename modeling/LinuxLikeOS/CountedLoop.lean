import Mathlib.Logic.Function.Basic

/-! # How far a counting loop gets

A C loop `for (i = 0; i < n; i++) { if (!p(i)) break; … }` runs its body for the
indices before the first one that fails `p`.  `leading p n i` is how many those
are when `n` iterations are left and the index is `i`; a loop of that shape is
counted by induction on the iterations left, one equation a step.

The count is determined by three facts (`leading_eq_iff`): it is at most `n`,
every index before it passes, and if it is below `n` its own index fails.
-/
namespace CountedLoop

/-- The number of indices among `i, i + 1, …, i + n - 1` before the first that
fails `p`. -/
def leading (p : Nat → Bool) : Nat → Nat → Nat
  | 0, _ => 0
  | n + 1, i => if p i then leading p n (i + 1) + 1 else 0

variable {p : Nat → Bool}

theorem leading_le (n i : Nat) : leading p n i ≤ n := by
  induction n generalizing i with
  | zero => exact Nat.le_refl 0
  | succ n ih =>
    unfold leading
    split
    · exact Nat.succ_le_succ (ih (i + 1))
    · exact Nat.zero_le _

/-- Every index the loop gets through passes. -/
theorem leading_pass {n i j : Nat} (h : j < leading p n i) : p (i + j) = true := by
  induction n generalizing i j with
  | zero => exact absurd h (Nat.not_lt_zero j)
  | succ n ih =>
    unfold leading at h
    split at h
    · rename_i hi
      cases j with
      | zero => exact hi
      | succ j =>
        have := ih (i := i + 1) (Nat.lt_of_succ_lt_succ h)
        rwa [show i + (j + 1) = i + 1 + j from by omega]
    · exact absurd h (Nat.not_lt_zero j)

/-- The index the loop stops at fails. -/
theorem leading_stop {n i : Nat} (h : leading p n i < n) : p (i + leading p n i) = false := by
  induction n generalizing i with
  | zero => exact absurd h (Nat.not_lt_zero _)
  | succ n ih =>
    unfold leading at h ⊢
    split
    · rename_i hi
      rw [if_pos hi] at h
      have := ih (i := i + 1) (Nat.lt_of_succ_lt_succ h)
      rwa [show i + (leading p n (i + 1) + 1) = i + 1 + leading p n (i + 1) from by omega]
    · rename_i hi
      simpa using hi

/-- **The three facts that determine the count.** -/
theorem leading_eq_iff {n i m : Nat} : leading p n i = m ↔
    m ≤ n ∧ (∀ j, j < m → p (i + j) = true) ∧ (m < n → p (i + m) = false) := by
  constructor
  · rintro rfl
    exact ⟨leading_le n i, fun j hj => leading_pass hj, leading_stop⟩
  · rintro ⟨hle, hpass, hstop⟩
    rcases Nat.lt_trichotomy (leading p n i) m with hlt | heq | hlt
    · have hfail := leading_stop (p := p) (Nat.lt_of_lt_of_le hlt hle)
      rw [hpass _ hlt] at hfail
      cases hfail
    · exact heq
    · have hfail := hstop (Nat.lt_of_lt_of_le hlt (leading_le n i))
      rw [leading_pass hlt] at hfail
      cases hfail

/-- With more iterations it gets further, if anything. -/
theorem leading_mono {n n' : Nat} (h : n ≤ n') (i : Nat) : leading p n i ≤ leading p n' i := by
  by_contra hlt
  have hstop := leading_stop (p := p) (n := n') (i := i)
    (Nat.lt_of_lt_of_le (Nat.lt_of_not_le hlt) (Nat.le_trans (leading_le n i) h))
  rw [leading_pass (Nat.lt_of_not_le hlt)] at hstop
  cases hstop

/-- The loop stops at once exactly when it has no iterations or its first index
fails. -/
theorem leading_eq_zero_iff {n i : Nat} : leading p n i = 0 ↔ n = 0 ∨ p i = false := by
  rw [leading_eq_iff]
  constructor
  · rintro ⟨_, _, hstop⟩
    rcases Nat.eq_zero_or_pos n with hzero | hpos
    · exact Or.inl hzero
    · exact Or.inr (hstop hpos)
  · intro h
    refine ⟨Nat.zero_le n, fun j hj => absurd hj (Nat.not_lt_zero j), fun hpos => ?_⟩
    exact h.resolve_left (Nat.pos_iff_ne_zero.mp hpos)

end CountedLoop
