import LinuxLikeOS.CountedLoop
import Mathlib.Data.List.TakeWhile

/-! # Terminated texts in arrays

A text in an array ends at its terminator or, where the array has room for no terminator,
with the array.  `text z s n i` is the text in the `n` entries of `s` from `i` on; a loop
that copies, counts or compares entries up to the terminator does so one equation a step.

Its length is what a counting loop gets through (`length_text`), it depends on the entries up
to its terminator alone (`text_congr_upTo`), and a list without terminators is the text of the
array that holds it (`text_getD`).
-/
namespace TerminatedText
open CountedLoop
variable {α : Type} [DecidableEq α] {z : α}

/-- The entries of `s` from `i` on before the first `z`, at most `n`. -/
def text (z : α) (s : Nat → α) : Nat → Nat → List α
  | 0, _ => []
  | n + 1, i => if s i = z then [] else s i :: text z s n (i + 1)

theorem text_end {s : Nat → α} {i : Nat} (h : s i = z) (n : Nat) : text z s (n + 1) i = [] :=
  if_pos h

theorem text_entry {s : Nat → α} {i : Nat} (h : s i ≠ z) (n : Nat) :
    text z s (n + 1) i = s i :: text z s n (i + 1) :=
  if_neg h

/-- The text is as long as a loop runs that stops at the terminator. -/
theorem length_text (s : Nat → α) (n i : Nat) :
    (text z s n i).length = leading (fun j => s j != z) n i := by
  induction n generalizing i with
  | zero => rfl
  | succ n ih =>
    by_cases h : s i = z
    · simp [text_end h, leading, h]
    · simp [text_entry h, leading, h, ih]

theorem length_text_le (s : Nat → α) (n i : Nat) : (text z s n i).length ≤ n := by
  rw [length_text]
  exact leading_le n i

/-- The text depends on the entries up to its terminator alone. -/
theorem text_congr_upTo {s t : Nat → α} {n i : Nat}
    (h : ∀ j, j < n → j ≤ (text z s n i).length → s (i + j) = t (i + j)) :
    text z s n i = text z t n i := by
  induction n generalizing i with
  | zero => rfl
  | succ n ih =>
    have hfirst : s i = t i := h 0 (Nat.succ_pos n) (Nat.zero_le _)
    by_cases hend : s i = z
    · rw [text_end hend, text_end (hfirst ▸ hend)]
    · have hrest := ih (i := i + 1) fun j hj hle => by
        have := h (j + 1) (Nat.succ_lt_succ hj) (by simpa [text_entry hend] using hle)
        rwa [show i + (j + 1) = i + 1 + j by omega] at this
      rw [text_entry hend, text_entry (hfirst ▸ hend), hrest, hfirst]

theorem text_congr {s t : Nat → α} {n i : Nat} (h : ∀ j, j < n → s (i + j) = t (i + j)) :
    text z s n i = text z t n i :=
  text_congr_upTo fun j hj _ => h j hj

theorem text_eq_takeWhile (s : Nat → α) (n i : Nat) :
    text z s n i = ((List.range' i n).map s).takeWhile fun a => decide (a ≠ z) := by
  induction n generalizing i with
  | zero => rfl
  | succ n ih =>
    by_cases h : s i = z
    · simp [text_end h, List.range'_succ, h]
    · simp [text_entry h, List.range'_succ, h, ih]

/-- A list without terminators is the text of the array that holds it. -/
theorem text_getD {l : List α} (hz : z ∉ l) {n : Nat} (hn : l.length ≤ n) :
    text z (fun j => l.getD j z) n 0 = l := by
  have hshift : ∀ (l : List α) (a : α) (m i : Nat),
      text z (fun j => (a :: l).getD j z) m (i + 1) = text z (fun j => l.getD j z) m i := by
    intro l a m
    induction m with
    | zero => exact fun _ => rfl
    | succ m ih =>
      intro i
      simp only [text, List.getD_cons_succ, ih]
  induction l generalizing n with
  | nil =>
    cases n with
    | zero => rfl
    | succ n => simp [text]
  | cons a l ih =>
    obtain ⟨ha, hl⟩ : z ≠ a ∧ z ∉ l := by simpa using hz
    cases n with
    | zero => cases hn
    | succ n =>
      simp only [text, List.getD_cons_zero, if_neg ha.symm, hshift]
      rw [ih hl (Nat.le_of_succ_le_succ hn)]

/-- An array that begins with a list and a terminator has the list as its text. -/
theorem text_of_entries {s : Nat → α} {l : List α} (hz : z ∉ l) {n i : Nat} (hn : l.length < n)
    (hentries : ∀ (j : Nat) (hj : j < l.length), s (i + j) = l[j]) (hend : s (i + l.length) = z) :
    text z s n i = l := by
  induction l generalizing n i with
  | nil =>
    obtain ⟨m, rfl⟩ := Nat.exists_eq_add_one_of_ne_zero (Nat.ne_of_gt hn)
    exact text_end hend m
  | cons a l ih =>
    obtain ⟨ha, hl⟩ : z ≠ a ∧ z ∉ l := by simpa using hz
    obtain ⟨m, rfl⟩ := Nat.exists_eq_add_one_of_ne_zero (Nat.ne_of_gt (Nat.zero_lt_of_lt hn))
    have hfirst : s i = a := hentries 0 (Nat.succ_pos _)
    have hrest : text z s m (i + 1) = l := by
      refine ih hl (Nat.lt_of_succ_lt_succ hn) (fun j hj => ?_) ?_
      · rw [Nat.add_assoc, Nat.add_comm 1 j]
        exact hentries (j + 1) (Nat.succ_lt_succ hj)
      · rw [Nat.add_assoc, Nat.add_comm 1 l.length]
        exact hend
    rw [text_entry (hfirst ▸ ha.symm), hrest, hfirst]

/-- The entries up to the terminator are the text. -/
theorem map_range_text (s : Nat → α) (n : Nat) :
    (List.range (text z s n 0).length).map s = text z s n 0 := by
  have hfrom : ∀ i, (List.range' i (text z s n i).length).map s = text z s n i := by
    induction n with
    | zero => exact fun _ => rfl
    | succ n ih =>
      intro i
      by_cases h : s i = z
      · simp [text_end h]
      · simp [text_entry h, List.range'_succ, ih]
  rw [List.range_eq_range']
  exact hfrom 0

omit [DecidableEq α] in
/-- Padding with terminators is not seen. -/
theorem getD_append_replicate (l : List α) (n j : Nat) :
    (l ++ List.replicate n z).getD j z = l.getD j z := by
  simp only [List.getD_eq_getElem?_getD, List.getElem?_append, List.getElem?_replicate]
  split
  · rfl
  · split <;> simp_all

omit [DecidableEq α] in
/-- How far a loop gets in a list that is its array. -/
theorem leading_getD (p : α → Bool) (l : List α) (i : Nat) :
    leading (fun j => p (l.getD j z)) (l.length - i) i = ((l.drop i).takeWhile p).length := by
  generalize hn : l.length - i = n
  induction n generalizing i with
  | zero =>
    rw [List.drop_eq_nil_of_le (by omega)]
    rfl
  | succ n ih =>
    have hi : i < l.length := by omega
    have hentry : l.getD i z = l[i] := by simp [hi]
    rw [leading, ih (i + 1) (by omega), List.drop_eq_getElem_cons hi, List.takeWhile_cons, hentry]
    split <;> rfl

omit [DecidableEq α] in
/-- What is left behind such a loop. -/
theorem drop_length_takeWhile (p : α → Bool) (l : List α) :
    l.drop (l.takeWhile p).length = l.dropWhile p := by
  have happend := List.takeWhile_append_dropWhile (p := p) (l := l)
  calc l.drop (l.takeWhile p).length
      = (l.takeWhile p ++ l.dropWhile p).drop (l.takeWhile p).length := by rw [happend]
    _ = l.dropWhile p := List.drop_left

end TerminatedText
