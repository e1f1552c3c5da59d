import LinuxLikeOS.TerminatedText
import Mathlib.Data.List.Infix

/-! # Slices of arrays

An array is a function that gives its entries.  `slice s a b` is the list of the entries from
`a` on, up to `b`; slices next to each other append to one (`slice_append`), dropping and
taking move its ends, and arrays that agree there have the same one (`slice_congr`).

A slice without terminators that is followed by one is the text there, as far as it goes
(`text_eq_take`).
-/
namespace ArraySlices
open TerminatedText
variable {α : Type}

/-- The entries from `a` on, up to `b`. -/
def slice (s : Nat → α) (a b : Nat) : List α := (List.range' a (b - a)).map s

@[simp] theorem length_slice (s : Nat → α) (a b : Nat) : (slice s a b).length = b - a := by
  simp [slice]

@[simp] theorem getElem_slice (s : Nat → α) (a b j : Nat) (h : j < (slice s a b).length) :
    (slice s a b)[j] = s (a + j) := by
  simp [slice]

@[simp] theorem slice_self (s : Nat → α) (a : Nat) : slice s a a = [] := by simp [slice]

theorem mem_slice {s : Nat → α} {a b : Nat} {c : α} :
    c ∈ slice s a b ↔ ∃ j, a ≤ j ∧ j < b ∧ s j = c := by
  simp only [slice, List.mem_map, List.mem_range'_1]
  constructor
  · rintro ⟨j, ⟨hlow, hhigh⟩, hj⟩
    exact ⟨j, hlow, by omega, hj⟩
  · rintro ⟨j, hlow, hhigh, hj⟩
    exact ⟨j, ⟨hlow, by omega⟩, hj⟩

theorem slice_cons (s : Nat → α) {a b : Nat} (h : a < b) :
    slice s a b = s a :: slice s (a + 1) b := by
  obtain ⟨n, rfl⟩ := Nat.exists_eq_add_of_lt h
  rw [slice, slice, show a + n + 1 - a = n + 1 by omega, show a + n + 1 - (a + 1) = n by omega,
    List.range'_succ, List.map_cons]

theorem slice_append (s : Nat → α) {a b c : Nat} (hab : a ≤ b) (hbc : b ≤ c) :
    slice s a b ++ slice s b c = slice s a c := by
  refine List.ext_getElem (by simp; omega) fun j hj hj' => ?_
  rw [List.getElem_append]
  split
  · simp
  · rename_i hlate
    rw [length_slice] at hlate
    rw [getElem_slice, getElem_slice, length_slice]
    congr 1
    omega

/-- Arrays that agree have the same slices. -/
theorem slice_congr {s t : Nat → α} {a b a' b' : Nat} (hlen : b - a = b' - a')
    (h : ∀ j, j < b - a → s (a + j) = t (a' + j)) : slice s a b = slice t a' b' := by
  refine List.ext_getElem (by simp [hlen]) fun j hj _ => ?_
  rw [length_slice] at hj
  rw [getElem_slice, getElem_slice, h j hj]

theorem drop_slice (s : Nat → α) (a b j : Nat) : (slice s a b).drop j = slice s (a + j) b := by
  refine List.ext_getElem (by simp; omega) fun i hi hi' => ?_
  rw [List.getElem_drop, getElem_slice, getElem_slice]
  congr 1
  omega

theorem take_slice (s : Nat → α) {a b n : Nat} (h : a + n ≤ b) :
    (slice s a b).take n = slice s a (a + n) := by
  refine List.ext_getElem (by simp; omega) fun i hi hi' => ?_
  rw [List.getElem_take, getElem_slice, getElem_slice]

section Terminated
variable [DecidableEq α] {z : α} {s : Nat → α} {a b : Nat}

/-- A slice without terminators, with one behind it, is the text there. -/
theorem text_eq_slice (hz : z ∉ slice s a b) (hend : s b = z) (hab : a ≤ b) {n : Nat}
    (hn : b - a < n) : text z (fun j => s (a + j)) n 0 = slice s a b := by
  refine text_of_entries hz (by simpa using hn) (fun j hj => ?_) ?_
  · rw [getElem_slice, Nat.zero_add]
  · rw [length_slice, Nat.zero_add, Nat.add_sub_of_le hab, hend]

/-- The first `n` entries of the text. -/
theorem text_eq_take (hz : z ∉ slice s a b) (hend : s b = z) (hab : a ≤ b) (n : Nat) :
    text z (fun j => s (a + j)) n 0 = (slice s a b).take n := by
  by_cases hn : b - a < n
  · rw [text_eq_slice hz hend hab hn, List.take_of_length_le (by simp; omega)]
  · have hmap : (List.range' 0 n).map (fun j => s (a + j)) = slice s a (a + n) := by
      refine List.ext_getElem (by simp) fun j hj hj' => ?_
      rw [List.getElem_map, List.getElem_range', getElem_slice]
      congr 1
      omega
    rw [text_eq_takeWhile, hmap, take_slice s (by omega), List.takeWhile_eq_self_iff]
    intro c hc
    obtain ⟨j, hlow, hhigh, rfl⟩ := mem_slice.mp hc
    have hne : s j ≠ z := fun heq => hz (mem_slice.mpr ⟨j, hlow, by omega, heq⟩)
    simpa using hne

end Terminated

/-! ## Searching -/

/-- A list is in another if it begins somewhere in it. -/
theorem infix_iff_drop {l₁ l₂ : List α} (h : l₁ ≠ []) :
    l₁ <:+: l₂ ↔ ∃ j, j < l₂.length ∧ l₁ <+: l₂.drop j := by
  constructor
  · intro hinfix
    obtain ⟨t, hprefix, hsuffix⟩ := List.infix_iff_prefix_suffix.mp hinfix
    rw [List.suffix_iff_eq_drop] at hsuffix
    rw [hsuffix] at hprefix
    refine ⟨_, ?_, hprefix⟩
    by_contra hlong
    rw [List.drop_eq_nil_of_le (Nat.le_of_not_lt hlong), List.prefix_nil] at hprefix
    exact h hprefix
  · rintro ⟨j, _, hprefix⟩
    exact List.infix_iff_prefix_suffix.mpr ⟨_, hprefix, List.drop_suffix j l₂⟩

end ArraySlices
