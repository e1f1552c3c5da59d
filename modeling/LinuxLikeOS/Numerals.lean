import Mathlib.Data.List.GetD
import Mathlib.Data.Nat.Digits.Lemmas
import Mathlib.Logic.Function.Basic

/-! # Numerals in memory

A number is written with its most significant digit first and no zero in front
(`numeral`); read from the front, the digits give it back (`value_numeral`).

Division gives the digits the other way round, so they are stored as they come and then
reversed in place: two indices go towards each other and swap what they find
(`reverseLoop`), for an even and for an odd number of entries alike
(`reverseLoop_eq`).
-/
namespace Numerals

/-! ## Digits -/

/-- The digits of `n` to the base `b`, the most significant first. -/
def numeral (b n : Nat) : List Nat := if n = 0 then [0] else (b.digits n).reverse

/-- The number that digits stand for, read from the front. -/
def value (b : Nat) (l : List Nat) : Nat := l.foldl (fun v d => b * v + d) 0

section Digits
variable {b n : Nat}

theorem value_numeral (b n : Nat) : value b (numeral b n) = n := by
  unfold value numeral
  split
  · rename_i hn
    rw [hn]
    rfl
  · have hflip : (fun x y => b * y + x) = fun x y : Nat => x + b * y := by
      funext x y
      exact Nat.add_comm _ _
    have hfold := Nat.ofDigits_eq_foldr b (b.digits n)
    rw [List.foldl_reverse, hflip]
    rw [Nat.ofDigits_digits] at hfold
    exact hfold.symm

theorem lt_of_mem_numeral (hb : 1 < b) {d : Nat} (hd : d ∈ numeral b n) : d < b := by
  unfold numeral at hd
  split at hd
  · rw [List.mem_singleton.mp hd]
    omega
  · exact Nat.digits_lt_base hb (List.mem_reverse.mp hd)

theorem numeral_ne_nil (b n : Nat) : numeral b n ≠ [] := by
  unfold numeral
  split
  · exact List.cons_ne_nil _ _
  · rename_i hn
    rw [ne_eq, List.reverse_eq_nil_iff]
    exact Nat.digits_ne_nil_iff_ne_zero.mpr hn

/-- A numeral begins with a zero only if it is that of zero. -/
theorem head_numeral (b n : Nat) : numeral b n = [0] ∨ (numeral b n).head? ≠ some 0 := by
  unfold numeral
  split
  · exact Or.inl rfl
  · rename_i hn
    refine Or.inr fun hzero => ?_
    have hne := Nat.digits_ne_nil_iff_ne_zero (b := b).mpr hn
    rw [List.head?_reverse, List.getLast?_eq_some_getLast hne, Option.some.injEq] at hzero
    exact Nat.getLast_digit_ne_zero b hn hzero

theorem length_numeral_le (hb : 1 < b) {k : Nat} (hk : 0 < k) (hn : n < b ^ k) :
    (numeral b n).length ≤ k := by
  unfold numeral
  split
  · exact hk
  · rw [List.length_reverse]
    exact (Nat.digits_length_le_iff hb n).mpr hn

end Digits

/-! ## Reversal in place -/

section Reversal
variable {α : Type}

/-- `while (beg < last)`, with at most `fuel` tests: the entries are swapped, and the indices
go on. -/
def reverseLoop : Nat → (Nat → α) → Nat → Int → Option (Nat → α)
  | 0, _, _, _ => none
  | fuel + 1, s, beg, last =>
    if beg < last then
      reverseLoop fuel
        (Function.update (Function.update s last.toNat (s beg)) beg (s last.toNat))
        (beg + 1) (last - 1)
    else some s

/-- **The `n` entries from `beg` on** are reversed, and no others are touched. -/
theorem reverseLoop_eq {fuel n : Nat} (hn : n < 2 * fuel) (s : Nat → α) (beg : Nat) :
    reverseLoop fuel s beg ((beg : Int) + n - 1) =
      some fun i => if beg ≤ i ∧ i < beg + n then s (beg + (beg + n - 1 - i)) else s i := by
  induction fuel generalizing n s beg with
  | zero => omega
  | succ fuel ih =>
    rw [reverseLoop]
    by_cases hlt : (beg : Int) < beg + n - 1
    · -- the two ends are swapped, and `n - 2` entries are left between them
      have hnat : ((beg : Int) + n - 1).toNat = beg + n - 1 := by omega
      have hnext : (beg : Int) + n - 1 - 1 = ((beg + 1 : Nat) : Int) + (n - 2 : Nat) - 1 := by omega
      rw [if_pos hlt, hnat, hnext, ih (by omega)]
      refine congrArg some (funext fun i => ?_)
      by_cases hfirst : i = beg
      · subst hfirst
        rw [if_neg (by omega), if_pos (by omega), Function.update_self,
          show i + (i + n - 1 - i) = i + n - 1 by omega]
      · by_cases hlast : i = beg + n - 1
        · subst hlast
          rw [if_neg (by omega), if_pos (by omega), Function.update_of_ne hfirst,
            Function.update_self, Nat.sub_self, Nat.add_zero]
        · by_cases hin : beg ≤ i ∧ i < beg + n
          · rw [if_pos (by omega), if_pos hin, Function.update_of_ne (by omega),
              Function.update_of_ne (by omega),
              show beg + 1 + (beg + 1 + (n - 2) - 1 - i) = beg + (beg + n - 1 - i) by omega]
          · rw [if_neg (by omega), if_neg hin, Function.update_of_ne hfirst,
              Function.update_of_ne hlast]
    · rw [if_neg hlt]
      refine congrArg some (funext fun i => ?_)
      split
      · rw [show beg + (beg + n - 1 - i) = i by omega]
      · rfl

/-- A list at the start of memory is reversed. -/
theorem reverseLoop_list {fuel : Nat} (l rest : List α) (hl : l.length < 2 * fuel) (s : Nat → α) :
    reverseLoop fuel (fun i => (l ++ rest).getD i (s i)) 0 (l.length - 1) =
      some fun i => (l.reverse ++ rest).getD i (s i) := by
  have hloop := reverseLoop_eq hl (fun i => (l ++ rest).getD i (s i)) 0
  rw [Int.natCast_zero, Int.zero_add] at hloop
  rw [hloop]
  refine congrArg some (funext fun i => ?_)
  by_cases hi : i < l.length
  · have hi' : i < l.reverse.length := by rwa [List.length_reverse]
    have hmirror : 0 + (0 + l.length - 1 - i) < l.length := by omega
    rw [if_pos ⟨Nat.zero_le i, by omega⟩, List.getD_append _ _ _ _ hmirror,
      List.getD_append _ _ _ _ hi', List.getD_eq_getElem _ _ hmirror, List.getD_eq_getElem _ _ hi',
      List.getElem_reverse]
    congr 1
    omega
  · rw [if_neg (by omega), List.getD_append_right _ _ _ _ (by omega),
      List.getD_append_right _ _ _ _ (by rw [List.length_reverse]; omega), List.length_reverse]

end Reversal

end Numerals
