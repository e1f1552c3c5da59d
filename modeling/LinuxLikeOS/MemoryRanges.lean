import Mathlib.Data.BitVec
import Mathlib.Logic.Function.Basic

/-! # Ranges of memory

Memory is a function of an address of `w` bits; addresses wrap around.  `store` puts entries
into a range one by one, from the front; `fill` and `copy` are the two uses of it.  A copy
takes the entries that the source holds before the first one is stored.

A range that is stored in pieces is stored (`store_add`).  For a copy in pieces the rest of the
source must not have been overwritten: from the front this is so if the source is `Ahead`
(`copy_add`), and from the back if it is `Behind` (`copy_succ_behind`).
-/
namespace MemoryRanges

variable {w : Nat} {α : Type}

/-- Stores `value 0`, `value 1`, … at `a` and behind, `n` entries. -/
def store (mem : BitVec w → α) (a : BitVec w) (value : Nat → α) : Nat → BitVec w → α
  | 0 => mem
  | n + 1 => store (Function.update mem a (value 0)) (a + 1) (fun i => value (i + 1)) n

/-- Stores the same entry everywhere. -/
def fill (mem : BitVec w → α) (dest : BitVec w) (c : α) (n : Nat) : BitVec w → α :=
  store mem dest (fun _ => c) n

/-- Stores what is at `src`. -/
def copy (mem : BitVec w → α) (dest src : BitVec w) (n : Nat) : BitVec w → α :=
  store mem dest (fun i => mem (src + BitVec.ofNat w i)) n

/-- `after` holds the first `n` values at `a` and behind, and what `mem` holds elsewhere. -/
structure Stored (mem after : BitVec w → α) (a : BitVec w) (value : Nat → α) (n : Nat) : Prop where
  entries : ∀ i < n, after (a + BitVec.ofNat w i) = value i
  others : ∀ b, (∀ i < n, b ≠ a + BitVec.ofNat w i) → after b = mem b

/-- Nothing is stored over a part of the source that is still to be read, if the range is
gone through from the front. -/
def Ahead (dest src : BitVec w) (n : Nat) : Prop :=
  ∀ i < n, ∀ j < i, src + BitVec.ofNat w i ≠ dest + BitVec.ofNat w j

/-- The same from the back. -/
def Behind (dest src : BitVec w) (n : Nat) : Prop :=
  ∀ j < n, ∀ i < j, src + BitVec.ofNat w i ≠ dest + BitVec.ofNat w j

/-- The ranges have no address in common. -/
def Apart (dest src : BitVec w) (n : Nat) : Prop :=
  ∀ i < n, ∀ j < n, src + BitVec.ofNat w i ≠ dest + BitVec.ofNat w j

instance (dest src : BitVec w) (n : Nat) : Decidable (Apart dest src n) :=
  inferInstanceAs (Decidable (∀ i < n, ∀ j < n, _ ≠ _))

section Addresses
variable {a b : BitVec w} {i j n : Nat}

theorem add_ofNat_add (a : BitVec w) (i j : Nat) :
    a + BitVec.ofNat w i + BitVec.ofNat w j = a + BitVec.ofNat w (i + j) := by
  rw [BitVec.ofNat_add, BitVec.add_assoc]

theorem add_one_add (a : BitVec w) (i : Nat) :
    a + 1 + BitVec.ofNat w i = a + BitVec.ofNat w (i + 1) := by
  rw [Nat.add_comm]
  exact add_ofNat_add a 1 i

theorem add_ofNat_succ_sub_one (a : BitVec w) (i : Nat) :
    a + BitVec.ofNat w (i + 1) - 1 = a + BitVec.ofNat w i := by
  rw [← add_ofNat_add]
  exact BitVec.add_sub_cancel ..

theorem forall_ne_succ {n : Nat} :
    (∀ i < n + 1, b ≠ a + BitVec.ofNat w i) ↔ b ≠ a ∧ ∀ i < n, b ≠ a + 1 + BitVec.ofNat w i := by
  simp only [Nat.forall_lt_succ_left, BitVec.add_zero, add_one_add]

theorem add_ofNat_inj (hi : i < 2 ^ w) (hj : j < 2 ^ w) :
    a + BitVec.ofNat w i = a + BitVec.ofNat w j ↔ i = j := by
  refine ⟨fun h => ?_, fun h => h ▸ rfl⟩
  have hnat := congrArg BitVec.toNat ((BitVec.add_right_inj a).mp h)
  rwa [BitVec.toNat_ofNat, BitVec.toNat_ofNat, Nat.mod_eq_of_lt hi, Nat.mod_eq_of_lt hj] at hnat

end Addresses

/-! ## What is stored -/

section Store
variable {mem : BitVec w → α} {a b : BitVec w} {value value' : Nat → α} {m n : Nat}

/-- **In two pieces.** -/
theorem store_add (mem : BitVec w → α) (a : BitVec w) (value : Nat → α) (m n : Nat) :
    store mem a value (m + n) =
      store (store mem a value m) (a + BitVec.ofNat w m) (fun i => value (m + i)) n := by
  induction m generalizing mem a value with
  | zero =>
    rw [Nat.zero_add, store, BitVec.add_zero]
    simp only [Nat.zero_add]
  | succ m ih =>
    have hvalue : (fun i => value (m + i + 1)) = fun i => value (m + 1 + i) := by
      funext i
      rw [Nat.add_right_comm]
    rw [Nat.add_right_comm, store, ih, add_one_add, hvalue, ← store]

theorem store_congr (h : ∀ i < n, value i = value' i) :
    store mem a value n = store mem a value' n := by
  induction n generalizing mem a value value' with
  | zero => rfl
  | succ n ih =>
    rw [store, store, h 0 (Nat.succ_pos n)]
    exact ih fun i hi => h (i + 1) (Nat.succ_lt_succ hi)

/-- Other addresses keep what they hold. -/
theorem store_of_ne (h : ∀ i < n, b ≠ a + BitVec.ofNat w i) : store mem a value n b = mem b := by
  induction n generalizing mem a value with
  | zero => rfl
  | succ n ih =>
    obtain ⟨hfirst, hrest⟩ := forall_ne_succ.mp h
    rw [store, ih hrest, Function.update_of_ne hfirst]

/-- **What a range holds**, if it is no longer than memory. -/
theorem store_at (hn : n ≤ 2 ^ w) {i : Nat} (hi : i < n) :
    store mem a value n (a + BitVec.ofNat w i) = value i := by
  obtain ⟨k, rfl⟩ := Nat.exists_eq_add_of_lt hi
  -- what is stored behind does not touch it again
  have hlater : ∀ j < k, a + BitVec.ofNat w i ≠ a + BitVec.ofNat w (i + 1) + BitVec.ofNat w j := by
    intro j hj h
    rw [add_ofNat_add, add_ofNat_inj (by omega) (by omega)] at h
    omega
  have hlast : store mem a value (i + 1) (a + BitVec.ofNat w i) = value i := by
    rw [store_add, store, store, Function.update_self, Nat.add_zero]
  rw [Nat.add_right_comm, store_add, store_of_ne hlater, hlast]

/-- An entry outside of the range may be stored before or after. -/
theorem store_update (h : ∀ i < n, b ≠ a + BitVec.ofNat w i) (x : α) :
    store (Function.update mem b x) a value n = Function.update (store mem a value n) b x := by
  induction n generalizing mem a value with
  | zero => rfl
  | succ n ih =>
    obtain ⟨hfirst, hrest⟩ := forall_ne_succ.mp h
    rw [store, store, Function.update_comm hfirst, ih hrest]

/-- A range no longer than memory is stored in one way only. -/
theorem stored_iff (hn : n ≤ 2 ^ w) {after : BitVec w → α} :
    Stored mem after a value n ↔ after = store mem a value n := by
  constructor
  · intro h
    funext b
    by_cases hin : ∀ i < n, b ≠ a + BitVec.ofNat w i
    · rw [h.others b hin, store_of_ne hin]
    · push Not at hin
      obtain ⟨i, hi, rfl⟩ := hin
      rw [h.entries i hi, store_at hn hi]
  · rintro rfl
    exact ⟨fun i hi => store_at hn hi, fun b hb => store_of_ne hb⟩

/-- Memory seen from `c` on. -/
theorem store_offset (mem : BitVec w → α) (c a : BitVec w) (value : Nat → α) (n : Nat) :
    (fun b => store mem (c + a) value n (c + b)) = store (fun b => mem (c + b)) a value n := by
  induction n generalizing mem a value with
  | zero => rfl
  | succ n ih =>
    have hfirst : (fun b => Function.update mem (c + a) (value 0) (c + b)) =
        Function.update (fun b => mem (c + b)) a (value 0) := by
      funext b
      simp only [Function.update_apply, BitVec.add_right_inj]
    have hrest := ih (Function.update mem (c + a) (value 0)) (a + 1) fun i => value (i + 1)
    rwa [hfirst, ← BitVec.add_assoc] at hrest

end Store

/-! ## Filling and copying in pieces -/

section Pieces
variable {mem : BitVec w → α} {dest src : BitVec w} {m n : Nat}

theorem fill_add (mem : BitVec w → α) (dest : BitVec w) (c : α) (m n : Nat) :
    fill (fill mem dest c m) (dest + BitVec.ofNat w m) c n = fill mem dest c (m + n) :=
  (store_add mem dest _ m n).symm

theorem Ahead.left (h : Ahead dest src (m + n)) : Ahead dest src m :=
  fun i hi => h i (by omega)

theorem Ahead.right (h : Ahead dest src (m + n)) :
    Ahead (dest + BitVec.ofNat w m) (src + BitVec.ofNat w m) n := by
  intro i hi j hj
  rw [add_ofNat_add, add_ofNat_add]
  exact h (m + i) (by omega) (m + j) (by omega)

theorem Behind.pred (h : Behind dest src (n + 1)) : Behind dest src n :=
  fun j hj => h j (by omega)

theorem Apart.ahead (h : Apart dest src n) : Ahead dest src n :=
  fun i hi j hj => h i hi j (by omega)

theorem toNat_add_ofNat {a : BitVec w} {i : Nat} (h : a.toNat + i < 2 ^ w) :
    (a + BitVec.ofNat w i).toNat = a.toNat + i := by
  rw [BitVec.toNat_add, BitVec.toNat_ofNat, Nat.add_mod_mod, Nat.mod_eq_of_lt h]

theorem ahead_of_le (hsrc : src.toNat + n ≤ 2 ^ w) (hle : dest ≤ src) : Ahead dest src n := by
  intro i hi j hj heq
  have hle' : dest.toNat ≤ src.toNat := hle
  have hnat := congrArg BitVec.toNat heq
  rw [toNat_add_ofNat (by omega), toNat_add_ofNat (by omega)] at hnat
  omega

theorem behind_of_lt (hdest : dest.toNat + n ≤ 2 ^ w) (hlt : src < dest) : Behind dest src n := by
  intro j hj i hi heq
  have hlt' : src.toNat < dest.toNat := hlt
  have hnat := congrArg BitVec.toNat heq
  rw [toNat_add_ofNat (by omega), toNat_add_ofNat (by omega)] at hnat
  omega

/-- **From the front**: the second piece is copied from where the first has not stored. -/
theorem copy_add (h : Ahead dest src (m + n)) :
    copy (copy mem dest src m) (dest + BitVec.ofNat w m) (src + BitVec.ofNat w m) n =
      copy mem dest src (m + n) := by
  have hunread : ∀ i < n, copy mem dest src m (src + BitVec.ofNat w m + BitVec.ofNat w i) =
      mem (src + BitVec.ofNat w (m + i)) := by
    intro i hi
    rw [add_ofNat_add]
    exact store_of_ne fun j hj => h (m + i) (by omega) j (by omega)
  rw [copy, store_congr hunread]
  exact (store_add mem dest _ m n).symm

/-- **From the back**: the last entry is copied first. -/
theorem copy_succ_behind (hn : n < 2 ^ w) (h : Behind dest src (n + 1)) :
    copy (Function.update mem (dest + BitVec.ofNat w n) (mem (src + BitVec.ofNat w n))) dest src n =
      copy mem dest src (n + 1) := by
  have hunread : ∀ i < n,
      Function.update mem (dest + BitVec.ofNat w n) (mem (src + BitVec.ofNat w n))
      (src + BitVec.ofNat w i) = mem (src + BitVec.ofNat w i) := fun i hi =>
    Function.update_of_ne (h n (Nat.lt_succ_self n) i hi) ..
  have hbehind : ∀ i < n, dest + BitVec.ofNat w n ≠ dest + BitVec.ofNat w i := by
    intro i hi heq
    rw [add_ofNat_inj hn (by omega)] at heq
    omega
  rw [copy, store_congr hunread, store_update hbehind, copy, store_add, store, store]
  rfl

/-- A copy, address by address. -/
theorem copy_apply (hn : n ≤ 2 ^ w) (b : BitVec w) :
    copy mem dest src n b =
      if (b - dest).toNat < n then mem (src + (b - dest)) else mem b := by
  split
  · rename_i hin
    have hentry : copy mem dest src n (dest + BitVec.ofNat w (b - dest).toNat) =
        mem (src + BitVec.ofNat w (b - dest).toNat) := store_at hn hin
    rwa [BitVec.ofNat_toNat, BitVec.setWidth_eq, BitVec.add_comm dest,
      BitVec.sub_add_cancel] at hentry
  · rename_i hout
    refine store_of_ne fun i hi heq => hout ?_
    rw [heq, BitVec.add_comm, BitVec.add_sub_cancel, BitVec.toNat_ofNat]
    exact Nat.lt_of_le_of_lt (Nat.mod_le ..) hi

end Pieces

end MemoryRanges
