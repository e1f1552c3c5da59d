import Mathlib.Data.List.Chain
import Mathlib.Data.List.Nodup
import Mathlib.Logic.Function.Iterate

/-! # Families of stacks without common elements

Several parties each keep a stack, and no element is on two stacks or twice on
one.  A `StackFamily` carries that as fields, so a push needs a fresh element and
an element, once owned, has one owner (`owner_unique`); in particular two parties
never have the same top (`head_unique`).

An `Operation` is one push or one pop; a system that keeps such stacks moves from one
family to the next by operations only.

A stack may be stored as a chain of links, each element naming the one below it.
`iterate_of_isChain` follows such links from the top to the bottom without leaving
the stack.
-/

/-- A stack for each party, no element twice. -/
structure StackFamily (ι α : Type) where
  stack : ι → List α
  nodup : ∀ i, (stack i).Nodup
  owner_unique : ∀ {i j a}, a ∈ stack i → a ∈ stack j → i = j

namespace StackFamily
variable {ι α : Type} (S : StackFamily ι α)

/-- Some stack holds `a`. -/
def Owns (a : α) : Prop := ∃ i, a ∈ S.stack i

variable {S}

theorem head_unique {i j : ι} {a : α} (hi : (S.stack i).head? = some a)
    (hj : (S.stack j).head? = some a) : i = j :=
  S.owner_unique (List.mem_of_head? hi) (List.mem_of_head? hj)

variable [DecidableEq ι]

/-- Puts an element nobody owns on top of stack `i`. -/
def push (S : StackFamily ι α) (i : ι) (a : α) (hfresh : ¬S.Owns a) : StackFamily ι α where
  stack := Function.update S.stack i (a :: S.stack i)
  nodup := by
    intro j
    by_cases hj : j = i
    · subst hj
      rw [Function.update_self]
      exact List.nodup_cons.mpr ⟨fun ha => hfresh ⟨j, ha⟩, S.nodup j⟩
    · rw [Function.update_of_ne hj]
      exact S.nodup j
  owner_unique := by
    intro j k b hj hk
    by_cases hji : j = i
    · by_cases hki : k = i
      · exact hji.trans hki.symm
      · subst hji
        rw [Function.update_self] at hj
        rw [Function.update_of_ne hki] at hk
        rcases List.mem_cons.mp hj with rfl | hj
        -- a fresh element is on no other stack
        · exact absurd ⟨k, hk⟩ hfresh
        · exact S.owner_unique hj hk
    · rw [Function.update_of_ne hji] at hj
      by_cases hki : k = i
      · subst hki
        rw [Function.update_self] at hk
        rcases List.mem_cons.mp hk with rfl | hk
        · exact absurd ⟨j, hj⟩ hfresh
        · exact S.owner_unique hj hk
      · rw [Function.update_of_ne hki] at hk
        exact S.owner_unique hj hk

/-- Takes the top off stack `i`. -/
def pop (S : StackFamily ι α) (i : ι) : StackFamily ι α where
  stack := Function.update S.stack i (S.stack i).tail
  nodup := by
    intro j
    by_cases hj : j = i
    · subst hj
      rw [Function.update_self]
      exact (S.nodup j).tail
    · rw [Function.update_of_ne hj]
      exact S.nodup j
  owner_unique := by
    intro j k b hj hk
    have hmem : ∀ l, b ∈ Function.update S.stack i (S.stack i).tail l → b ∈ S.stack l := by
      intro l hl
      by_cases hli : l = i
      · subst hli
        rw [Function.update_self] at hl
        exact List.mem_of_mem_tail hl
      · rwa [Function.update_of_ne hli] at hl
    exact S.owner_unique (hmem j hj) (hmem k hk)

@[simp] theorem push_stack_self (i : ι) (a : α) (h : ¬S.Owns a) :
    (S.push i a h).stack i = a :: S.stack i := Function.update_self ..

@[simp] theorem push_stack_of_ne {i j : ι} (a : α) (h : ¬S.Owns a) (hj : j ≠ i) :
    (S.push i a h).stack j = S.stack j := Function.update_of_ne hj ..

@[simp] theorem pop_stack_self (i : ι) : (S.pop i).stack i = (S.stack i).tail :=
  Function.update_self ..

@[simp] theorem pop_stack_of_ne {i j : ι} (hj : j ≠ i) : (S.pop i).stack j = S.stack j :=
  Function.update_of_ne hj ..

theorem owns_push {i : ι} {a b : α} (h : ¬S.Owns a) :
    (S.push i a h).Owns b ↔ b = a ∨ S.Owns b := by
  constructor
  · rintro ⟨j, hj⟩
    by_cases hji : j = i
    · subst hji
      rw [push_stack_self] at hj
      exact (List.mem_cons.mp hj).imp id fun hb => ⟨j, hb⟩
    · rw [push_stack_of_ne a h hji] at hj
      exact Or.inr ⟨j, hj⟩
  · rintro (rfl | ⟨j, hj⟩)
    · exact ⟨i, by simp⟩
    · by_cases hji : j = i
      · subst hji
        exact ⟨j, by simp [hj]⟩
      · exact ⟨j, by rwa [push_stack_of_ne a h hji]⟩

theorem owns_pop {i : ι} {a b : α} {rest : List α} (hs : S.stack i = a :: rest) :
    (S.pop i).Owns b ↔ S.Owns b ∧ b ≠ a := by
  have hnodup := S.nodup i
  rw [hs, List.nodup_cons] at hnodup
  constructor
  · rintro ⟨j, hj⟩
    by_cases hji : j = i
    · subst hji
      rw [pop_stack_self, hs, List.tail_cons] at hj
      exact ⟨⟨j, by rw [hs]; exact List.mem_cons_of_mem a hj⟩,
        fun hba => hnodup.1 (hba ▸ hj)⟩
    · rw [pop_stack_of_ne hji] at hj
      refine ⟨⟨j, hj⟩, ?_⟩
      rintro rfl
      exact hji (S.owner_unique hj (by rw [hs]; exact List.mem_cons_self))
  · rintro ⟨⟨j, hj⟩, hne⟩
    by_cases hji : j = i
    · subst hji
      rw [hs] at hj
      exact ⟨j, by rw [pop_stack_self, hs]; exact (List.mem_cons.mp hj).resolve_left hne⟩
    · exact ⟨j, by rwa [pop_stack_of_ne hji]⟩

/-- One push of a fresh element, or one pop. -/
inductive Operation : StackFamily ι α → StackFamily ι α → Prop
  | push {S : StackFamily ι α} (i : ι) (a : α) (hfresh : ¬S.Owns a) :
      Operation S (S.push i a hfresh)
  | pop {S : StackFamily ι α} (i : ι) {a : α} {rest : List α} (hs : S.stack i = a :: rest) :
      Operation S (S.pop i)

/-! ## Bottoms -/

omit [DecidableEq ι] in
/-- The top of a stack is its bottom only if it is alone. -/
theorem getLast?_eq_head_iff {i : ι} {a : α} {rest : List α} (hs : S.stack i = a :: rest) :
    (S.stack i).getLast? = some a ↔ rest = [] := by
  have hnodup := S.nodup i
  rw [hs, List.nodup_cons] at hnodup
  rw [hs]
  cases rest with
  | nil => simp
  | cons b rest =>
    rw [List.getLast?_cons_cons]
    constructor
    · intro hlast
      exact absurd (List.mem_of_getLast? hlast) hnodup.1
    · intro hnil
      cases hnil

theorem getLast?_push {i : ι} {a : α} (h : ¬S.Owns a) (hne : S.stack i ≠ []) (j : ι) :
    ((S.push i a h).stack j).getLast? = (S.stack j).getLast? := by
  by_cases hj : j = i
  · subst hj
    obtain ⟨b, rest, hb⟩ := List.exists_cons_of_ne_nil hne
    rw [push_stack_self, hb, List.getLast?_cons_cons]
  · rw [push_stack_of_ne a h hj]

theorem getLast?_push_of_nil {i : ι} {a : α} (h : ¬S.Owns a) (hnil : S.stack i = []) :
    ((S.push i a h).stack i).getLast? = some a := by
  rw [push_stack_self, hnil]
  rfl

theorem getLast?_pop {i : ι} {a b : α} {rest : List α} (hs : S.stack i = a :: b :: rest) (j : ι) :
    ((S.pop i).stack j).getLast? = (S.stack j).getLast? := by
  by_cases hj : j = i
  · subst hj
    rw [pop_stack_self, hs, List.tail_cons, List.getLast?_cons_cons]
  · rw [pop_stack_of_ne hj]

/-! ## Links -/

omit [DecidableEq ι] in
/-- **Following the links of a stack** leads from its top to its bottom, and every
element on the way is on the stack. -/
theorem iterate_of_isChain {link : α → α} {a b : α} {rest : List α}
    (hchain : List.IsChain (fun p q => link p = q) (a :: rest))
    (hlast : (a :: rest).getLast? = some b) :
    ∃ n, link^[n] a = b ∧ ∀ m, m ≤ n → link^[m] a ∈ a :: rest := by
  induction rest generalizing a with
  | nil =>
    refine ⟨0, by simpa using hlast, ?_⟩
    intro m hm
    obtain rfl := Nat.le_zero.mp hm
    exact List.mem_cons_self
  | cons c rest ih =>
    obtain ⟨hlink, hchain⟩ := List.isChain_cons_cons.mp hchain
    obtain ⟨n, hn, hall⟩ := ih hchain (by simpa using hlast)
    refine ⟨n + 1, by rw [Function.iterate_succ_apply, hlink, hn], ?_⟩
    intro m hm
    cases m with
    | zero => exact List.mem_cons_self
    | succ m =>
      rw [Function.iterate_succ_apply, hlink]
      exact List.mem_cons_of_mem a (hall m (Nat.le_of_succ_le_succ hm))

end StackFamily
