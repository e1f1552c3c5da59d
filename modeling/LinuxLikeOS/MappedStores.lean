import Mathlib.Logic.Function.Basic

/-! # Stores through a mapping

A memory has cells, and those who store into it use addresses of their own: an address leads to a
cell, or nowhere.  The same stores, made in a memory of one's own and through a mapping into a
memory that others use too, have the same effect if the mapping leads to one's own cells and
to nobody else's (`Belongs.storesVia_eq`).
-/
namespace MappedStores

variable {V W U P γ : Type} [DecidableEq W]

/-- One store: an address that leads nowhere changes nothing. -/
def storeVia (reach : V → Option W) (memory : W → γ) (s : V × γ) : W → γ :=
  match reach s.1 with
  | some w => Function.update memory w s.2
  | none => memory

/-- The memory after the stores, in their order. -/
def storesVia (reach : V → Option W) (memory : W → γ) (stores : List (V × γ)) : W → γ :=
  stores.foldl (storeVia reach) memory

/-- A mapping leads to the cells of `p`, as far as `home` has an address for them, and to no other
cell of `p` or of anybody else. -/
structure Belongs (cell : P → U → W) (home : V → Option U) (p : P) (reach : V → Option W) :
    Prop where
  own : ∀ v u, home v = some u → reach v = some (cell p u)
  other : ∀ v w, home v = none → reach v = some w → ∀ q u, cell q u ≠ w

variable {cell : P → U → W} {home : V → Option U} {p : P} {reach : V → Option W}

/-- Everybody's cells in a memory. -/
def shares (cell : P → U → W) (memory : W → γ) : P → U → γ := fun p u => memory (cell p u)

/-- A store outside is not seen. -/
theorem shares_update_outside {w : W} (hw : ∀ q u, cell q u ≠ w) (memory : W → γ) (b : γ) :
    shares cell (Function.update memory w b) = shares cell memory := by
  funext q u
  exact Function.update_of_ne (hw q u) _ _

variable [DecidableEq U] [DecidableEq P]

/-- A store changes its cell in the share of `p`. -/
theorem shares_update (hcell : ∀ p q u u', cell p u = cell q u' → p = q ∧ u = u')
    (memory : W → γ) (p : P) (u : U) (b : γ) :
    shares cell (Function.update memory (cell p u) b) =
      Function.update (shares cell memory) p (Function.update (shares cell memory p) u b) := by
  funext q u'
  unfold shares
  by_cases hq : q = p
  · subst hq
    rw [Function.update_self]
    by_cases hu : u' = u
    · rw [hu, Function.update_self, Function.update_self]
    · rw [Function.update_of_ne hu, Function.update_of_ne fun h => hu (hcell q q u' u h).2]
  · rw [Function.update_of_ne hq, Function.update_of_ne fun h => hq (hcell q p u' u h).1]

theorem Belongs.storeVia_eq (h : Belongs cell home p reach)
    (hcell : ∀ p q u u', cell p u = cell q u' → p = q ∧ u = u') (memory : W → γ) (s : V × γ) :
    shares cell (storeVia reach memory s) =
      Function.update (shares cell memory) p (storeVia home (shares cell memory p) s) := by
  unfold storeVia
  cases hhome : home s.1 with
  | some u =>
    rw [h.own s.1 u hhome]
    exact shares_update hcell memory p u s.2
  | none =>
    dsimp only
    rw [Function.update_eq_self]
    cases hreach : reach s.1 with
    | none => rfl
    | some w => exact shares_update_outside (h.other s.1 w hhome hreach) memory s.2

/-- **Stores through a mapping** are stores of `p` in its own memory. -/
theorem Belongs.storesVia_eq (h : Belongs cell home p reach)
    (hcell : ∀ p q u u', cell p u = cell q u' → p = q ∧ u = u') (memory : W → γ)
    (stores : List (V × γ)) :
    shares cell (storesVia reach memory stores) =
      Function.update (shares cell memory) p (storesVia home (shares cell memory p) stores) := by
  induction stores generalizing memory with
  | nil => exact (Function.update_eq_self p _).symm
  | cons s stores ih =>
    show shares cell (storesVia reach (storeVia reach memory s) stores) = _
    rw [ih, h.storeVia_eq hcell, Function.update_idem, Function.update_self]
    rfl

end MappedStores
