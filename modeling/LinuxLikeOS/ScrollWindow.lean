import Mathlib.Tactic.SplitIfs

/-! # A window that scrolls over a text

Text is laid out on a sheet of paper that is `w` columns wide and has no end: characters
from left to right, a new row after the last column and at every line break
(`Sheet.write`).

A window shows `h` rows of the sheet.  It has these rows only and knows nothing of the
others: at a new row below its last one it moves its rows up and begins with an empty one
(`Sheet.writeWithin`).  `shows_text` says that it shows the last `h` rows of the sheet all
the same, with the same cursor, after any text.
-/
namespace ScrollWindow

/-- What a text is made of. -/
inductive Mark (α : Type)
  | char (a : α)
  | line

/-- Cells by row and column, and where the next character goes. -/
structure Sheet (α : Type) where
  cells : Nat → Nat → α
  row : Nat
  col : Nat

namespace Sheet
variable {α : Type} (w h : Nat) (blank : α) (s : Sheet α)

/-- An empty sheet. -/
def empty : Sheet α := ⟨fun _ _ => blank, 0, 0⟩

/-- Fills the cell at the cursor. -/
def fill (a : α) : Sheet α :=
  { s with cells := fun y x => if y = s.row ∧ x = s.col then a else s.cells y x }

/-- Goes to the beginning of the next row. -/
def newRow : Sheet α := { s with row := s.row + 1, col := 0 }

/-- Writes on a sheet without end. -/
def write : Mark α → Sheet α
  | .char a =>
    if s.col + 1 = w then (s.fill a).newRow else { s.fill a with col := s.col + 1 }
  | .line => s.newRow

/-- The same for a sheet of `h` rows: from the last one the rows move up. -/
def newRowWithin : Sheet α :=
  if s.row + 1 = h then
    { s with cells := fun y x => if y + 1 < h then s.cells (y + 1) x else blank, col := 0 }
  else s.newRow

/-- Writes on a sheet of `h` rows. -/
def writeWithin : Mark α → Sheet α
  | .char a =>
    if s.col + 1 = w then (s.fill a).newRowWithin h blank else { s.fill a with col := s.col + 1 }
  | .line => s.newRowWithin h blank

/-- The first row that a window shows: the cursor's row is the last one, if the sheet has
so many. -/
def top : Nat := s.row + 1 - h

end Sheet

/-- The window `v` shows the last `h` rows of the sheet `s`. -/
structure Shows {α : Type} (w h : Nat) (blank : α) (s v : Sheet α) : Prop where
  cells : ∀ y < h, ∀ x < w, v.cells y x = s.cells (s.top h + y) x
  row : v.row + s.top h = s.row
  col : v.col = s.col
  inside : v.row < h
  /-- nothing has been written below the cursor -/
  below : ∀ y > s.row, ∀ x, s.cells y x = blank

section Shows
variable {α : Type} {w h : Nat} {blank : α} {s v : Sheet α}

theorem Shows.empty (w : Nat) (hh : 0 < h) (blank : α) :
    Shows w h blank (Sheet.empty blank) (Sheet.empty blank) where
  cells _ _ _ _ := rfl
  row := by
    show 0 + (0 + 1 - h) = 0
    omega
  col := rfl
  inside := hh
  below _ _ _ := rfl

/-- The cell at the cursor is shown. -/
theorem Shows.fill (hs : Shows w h blank s v) (a : α) : Shows w h blank (s.fill a) (v.fill a) where
  cells y hy x hx := by
    have hrow := hs.row
    have hcell : y = v.row ∧ x = v.col ↔ s.top h + y = s.row ∧ x = s.col := by
      rw [hs.col]
      omega
    show (if y = v.row ∧ x = v.col then a else v.cells y x) =
      if s.top h + y = s.row ∧ x = s.col then a else s.cells (s.top h + y) x
    rw [hs.cells y hy x hx]
    simp only [hcell]
  row := hs.row
  col := hs.col
  inside := hs.inside
  below y hy x := by
    have hy' : s.row < y := hy
    exact (if_neg fun hcell => by omega).trans (hs.below y hy x)

/-- A new row is shown, whether the rows move up for it or not. -/
theorem Shows.newRow (hs : Shows w h blank s v) :
    Shows w h blank s.newRow (v.newRowWithin h blank) := by
  have hrow := hs.row
  have hinside := hs.inside
  have hbelow : ∀ y > s.row + 1, ∀ x, s.newRow.cells y x = blank :=
    fun y hy x => hs.below y (by omega) x
  unfold Sheet.newRowWithin
  by_cases hlast : v.row + 1 = h
  · -- one more row is out of sight
    have htop : s.newRow.top h = s.top h + 1 := by
      unfold Sheet.top at hrow ⊢
      show s.row + 1 + 1 - h = _
      omega
    rw [if_pos hlast]
    refine ⟨fun y hy x hx => ?_, ?_, rfl, hinside, hbelow⟩
    · rw [htop]
      show (if y + 1 < h then v.cells (y + 1) x else blank) = s.cells (s.top h + 1 + y) x
      by_cases hy' : y + 1 < h
      · rw [if_pos hy', hs.cells (y + 1) hy' x hx,
          show s.top h + (y + 1) = s.top h + 1 + y by omega]
      · rw [if_neg hy', hs.below _ (by omega)]
    · rw [htop]
      show v.row + (s.top h + 1) = s.row + 1
      omega
  · have htop : s.newRow.top h = s.top h := by
      unfold Sheet.top at hrow ⊢
      show s.row + 1 + 1 - h = _
      omega
    rw [if_neg hlast]
    refine ⟨fun y hy x hx => ?_, ?_, rfl, ?_, hbelow⟩
    · rw [htop]
      exact hs.cells y hy x hx
    · rw [htop]
      show v.row + 1 + s.top h = s.row + 1
      omega
    · show v.row + 1 < h
      omega

/-- **One mark** keeps the window on the last rows. -/
theorem Shows.write (hs : Shows w h blank s v) (m : Mark α) :
    Shows w h blank (s.write w m) (v.writeWithin w h blank m) := by
  cases m with
  | line => exact hs.newRow
  | char a =>
    have hfill := hs.fill a
    have hcol := hs.col
    simp only [Sheet.write, Sheet.writeWithin, hcol]
    split_ifs
    · exact hfill.newRow
    · exact ⟨hfill.cells, hfill.row, rfl, hfill.inside, hfill.below⟩

/-- **A window shows the last rows** of the sheet after any text. -/
theorem shows_text (hs : Shows w h blank s v) (text : List (Mark α)) :
    Shows w h blank (text.foldl (Sheet.write w) s)
      (text.foldl (Sheet.writeWithin w h blank) v) := by
  induction text generalizing s v with
  | nil => exact hs
  | cons m text ih => exact ih (hs.write m)

end Shows

end ScrollWindow
