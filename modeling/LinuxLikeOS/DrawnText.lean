import LinuxLikeOS.ScreenPages
import LinuxLikeOS.Transition

/-! # Texts on a screen

A text moves its terminal's cursor from place to place: a run of `placeMachine`.  The run
stays on the screen exactly if no backspace comes in the upper left corner
(`onScreen_text_iff`).  Its bytes are stored at the addresses `textStores`; while the run
stays on the screen, these are cells of the video pages (`textStores_onPage`).

`Drew` says that this is what has happened between two states of the kernel: `putc` and
`k_putc` do so, and with them every loop that calls them (`drew_foldl`).
-/
namespace LinuxLikeOS
open Transition

/-! ## The cursor -/

/-- Both `putc` and `k_putc` write a tab as four spaces. -/
def expandTab (c : Byte) : List Byte := if c = 0x09 then [0x20, 0x20, 0x20, 0x20] else [c]

/-- The text without tabs. -/
def expandTabs (text : List Byte) : List Byte := text.flatMap expandTab

/-- A cursor that is moved by characters. -/
def placeMachine : Machine Place Byte := ⟨Place.next⟩

/-- No backspace is written in the upper left corner. -/
def Inside (p : Place) (c : Byte) : Prop := c = 0x08 → p ≠ Place.origin

instance (p : Place) (c : Byte) : Decidable (Inside p c) := inferInstanceAs (Decidable (_ → _))

/-- **A text stays on the screen** exactly if no backspace comes in the corner. -/
theorem onScreen_text_iff {p : Place} (h : p.OnScreen) (text : List Byte) :
    placeMachine.Always Place.OnScreen p text ↔ placeMachine.Guarded Inside p text :=
  Machine.always_iff_guarded (fun _ hon => hon)
    (fun _ c hon _ hin => (onScreen_next_iff hon c).mpr hin)
    (fun _ c hon _ hnext => (onScreen_next_iff hon c).mp hnext) h (Machine.guarded_true ..)

/-! ## Where it is stored -/

/-- The addresses of a cell. -/
def cellStores (base : Word) (p : Place) : List Word :=
  [cellAddress base p.x p.y, cellAddress base p.x p.y + 1]

/-- Where `scroll` stores. -/
def scrollStores (base : Word) : List Word :=
  (List.range 25).flatMap fun (i : Nat) =>
    (List.range 80).flatMap fun (j : Nat) => cellStores base ⟨j, i⟩

/-- Where a character is stored that is drawn on page `i` and erased on page `erase`. -/
def charStores (i erase : Fin 4) (p : Place) (c : Byte) : List Word :=
  if c = 0x08 then cellStores (pageBase erase) p.back
  else if c = 0x0A ∨ c = 0x0D then
    if p.y = 24 then scrollStores (pageBase i) else []
  else cellStores (pageBase i) p ++
    if p.x = 79 ∧ p.y = 24 then scrollStores (pageBase i) else []

/-- Where a text is stored, with the cursor at `p` before it. -/
def textStores (i erase : Fin 4) : Place → List Byte → List Word
  | _, [] => []
  | p, c :: text => charStores i erase p c ++ textStores i erase (p.next c) text

/-- An offset in `[0, 4000)` of a video page. -/
def OnPage (a : Word) : Prop :=
  ∃ (i : Fin 4) (o : Nat), o < 4000 ∧ a = pageBase i + BitVec.ofNat 32 o

section Stores
variable {i erase : Fin 4} {p : Place} {a : Word}

theorem cellStores_onPage (h : p.OnScreen) : ∀ a ∈ cellStores (pageBase i) p, OnPage a := by
  obtain ⟨hlow, hhigh⟩ := offset_bounds h
  obtain ⟨hcell, hcell'⟩ := cellAddress_eq (i := i) h
  intro a ha
  rcases List.mem_pair.mp ha with rfl | rfl
  · exact ⟨i, _, by omega, hcell⟩
  · exact ⟨i, _, by omega, hcell'⟩

theorem scrollStores_onPage : ∀ a ∈ scrollStores (pageBase i), OnPage a := by
  intro a ha
  simp only [scrollStores, List.mem_flatMap, List.mem_range] at ha
  obtain ⟨y, hy, x, hx, ha⟩ := ha
  exact cellStores_onPage (onScreen_mk (by omega) (by omega)) a ha

/-- A character that stays inside is stored on the pages. -/
theorem charStores_onPage (h : p.OnScreen) {c : Byte} (hin : Inside p c) :
    ∀ a ∈ charStores i erase p c, OnPage a := by
  have hscroll : ∀ (last : Prop) [Decidable last],
      ∀ a ∈ (if last then scrollStores (pageBase i) else []), OnPage a := by
    intro last _ a ha
    split at ha
    · exact scrollStores_onPage a ha
    · cases ha
  intro a ha
  unfold charStores at ha
  by_cases hback : c = 0x08
  · rw [if_pos hback] at ha
    exact cellStores_onPage ((onScreen_back h).mpr (hin hback)) a ha
  rw [if_neg hback] at ha
  by_cases hline : c = 0x0A ∨ c = 0x0D
  · rw [if_pos hline] at ha
    exact hscroll _ a ha
  · rw [if_neg hline] at ha
    rcases List.mem_append.mp ha with ha | ha
    · exact cellStores_onPage h a ha
    · exact hscroll _ a ha

/-- **A text that stays inside** is stored on the pages. -/
theorem textStores_onPage (h : p.OnScreen) {text : List Byte}
    (hin : placeMachine.Guarded Inside p text) : ∀ a ∈ textStores i erase p text, OnPage a := by
  induction text generalizing p with
  | nil => exact fun a ha => nomatch ha
  | cons c text ih =>
    intro a ha
    rcases List.mem_append.mp ha with ha | ha
    · exact charStores_onPage h hin.1 a ha
    · exact ih ((onScreen_next_iff h c).mpr hin.1) hin.2 a ha

theorem textStores_append (i erase : Fin 4) (p : Place) (text text' : List Byte) :
    textStores i erase p (text ++ text') =
      textStores i erase p text ++ textStores i erase (placeMachine.run p text) text' := by
  induction text generalizing p with
  | nil => rfl
  | cons c text ih =>
    rw [List.cons_append, textStores, ih, textStores, List.append_assoc]
    rfl

theorem storeCell_of_notMem (mem : Word → Byte) {base : Word} (c : Byte)
    (ha : a ∉ cellStores base p) : storeCell mem base p.x p.y c a = mem a := by
  simp only [cellStores, List.mem_cons, List.not_mem_nil, or_false, not_or] at ha
  rw [storeCell, Function.update_of_ne ha.2, Function.update_of_ne ha.1]

/-- A loop that stores elsewhere. -/
theorem foldl_of_forall {l : List Nat} {f : (Word → Byte) → Nat → Word → Byte}
    (h : ∀ n ∈ l, ∀ mem : Word → Byte, f mem n a = mem a) (mem : Word → Byte) :
    l.foldl f mem a = mem a := by
  induction l generalizing mem with
  | nil => rfl
  | cons n l ih =>
    rw [List.foldl_cons, ih fun m hm => h m (List.mem_cons_of_mem n hm)]
    exact h n List.mem_cons_self mem

theorem scrollPage_of_notMem (mem : Word → Byte) {base : Word} (ha : a ∉ scrollStores base) :
    scrollPage mem base a = mem a := by
  have hcell : ∀ y ∈ List.range 25, ∀ x ∈ List.range 80, ∀ (mem : Word → Byte) (c : Byte),
      storeCell mem base x y c a = mem a := by
    intro y hy x hx mem c
    refine storeCell_of_notMem (p := ⟨x, y⟩) mem c fun hmem => ha ?_
    exact List.mem_flatMap.mpr ⟨y, hy, List.mem_flatMap.mpr ⟨x, hx, hmem⟩⟩
  rw [scrollPage_eq]
  refine (foldl_of_forall (fun x hx mem => ?_) _).trans (foldl_of_forall (fun y hy mem => ?_) mem)
  · exact hcell 24 (by decide) x hx mem 0x20
  · refine foldl_of_forall (fun x hx mem => ?_) mem
    rw [List.mem_range] at hy
    exact hcell y (List.mem_range.mpr (by omega)) x hx mem _

end Stores

/-! ## Drawing it -/

/-- Between `k` and `k'` the text has been drawn for terminal `t` on page `i`, and erased
on page `erase`. -/
structure Drew (t : Fin 3) (i erase : Fin 4) (text : List Byte) (k k' : Kernel) : Prop where
  place : k'.place = Function.update k.place t (placeMachine.run (k.place t) text)
  stored : ∀ a ∉ textStores i erase (k.place t) text, k'.video a = k.video a

section Drew
variable {t : Fin 3} {i erase : Fin 4} {text text' : List Byte} {k k' k'' : Kernel}

theorem Drew.nil (t : Fin 3) (i erase : Fin 4) (hplace : k'.place = k.place)
    (hvideo : k'.video = k.video) : Drew t i erase [] k k' := by
  refine ⟨?_, fun a _ => congrFun hvideo a⟩
  rw [hplace]
  exact (Function.update_eq_self ..).symm

theorem Drew.append (h : Drew t i erase text k k') (h' : Drew t i erase text' k' k'') :
    Drew t i erase (text ++ text') k k'' := by
  have hplace : k'.place t = placeMachine.run (k.place t) text := by
    rw [h.place, Function.update_self]
  refine ⟨?_, fun a ha => ?_⟩
  · rw [h'.place, hplace, h.place, Function.update_idem, Machine.run_append]
  · rw [textStores_append, ← hplace, List.mem_append, not_or] at ha
    rw [h'.stored a ha.2, h.stored a ha.1]

/-- What is done to neither cursors nor pages may follow, -/
theorem Drew.then (h : Drew t i erase text k k') (hplace : k''.place = k'.place)
    (hvideo : k''.video = k'.video) : Drew t i erase text k k'' := by
  refine ⟨hplace.trans h.place, fun a ha => ?_⟩
  rw [hvideo]
  exact h.stored a ha

/-- or come before. -/
theorem Drew.of_same (h : Drew t i erase text k' k'') (hplace : k'.place = k.place)
    (hvideo : k'.video = k.video) : Drew t i erase text k k'' := by
  obtain ⟨hafter, hstored⟩ := h
  rw [hplace] at hafter hstored
  rw [hvideo] at hstored
  exact ⟨hafter, hstored⟩

/-- **`drawChar` draws a character.** -/
theorem drew_drawChar (k : Kernel) (t : Fin 3) (i erase : Fin 4) (c : Byte) :
    Drew t i erase [c] k (drawChar k t (pageBase i) (pageBase erase) c) := by
  refine ⟨place_drawChar k t _ _ c, fun a ha => ?_⟩
  rw [textStores, textStores, List.append_nil] at ha
  unfold charStores at ha
  by_cases hback : c = 0x08
  · rw [if_pos hback] at ha
    have herased := storeCell_of_notMem k.video 0x20 ha
    simp only [drawChar, if_pos hback]
    exact herased
  rw [if_neg hback] at ha
  by_cases hline : c = 0x0A ∨ c = 0x0D
  · rw [if_pos hline] at ha
    simp only [drawChar, if_neg hback, if_pos hline]
    by_cases hlast : (k.multiTerminal t).screenY = 24
    · rw [if_pos (show (k.place t).y = 24 from hlast)] at ha
      rw [if_pos hlast]
      show scrollPage k.video (pageBase i) a = k.video a
      exact scrollPage_of_notMem k.video ha
    · rw [if_neg hlast]
      rfl
  rw [if_neg hline, List.mem_append, not_or] at ha
  obtain ⟨hcell, hscroll⟩ := ha
  have hdrawn := storeCell_of_notMem k.video c hcell
  simp only [drawChar, if_neg hback, if_neg hline]
  by_cases hcolumn : (k.multiTerminal t).screenX = 79
  · rw [if_pos hcolumn]
    by_cases hlast : (k.multiTerminal t).screenY = 24
    · rw [if_pos (show (k.place t).x = 79 ∧ (k.place t).y = 24 from ⟨hcolumn, hlast⟩)] at hscroll
      rw [if_pos hlast]
      show scrollPage (storeCell k.video (pageBase i) (k.place t).x (k.place t).y c)
          (pageBase i) a = k.video a
      exact (scrollPage_of_notMem _ hscroll).trans hdrawn
    · rw [if_neg hlast]
      exact hdrawn
  · rw [if_neg hcolumn]
    exact hdrawn

theorem drew_putcChar (k : Kernel) (c : Byte) :
    Drew k.currTerminalVisible 0 0 [c] k (putcChar k c) :=
  (drew_drawChar k k.currTerminalVisible 0 0 c).then rfl rfl

theorem drew_kPutcChar (k : Kernel) (c : Byte) :
    Drew k.currTerminalExecuting k.currTerminalExecuting.succ 0 [c] k (kPutcChar k c) := by
  rw [kPutcChar, backingPage_eq, videoBase_eq]
  exact drew_drawChar k k.currTerminalExecuting k.currTerminalExecuting.succ 0 c

/-- A loop over a text draws it, if each round draws its part for the same terminal. -/
theorem drew_foldl {draw : Kernel → Byte → Kernel} {part : Byte → List Byte}
    {terminal : Kernel → Fin 3} (page : Fin 3 → Fin 4)
    (hdraw : ∀ k c, Drew (terminal k) (page (terminal k)) 0 (part c) k (draw k c))
    (hsame : ∀ k c, terminal (draw k c) = terminal k) (text : List Byte) (k : Kernel) :
    Drew (terminal k) (page (terminal k)) 0 (text.flatMap part) k (text.foldl draw k) := by
  induction text generalizing k with
  | nil => exact .nil _ _ _ rfl rfl
  | cons c text ih =>
    have htail := ih (draw k c)
    rw [hsame] at htail
    exact (hdraw k c).append htail

theorem putcChar_visible (k : Kernel) (c : Byte) :
    (putcChar k c).currTerminalVisible = k.currTerminalVisible :=
  (congrArg Kernel.currTerminalVisible (putcChar_offScreen k c) :)

theorem kPutcChar_executing (k : Kernel) (c : Byte) :
    (kPutcChar k c).currTerminalExecuting = k.currTerminalExecuting :=
  (congrArg Kernel.currTerminalExecuting (kPutcChar_offScreen k c) :)

/-- `putc`. -/
theorem drew_putc (k : Kernel) (c : Byte) :
    Drew k.currTerminalVisible 0 0 (expandTab c) k (putc k c) := by
  unfold putc expandTab
  split
  · exact (drew_foldl (fun _ => 0) drew_putcChar putcChar_visible
      [0x20, 0x20, 0x20, 0x20] k).then rfl rfl
  · exact drew_putcChar k c

/-- `k_putc`. -/
theorem drew_kPutc (k : Kernel) (c : Byte) :
    Drew k.currTerminalExecuting k.currTerminalExecuting.succ 0 (expandTab c) k (kPutc k c) := by
  unfold kPutc expandTab
  split
  · exact drew_foldl Fin.succ drew_kPutcChar kPutcChar_executing [0x20, 0x20, 0x20, 0x20] k
  · exact drew_kPutcChar k c

/-- The loops of `puts` and of `write_terminal`. -/
theorem drew_puts (k : Kernel) (text : List Byte) :
    Drew k.currTerminalVisible 0 0 (expandTabs text) k (text.foldl putc k) :=
  drew_foldl (fun _ => 0) drew_putc
    (fun k c => (congrArg Kernel.currTerminalVisible (putc_offScreen k c) :)) text k

theorem drew_kPuts (k : Kernel) (text : List Byte) :
    Drew k.currTerminalExecuting k.currTerminalExecuting.succ 0 (expandTabs text) k
      (text.foldl kPutc k) :=
  drew_foldl Fin.succ drew_kPutc
    (fun k c => (congrArg Kernel.currTerminalExecuting (kPutc_offScreen k c) :)) text k

end Drew

end LinuxLikeOS
