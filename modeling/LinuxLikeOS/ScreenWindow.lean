import LinuxLikeOS.ScrollWindow
import LinuxLikeOS.SwitchedScreens
import LinuxLikeOS.TypedLines

/-! # The screen as a window on a text

`putc` draws in place, and `scroll` copies 24 rows over each other.  Cell by cell that is
what a window of 25 rows does which scrolls over a sheet of 80 columns: rows move up
without loss (`cell_scroll`), and each character is drawn as it is written in the window
(`Displays.putChar`).

So after any text without a backspace the screen shows the last 25 rows of the text as it
is laid out on a sheet without end (`screen_isWindow`).
-/
namespace LinuxLikeOS
open ScrollWindow

/-! ## Pages, cell by cell -/

/-- A cell: its character and its attribute. -/
def Page.cell (g : Page) (p : Place) : Byte × Byte := (g.char p, g.attr p)

/-- The page after `a` rounds of the first loop of `scroll`. -/
def Page.raised (g : Page) (a : Nat) : Page :=
  (List.range a).foldl (fun (m : Page) (i : Nat) =>
    (List.range 80).foldl (fun (m : Page) (j : Nat) => m.store ⟨j, i⟩ (m.char ⟨j, i + 1⟩)) m) g

section Cells
variable {g : Page} {p q : Place}

theorem cell_store (hp : p.OnScreen) (hq : q.OnScreen) (c : Byte) :
    (g.store p c).cell q = if q = p then (c, attrib) else g.cell q := by
  obtain ⟨hlow, hhigh⟩ := offset_bounds hp
  obtain ⟨hlow', hhigh'⟩ := offset_bounds hq
  have hval : ∀ n < 4096, (Fin.ofNat 4096 n : Nat) = n := fun n hn => Nat.mod_eq_of_lt hn
  have hchar : ((Fin.ofNat 4096 q.offset.toNat : Nat) : Int) = q.offset := by
    rw [hval _ (by omega)]
    omega
  have hattr : ((Fin.ofNat 4096 (q.offset.toNat + 1) : Nat) : Int) = q.offset + 1 := by
    rw [hval _ (by omega)]
    omega
  simp only [Page.cell, Page.char, Page.attr, Page.store, hchar, hattr]
  -- characters are at even offsets
  have heven : q.offset ≠ p.offset + 1 ∧ q.offset + 1 ≠ p.offset := by
    unfold Place.offset
    omega
  have hsame : q.offset = p.offset ↔ q = p := by
    obtain ⟨hx, hy⟩ := hp
    obtain ⟨hx', hy'⟩ := hq
    rw [Place.ext_iff]
    unfold Place.offset
    omega
  rw [if_neg heven.1, if_neg heven.2]
  simp only [Int.add_left_inj, hsame]
  split <;> rfl

/-- A loop that stores along row `a`, each character looked up outside of that row. -/
theorem cell_storeRow {a : Nat} (ha : a < 25) {f : Page → Nat → Byte} {new : Nat → Byte}
    (hf : ∀ m : Page, (∀ q : Place, q.OnScreen → q.y ≠ a → m.cell q = g.cell q) →
      ∀ j < 80, f m j = new j) {n : Nat} (hn : n ≤ 80) (hq : q.OnScreen) :
    ((List.range n).foldl (fun (m : Page) (j : Nat) => m.store ⟨j, a⟩ (f m j)) g).cell q =
      if q.y = a ∧ q.x < n then (new q.x.toNat, attrib) else g.cell q := by
  induction n generalizing q with
  | zero =>
    have hx := hq.1.1
    exact (if_neg fun h => by omega).symm
  | succ n ih =>
    have hstored : Place.OnScreen ⟨n, a⟩ := onScreen_mk (by omega) (by omega)
    have hvalue := hf ((List.range n).foldl (fun (m : Page) (j : Nat) => m.store ⟨j, a⟩ (f m j)) g)
      (fun q hq hy => (ih (by omega) hq).trans (if_neg fun h => hy h.1)) n (by omega)
    rw [List.range_succ, List.foldl_append, List.foldl_cons, List.foldl_nil,
      cell_store hstored hq, ih (by omega) hq, hvalue]
    have hx := hq.1.1
    by_cases hlast : q = ⟨n, a⟩
    · subst hlast
      rw [if_pos rfl, if_pos ⟨rfl, Int.ofNat_lt.mpr n.lt_succ_self⟩]
      rfl
    · have hcell : q.y = a ∧ q.x < n ↔ q.y = a ∧ q.x < (n + 1 : Nat) := by
        rw [Place.ext_iff] at hlast
        dsimp only at hlast
        omega
      rw [if_neg hlast]
      simp only [hcell]

/-- The rows that have moved have moved up by one. -/
theorem cell_raised (g : Page) {a : Nat} (ha : a ≤ 24) (hq : q.OnScreen) :
    (g.raised a).cell q =
      if q.y < a then (g.char ⟨q.x, q.y + 1⟩, attrib) else g.cell q := by
  induction a generalizing q with
  | zero => exact (if_neg fun h => absurd h (not_lt.mpr hq.2.1)).symm
  | succ a ih =>
    have hnext : g.raised (a + 1) = (List.range 80).foldl
        (fun (m : Page) (j : Nat) => m.store ⟨j, a⟩ (m.char ⟨j, a + 1⟩)) (g.raised a) := by
      rw [Page.raised, List.range_succ (n := a), List.foldl_append, List.foldl_cons,
        List.foldl_nil, Page.raised]
    -- the row below is still as it was
    have hbelow : ∀ m : Page, (∀ q : Place, q.OnScreen → q.y ≠ a → m.cell q = (g.raised a).cell q) →
        ∀ j : Nat, j < 80 → m.char ⟨j, a + 1⟩ = g.char ⟨j, a + 1⟩ := by
      intro m hm j hj
      have hon : Place.OnScreen ⟨j, a + 1⟩ := onScreen_mk (by omega) (by omega)
      have hcell := hm ⟨j, a + 1⟩ hon (Int.ne_of_gt (Int.lt_add_one_of_le (Int.le_refl _)))
      rw [ih (by omega) hon, if_neg (not_lt.mpr (Int.le_of_lt (Int.lt_succ _)))] at hcell
      exact congrArg Prod.fst hcell
    have hrow := cell_storeRow (by omega) hbelow (Nat.le_refl 80) hq
    rw [hnext, hrow, ih (by omega) hq]
    have hx := hq.1
    by_cases hthis : q.y = a
    · rw [if_pos ⟨hthis, by omega⟩, if_pos (by omega), Int.toNat_of_nonneg hx.1, hthis]
    · have hlt : q.y < a ↔ q.y < (a + 1 : Nat) := by omega
      rw [if_neg fun h => hthis h.1]
      simp only [hlt]

/-- **Scrolling moves the rows up** without loss, and begins with an empty one. -/
theorem cell_scroll (g : Page) (hq : q.OnScreen) :
    g.scroll.cell q = (if q.y < 24 then g.char ⟨q.x, q.y + 1⟩ else 0x20, attrib) := by
  have hlast : g.scroll.cell q = if q.y = (24 : Nat) ∧ q.x < (80 : Nat) then (0x20, attrib)
      else (g.raised 24).cell q :=
    cell_storeRow (f := fun _ _ => 0x20) (by decide) (fun _ _ _ _ => rfl) (Nat.le_refl 80) hq
  obtain ⟨hx, hy⟩ := id hq
  rw [hlast, cell_raised g (Nat.le_refl 24) hq]
  by_cases hmoved : q.y < 24
  · rw [if_neg (by omega), if_pos (by omega), if_pos hmoved]
  · rw [if_pos (by omega), if_neg hmoved]

end Cells

/-! ## A screen displays a window -/

/-- What a character that is neither a tab nor a backspace is on a sheet. -/
def mark (c : Byte) : Mark Byte := if c = 0x0A ∨ c = 0x0D then .line else .char c

/-- The screen displays a window of 25 rows and 80 columns. -/
structure Displays (s : Screen) (v : Sheet Byte) : Prop where
  cells : ∀ y x : Nat, y < 25 → x < 80 → s.page.cell ⟨x, y⟩ = (v.cells y x, attrib)
  place : s.place = ⟨v.col, v.row⟩
  inside : v.row < 25 ∧ v.col < 80

section Displays
variable {s : Screen} {v : Sheet Byte} {c : Byte} {text : List Byte}

theorem Displays.onScreen (h : Displays s v) : s.place.OnScreen := by
  have hinside := h.inside
  rw [h.place]
  exact onScreen_mk (by omega) (by omega)

theorem Displays.fill (h : Displays s v) (c : Byte) :
    Displays ⟨s.page.store s.place c, s.place⟩ (v.fill c) where
  cells y x hy hx := by
    have hcell : (⟨x, y⟩ : Place) = s.place ↔ y = v.row ∧ x = v.col := by
      rw [h.place, Place.ext_iff]
      dsimp only
      omega
    refine (cell_store h.onScreen (onScreen_mk (by omega) (by omega)) c).trans ?_
    show _ = (if y = v.row ∧ x = v.col then c else v.cells y x, attrib)
    rw [h.cells y x hy hx]
    simp only [hcell]
    split <;> rfl
  place := h.place
  inside := h.inside

/-- A new row: in the last one the page scrolls and the cursor stays. -/
theorem Displays.newRow (h : Displays s v) :
    Displays ⟨if s.place.y = 24 then s.page.scroll else s.page,
      ⟨0, if s.place.y = 24 then 24 else s.place.y + 1⟩⟩ (v.newRowWithin 25 0x20) := by
  have hinside := h.inside
  have hy : s.place.y = v.row := congrArg Place.y h.place
  unfold Sheet.newRowWithin
  by_cases hlast : v.row + 1 = 25
  · have h24 : s.place.y = 24 := by omega
    rw [if_pos hlast, if_pos h24, if_pos h24]
    refine ⟨fun y x hy hx => ?_, ?_, hinside.1, Nat.zero_lt_succ _⟩
    · refine (cell_scroll s.page (onScreen_mk (by omega) (by omega))).trans ?_
      show (if (y : Int) < 24 then s.page.char ⟨x, y + 1⟩ else 0x20, attrib) =
        (if y + 1 < 25 then v.cells (y + 1) x else 0x20, attrib)
      by_cases hmoved : y + 1 < 25
      · have hchar : s.page.char ⟨x, y + 1⟩ = v.cells (y + 1) x :=
          congrArg Prod.fst (h.cells (y + 1) x hmoved hx)
        rw [if_pos (by omega), if_pos hmoved, hchar]
      · rw [if_neg (by omega), if_neg hmoved]
    · have hrow : v.row = 24 := by omega
      show (⟨0, 24⟩ : Place) = ⟨(0 : Nat), v.row⟩
      rw [hrow]
      rfl
  · have h24 : ¬s.place.y = 24 := by omega
    rw [if_neg hlast, if_neg h24, if_neg h24]
    refine ⟨h.cells, ?_, ?_, Nat.zero_lt_succ _⟩
    · rw [hy]
      rfl
    · show v.row + 1 < 25
      omega

/-- **One character**: drawing on the screen is writing in the window. -/
theorem Displays.putChar (h : Displays s v) (hc : c ≠ 0x08) :
    Displays (s.putChar c) (v.writeWithin 80 25 0x20 (mark c)) := by
  have hnext := next_of_onScreen h.onScreen c
  have hinside := h.inside
  have hx : s.place.x = v.col := congrArg Place.x h.place
  rw [if_neg hc] at hnext
  rw [Screen.putChar, hnext, Page.draw, if_neg hc, mark]
  by_cases hline : c = 0x0A ∨ c = 0x0D
  · rw [if_pos hline, if_pos hline, if_pos (or_assoc.mp (Or.inl hline))]
    exact h.newRow
  · rw [if_neg hline, if_neg hline, Sheet.writeWithin]
    have hfill := h.fill c
    by_cases hcolumn : v.col + 1 = 80
    · have hcol : s.place.x = 79 := by omega
      have hscroll : s.place.x = 79 ∧ s.place.y = 24 ↔ s.place.y = 24 := and_iff_right hcol
      rw [if_pos hcolumn, if_pos (Or.inr (Or.inr hcol))]
      have hrow := hfill.newRow
      simp only [hscroll]
      exact hrow
    · have hcol : ¬s.place.x = 79 := by omega
      rw [if_neg hcolumn, if_neg fun h => hcol h.1,
        if_neg fun h => (or_assoc.mpr h).elim hline hcol]
      refine ⟨hfill.cells, ?_, hinside.1, ?_⟩
      · show (⟨s.place.x + 1, s.place.y⟩ : Place) = ⟨(v.col + 1 : Nat), v.row⟩
        rw [h.place]
        rfl
      · show v.col + 1 < 80
        omega

/-- The text on a sheet without end; a tab is four spaces. -/
def layout (text : List Byte) : Sheet Byte :=
  ((expandTabs text).map mark).foldl (Sheet.write 80) (Sheet.empty 0x20)

/-- **A text**, written on a screen that displays the empty window. -/
theorem Displays.write (h : Displays s (Sheet.empty 0x20)) (htext : NoBackspace text) :
    ∃ v, Displays (s.write text) v ∧ Shows 80 25 0x20 (layout text) v := by
  have hrun : ∀ (chars : List Byte) (s : Screen) (v : Sheet Byte),
      NoBackspace chars → Displays s v →
      Displays (chars.foldl Screen.putChar s)
        ((chars.map mark).foldl (Sheet.writeWithin 80 25 0x20) v) := by
    intro chars
    induction chars with
    | nil => exact fun _ _ _ h => h
    | cons c chars ih =>
      intro s v hback h
      have hc : c ≠ 0x08 := fun heq => hback (heq ▸ List.mem_cons_self)
      exact ih _ _ (fun hmem => hback (List.mem_cons_of_mem c hmem)) (h.putChar hc)
  exact ⟨_, hrun _ s _ (noBackspace_expandTabs htext) h,
    shows_text (.empty 80 (by decide) 0x20) ((expandTabs text).map mark)⟩

end Displays

/-! ## From a cleared screen -/

/-- The visible screen is cleared: its cells are blank, and its cursor is in the upper left
corner. -/
structure Kernel.Cleared (k : Kernel) : Prop where
  blank : ∀ p : Place, p.OnScreen → (k.page 0).cell p = (0x20, attrib)
  place : k.place k.currTerminalVisible = .origin

/-- The visible screen shows the last 25 rows of the text, and the cursor is where the
text ends. -/
structure Kernel.ShowsText (k : Kernel) (text : List Byte) : Prop where
  chars : ∀ y x : Nat, y < 25 → x < 80 →
    (k.page 0).char ⟨x, y⟩ = (layout text).cells ((layout text).top 25 + y) x
  attrs : ∀ y x : Nat, y < 25 → x < 80 → (k.page 0).attr ⟨x, y⟩ = 0x07
  place : k.place k.currTerminalVisible =
    ⟨(layout text).col, (layout text).row - (layout text).top 25⟩

/-- The page after `n` rounds of the loop of `clear`. -/
def Page.blanked (g : Page) (n : Nat) : Page :=
  (List.range n).foldl (fun (m : Page) (n : Nat) =>
    m.store ⟨(n % 80 : Nat), (n / 80 : Nat)⟩ 0x20) g

section Cleared
variable {k : Kernel} {text : List Byte} {q : Place}

/-- The loop of `clear`, on the page. -/
theorem page_clear (k : Kernel) : (clear k).page 0 = (k.page 0).blanked 2000 := by
  have hround : ∀ n ∈ List.range 2000, ∀ mem : Word → Byte,
      pageAt (Function.update (Function.update mem (videoBase + BitVec.ofNat 32 (2 * n)) 0x20)
        (videoBase + BitVec.ofNat 32 (2 * n + 1)) attrib) =
      Function.update (pageAt mem) 0
        ((pageAt mem 0).store ⟨(n % 80 : Nat), (n / 80 : Nat)⟩ 0x20) := by
    intro n hn mem
    rw [List.mem_range] at hn
    have hon : Place.OnScreen ⟨(n % 80 : Nat), (n / 80 : Nat)⟩ :=
      onScreen_mk (by omega) (by omega)
    have hoff : (⟨(n % 80 : Nat), (n / 80 : Nat)⟩ : Place).offset.toNat = 2 * n := by
      unfold Place.offset
      dsimp only
      omega
    have hcell := cellAddress_eq (i := 0) hon
    rw [hoff] at hcell
    have hstore : pageAt (storeCell mem (pageBase 0) (n % 80 : Nat) (n / 80 : Nat) 0x20) = _ :=
      pageAt_storeCell hon 0x20
    rw [storeCell, hcell.2, hcell.1] at hstore
    exact hstore
  have hloop := pageAt_foldl (f := fun mem n =>
      Function.update (Function.update mem (videoBase + BitVec.ofNat 32 (2 * n)) 0x20)
        (videoBase + BitVec.ofNat 32 (2 * n + 1)) attrib)
    0 (fun m n => m.store ⟨(n % 80 : Nat), (n / 80 : Nat)⟩ 0x20) hround k.video
  have hvideo : ∀ (k : Kernel) (v : Word → Byte) (t : Fin 3) (x y : Int),
      ((k.setVideo v).moveTo t x y).page = pageAt v := fun _ _ _ _ _ => rfl
  rw [clear, hvideo, hloop, Function.update_self, Kernel.page, Page.blanked]

theorem cell_blanked (g : Page) (hq : q.OnScreen) {n : Nat} (hn : n ≤ 2000)
    (hlt : 80 * q.y + q.x < n) : (g.blanked n).cell q = (0x20, attrib) := by
  obtain ⟨hx, hy⟩ := id hq
  induction n with
  | zero => omega
  | succ n ih =>
    have hon : Place.OnScreen ⟨(n % 80 : Nat), (n / 80 : Nat)⟩ :=
      onScreen_mk (by omega) (by omega)
    rw [Page.blanked, List.range_succ, List.foldl_append, List.foldl_cons, List.foldl_nil,
      ← Page.blanked, cell_store hon hq]
    by_cases hlast : q = ⟨(n % 80 : Nat), (n / 80 : Nat)⟩
    · exact if_pos hlast
    · rw [if_neg hlast]
      rw [Place.ext_iff] at hlast
      dsimp only at hlast
      exact ih (by omega) (by omega)

/-- The loop of `clear` goes over all cells. -/
theorem cell_clear (k : Kernel) (hq : q.OnScreen) : ((clear k).page 0).cell q = (0x20, attrib) := by
  obtain ⟨hx, hy⟩ := id hq
  rw [page_clear]
  exact cell_blanked (k.page 0) hq (Nat.le_refl _) (by omega)

/-- **`clear`** clears the visible screen, if the visible terminal is executing. -/
theorem cleared_clear (hexec : k.currTerminalExecuting = k.currTerminalVisible) :
    (clear k).Cleared where
  blank _ hq := cell_clear k hq
  place := by
    have hvis := (visible_keyLine_of_offScreen (clear_offScreen k)).1
    have hplace := congrFun (place_clear k) k.currTerminalVisible
    rw [hexec, Function.update_self] at hplace
    rw [hvis]
    exact hplace

/-- `putc` writes on the visible screen, wherever the other cursors are. -/
theorem wrote_puts (hon : (k.place k.currTerminalVisible).OnScreen) (htext : NoBackspace text) :
    Wrote k.currTerminalVisible text k (puts k text) := by
  generalize ht : k.currTerminalVisible = t at hon ⊢
  have hchar : ∀ c, c ≠ 0x09 → c ≠ 0x08 → ∀ k : Kernel,
      k.currTerminalVisible = t ∧ (k.place t).OnScreen → Wrote t [c] k (putcChar k c) ∧
        (putcChar k c).currTerminalVisible = t ∧ ((putcChar k c).place t).OnScreen := by
    rintro c htab hback k ⟨rfl, hon⟩
    have hplace := congrFun (place_putcChar k c) k.currTerminalVisible
    rw [Function.update_self] at hplace
    refine ⟨wrote_putcChar hon htab fun h => absurd h hback, putcChar_visible k c, ?_⟩
    rw [hplace]
    exact (onScreen_next_iff hon c).mpr fun h => absurd h hback
  refine (wrote_foldl (P := fun k => k.currTerminalVisible = t ∧ (k.place t).OnScreen)
    (fun c hc k hk => ?_) ⟨ht, hon⟩).1
  have hback : c ≠ 0x08 := fun heq => htext (heq ▸ hc)
  unfold putc
  by_cases htab : c = 0x09
  · have hspaces := wrote_foldl
      (fun c hc => hchar c (fourSpaces_plain c hc).1 (fourSpaces_plain c hc).2) hk
    rw [if_pos htab, htab]
    exact ⟨(hspaces.1.then ⟨rfl, rfl, rfl, rfl⟩).tab, hspaces.2⟩
  · rw [if_neg htab]
    exact hchar c htab hback k hk

/-- **The screen is a window on the text**: from a cleared screen on, any text without a
backspace is shown as it is laid out on a sheet without end, as far as the last 25 rows
go. -/
theorem screen_isWindow (hclear : k.Cleared) (htext : NoBackspace text) :
    (puts k text).ShowsText text := by
  have hon : (k.place k.currTerminalVisible).OnScreen := by
    rw [hclear.place]
    decide
  have hwrote := wrote_puts hon htext
  have hscreen := congrFun hwrote.screen k.currTerminalVisible
  rw [Function.update_self] at hscreen
  have hempty : Displays (k.screen k.currTerminalVisible) (Sheet.empty 0x20) := by
    refine ⟨fun y x hy hx => ?_, hclear.place, by decide⟩
    have hpage : k.screenPage k.currTerminalVisible = 0 := if_pos rfl
    rw [Kernel.screen, hpage]
    exact hclear.blank _ (onScreen_mk (by omega) (by omega))
  obtain ⟨v, hdisplays, hshows⟩ := hempty.write htext
  rw [← hscreen] at hdisplays
  have hpage : (puts k text).screenPage k.currTerminalVisible = 0 := if_pos hwrote.visible.symm
  have hcell : ∀ y x : Nat, y < 25 → x < 80 →
      ((puts k text).page 0).cell ⟨x, y⟩ = (v.cells y x, attrib) := by
    intro y x hy hx
    have hcells := hdisplays.cells y x hy hx
    rwa [Kernel.screen, hpage] at hcells
  refine ⟨fun y x hy hx => ?_, fun y x hy hx => congrArg Prod.snd (hcell y x hy hx), ?_⟩
  · exact (congrArg Prod.fst (hcell y x hy hx)).trans (hshows.cells y hy x hx)
  · have hplace : (puts k text).place k.currTerminalVisible = ⟨v.col, v.row⟩ := hdisplays.place
    have hrow := hshows.row
    rw [hwrote.visible, hplace, hshows.col, show (v.row : Int) =
      (layout text).row - (layout text).top 25 by omega]

end Cleared

/-- Two lines, written after booting and `clear`. -/
theorem screen_isWindow_hi :
    (puts (clear (booted shellImage zeroHardware noJunk ⟨0x7FFF00, 0x7FFF40⟩))
      [0x48, 0x69, 0x0A, 0x21]).ShowsText [0x48, 0x69, 0x0A, 0x21] :=
  screen_isWindow (cleared_clear (by decide +kernel)) (by decide)

end LinuxLikeOS
