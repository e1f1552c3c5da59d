import LinuxLikeOS.Scheduling

/-! # Cursors and pages

There are four video pages: the VGA page, and behind it one backing page for each terminal.
A page has 25 rows of 80 cells, a character and its attribute each; the rest of its 4096
bytes is not shown.

`Place.next` and `Page.draw` say what a character does to a cursor and to a page.
`drawChar`, and with it `putc` and `k_putc`, moves the terminal's cursor so
(`place_drawChar`) and draws so on one of the pages (`page_drawChar`), from every place on
the screen but one: a backspace in the upper left corner leaves the page
(`onScreen_next_iff`).
-/
namespace LinuxLikeOS

/-! ## Cursors -/

/-- A place on a page, or beside it. -/
@[ext] structure Place where
  x : Int
  y : Int
  deriving DecidableEq

namespace Place
variable (p : Place)

/-- The upper left corner. -/
def origin : Place := ⟨0, 0⟩

/-- It is one of the cells. -/
def OnScreen : Prop := (0 ≤ p.x ∧ p.x < 80) ∧ 0 ≤ p.y ∧ p.y < 25

instance : Decidable p.OnScreen := inferInstanceAs (Decidable ((_ ∧ _) ∧ _ ∧ _))

/-- The place before it. -/
def back : Place := ⟨if p.x = 0 then 79 else p.x - 1, if p.x = 0 then p.y - 1 else p.y⟩

/-- The place after a character that is not a tab. -/
def next (c : Byte) : Place :=
  if c = 0x08 then p.back
  else if c = 0x0A ∨ c = 0x0D then
    if p.y = 24 then ⟨0, p.y⟩ else ⟨0, (p.y + 1).tmod 25⟩
  else if p.x = 79 then
    if p.y = 24 then ⟨0, p.y⟩ else ⟨0, p.y + 1⟩
  else ⟨(p.x + 1).tmod 80, (p.y + ((p.x + 1).tmod 80).tdiv 80).tmod 25⟩

/-- The offset of the cell in its page. -/
def offset : Int := 2 * (80 * p.y + p.x)

end Place

section Places
variable {p : Place} {c : Byte}

theorem onScreen_mk {x y : Int} (hx : 0 ≤ x ∧ x < 80) (hy : 0 ≤ y ∧ y < 25) :
    Place.OnScreen ⟨x, y⟩ := ⟨hx, hy⟩

theorem offset_bounds (h : p.OnScreen) : 0 ≤ p.offset ∧ p.offset + 1 < 4000 := by
  obtain ⟨hx, hy⟩ := h
  unfold Place.offset
  omega

theorem onScreen_back (h : p.OnScreen) : p.back.OnScreen ↔ p ≠ Place.origin := by
  obtain ⟨x, y⟩ := p
  simp only [Place.OnScreen, Place.back, Place.origin, ne_eq, Place.mk.injEq] at *
  split <;> omega

/-- On the screen the remainders change nothing. -/
theorem next_of_onScreen (h : p.OnScreen) (c : Byte) :
    p.next c =
      if c = 0x08 then p.back
      else if c = 0x0A ∨ c = 0x0D ∨ p.x = 79 then ⟨0, if p.y = 24 then 24 else p.y + 1⟩
      else ⟨p.x + 1, p.y⟩ := by
  obtain ⟨hx, hy⟩ := h
  unfold Place.next
  by_cases hback : c = 0x08
  · rw [if_pos hback, if_pos hback]
  rw [if_neg hback, if_neg hback]
  by_cases hline : c = 0x0A ∨ c = 0x0D
  · rw [if_pos hline, if_pos (or_assoc.mp (Or.inl hline))]
    split
    · rename_i hlast
      rw [hlast]
    · rw [Int.tmod_eq_of_lt (by omega) (by omega)]
  rw [if_neg hline]
  by_cases hcolumn : p.x = 79
  · rw [if_pos hcolumn, if_pos (Or.inr (Or.inr hcolumn))]
    split
    · rename_i hlast
      rw [hlast]
    · rfl
  rw [if_neg hcolumn, if_neg fun h => (or_assoc.mpr h).elim hline hcolumn,
    Int.tmod_eq_of_lt (by omega) (by omega), Int.tdiv_eq_zero_of_lt (by omega) (by omega),
    Int.add_zero, Int.tmod_eq_of_lt (by omega) (by omega)]

/-- **A cursor leaves the screen** by a backspace in the upper left corner, and no other
way. -/
theorem onScreen_next_iff (h : p.OnScreen) (c : Byte) :
    (p.next c).OnScreen ↔ (c = 0x08 → p ≠ Place.origin) := by
  rw [next_of_onScreen h]
  by_cases hback : c = 0x08
  · simp only [hback, if_true, true_imp_iff]
    exact onScreen_back h
  · simp only [hback, if_false, false_imp_iff, iff_true]
    obtain ⟨hx, hy⟩ := h
    unfold Place.OnScreen
    split
    · dsimp only
      split <;> omega
    · dsimp only
      omega

end Places

/-! ## Pages -/

instance neZero_pages : NeZero 4 := ⟨by decide⟩

/-- Where the pages begin: the VGA page, and the backing page of each terminal. -/
def pageBase (i : Fin 4) : Word := 0xB8000 + 0x1000 * BitVec.ofNat 32 i

theorem videoBase_eq : videoBase = pageBase 0 := rfl

theorem backingPage_eq (t : Fin 3) : backingPage t = pageBase t.succ := by
  revert t
  decide

/-- The bytes of a page. -/
abbrev Page := Fin 4096 → Byte

/-- Page `i` in memory. -/
def pageAt (mem : Word → Byte) (i : Fin 4) : Page := fun o => mem (pageBase i + BitVec.ofNat 32 o)

namespace Page
variable (g : Page)

/-- Stores a character and its attribute in one cell. -/
def store (p : Place) (c : Byte) : Page := fun o =>
  if (o : Int) = p.offset + 1 then attrib else if (o : Int) = p.offset then c else g o

/-- The character in a cell. -/
def char (p : Place) : Byte := g (Fin.ofNat 4096 p.offset.toNat)

/-- Its attribute. -/
def attr (p : Place) : Byte := g (Fin.ofNat 4096 (p.offset.toNat + 1))

/-- The cell is as an erased one. -/
def BlankAt (p : Place) : Prop := g.char p = 0x20 ∧ g.attr p = attrib

instance (p : Place) : Decidable (g.BlankAt p) := inferInstanceAs (Decidable (_ ∧ _))

/-- Rows 1 to 24 move up, and row 24 is blanked. -/
def scroll : Page :=
  let moved := (List.range 24).foldl (fun (m : Page) (i : Nat) =>
    (List.range 80).foldl (fun (m : Page) (j : Nat) =>
      m.store ⟨j, i⟩ (m.char ⟨j, i + 1⟩)) m) g
  (List.range 80).foldl (fun (m : Page) (j : Nat) => m.store ⟨j, 24⟩ 0x20) moved

/-- The page after a character that is not a tab, with the cursor at `p`. -/
def draw (p : Place) (c : Byte) : Page :=
  if c = 0x08 then g.store p.back 0x20
  else if c = 0x0A ∨ c = 0x0D then
    if p.y = 24 then g.scroll else g
  else if p.x = 79 ∧ p.y = 24 then (g.store p c).scroll
  else g.store p c

end Page

section Pages
variable {mem : Word → Byte} {i j : Fin 4} {p : Place}

theorem toNat_pageBase (i : Fin 4) : (pageBase i).toNat = 0xB8000 + 4096 * i := by
  revert i
  decide

/-- The pages do not overlap. -/
theorem pageBase_add_eq {o o' : Nat} (ho : o < 4096) (ho' : o' < 4096) :
    pageBase j + BitVec.ofNat 32 o = pageBase i + BitVec.ofNat 32 o' ↔ j = i ∧ o = o' := by
  have hnat : ∀ (i : Fin 4) (o : Nat), o < 4096 →
      (pageBase i + BitVec.ofNat 32 o).toNat = 0xB8000 + 4096 * i + o := by
    intro i o ho
    rw [BitVec.toNat_add, toNat_pageBase, BitVec.toNat_ofNat]
    omega
  constructor
  · intro h
    have heq := congrArg BitVec.toNat h
    rw [hnat j o ho, hnat i o' ho'] at heq
    exact ⟨Fin.ext (by omega), by omega⟩
  · rintro ⟨rfl, rfl⟩
    rfl

/-- The address of a cell on the screen. -/
theorem cellAddress_eq (h : p.OnScreen) :
    cellAddress (pageBase i) p.x p.y = pageBase i + BitVec.ofNat 32 p.offset.toNat ∧
      cellAddress (pageBase i) p.x p.y + 1 =
        pageBase i + BitVec.ofNat 32 (p.offset.toNat + 1) := by
  have hoff : BitVec.ofInt 32 (2 * (80 * p.y + p.x)) = BitVec.ofNat 32 p.offset.toNat := by
    rw [← BitVec.ofInt_natCast, Int.toNat_of_nonneg (offset_bounds h).1]
    rfl
  have hcell : cellAddress (pageBase i) p.x p.y =
      pageBase i + BitVec.ofNat 32 p.offset.toNat := by
    rw [cellAddress, hoff]
  refine ⟨hcell, ?_⟩
  rw [hcell, BitVec.add_assoc, BitVec.ofNat_add]
  rfl

/-- A cell of page `i` that is stored. -/
theorem pageAt_storeCell (h : p.OnScreen) (c : Byte) :
    pageAt (storeCell mem (pageBase i) p.x p.y c) =
      Function.update (pageAt mem) i ((pageAt mem i).store p c) := by
  obtain ⟨hlow, hhigh⟩ := offset_bounds h
  obtain ⟨hcell, hcell'⟩ := cellAddress_eq (i := i) h
  funext j o
  have hchar : pageBase j + BitVec.ofNat 32 o = cellAddress (pageBase i) p.x p.y ↔
      j = i ∧ (o : Nat) = p.offset.toNat := by
    rw [hcell]
    exact pageBase_add_eq o.isLt (by omega)
  have hattr : pageBase j + BitVec.ofNat 32 o = cellAddress (pageBase i) p.x p.y + 1 ↔
      j = i ∧ (o : Nat) = p.offset.toNat + 1 := by
    rw [hcell']
    exact pageBase_add_eq o.isLt (by omega)
  by_cases hj : j = i
  · subst hj
    have hnat : (o : Nat) = p.offset.toNat ↔ (o : Int) = p.offset := by omega
    have hnat' : (o : Nat) = p.offset.toNat + 1 ↔ (o : Int) = p.offset + 1 := by omega
    simp only [pageAt, storeCell, Function.update_apply, hchar, hattr, hnat, hnat', true_and,
      if_true, Page.store]
  · simp only [pageAt, storeCell, Function.update_apply, hchar, hattr, hj, false_and, if_false]

theorem pageAt_char (h : p.OnScreen) :
    mem (cellAddress (pageBase i) p.x p.y) = (pageAt mem i).char p := by
  obtain ⟨hlow, hhigh⟩ := offset_bounds h
  rw [(cellAddress_eq h).1, Page.char, pageAt]
  congr 3
  exact (Nat.mod_eq_of_lt (by omega)).symm

/-- The bytes of a cell. -/
theorem store_apply (g : Page) (h : p.OnScreen) (c : Byte) (o : Fin 4096) :
    g.store p c o =
      if o = Fin.ofNat 4096 (p.offset.toNat + 1) then attrib
      else if o = Fin.ofNat 4096 p.offset.toNat then c else g o := by
  obtain ⟨hlow, hhigh⟩ := offset_bounds h
  have hchar : o = Fin.ofNat 4096 p.offset.toNat ↔ (o : Int) = p.offset := by
    rw [Fin.ext_iff, Fin.val_ofNat, Nat.mod_eq_of_lt (by omega)]
    omega
  have hattr : o = Fin.ofNat 4096 (p.offset.toNat + 1) ↔ (o : Int) = p.offset + 1 := by
    rw [Fin.ext_iff, Fin.val_ofNat, Nat.mod_eq_of_lt (by omega)]
    omega
  simp only [hchar, hattr, Page.store]

/-- A cell that is erased and does not change is blank. -/
theorem store_eq_self_iff {g : Page} (h : p.OnScreen) : g.store p 0x20 = g ↔ g.BlankAt p := by
  obtain ⟨hlow, hhigh⟩ := offset_bounds h
  have hne : Fin.ofNat 4096 p.offset.toNat ≠ Fin.ofNat 4096 (p.offset.toNat + 1) := by
    rw [Ne, Fin.ext_iff, Fin.val_ofNat, Fin.val_ofNat, Nat.mod_eq_of_lt (by omega),
      Nat.mod_eq_of_lt (by omega)]
    omega
  constructor
  · intro heq
    have hchar := congrFun heq (Fin.ofNat 4096 p.offset.toNat)
    have hattr := congrFun heq (Fin.ofNat 4096 (p.offset.toNat + 1))
    rw [store_apply g h, if_neg hne, if_pos rfl] at hchar
    rw [store_apply g h, if_pos rfl] at hattr
    exact ⟨hchar.symm, hattr.symm⟩
  · rintro ⟨hchar, hattr⟩
    funext o
    rw [store_apply g h]
    split
    · rename_i ho
      rw [ho]
      exact hattr.symm
    · split
      · rename_i ho
        rw [ho]
        exact hchar.symm
      · rfl

/-- A loop that draws on page `i`. -/
theorem pageAt_foldl {l : List Nat} {f : (Word → Byte) → Nat → Word → Byte} (i : Fin 4)
    (g : Page → Nat → Page)
    (h : ∀ a ∈ l, ∀ mem, pageAt (f mem a) = Function.update (pageAt mem) i (g (pageAt mem i) a))
    (mem : Word → Byte) :
    pageAt (l.foldl f mem) = Function.update (pageAt mem) i (l.foldl g (pageAt mem i)) := by
  induction l generalizing mem with
  | nil => exact (Function.update_eq_self ..).symm
  | cons a l ih =>
    rw [List.foldl_cons, List.foldl_cons, ih (fun b hb => h b (List.mem_cons_of_mem a hb)),
      h a List.mem_cons_self, Function.update_idem, Function.update_self]

/-- The loops of `scroll` count in natural numbers. -/
theorem scrollPage_eq (mem : Word → Byte) (base : Word) :
    scrollPage mem base =
      (List.range 80).foldl (fun m (j : Nat) => storeCell m base j 24 0x20)
        ((List.range 24).foldl (fun m (i : Nat) =>
          (List.range 80).foldl (fun m (j : Nat) =>
            storeCell m base j i (m (cellAddress base j (i + 1)))) m) mem) := by
  have hcast : ∀ n, (do let a ← List.range n; pure (a : Int)) = (List.range n).map Nat.cast :=
    fun n => List.flatMap_pure_eq_map ..
  simp only [scrollPage, hcast, List.foldl_map]

/-- Scrolling page `i`. -/
theorem pageAt_scrollPage (mem : Word → Byte) (i : Fin 4) :
    pageAt (scrollPage mem (pageBase i)) =
      Function.update (pageAt mem) i (pageAt mem i).scroll := by
  -- row `a` takes the characters of the row below
  let raise (a : Nat) (m : Page) (j : Nat) : Page := m.store ⟨j, a⟩ (m.char ⟨j, a + 1⟩)
  have hrow : ∀ a ∈ List.range 24, ∀ mem : Word → Byte,
      pageAt ((List.range 80).foldl (fun m (j : Nat) => storeCell m (pageBase i) j a
        (m (cellAddress (pageBase i) j (a + 1)))) mem) =
      Function.update (pageAt mem) i ((List.range 80).foldl (raise a) (pageAt mem i)) := by
    intro a ha mem
    refine pageAt_foldl i (raise a) (fun j hj mem => ?_) mem
    rw [List.mem_range] at ha hj
    have hto : Place.OnScreen ⟨j, a⟩ := onScreen_mk (by omega) (by omega)
    have hfrom : Place.OnScreen ⟨j, a + 1⟩ := onScreen_mk (by omega) (by omega)
    show _ = Function.update (pageAt mem) i ((pageAt mem i).store ⟨j, a⟩ _)
    rw [← pageAt_char hfrom]
    exact pageAt_storeCell hto _
  have hlast : ∀ j ∈ List.range 80, ∀ mem : Word → Byte,
      pageAt (storeCell mem (pageBase i) j 24 0x20) =
        Function.update (pageAt mem) i ((pageAt mem i).store ⟨j, 24⟩ 0x20) := by
    intro j hj mem
    rw [List.mem_range] at hj
    have hto : Place.OnScreen ⟨j, 24⟩ := onScreen_mk (by omega) (by omega)
    exact pageAt_storeCell hto 0x20
  rw [scrollPage_eq]
  refine (pageAt_foldl i (fun m j => m.store ⟨j, 24⟩ 0x20) hlast _).trans ?_
  rw [pageAt_foldl i (fun m a => (List.range 80).foldl (raise a) m) hrow, Function.update_idem,
    Function.update_self]
  rfl

/-- Copying a page. -/
theorem pageAt_memcpy (mem : Word → Byte) (i j : Fin 4) :
    pageAt (memcpy mem (pageBase i) (pageBase j) 4096) =
      Function.update (pageAt mem) i (pageAt mem j) := by
  have hi := toNat_pageBase i
  funext u o
  have ho := o.isLt
  by_cases hu : u = i
  · subst hu
    have hoff : pageBase u + BitVec.ofNat 32 o - pageBase u = BitVec.ofNat 32 o := by
      rw [BitVec.add_comm, BitVec.add_sub_cancel]
    have hlt : (BitVec.ofNat 32 (o : Nat)).toNat < 4096 := by
      rw [BitVec.toNat_ofNat]
      omega
    rw [Function.update_self, pageAt, memcpy, hoff, if_pos hlt]
    rfl
  · have hu' := toNat_pageBase u
    have hval : (u : Nat) ≠ i := fun h => hu (Fin.ext h)
    have hge : ¬(pageBase u + BitVec.ofNat 32 o - pageBase i).toNat < 4096 := by
      rw [BitVec.toNat_sub, BitVec.toNat_add, hu', hi, BitVec.toNat_ofNat]
      omega
    rw [Function.update_of_ne hu, pageAt, memcpy, if_neg hge]
    rfl

end Pages

/-! ## Drawing a character -/

namespace Kernel
variable (k : Kernel)

/-- The cursor of terminal `t`. -/
def place (t : Fin 3) : Place := ⟨(k.multiTerminal t).screenX, (k.multiTerminal t).screenY⟩

/-- The video pages. -/
def page (i : Fin 4) : Page := pageAt k.video i

end Kernel

section Drawing
variable {k : Kernel}

theorem place_moveTo (k : Kernel) (t : Fin 3) (x y : Int) :
    (k.moveTo t x y).place = Function.update k.place t ⟨x, y⟩ := by
  funext u
  by_cases hu : u = t
  · subst hu
    simp [Kernel.place, Kernel.moveTo, Kernel.setTerminal]
  · simp [Kernel.place, Kernel.moveTo, Kernel.setTerminal, hu]

/-- **A character moves the cursor** of its terminal. -/
theorem place_drawChar (k : Kernel) (t : Fin 3) (base erase : Word) (c : Byte) :
    (drawChar k t base erase c).place = Function.update k.place t ((k.place t).next c) := by
  have hvideo : ∀ (k : Kernel) (v : Word → Byte), (k.setVideo v).place = k.place :=
    fun _ _ => rfl
  have hscroll : ∀ (k : Kernel) (base : Word), (scrollAt k base).place = k.place :=
    fun _ _ => rfl
  simp only [drawChar, Place.next, Place.back, show k.place t =
    ⟨(k.multiTerminal t).screenX, (k.multiTerminal t).screenY⟩ from rfl]
  split_ifs <;> simp only [hvideo, hscroll, place_moveTo]

/-- The page that a character is drawn on. -/
def drawnPage (i erase : Fin 4) (c : Byte) : Fin 4 := if c = 0x08 then erase else i

/-- **A character is drawn** on one page, if its cell is on the screen. -/
theorem page_drawChar {t : Fin 3} (h : (k.place t).OnScreen) (i erase : Fin 4) {c : Byte}
    (hcorner : c = 0x08 → k.place t ≠ Place.origin) :
    (drawChar k t (pageBase i) (pageBase erase) c).page =
      Function.update k.page (drawnPage i erase c)
        ((k.page (drawnPage i erase c)).draw (k.place t) c) := by
  have hmove : ∀ (k : Kernel) (t : Fin 3) (x y : Int), (k.moveTo t x y).page = k.page :=
    fun _ _ _ _ => rfl
  have hvideo : ∀ (k : Kernel) (v : Word → Byte), (k.setVideo v).page = pageAt v :=
    fun _ _ => rfl
  have hscroll : ∀ k : Kernel, (scrollAt k (pageBase i)).page =
      Function.update k.page i (k.page i).scroll :=
    fun k => pageAt_scrollPage k.video i
  have hstore : ∀ (p : Place) (i : Fin 4) (c : Byte), p.OnScreen →
      (k.setVideo (storeCell k.video (pageBase i) p.x p.y c)).page =
        Function.update k.page i ((k.page i).store p c) :=
    fun _ _ _ hp => pageAt_storeCell hp _
  by_cases hback : c = 0x08
  · have herase := hstore (k.place t).back erase 0x20 ((onScreen_back h).mpr (hcorner hback))
    simp only [drawChar, drawnPage, Page.draw, if_pos hback]
    exact herase
  · have hdrawn := hstore (k.place t) i c h
    simp only [drawChar, drawnPage, Page.draw, if_neg hback]
    by_cases hline : c = 0x0A ∨ c = 0x0D
    · rw [if_pos hline, if_pos hline]
      by_cases hlast : (k.multiTerminal t).screenY = 24
      · rw [if_pos hlast, if_pos (show (k.place t).y = 24 from hlast)]
        exact hscroll (k.moveTo t 0 (k.multiTerminal t).screenY)
      · rw [if_neg hlast, if_neg (show ¬(k.place t).y = 24 from hlast)]
        exact (Function.update_eq_self ..).symm
    rw [if_neg hline, if_neg hline]
    by_cases hcolumn : (k.multiTerminal t).screenX = 79
    · rw [if_pos hcolumn]
      by_cases hlast : (k.multiTerminal t).screenY = 24
      · rw [if_pos hlast, if_pos (show (k.place t).x = 79 ∧ (k.place t).y = 24 from
          ⟨hcolumn, hlast⟩)]
        refine (hscroll _).trans ?_
        rw [show (k.setVideo (storeCell k.video (pageBase i) (k.multiTerminal t).screenX
          (k.multiTerminal t).screenY c)).page = _ from hdrawn, Function.update_idem,
          Function.update_self]
      · rw [if_neg hlast, if_neg (fun hcorner => hlast hcorner.2)]
        exact hdrawn
    · rw [if_neg hcolumn, if_neg (fun hcorner => hcolumn hcorner.1)]
      exact hdrawn

/-- `putc` of anything but a tab. -/
theorem place_putcChar (k : Kernel) (c : Byte) :
    (putcChar k c).place = Function.update k.place k.currTerminalVisible
      ((k.place k.currTerminalVisible).next c) :=
  place_drawChar k k.currTerminalVisible videoBase videoBase c

theorem page_putcChar (h : (k.place k.currTerminalVisible).OnScreen) {c : Byte}
    (hcorner : c = 0x08 → k.place k.currTerminalVisible ≠ Place.origin) :
    (putcChar k c).page =
      Function.update k.page 0 ((k.page 0).draw (k.place k.currTerminalVisible) c) := by
  have hdraw := page_drawChar h 0 0 hcorner
  rw [drawnPage, ite_self] at hdraw
  exact hdraw

/-- `k_putc` of anything but a tab. -/
theorem place_kPutcChar (k : Kernel) (c : Byte) :
    (kPutcChar k c).place = Function.update k.place k.currTerminalExecuting
      ((k.place k.currTerminalExecuting).next c) :=
  place_drawChar k k.currTerminalExecuting (backingPage k.currTerminalExecuting) videoBase c

theorem page_kPutcChar (h : (k.place k.currTerminalExecuting).OnScreen) {c : Byte}
    (hcorner : c = 0x08 → k.place k.currTerminalExecuting ≠ Place.origin) :
    (kPutcChar k c).page =
      Function.update k.page (drawnPage k.currTerminalExecuting.succ 0 c)
        ((k.page (drawnPage k.currTerminalExecuting.succ 0 c)).draw
          (k.place k.currTerminalExecuting) c) := by
  rw [kPutcChar, backingPage_eq, videoBase_eq]
  exact page_drawChar h _ 0 hcorner

end Drawing

end LinuxLikeOS
