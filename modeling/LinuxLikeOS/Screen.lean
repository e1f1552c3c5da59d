import LinuxLikeOS.KernelState
import Mathlib.Data.List.Range

/-! # Text output

`lib.c` draws characters in two ways.  `putc` draws on the VGA page for the
visible terminal; `k_putc` draws on the executing terminal's backing page while
another terminal is visible.  Each keeps its terminal's `screen_x` and
`screen_y`, wraps at column 79 and scrolls its page at the last row.
`update_cursor` moves the hardware cursor and copies the position into the
keyboard driver's `cursor_x` and `cursor_y`.

Output touches the screens and nothing else (`putc_offScreen`): every statement
about processes, paging or descriptors is about the fields that
`Kernel.offScreen` keeps.
-/
namespace LinuxLikeOS

/-- `VIDEO`, the VGA page. -/
def videoBase : Word := 0xB8000

/-- The page a hidden terminal draws on. -/
def backingPage (t : Fin 3) : Word := 0xB9000 + 0x1000 * BitVec.ofNat 32 t

/-- `ATTRIB`. -/
def attrib : Byte := 0x07

/-- Where row `y`, column `x` of the page at `base` is. -/
def cellAddress (base : Word) (x y : Int) : Word := base + BitVec.ofInt 32 (2 * (80 * y + x))

/-- Stores a character and its attribute in one cell. -/
def storeCell (mem : Word → Byte) (base : Word) (x y : Int) (c : Byte) : Word → Byte :=
  Function.update (Function.update mem (cellAddress base x y) c) (cellAddress base x y + 1) attrib

/-- The two loops of `scroll` and `kernel_scroll` on the page at `base`: rows 1
to 24 move up, row 24 is blanked. -/
def scrollPage (mem : Word → Byte) (base : Word) : Word → Byte :=
  let moved := (List.range 24).foldl (fun m i =>
    (List.range 80).foldl (fun m j =>
      storeCell m base j i (m (cellAddress base j (i + 1)))) m) mem
  (List.range 80).foldl (fun m j => storeCell m base j 24 0x20) moved

namespace Kernel

/-- Sets `screen_x` and `screen_y` of terminal `t`. -/
def moveTo (k : Kernel) (t : Fin 3) (x y : Int) : Kernel :=
  k.setTerminal t { k.multiTerminal t with screenX := x, screenY := y }

/-- The kernel without its screens: what no text output changes. -/
def offScreen (k : Kernel) : Kernel :=
  { k with
    multiTerminal := fun t => { k.multiTerminal t with screenX := 0, screenY := 0 }
    video := fun _ => 0
    cursor := 0
    cursorX := 0
    cursorY := 0 }

@[simp] theorem moveTo_offScreen (k : Kernel) (t : Fin 3) (x y : Int) :
    (k.moveTo t x y).offScreen = k.offScreen := by
  unfold moveTo offScreen setTerminal
  congr 1
  funext i
  by_cases hi : i = t
  · subst hi; simp
  · simp [hi]

/-- Writes the screen memory. -/
def setVideo (k : Kernel) (v : Word → Byte) : Kernel := { k with video := v }

@[simp] theorem setVideo_offScreen (k : Kernel) (v : Word → Byte) :
    (k.setVideo v).offScreen = k.offScreen := rfl

end Kernel

/-- `update_cursor`, with `update_cursor_pos`. -/
def updateCursor (k : Kernel) (x y : Int) : Kernel :=
  { k with
    cursor := BitVec.ofInt 16 (y * 80 + x)
    cursorX := BitVec.ofInt 32 x
    cursorY := BitVec.ofInt 32 y }

/-- `clear`: blanks the VGA page and homes the executing terminal. -/
def clear (k : Kernel) : Kernel :=
  let blank := (List.range 2000).foldl (fun m i =>
    Function.update (Function.update m (videoBase + BitVec.ofNat 32 (2 * i)) 0x20)
      (videoBase + BitVec.ofNat 32 (2 * i + 1)) attrib) k.video
  (k.setVideo blank).moveTo k.currTerminalExecuting 0 0

/-- `scroll` and `kernel_scroll`, on the page at `base`. -/
def scrollAt (k : Kernel) (base : Word) : Kernel := k.setVideo (scrollPage k.video base)

/-- `scroll`. -/
def scroll (k : Kernel) : Kernel := scrollAt k videoBase

/-- `kernel_scroll`. -/
def kernelScroll (k : Kernel) : Kernel := scrollAt k (backingPage k.currTerminalExecuting)

/-- Draws anything but a tab for terminal `t` on the page at `base`.  `putc` and
`k_putc` are this function on two pages, except that both erase on `erase`. -/
def drawChar (k : Kernel) (t : Fin 3) (base erase : Word) (c : Byte) : Kernel :=
  let x := (k.multiTerminal t).screenX
  let y := (k.multiTerminal t).screenY
  if c = 0x08 then
    -- the cell to the left, also from column 0; at (0, 0) there is no check
    let x' := if x = 0 then 79 else x - 1
    let y' := if x = 0 then y - 1 else y
    (k.moveTo t x' y').setVideo (storeCell k.video erase x' y' 0x20)
  else if c = 0x0A ∨ c = 0x0D then
    -- in the last row the page moves up and the row stays
    if y = 24 then scrollAt (k.moveTo t 0 y) base else k.moveTo t 0 ((y + 1).tmod 25)
  else
    let drawn := k.setVideo (storeCell k.video base x y c)
    if x = 79 then
      -- a character in the last column is followed by a new line
      if y = 24 then (scrollAt drawn base).moveTo t 0 y else drawn.moveTo t 0 (y + 1)
    else
      let x' := (x + 1).tmod 80
      drawn.moveTo t x' ((y + x'.tdiv 80).tmod 25)

/-- The branches of `putc` other than the tab, without the final `update_cursor`. -/
def putcCell (k : Kernel) (c : Byte) : Kernel :=
  drawChar k k.currTerminalVisible videoBase videoBase c

/-- The last line of `putc`: the hardware cursor follows the visible terminal. -/
def syncCursor (k : Kernel) : Kernel := updateCursor k k.visible.screenX k.visible.screenY

/-- `putc` of anything but a tab. -/
def putcChar (k : Kernel) (c : Byte) : Kernel := syncCursor (putcCell k c)

/-- `putc`: a tab is four spaces. -/
def putc (k : Kernel) (c : Byte) : Kernel :=
  if c = 0x09 then
    syncCursor (putcChar (putcChar (putcChar (putcChar k 0x20) 0x20) 0x20) 0x20)
  else putcChar k c

/-- `puts`, and `printf` of a text without `%`. -/
def puts (k : Kernel) (text : List Byte) : Kernel := text.foldl putc k

/-- `k_putc` of anything but a tab.  The source's backspace branch erases on the
VGA page; the other branches draw on the executing terminal's backing page. -/
def kPutcChar (k : Kernel) (c : Byte) : Kernel :=
  drawChar k k.currTerminalExecuting (backingPage k.currTerminalExecuting) videoBase c

/-- `k_putc`: a tab is four spaces. -/
def kPutc (k : Kernel) (c : Byte) : Kernel :=
  if c = 0x09 then kPutcChar (kPutcChar (kPutcChar (kPutcChar k 0x20) 0x20) 0x20) 0x20
  else kPutcChar k c

/-! ## Output leaves everything else alone -/

@[simp] theorem updateCursor_offScreen (k : Kernel) (x y : Int) :
    (updateCursor k x y).offScreen = k.offScreen := rfl

@[simp] theorem syncCursor_offScreen (k : Kernel) : (syncCursor k).offScreen = k.offScreen := rfl

@[simp] theorem clear_offScreen (k : Kernel) : (clear k).offScreen = k.offScreen := by
  rw [clear, Kernel.moveTo_offScreen, Kernel.setVideo_offScreen]

@[simp] theorem scrollAt_offScreen (k : Kernel) (base : Word) :
    (scrollAt k base).offScreen = k.offScreen := rfl

@[simp] theorem drawChar_offScreen (k : Kernel) (t : Fin 3) (base erase : Word) (c : Byte) :
    (drawChar k t base erase c).offScreen = k.offScreen := by
  simp only [drawChar]
  repeat' split
  all_goals simp

@[simp] theorem putcChar_offScreen (k : Kernel) (c : Byte) :
    (putcChar k c).offScreen = k.offScreen := by
  simp [putcChar, putcCell]

@[simp] theorem putc_offScreen (k : Kernel) (c : Byte) : (putc k c).offScreen = k.offScreen := by
  unfold putc
  split <;> simp

@[simp] theorem kPutcChar_offScreen (k : Kernel) (c : Byte) :
    (kPutcChar k c).offScreen = k.offScreen := by
  simp [kPutcChar]

@[simp] theorem kPutc_offScreen (k : Kernel) (c : Byte) :
    (kPutc k c).offScreen = k.offScreen := by
  unfold kPutc
  split <;> simp

@[simp] theorem puts_offScreen (k : Kernel) (text : List Byte) :
    (puts k text).offScreen = k.offScreen := by
  induction text generalizing k with
  | nil => rfl
  | cons c text ih => exact (ih (putc k c)).trans (putc_offScreen k c)

end LinuxLikeOS
