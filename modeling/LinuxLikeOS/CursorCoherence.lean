import LinuxLikeOS.Frames
import LinuxLikeOS.VisibleKeys

/-! # Where the cursor is shown

The position of the visible terminal is kept twice: `screen_x` and `screen_y` say where the
next character is drawn, `cursor_x` and `cursor_y` where the keyboard driver believes the cursor
to be, and the hardware cursor follows the second pair.  `putc` ends with copying the first
pair to the second, so a key that is drawn leaves the two the same, whatever the driver has
computed before.

Two keys compute something behind that copy.  A tab is drawn as four spaces, and then moves
`cursor_x` four columns on once more; Ctrl and L homes the screen, and sets the cursor to where
the prompt once ended.  These two are the only ones (`cursorCoherent_run`).
-/
namespace LinuxLikeOS
open Transition

/-- The cursor is shown where the visible terminal's next character is drawn. -/
structure Kernel.CursorCoherent (k : Kernel) : Prop where
  hardware : k.cursor = BitVec.ofInt 16 (k.visible.screenY * 80 + k.visible.screenX)
  column : k.cursorX = BitVec.ofInt 32 k.visible.screenX
  row : k.cursorY = BitVec.ofInt 32 k.visible.screenY

/-- The console as a machine of scan codes; `junk` and `frame` are for a terminal that is
opened. -/
def keyMachine (fs : FileSystem) (beyond junk : Nat → Byte) (frame : Regs) : Machine Console Byte :=
  ⟨fun c code => consoleStep fs beyond c (.scancode code junk frame)⟩

/-- The visible terminal is executing, and the scan code is not that of a switch. -/
def StaysHere (beyond : Nat → Byte) (c : Console) (code : Byte) : Prop :=
  c.kernel.currTerminalExecuting = c.kernel.currTerminalVisible ∧
    ∀ t, c.keyboard.pressed beyond code ≠ .switchTo t

instance (beyond : Nat → Byte) (c : Console) (code : Byte) : Decidable (StaysHere beyond c code) :=
  inferInstanceAs (Decidable (_ ∧ ∀ _, _))

/-- The scan code leaves the cursor where the next character is drawn. -/
def CoherentBehind (fs : FileSystem) (beyond junk : Nat → Byte) (frame : Regs) (c : Console)
    (code : Byte) : Prop :=
  ((keyMachine fs beyond junk frame).step c code).kernel.CursorCoherent

/-- The key is neither a tab nor Ctrl and L, and if nothing is drawn for it, the cursor is where
it should be already. -/
def KeepsCursor (beyond : Nat → Byte) (c : Console) (code : Byte) : Prop :=
  match c.keyboard.pressed beyond code with
  | .modifier => c.kernel.CursorCoherent
  | .char ch => ch = 0x08 ∧ c.keyboard.sum = 0 → c.kernel.CursorCoherent
  | .tab | .clearScreen | .switchTo _ => False

/-- The key is neither a tab nor Ctrl and L. -/
def IsPlainKey (beyond : Nat → Byte) (c : Console) (code : Byte) : Prop :=
  match c.keyboard.pressed beyond code with
  | .modifier | .char _ => True
  | .tab | .clearScreen | .switchTo _ => False

section Keys
variable {fs : FileSystem} {beyond junk : Nat → Byte} {frame : Regs} {k : Kernel} {c : Console}
  {code : Byte}

theorem coherent_syncCursor (k : Kernel) : (syncCursor k).CursorCoherent := ⟨rfl, rfl, rfl⟩

theorem coherent_putc (k : Kernel) (ch : Byte) : (putc k ch).CursorCoherent := by
  unfold putc
  split
  · exact coherent_syncCursor _
  · exact coherent_syncCursor _

/-- Collecting a key moves nothing. -/
theorem coherent_getChar (h : k.CursorCoherent) (ch : Byte) : (getChar k ch).CursorCoherent := by
  have hplace : (getChar k ch).visible.screenX = k.visible.screenX ∧
      (getChar k ch).visible.screenY = k.visible.screenY := by
    have hvisible : (getChar k ch).visible = k.visible.keyIn ch := Function.update_self ..
    rw [hvisible]
    simp only [Terminal.keyIn]
    repeat' split
    all_goals exact ⟨rfl, rfl⟩
  constructor
  · rw [hplace.1, hplace.2]
    exact h.hardware
  · rw [hplace.1]
    exact h.column
  · rw [hplace.2]
    exact h.row

theorem coherent_keyPressed (k : Kernel) (ch : Byte) : (keyPressed k ch).CursorCoherent :=
  coherent_getChar (coherent_putc k ch) ch

/-- Where the cursor is right, it is wrong four columns further on. -/
theorem not_coherent_redrawCursor (h : k.CursorCoherent) :
    ¬{ k with cursorX := k.cursorX + 4 }.redrawCursor.CursorCoherent := by
  intro hmoved
  have hcolumn : BitVec.ofInt 32 (k.cursorX + 4).toInt = BitVec.ofInt 32 k.visible.screenX :=
    hmoved.column
  rw [BitVec.ofInt_toInt, ← h.column] at hcolumn
  bv_omega

/-- **A tab moves the cursor twice.** -/
theorem not_coherent_tabPressed (k : Kernel) : ¬(tabPressed k).CursorCoherent := by
  have hspaces : (puts k fourSpaces).CursorCoherent := coherent_putc _ 0x20
  exact not_coherent_redrawCursor (coherent_getChar hspaces 0x09)

/-- **Ctrl and L** homes the visible terminal and moves the cursor elsewhere. -/
theorem not_coherent_ctrlLPressed (hshown : k.currTerminalExecuting = k.currTerminalVisible) :
    ¬(ctrlLPressed k).CursorCoherent := by
  have hshows : ∀ {k' : Kernel}, k'.offConsole = k.offConsole →
      k'.currTerminalVisible = k.currTerminalVisible :=
    fun h => (congrArg Kernel.currTerminalVisible h :)
  have hvisible := hshows (ctrlLPressed_offConsole k)
  have hhome : (ctrlLPressed k).place k.currTerminalVisible = Place.origin := by
    rw [place_ctrlLPressed, hshown, Function.update_self]
  have hcolumn : (ctrlLPressed k).visible.screenX = 0 := by
    rw [Kernel.visible, hvisible]
    exact congrArg Place.x hhome
  intro h
  have hsix : (6 : Word) = BitVec.ofInt 32 (ctrlLPressed k).visible.screenX := h.column
  rw [hcolumn] at hsix
  exact absurd hsix (by decide)

/-- A character is drawn, but for a backspace when there is nothing to erase. -/
theorem coherent_char_iff (ch : Byte) (sum : Int) :
    ((KeyAction.char ch).perform fs k sum junk frame).CursorCoherent ↔
      (ch = 0x08 ∧ sum = 0 → k.CursorCoherent) := by
  show (if ch = 0x08 ∧ sum = 0 then k else keyPressed k ch).CursorCoherent ↔ _
  by_cases hnothing : ch = 0x08 ∧ sum = 0
  · rw [if_pos hnothing]
    exact (imp_iff_right hnothing).symm
  · rw [if_neg hnothing]
    exact iff_of_true (coherent_keyPressed k ch) fun h => absurd h hnothing

theorem coherentBehind_eq : CoherentBehind fs beyond junk frame c code ↔
    ((c.keyboard.pressed beyond code).perform fs c.kernel c.keyboard.sum junk
      frame).CursorCoherent := by
  have hkernel : ((keyMachine fs beyond junk frame).step c code).kernel =
      (c.keyboard.pressed beyond code).perform fs c.kernel c.keyboard.sum junk frame :=
    keyboardHandler_kernel ..
  rw [CoherentBehind, hkernel]

/-- **One key.** -/
theorem coherentBehind_iff (hstays : StaysHere beyond c code) :
    CoherentBehind fs beyond junk frame c code ↔ KeepsCursor beyond c code := by
  obtain ⟨hshown, hswitch⟩ := hstays
  rw [coherentBehind_eq, KeepsCursor]
  generalize c.keyboard.pressed beyond code = action at hswitch ⊢
  cases action with
  | modifier => exact Iff.rfl
  | switchTo t => exact absurd rfl (hswitch t)
  | clearScreen => exact iff_of_false (not_coherent_ctrlLPressed hshown) id
  | tab => exact iff_of_false (not_coherent_tabPressed c.kernel) id
  | char ch => exact coherent_char_iff ch c.keyboard.sum

/-- With the cursor where it should be, it is enough that the key is plain. -/
theorem keepsCursor_iff (h : c.kernel.CursorCoherent) :
    KeepsCursor beyond c code ↔ IsPlainKey beyond c code := by
  unfold KeepsCursor IsPlainKey
  cases c.keyboard.pressed beyond code with
  | modifier => exact iff_of_true h trivial
  | char ch => exact iff_of_true (fun _ => h) trivial
  | tab | clearScreen | switchTo t => exact Iff.rfl

theorem coherent_plainKey (h : c.kernel.CursorCoherent) (hplain : IsPlainKey beyond c code) :
    CoherentBehind fs beyond junk frame c code := by
  rw [coherentBehind_eq]
  unfold IsPlainKey at hplain
  cases haction : c.keyboard.pressed beyond code with
  | modifier => exact h
  | char ch => exact (coherent_char_iff ch c.keyboard.sum).mpr fun _ => h
  | tab | clearScreen | switchTo t =>
    rw [haction] at hplain
    exact hplain.elim

end Keys

/-- **The cursor is shown where the next character is drawn**, behind every key of a sequence in
the executing terminal, if and only if none of them is a tab or Ctrl and L and those that draw
nothing find it there; so from such a state on, exactly in the sequences without these two. -/
theorem cursorCoherent_run (fs : FileSystem) (beyond junk : Nat → Byte) (frame : Regs)
    (c : Console) (codes : List Byte)
    (hstays : (keyMachine fs beyond junk frame).Guarded (StaysHere beyond) c codes) :
    ((keyMachine fs beyond junk frame).Guarded (CoherentBehind fs beyond junk frame) c codes ↔
      (keyMachine fs beyond junk frame).Guarded (KeepsCursor beyond) c codes) ∧
    (c.kernel.CursorCoherent →
      ((keyMachine fs beyond junk frame).Guarded (CoherentBehind fs beyond junk frame) c codes ↔
        (keyMachine fs beyond junk frame).Guarded (IsPlainKey beyond) c codes)) := by
  have hkeys : (keyMachine fs beyond junk frame).Guarded
      (CoherentBehind fs beyond junk frame) c codes ↔
      (keyMachine fs beyond junk frame).Guarded (KeepsCursor beyond) c codes :=
    Machine.guarded_congr (Machine.guarded_of_step (I := fun _ => True) (fun _ _ _ _ => trivial)
      (fun _ _ _ hstays => coherentBehind_iff hstays) trivial hstays)
  refine ⟨hkeys, fun hcoherent => hkeys.trans ?_⟩
  exact Machine.guarded_iff_of_step (I := fun c => c.kernel.CursorCoherent)
    (fun _ _ h => keepsCursor_iff h) (fun _ _ h hplain => coherent_plainKey h hplain) hcoherent

/-- `ls`, Backspace, `a`, Enter, and a Backspace that draws nothing. -/
def editedCodes : List Byte := [0x26, 0x1F, 0x0E, 0x1E, 0x1C, 0x0E]

theorem cursorCoherent_editedCodes :
    let c := bootedConsole shellImage zeroHardware noJunk ⟨0x7FFF00, 0x7FFF40⟩
    let m := keyMachine shellImage noJunk noJunk ⟨0, 0⟩
    (m.Guarded (CoherentBehind shellImage noJunk noJunk ⟨0, 0⟩) c editedCodes ↔
      m.Guarded (KeepsCursor noJunk) c editedCodes) ∧
    (c.kernel.CursorCoherent →
      (m.Guarded (CoherentBehind shellImage noJunk noJunk ⟨0, 0⟩) c editedCodes ↔
        m.Guarded (IsPlainKey noJunk) c editedCodes)) :=
  cursorCoherent_run shellImage noJunk noJunk ⟨0, 0⟩ _ editedCodes (by decide +kernel)

/-- A tab after booting is drawn up to column 4, and the cursor is shown in column 8. -/
theorem incoherent_tab :
    ¬∀ (fs : FileSystem) (beyond junk : Nat → Byte) (frame : Regs) (c : Console)
      (codes : List Byte),
      (keyMachine fs beyond junk frame).Guarded (StaysHere beyond) c codes →
      (keyMachine fs beyond junk frame).Guarded (CoherentBehind fs beyond junk frame) c codes := by
  intro hall
  have hcoherent := hall shellImage noJunk noJunk ⟨0, 0⟩
    (bootedConsole shellImage zeroHardware noJunk ⟨0x7FFF00, 0x7FFF40⟩) [0x0F]
    ⟨⟨by decide +kernel, by decide +kernel⟩, trivial⟩
  exact absurd hcoherent.1.column (by decide +kernel)

end LinuxLikeOS
