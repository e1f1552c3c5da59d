import LinuxLikeOS.Screen
import LinuxLikeOS.CountedLoop

/-! # The terminal and the real-time clock

`terminal.c` collects keys into the visible terminal's line (`getChar`) and
serves the two standard descriptors: `read_terminal` waits for a finished line
and copies it out, `write_terminal` draws.  `rtc.c` programs the clock.

`read_terminal` is a loop with two waits in it, so a call in a given state has
one of three outcomes (`TerminalRead`): it is still polling for a line; it has
copied a line and waits until the executing terminal is the visible one; or it
has returned.  Bytes that a driver stores through the caller's pointer are
reported, in order, beside the state: they are the caller's memory, not the
kernel's.
-/
namespace LinuxLikeOS
open CountedLoop

/-! ## The keyboard line -/

namespace Terminal
variable (v : Terminal)

/-- The loop that sets all of `keyboard_buffer` to NUL. -/
def blankBuffer : Terminal :=
  { v with keyboardBuffer := fun i => if i < 128 then 0 else v.keyboardBuffer i }

/-- What `read_terminal` does to a line it has copied. -/
def clearLine : Terminal := { v.blankBuffer with enter := false, keyCount := 0 }

/-- `getChar`, on the record of the visible terminal. -/
def keyIn (input : Byte) : Terminal :=
  let v' := if input = 0x0A then { v with enter := true } else v
  if v.keyCount < 128 then
    if input = 0x08 ∧ v.keyCount > 0 then
      { v' with
        keyboardBuffer := Function.update v.keyboardBuffer (v.keyCount - 1).toNat 0
        keyCount := v.keyCount - 1 }
    else
      { v' with
        keyboardBuffer := Function.update v.keyboardBuffer v.keyCount.toNat input
        keyCount := v.keyCount + 1 }
  -- the buffer is full: keys are counted and not kept
  else if input = 0x08 then { v' with keyCount := v.keyCount - 1 }
  else { v' with keyCount := v.keyCount + 1 }

end Terminal

/-- `getChar`. -/
def getChar (k : Kernel) (input : Byte) : Kernel :=
  k.setTerminal k.currTerminalVisible (k.visible.keyIn input)

/-- `open_terminal`. -/
def openTerminal (k : Kernel) : Kernel :=
  updateCursor
    (clear (k.setTerminal k.currTerminalVisible { k.visible.blankBuffer with keyCount := 0 })) 0 1

/-- `close_terminal`. -/
def closeTerminal (k : Kernel) : Kernel :=
  clear (k.setTerminal k.currTerminalVisible k.visible.blankBuffer)

/-! ## Reading a line -/

/-- `reading_task`, as the unsigned bound the copy loop compares its index with. -/
def readingTask (nbytes : Word) : Nat := if nbytes.slt 127 then nbytes.toNat else 127

/-- The bytes the copy loop of `read_terminal` stores, `n` iterations from index
`i` on: it stops after a newline. -/
def copyLine (line : Nat → Byte) : Nat → Nat → List Byte
  | 0, _ => []
  | n + 1, i => line i :: if line i = 0x0A then [] else copyLine line n (i + 1)

/-- The `if (i > 0)` of `read_terminal`, after a copy loop that found no newline:
the index is then past the copied bytes, and the byte tested is the caller's. -/
def endLine (copied : List Byte) (old : Nat → Byte) : List Byte :=
  if copied.length > 0 ∧ old copied.length ≠ 0x0A then copied ++ [0x0A] else copied

/-- The last `if` of `read_terminal`. -/
def returned (n : Nat) : Word := BitVec.ofNat 32 (if n = 127 then n + 1 else n)

/-- How far a call of `read_terminal` gets. -/
inductive TerminalRead
  /-- no line is finished: the outer `while` goes round -/
  | polling
  /-- a line is copied: the inner `while` waits until executing is visible -/
  | spinning (k : Kernel) (stored : List Byte)
  | done (k : Kernel) (ret : Word) (stored : List Byte)

/-- Clears the line of the terminal that is visible. -/
def clearVisibleLine (k : Kernel) : Kernel :=
  k.setTerminal k.currTerminalVisible k.visible.clearLine

/-- `read_terminal`; `old i` is `buff[i]` before the call. -/
def readTerminal (k : Kernel) (old : Nat → Byte) (nbytes : Word) : TerminalRead :=
  if k.visible.enter then
    let copied := copyLine k.visible.keyboardBuffer (readingTask nbytes) 0
    if 0x0A ∈ copied then
      -- the copy loop has met the newline and waits there for its terminal
      let k' := { k with jammer := false }
      if k.currTerminalExecuting = k.currTerminalVisible then
        .done (clearVisibleLine k') (returned copied.length) copied
      else .spinning k' copied
    else
      let stored := endLine copied old
      .done (clearVisibleLine k) (returned stored.length) stored
  else .polling

/-- `write_terminal` of the text at `buf`. -/
def writeTerminal (k : Kernel) (buf : Nat → Byte) (nbytes : Word) : Kernel × Word :=
  -- each of the two flags swallows one write
  if k.jammer then ({ k with jammer := false }, 0)
  else if k.hotjam then ({ k with hotjam := false }, 0)
  else
    let text := (List.range nbytes.toInt.toNat).map buf
    let draw := if k.currTerminalVisible = k.currTerminalExecuting then putc else kPutc
    (text.foldl draw k, BitVec.ofNat 32 text.length)

/-! ## The real-time clock -/

/-- `inti_RTC`. -/
def intiRtc (k : Kernel) : Kernel :=
  { k with rtcRegB := k.rtcRegB ||| 0x40, rtcRegA := (k.rtcRegA &&& 0xF0) ||| 0x0F }

/-- The loop of `RTC_write`: the number of halvings, if no odd value comes up.
`fuel` is the number of tests left; an `unsigned` needs at most 32. -/
def halvings : Nat → Nat → Nat → Option Nat
  | 0, _, _ => none
  | fuel + 1, store, counter =>
    if store < 2 then some counter
    else if store % 2 = 1 then none
    else halvings fuel (store / 2) (counter + 1)

/-- `RTC_write`; `none` is its `-1`. -/
def rtcWrite (k : Kernel) (buf : Nat → Byte) (nbytes : Word) : Option Kernel :=
  if (4 : Word).slt nbytes || nbytes.slt 1 then none
  else
    let frequency : BitVec 16 := buf 1 ++ buf 0
    if frequency.slt 2 || (1024 : BitVec 16).slt frequency then none
    else (halvings 32 frequency.toNat 0).map fun counter =>
      { k with rtcRegA := (k.rtcRegA &&& 0xF0) ||| BitVec.ofNat 8 (16 - counter) }

/-- `RTC_write` sets one register. -/
theorem rtcWrite_eq_some {k k' : Kernel} {buf : Nat → Byte} {nbytes : Word}
    (h : rtcWrite k buf nbytes = some k') : ∃ a, k' = { k with rtcRegA := a } := by
  unfold rtcWrite at h
  split at h
  · cases h
  · dsimp only at h
    split at h
    · cases h
    · obtain ⟨counter, _, rfl⟩ := Option.map_eq_some_iff.mp h
      exact ⟨_, rfl⟩

/-! ## What the copy loop stores -/

section CopyLine
variable {line : Nat → Byte}

/-- Index `i` of the line is not its newline. -/
def inLine (line : Nat → Byte) (i : Nat) : Bool := line i != 0x0A

/-- The loop stores the bytes before the newline and, if it reaches it, the
newline. -/
theorem length_copyLine (n i : Nat) :
    (copyLine line n i).length =
      if leading (inLine line) n i < n then leading (inLine line) n i + 1 else n := by
  induction n generalizing i with
  | zero => rfl
  | succ n ih =>
    by_cases h : line i = 0x0A
    · simp [copyLine, leading, inLine, h]
    · have hle := leading_le (p := inLine line) n (i + 1)
      simp only [copyLine, leading, inLine, h, bne_iff_ne, ne_eq, not_false_eq_true, if_true,
        if_false, List.length_cons, ih]
      split <;> split <;> omega

theorem newline_mem_copyLine (n i : Nat) :
    0x0A ∈ copyLine line n i ↔ leading (inLine line) n i < n := by
  induction n generalizing i with
  | zero => simp [copyLine]
  | succ n ih =>
    by_cases h : line i = 0x0A
    · simp [copyLine, leading, inLine, h]
    · have hne : (0x0A : Byte) ≠ line i := fun heq => h heq.symm
      simp only [copyLine, leading, inLine, h, bne_iff_ne, ne_eq, not_false_eq_true, if_true,
        if_false, List.mem_cons, hne, false_or]
      rw [ih]
      exact (Nat.add_lt_add_iff_right (k := 1)).symm

/-- Without a newline the loop stores all it was asked for. -/
theorem length_copyLine_of_notMem {n i : Nat} (h : (0x0A : Byte) ∉ copyLine line n i) :
    (copyLine line n i).length = n := by
  rw [newline_mem_copyLine] at h
  rw [length_copyLine, if_neg h]

end CopyLine

/-- The bytes the copy loop of `read_terminal` stores for `nbytes`. -/
def copiedLine (k : Kernel) (nbytes : Word) : List Byte :=
  copyLine k.visible.keyboardBuffer (readingTask nbytes) 0

/-- What one call of `read_terminal` can do. -/
theorem readTerminal_cases (k : Kernel) (old : Nat → Byte) (nbytes : Word) :
    (k.visible.enter = false ∧ readTerminal k old nbytes = .polling) ∨
    (k.visible.enter = true ∧ 0x0A ∈ copiedLine k nbytes ∧
      k.currTerminalExecuting ≠ k.currTerminalVisible ∧
      readTerminal k old nbytes = .spinning { k with jammer := false } (copiedLine k nbytes)) ∨
    (k.visible.enter = true ∧ 0x0A ∈ copiedLine k nbytes ∧
      k.currTerminalExecuting = k.currTerminalVisible ∧
      readTerminal k old nbytes = .done (clearVisibleLine { k with jammer := false })
        (returned (copiedLine k nbytes).length) (copiedLine k nbytes)) ∨
    (k.visible.enter = true ∧ 0x0A ∉ copiedLine k nbytes ∧
      readTerminal k old nbytes = .done (clearVisibleLine k)
        (returned (endLine (copiedLine k nbytes) old).length)
        (endLine (copiedLine k nbytes) old)) := by
  cases henter : k.visible.enter with
  | false => exact Or.inl ⟨rfl, by simp [readTerminal, henter]⟩
  | true =>
    by_cases hline : 0x0A ∈ copiedLine k nbytes
    · unfold copiedLine at hline ⊢
      by_cases hexec : k.currTerminalExecuting = k.currTerminalVisible
      · refine Or.inr (Or.inr (Or.inl ⟨rfl, hline, hexec, ?_⟩))
        simp only [readTerminal, henter, hline, hexec, if_true]
      · refine Or.inr (Or.inl ⟨rfl, hline, hexec, ?_⟩)
        simp only [readTerminal, henter, hline, hexec, if_true, if_false]
    · refine Or.inr (Or.inr (Or.inr ⟨rfl, hline, ?_⟩))
      unfold copiedLine at hline ⊢
      simp only [readTerminal, henter, hline, if_true, if_false]

/-! ## Drivers touch the console, the flags and the clock -/

/-- A terminal without its line and its place on the screen. -/
def Terminal.offConsole (v : Terminal) : Terminal :=
  { v with keyCount := 0, enter := false, screenX := 0, screenY := 0, keyboardBuffer := fun _ => 0 }

/-- The kernel without its screens and lines: what the console drivers leave
alone. -/
def Kernel.offConsole (k : Kernel) : Kernel :=
  { k.offScreen with multiTerminal := fun t => (k.multiTerminal t).offConsole }

theorem offConsole_of_offScreen {k k' : Kernel} (h : k'.offScreen = k.offScreen) :
    k'.offConsole = k.offConsole := by
  have hoff : ∀ k : Kernel, k.offScreen.offConsole = k.offConsole := fun _ => rfl
  rw [← hoff k', h, hoff]

/-- Changing only the line of a terminal stays on the console. -/
theorem setTerminal_offConsole {k : Kernel} {t : Fin 3} {v : Terminal}
    (h : v.offConsole = (k.multiTerminal t).offConsole) :
    (k.setTerminal t v).offConsole = k.offConsole := by
  have hterm : (fun i => ((k.setTerminal t v).multiTerminal i).offConsole) =
      fun i => (k.multiTerminal i).offConsole := by
    funext i
    by_cases hi : i = t
    · subst hi; simpa [Kernel.setTerminal] using h
    · simp [Kernel.setTerminal, hi]
  unfold Kernel.offConsole
  rw [hterm]
  rfl

@[simp] theorem clearLine_offConsole (v : Terminal) : v.clearLine.offConsole = v.offConsole := rfl

@[simp] theorem keyIn_offConsole (v : Terminal) (c : Byte) :
    (v.keyIn c).offConsole = v.offConsole := by
  simp only [Terminal.keyIn]
  repeat' split
  all_goals rfl

@[simp] theorem getChar_offConsole (k : Kernel) (c : Byte) :
    (getChar k c).offConsole = k.offConsole :=
  setTerminal_offConsole (keyIn_offConsole _ c)

@[simp] theorem clearVisibleLine_offConsole (k : Kernel) :
    (clearVisibleLine k).offConsole = k.offConsole :=
  setTerminal_offConsole (clearLine_offConsole _)

@[simp] theorem openTerminal_offConsole (k : Kernel) :
    (openTerminal k).offConsole = k.offConsole := by
  unfold openTerminal
  rw [offConsole_of_offScreen (updateCursor_offScreen _ _ _),
    offConsole_of_offScreen (clear_offScreen _)]
  exact setTerminal_offConsole rfl

@[simp] theorem closeTerminal_offConsole (k : Kernel) :
    (closeTerminal k).offConsole = k.offConsole := by
  unfold closeTerminal
  rw [offConsole_of_offScreen (clear_offScreen _)]
  exact setTerminal_offConsole rfl

/-- Drawing a text stays on the screens. -/
theorem foldl_offScreen {draw : Kernel → Byte → Kernel}
    (hdraw : ∀ k c, (draw k c).offScreen = k.offScreen) (text : List Byte) (k : Kernel) :
    (text.foldl draw k).offScreen = k.offScreen := by
  induction text generalizing k with
  | nil => rfl
  | cons c text ih => exact (ih (draw k c)).trans (hdraw k c)

/-- `write_terminal` draws, or spends one of the two flags. -/
theorem writeTerminal_offConsole (k : Kernel) (buf : Nat → Byte) (nbytes : Word) :
    (writeTerminal k buf nbytes).1.offConsole =
      { k.offConsole with jammer := false, hotjam := k.jammer && k.hotjam } := by
  unfold writeTerminal
  cases hj : k.jammer with
  | true => simp [Kernel.offConsole, Kernel.offScreen]
  | false =>
    cases hh : k.hotjam with
    | true => simp [Kernel.offConsole, Kernel.offScreen, hj]
    | false =>
      have hdraw : ∀ b : Bool, ∀ k c,
          ((if b then putc else kPutc) k c).offScreen = k.offScreen := by
        intro b k c
        cases b <;> simp
      have hoff := foldl_offScreen
        (hdraw (k.currTerminalVisible = k.currTerminalExecuting))
        ((List.range nbytes.toInt.toNat).map buf) k
      simp only [decide_eq_true_eq] at hoff
      simp only [Bool.false_eq_true, if_false, offConsole_of_offScreen hoff]
      simp [Kernel.offConsole, Kernel.offScreen, hj, hh]

end LinuxLikeOS
