import LinuxLikeOS.Keyboard
import LinuxLikeOS.TypedLines

/-! # Editing a line

What is typed in a terminal makes a line: characters are added, a backspace takes the last
one away, Ctrl and L drops all of them, and a read that takes the line leaves an empty one
(`LineKey.apply`, `recordLine`).  `getChar` keeps the first 128 characters of it in the
terminal's buffer and their number in `key_count` (`HoldsLine`).

Two counters decide about a backspace.  `keyboard_handler` ignores it if `sum` is 0, and
`getChar` takes it for a character of the line if `key_count` is 0.  But `sum` counts four
for a tab, is 0 after Enter, while the line is still there, and is the same for all
terminals.  The buffers hold the lines exactly as long as the two agree at every backspace
(`holdsLines_iff`).
-/
namespace LinuxLikeOS
open Transition

/-! ## Lines -/

/-- What a key does to the line that is typed. -/
inductive LineKey
  | add (c : Byte)
  | erase
  | drop

/-- The line after a key. -/
def LineKey.apply (line : List Byte) : LineKey → List Byte
  | .add c => line ++ [c]
  | .erase => line.dropLast
  | .drop => []

/-- The key of the line that a scan code stands for, if it does. -/
def KeyAction.lineKey : KeyAction → Option LineKey
  | .modifier | .switchTo _ => none
  | .clearScreen => some .drop
  | .tab => some (.add 0x09)
  | .char c => some (if c = 0x08 then .erase else .add c)

/-- The lines after an event. -/
def recordLine (beyond : Nat → Byte) (c : Console) (e : ConsoleEvent)
    (lines : Fin 3 → List Byte) : Fin 3 → List Byte :=
  let t := c.kernel.currTerminalVisible
  match e with
  | .scancode code _ _ =>
    match (c.keyboard.pressed beyond code).lineKey with
    | some key => Function.update lines t (key.apply (lines t))
    | none => lines
  | .read old nbytes =>
    match readTerminal c.kernel old nbytes with
    -- the line of the visible terminal is taken
    | .done .. => Function.update lines t []
    | _ => lines
  | .lineServed =>
    if c.kernel.currTerminalExecuting = t then Function.update lines t [] else lines
  | .pitTick _ | .write .. => lines

/-- The console and the lines that have been typed. -/
def lineMachine (fs : FileSystem) (beyond : Nat → Byte) :
    Machine (Console × (Fin 3 → List Byte)) ConsoleEvent :=
  (consoleMachine fs beyond).withHistory (recordLine beyond)

/-! ## What the buffer holds -/

/-- `keyboard_buffer[0..min(key_count, 128))`. -/
def KeyLine.kept (v : KeyLine) : List Byte :=
  (List.range (min v.keyCount.toNat 128)).map v.keyboardBuffer

/-- A terminal's record holds `line`: its length, its first 128 characters, and no
backspace. -/
structure HoldsLine (v : KeyLine) (line : List Byte) : Prop where
  counted : v.keyCount = line.length
  kept : v.kept = line.take 128
  noBackspace : ∀ i < 128, v.keyboardBuffer i ≠ 0x08

/-- Every terminal's record holds its line. -/
def HoldsLines (c : Console × (Fin 3 → List Byte)) : Prop :=
  ∀ t, HoldsLine (c.1.kernel.keyLines t) (c.2 t)

/-- The keyboard driver lets a backspace through if and only if there is a character in the
visible terminal's line. -/
def BackspaceAgrees (beyond : Nat → Byte) (c : Console) : ConsoleEvent → Prop
  | .scancode code _ _ =>
    c.keyboard.pressed beyond code = .char 0x08 →
      (c.keyboard.sum ≠ 0 ↔ 0 < c.kernel.visible.keyCount)
  | _ => True

instance (beyond : Nat → Byte) (c : Console) :
    (e : ConsoleEvent) → Decidable (BackspaceAgrees beyond c e)
  | .scancode .. => inferInstanceAs (Decidable (_ → (_ ↔ _)))
  | .pitTick _ | .read .. | .lineServed | .write .. => isTrue trivial

section Keys
variable {v : KeyLine} {chars : List Byte}

theorem kept_eq_take_iff (hcount : v.keyCount = chars.length) :
    v.kept = chars.take 128 ↔
      ∀ i, i < 128 → ∀ h : i < chars.length, v.keyboardBuffer i = chars[i] := by
  have hnat : v.keyCount.toNat = chars.length := by omega
  constructor
  · intro hkept i hi h
    have hget := congrArg (·[i]?) hkept
    simpa [KeyLine.kept, hnat, hi, h] using hget
  · intro hall
    refine List.ext_getElem (by simp [KeyLine.kept, hnat, Nat.min_comm]) fun i hi hi' => ?_
    simp only [KeyLine.kept, List.getElem_map, List.getElem_range, List.getElem_take]
    rw [List.length_take] at hi'
    exact hall i (by omega) (by omega)

theorem HoldsLine.get (h : HoldsLine v chars) {i : Nat} (hi : i < 128) (hlen : i < chars.length) :
    v.keyboardBuffer i = chars[i] :=
  (kept_eq_take_iff h.counted).mp h.kept i hi hlen

theorem HoldsLine.of_get (hcount : v.keyCount = chars.length)
    (hget : ∀ i, i < 128 → ∀ h : i < chars.length, v.keyboardBuffer i = chars[i])
    (hback : ∀ i < 128, v.keyboardBuffer i ≠ 0x08) : HoldsLine v chars :=
  ⟨hcount, (kept_eq_take_iff hcount).mpr hget, hback⟩

/-- A character goes behind the line. -/
theorem HoldsLine.add (h : HoldsLine v chars) {c : Byte} (hc : c ≠ 0x08) :
    HoldsLine (v.typed c) (chars ++ [c]) := by
  have hcount := h.counted
  have hnot : ¬(c = 0x08 ∧ 0 < v.keyCount) := fun hback => hc hback.1
  have hcount' : (v.typed c).keyCount = (chars ++ [c]).length := by
    refine (if_neg hnot).trans ?_
    rw [hcount, List.length_append, List.length_singleton, Int.natCast_add]
    rfl
  by_cases hfull : 128 ≤ v.keyCount
  · -- the first 128 characters are as they were
    have hbuffer : (v.typed c).keyboardBuffer = v.keyboardBuffer := if_pos hfull
    refine .of_get hcount' (fun i hi _ => ?_) fun i hi => ?_
    · rw [hbuffer, h.get hi (by omega), List.getElem_append_left (by omega)]
    · rw [hbuffer]
      exact h.noBackspace i hi
  · have hbuffer : (v.typed c).keyboardBuffer =
        Function.update v.keyboardBuffer chars.length c := by
      refine (if_neg hfull).trans ((if_neg hnot).trans ?_)
      rw [hcount, Int.toNat_natCast]
    refine .of_get hcount' (fun i hi hlen => ?_) fun i hi => ?_
    · rw [hbuffer, Function.update_apply]
      split
      · rename_i heq
        subst heq
        exact (List.getElem_concat_length rfl _).symm
      · rw [List.length_append, List.length_singleton] at hlen
        rw [h.get hi (by omega), List.getElem_append_left (by omega)]
    · rw [hbuffer, Function.update_apply]
      split
      · exact hc
      · exact h.noBackspace i hi

/-- A backspace takes the last character away. -/
theorem HoldsLine.erase (h : HoldsLine v chars) (hpos : 0 < v.keyCount) :
    HoldsLine (v.typed 0x08) chars.dropLast := by
  have hcount := h.counted
  have hback : (0x08 : Byte) = 0x08 ∧ 0 < v.keyCount := ⟨rfl, hpos⟩
  have hcount' : (v.typed 0x08).keyCount = chars.dropLast.length := by
    refine (if_pos hback).trans ?_
    rw [List.length_dropLast]
    omega
  have hbuffer : ∀ i, (v.typed 0x08).keyboardBuffer i = v.keyboardBuffer i ∨
      i = chars.length - 1 ∧ (v.typed 0x08).keyboardBuffer i = 0 := by
    intro i
    by_cases hfull : 128 ≤ v.keyCount
    · exact Or.inl (congrFun (if_pos hfull) i)
    · have hnat : (v.keyCount - 1).toNat = chars.length - 1 := by omega
      have hupdate : (v.typed 0x08).keyboardBuffer =
          Function.update v.keyboardBuffer (chars.length - 1) 0 := by
        refine (if_neg hfull).trans ((if_pos hback).trans ?_)
        rw [hnat]
      rw [hupdate, Function.update_apply]
      by_cases hlast : i = chars.length - 1
      · exact Or.inr ⟨hlast, if_pos hlast⟩
      · exact Or.inl (if_neg hlast)
  refine .of_get hcount' (fun i hi hlen => ?_) fun i hi => ?_
  · rw [List.length_dropLast] at hlen
    rw [List.getElem_dropLast]
    rcases hbuffer i with heq | ⟨hlast, _⟩
    · rw [heq, h.get hi (by omega)]
    · omega
  · rcases hbuffer i with heq | ⟨_, hnul⟩
    · rw [heq]
      exact h.noBackspace i hi
    · rw [hnul]
      decide

/-- A line that is blanked is empty. -/
theorem HoldsLine.blanked (v : KeyLine) : HoldsLine v.blanked [] := by
  refine .of_get rfl (fun i _ h => nomatch h) fun i hi => ?_
  have hnul : v.blanked.keyboardBuffer i = 0 := if_pos hi
  rw [hnul]
  decide

theorem HoldsLine.cleared (v : KeyLine) : HoldsLine v.cleared [] :=
  have h := HoldsLine.blanked v
  ⟨h.counted, h.kept, h.noBackspace⟩

end Keys

/-! ## One event -/

section Steps
variable {fs : FileSystem} {beyond : Nat → Byte} {c c' : Console × (Fin 3 → List Byte)}

/-- An event that changes the line of one terminal. -/
theorem HoldsLines.update (h : HoldsLines c) {t : Fin 3} {v : KeyLine} {line : List Byte}
    (hkernel : c'.1.kernel.keyLines = Function.update c.1.kernel.keyLines t v)
    (hlines : c'.2 = Function.update c.2 t line) (hheld : HoldsLine v line) : HoldsLines c' := by
  intro u
  rw [hkernel, hlines]
  by_cases hu : u = t
  · subst hu
    rwa [Function.update_self, Function.update_self]
  · rw [Function.update_of_ne hu, Function.update_of_ne hu]
    exact h u

/-- An event that changes no line. -/
theorem HoldsLines.same (h : HoldsLines c) (hkernel : c'.1.kernel.keyLines = c.1.kernel.keyLines)
    (hlines : c'.2 = c.2) : HoldsLines c' := by
  intro u
  rw [hkernel, hlines]
  exact h u

theorem keyLines_tabPressed (k : Kernel) :
    (tabPressed k).keyLines =
      Function.update k.keyLines k.currTerminalVisible (k.visible.keyLine.typed 0x09) := by
  have hcursor : ∀ (k : Kernel) (x : Word),
      ({ k with cursorX := x } : Kernel).redrawCursor.keyLines = k.keyLines := fun _ _ => rfl
  rw [tabPressed, hcursor]
  exact keyLines_getChar_of_offScreen (puts_offScreen k fourSpaces) 0x09

/-- A scan code, in terms of what it asks for. -/
theorem step_scancode (fs : FileSystem) (beyond : Nat → Byte) (c : Console × (Fin 3 → List Byte))
    (code : Byte) (junk : Nat → Byte) (frame : Regs) :
    ((lineMachine fs beyond).step c (.scancode code junk frame)).1.kernel =
        (c.1.keyboard.pressed beyond code).perform fs c.1.kernel c.1.keyboard.sum junk frame ∧
      ((lineMachine fs beyond).step c (.scancode code junk frame)).2 =
        match (c.1.keyboard.pressed beyond code).lineKey with
        | some key =>
          Function.update c.2 c.1.kernel.currTerminalVisible
            (key.apply (c.2 c.1.kernel.currTerminalVisible))
        | none => c.2 :=
  ⟨keyboardHandler_kernel .., rfl⟩

/-- A key keeps the lines, if a backspace finds the counters in agreement. -/
theorem HoldsLines.scancode (h : HoldsLines c) {code : Byte} {junk : Nat → Byte} {frame : Regs}
    (hg : BackspaceAgrees beyond c.1 (.scancode code junk frame)) :
    HoldsLines ((lineMachine fs beyond).step c (.scancode code junk frame)) := by
  have hvisible : HoldsLine c.1.kernel.visible.keyLine (c.2 c.1.kernel.currTerminalVisible) :=
    h c.1.kernel.currTerminalVisible
  have hagree : c.1.keyboard.pressed beyond code = .char 0x08 →
      (c.1.keyboard.sum ≠ 0 ↔ 0 < c.1.kernel.visible.keyLine.keyCount) := hg
  obtain ⟨hkernel, hlines⟩ := step_scancode fs beyond c code junk frame
  generalize c.1.keyboard.pressed beyond code = action at hagree hkernel hlines
  cases action with
  | modifier => exact h.same (congrArg Kernel.keyLines hkernel) hlines
  | switchTo t =>
    refine h.same ?_ hlines
    rw [hkernel]
    exact keyLines_switchTerminal fs t junk frame
  | clearScreen =>
    refine h.update ?_ hlines (.blanked c.1.kernel.visible.keyLine)
    rw [hkernel]
    exact keyLines_ctrlLPressed c.1.kernel
  | tab =>
    refine h.update ?_ hlines (hvisible.add (by decide))
    rw [hkernel]
    exact keyLines_tabPressed c.1.kernel
  | char input =>
    by_cases hback : input = 0x08
    · subst hback
      have hsum := hagree rfl
      by_cases hzero : c.1.keyboard.sum = 0
      · -- nothing is done, and there is no character to take away
        have hnil : c.2 c.1.kernel.currTerminalVisible = [] := by
          have hcount := hvisible.counted
          rw [← not_iff_not, not_not] at hsum
          have hnone := hsum.mp hzero
          exact List.eq_nil_of_length_eq_zero (by omega)
        have hkeep : (KeyAction.char 0x08).perform fs c.1.kernel c.1.keyboard.sum junk frame =
            c.1.kernel := if_pos ⟨rfl, hzero⟩
        refine h.same (congrArg Kernel.keyLines (hkernel.trans hkeep)) (hlines.trans ?_)
        show Function.update c.2 _ (c.2 c.1.kernel.currTerminalVisible).dropLast = c.2
        rw [hnil, List.dropLast_nil, ← hnil, Function.update_eq_self]
      · have hpress : (KeyAction.char 0x08).perform fs c.1.kernel c.1.keyboard.sum junk frame =
            keyPressed c.1.kernel 0x08 := if_neg fun h => hzero h.2
        refine h.update ?_ hlines (hvisible.erase (hsum.mp hzero))
        rw [hkernel, hpress]
        exact keyLines_keyPressed c.1.kernel 0x08
    · have hpress : (KeyAction.char input).perform fs c.1.kernel c.1.keyboard.sum junk frame =
          keyPressed c.1.kernel input := if_neg fun h => hback h.1
      have hadd : (KeyAction.char input).lineKey = some (.add input) :=
        congrArg some (if_neg hback)
      rw [hadd] at hlines
      refine h.update ?_ hlines (hvisible.add hback)
      rw [hkernel, hpress]
      exact keyLines_keyPressed c.1.kernel input

/-- A read that takes a line leaves an empty one. -/
theorem HoldsLines.read (h : HoldsLines c) (old : Nat → Byte) (nbytes : Word) :
    HoldsLines ((lineMachine fs beyond).step c (.read old nbytes)) := by
  have hkernel : ((lineMachine fs beyond).step c (.read old nbytes)).1.kernel =
      (CallResult.ofTerminal c.1.kernel [] (readTerminal c.1.kernel old nbytes)).kernel := rfl
  have hlines : ((lineMachine fs beyond).step c (.read old nbytes)).2 =
      match readTerminal c.1.kernel old nbytes with
      | .done .. => Function.update c.2 c.1.kernel.currTerminalVisible []
      | _ => c.2 := rfl
  rcases readTerminal_cases c.1.kernel old nbytes with
    ⟨_, heq⟩ | ⟨_, _, _, heq⟩ | ⟨_, _, _, heq⟩ | ⟨_, _, heq⟩ <;> rw [heq] at hkernel hlines
  · exact h.same (congrArg Kernel.keyLines hkernel) hlines
  · exact h.same ((congrArg Kernel.keyLines hkernel).trans rfl) hlines
  · -- `jammer` is reset on the way
    refine h.update ?_ hlines (.cleared c.1.kernel.visible.keyLine)
    rw [hkernel]
    exact keyLines_clearVisibleLine { c.1.kernel with jammer := false }
  · refine h.update ?_ hlines (.cleared c.1.kernel.visible.keyLine)
    rw [hkernel]
    exact keyLines_clearVisibleLine c.1.kernel

theorem HoldsLines.lineServed (h : HoldsLines c) :
    HoldsLines ((lineMachine fs beyond).step c .lineServed) := by
  have hkernel : ((lineMachine fs beyond).step c .lineServed).1.kernel =
      serveLine c.1.kernel := rfl
  have hlines : ((lineMachine fs beyond).step c .lineServed).2 =
      if c.1.kernel.currTerminalExecuting = c.1.kernel.currTerminalVisible then
        Function.update c.2 c.1.kernel.currTerminalVisible []
      else c.2 := rfl
  by_cases hexec : c.1.kernel.currTerminalExecuting = c.1.kernel.currTerminalVisible
  · rw [if_pos hexec] at hlines
    refine h.update ?_ hlines (.cleared c.1.kernel.visible.keyLine)
    rw [hkernel, serveLine, if_pos hexec]
    exact keyLines_clearVisibleLine c.1.kernel
  · rw [if_neg hexec] at hlines
    rw [serveLine, if_neg hexec] at hkernel
    exact h.same (congrArg Kernel.keyLines hkernel) hlines

theorem keyLines_writeTerminal (k : Kernel) (buf : Nat → Byte) (nbytes : Word) :
    (writeTerminal k buf nbytes).1.keyLines = k.keyLines := by
  unfold writeTerminal
  split
  · rfl
  · split
    · rfl
    · dsimp only
      split
      · exact keyLines_of_offScreen (foldl_offScreen putc_offScreen _ k)
      · exact keyLines_of_offScreen (foldl_offScreen kPutc_offScreen _ k)

/-- **One event** keeps the lines. -/
theorem holdsLines_step (h : HoldsLines c) {e : ConsoleEvent}
    (hg : BackspaceAgrees beyond c.1 e) : HoldsLines ((lineMachine fs beyond).step c e) := by
  cases e with
  | scancode code junk frame => exact h.scancode hg
  | pitTick regs => exact h.same rfl rfl
  | read old nbytes => exact h.read old nbytes
  | lineServed => exact h.lineServed
  | write buf nbytes => exact h.same (keyLines_writeTerminal c.1.kernel buf nbytes) rfl

/-- A backspace that finds the counters apart leaves a record of the wrong length. -/
theorem backspaceAgrees_of_holdsLines (h : HoldsLines c) {e : ConsoleEvent}
    (hafter : HoldsLines ((lineMachine fs beyond).step c e)) : BackspaceAgrees beyond c.1 e := by
  cases e with
  | pitTick | read | lineServed | write => trivial
  | scancode code junk frame =>
    intro haction
    have hbefore := (h c.1.kernel.currTerminalVisible).counted
    have hcount := (hafter c.1.kernel.currTerminalVisible).counted
    obtain ⟨hkernel, hlines⟩ := step_scancode fs beyond c code junk frame
    rw [haction] at hkernel hlines
    have herased : ((lineMachine fs beyond).step c (.scancode code junk frame)).2
        c.1.kernel.currTerminalVisible = (c.2 c.1.kernel.currTerminalVisible).dropLast := by
      rw [hlines]
      exact Function.update_self ..
    rw [herased, List.length_dropLast, hkernel] at hcount
    have hvisible : c.1.kernel.keyLines c.1.kernel.currTerminalVisible =
        c.1.kernel.visible.keyLine := rfl
    have hfield : c.1.kernel.visible.keyLine.keyCount = c.1.kernel.visible.keyCount := rfl
    rw [hvisible, hfield] at hbefore
    by_cases hzero : c.1.keyboard.sum = 0
    · -- the key is ignored
      have hkeep : (KeyAction.char 0x08).perform fs c.1.kernel c.1.keyboard.sum junk frame =
          c.1.kernel := if_pos ⟨rfl, hzero⟩
      rw [hkeep, hvisible, hfield] at hcount
      exact iff_of_false (not_not.mpr hzero) (by omega)
    · have hpress : (KeyAction.char 0x08).perform fs c.1.kernel c.1.keyboard.sum junk frame =
          keyPressed c.1.kernel 0x08 := if_neg fun h => hzero h.2
      rw [hpress, keyLines_keyPressed, Function.update_self] at hcount
      refine iff_of_true hzero ?_
      by_contra hnone
      -- an ordinary character, and the count goes up
      have hup : (c.1.kernel.visible.keyLine.typed 0x08).keyCount =
          c.1.kernel.visible.keyCount + 1 := if_neg fun h => hnone h.2
      omega

theorem holdsLines_booted (fs : FileSystem) (h : Hardware) (junk : Nat → Byte) (regs : Regs) :
    HoldsLines (bootedConsole fs h junk regs, fun _ => []) := by
  intro t
  have hempty : (bootedConsole fs h junk regs).kernel.keyLines t = ⟨false, 0, fun _ => 0⟩ :=
    keyLines_booted fs h junk regs t
  show HoldsLine ((bootedConsole fs h junk regs).kernel.keyLines t) []
  rw [hempty]
  exact .of_get rfl (fun i _ h => nomatch h) fun i _ => (by decide : (0 : Byte) ≠ 0x08)

end Steps

/-- **Line editing.**  In every run from boot: every terminal's buffer holds the line typed
in it, in every state, exactly if at every backspace the driver's counter is not 0 if and
only if there is a character in the visible terminal's line. -/
theorem holdsLines_iff (fs : FileSystem) (beyond : Nat → Byte) (h : Hardware) (junk : Nat → Byte)
    (regs : Regs) (es : List ConsoleEvent) :
    (lineMachine fs beyond).Always HoldsLines (bootedConsole fs h junk regs, fun _ => []) es ↔
      (lineMachine fs beyond).Guarded (fun c e => BackspaceAgrees beyond c.1 e)
        (bootedConsole fs h junk regs, fun _ => []) es :=
  Machine.always_iff_guarded (fun _ hheld => hheld) (fun _ _ hheld _ hg => holdsLines_step hheld hg)
    (fun _ _ hheld _ hafter => backspaceAgrees_of_holdsLines hheld hafter)
    (holdsLines_booted fs h junk regs) (Machine.guarded_true ..)

/-- Tab and two backspaces. -/
def tabAndBackspaces : List ConsoleEvent :=
  [.scancode 0x0F noJunk ⟨0, 0⟩, .scancode 0x0E noJunk ⟨0, 0⟩, .scancode 0x0E noJunk ⟨0, 0⟩]

/-- The tab counts four in the driver, so the second backspace is let through; the line is
empty, and the backspace becomes its first character. -/
theorem holdsLines_tabAndBackspaces :
    ¬∀ (fs : FileSystem) (beyond : Nat → Byte) (h : Hardware) (junk : Nat → Byte) (regs : Regs)
      (es : List ConsoleEvent),
      (lineMachine fs beyond).Always HoldsLines (bootedConsole fs h junk regs, fun _ => [])
        es := by
  intro hall
  have hlast := (hall shellImage noJunk zeroHardware noJunk ⟨0x7FFF00, 0x7FFF40⟩
    tabAndBackspaces).last 0
  exact hlast.noBackspace 0 (by decide) (by decide +kernel)

end LinuxLikeOS
