import LinuxLikeOS.DrawnText
import LinuxLikeOS.Keyboard

/-! # Screen bounds

Cursors should stay on their screens, and what is drawn on the pages.  What an event of the
console draws is a text for one terminal, or it clears the screen (`Output`): a key is
echoed, a program's text is written, and a shell that cannot be started prints why.
`consoleStep_drawn` says so of every event.

The machine here keeps a history of the places where cursors have been and of the addresses
where bytes have been stored.  All of them are in bounds in a run exactly if no backspace
is drawn in the upper left corner (`inBounds_iff`).
-/
namespace LinuxLikeOS
open Transition

/-! ## Messages -/

/-- What `execute` prints once it has found its file. -/
def fileMessage (fs : FileSystem) (k : Kernel) (dentry : Dentry) (junk : Nat → Byte) : List Byte :=
  if isElf (overlay (fs.readData dentry.inodeNum 0 4).stored junk) then
    if k.tooManyProcesses ∨ k.firstFree = none then tooMany else []
  else notExe

/-- What `execute` prints. -/
def executeMessage (fs : FileSystem) (k : Kernel) (command : CString) (junk : Nat → Byte) :
    List Byte :=
  if k.jammed ∨ command.strlen > 128 then []
  else
    match fs.readDentryByName (parseCommand command).1 with
    | none => []
    | some dentry => fileMessage fs k.activateExecuting dentry junk

/-- The kernel in which `switch_terminal` executes a shell. -/
def Kernel.opened (k : Kernel) (t : Fin 3) : Kernel := (k.showTerminal t).openVisible.followVisible

/-- What `switch_terminal` prints. -/
def switchMessage (fs : FileSystem) (k : Kernel) (t : Fin 3) (junk : Nat → Byte) : List Byte :=
  if t = k.currTerminalVisible ∨ (k.multiTerminal t).active then []
  else executeMessage fs (k.opened t) shell junk

/-- The two kernels look the same. -/
structure Kernel.LooksLike (k' k : Kernel) : Prop where
  visible : k'.currTerminalVisible = k.currTerminalVisible
  place : k'.place = k.place
  video : k'.video = k.video
  cursor : k'.cursor = k.cursor

theorem Kernel.LooksLike.refl (k : Kernel) : k.LooksLike k := ⟨rfl, rfl, rfl, rfl⟩

theorem Kernel.LooksLike.trans {k k' k'' : Kernel} (h : k''.LooksLike k') (h' : k'.LooksLike k) :
    k''.LooksLike k :=
  ⟨h.visible.trans h'.visible, h.place.trans h'.place, h.video.trans h'.video,
    h.cursor.trans h'.cursor⟩

/-- Between `k` and `k'` the text has been printed for the visible terminal. -/
def Prints (text : List Byte) (k k' : Kernel) : Prop :=
  ∃ k₁ : Kernel, k₁.LooksLike k ∧ k'.LooksLike (puts k₁ text)

section Messages
variable {fs : FileSystem} {k : Kernel} {junk : Nat → Byte} {regs : Regs}

theorem place_setTerminal {t : Fin 3} {v : Terminal} (hx : v.screenX = (k.multiTerminal t).screenX)
    (hy : v.screenY = (k.multiTerminal t).screenY) : (k.setTerminal t v).place = k.place := by
  funext u
  by_cases hu : u = t
  · subst hu
    simp [Kernel.place, Kernel.setTerminal, hx, hy]
  · simp [Kernel.place, Kernel.setTerminal, hu]

/-- What is printed is all that can be seen. -/
theorem Prints.nil {k' : Kernel} (hlook : k'.LooksLike k) : Prints [] k k' := ⟨k, .refl k, hlook⟩

theorem Prints.puts (k : Kernel) (text : List Byte) : Prints text k (puts k text) :=
  ⟨k, .refl k, .refl _⟩

/-- What cannot be seen may come before. -/
theorem Prints.of_looksLike {text : List Byte} {k' k'' : Kernel} (h : Prints text k' k'')
    (hlook : k'.LooksLike k) : Prints text k k'' := by
  obtain ⟨k₁, hbefore, hafter⟩ := h
  exact ⟨k₁, hbefore.trans hlook, hafter⟩

theorem Prints.drew {text : List Byte} {k' : Kernel} (h : Prints text k k') :
    Drew k.currTerminalVisible 0 0 (expandTabs text) k k' := by
  obtain ⟨k₁, hbefore, hafter⟩ := h
  have hdrew := (drew_puts k₁ text).then hafter.place hafter.video
  rw [hbefore.visible] at hdrew
  exact hdrew.of_same hbefore.place hbefore.video

theorem looksLike_setTerminal {t : Fin 3} {v : Terminal}
    (hx : v.screenX = (k.multiTerminal t).screenX) (hy : v.screenY = (k.multiTerminal t).screenY) :
    (k.setTerminal t v).LooksLike k :=
  ⟨rfl, place_setTerminal hx hy, rfl, rfl⟩

theorem prints_executeFile (k : Kernel) (dentry : Dentry) (arg : CString) :
    Prints (fileMessage fs k dentry junk) k (executeFile fs k dentry arg junk regs).1 := by
  unfold executeFile fileMessage
  by_cases helf : isElf (overlay (fs.readData dentry.inodeNum 0 4).stored junk) = true
  swap
  · rw [if_neg helf, if_neg helf]
    exact Prints.puts k notExe
  rw [if_pos helf, if_pos helf]
  by_cases hmany : k.tooManyProcesses = true
  · rw [if_pos hmany, if_pos (Or.inl hmany)]
    exact Prints.puts k tooMany
  rw [if_neg hmany]
  cases hfree : k.firstFree with
  | none =>
    have hpid : k.getPid = none := by
      rw [Kernel.getPid, hfree]
      rfl
    simp only [hpid, or_true, if_true]
    exact Prints.puts k tooMany
  | some pid =>
    have hpid : k.getPid = some (pid, k.setProcess (pid : Int) true) :=
      getPid_eq_some.mpr ⟨hfree, rfl⟩
    simp only [hpid, hmany, reduceCtorEq, or_false, if_false]
    have hlook := looksLike_setTerminal (k := k) (t := k.currTerminalExecuting)
      (v := { k.executing with programPid := pid }) rfl rfl
    exact Prints.nil ⟨rfl, hlook.place, rfl, rfl⟩

/-- **`execute` shows its message, and nothing else.** -/
theorem prints_execute (k : Kernel) (command : CString) :
    Prints (executeMessage fs k command junk) k (execute fs k (some command) junk regs).1 := by
  unfold execute executeMessage
  by_cases hjam : k.jammed = true
  · rw [if_pos hjam, if_pos (Or.inl hjam)]
    exact Prints.nil (.refl k)
  by_cases hlong : command.strlen > 128
  · rw [if_neg hjam, if_pos (Or.inr hlong)]
    simp only [hlong, if_true]
    exact Prints.nil (.refl k)
  rw [if_neg hjam, if_neg (not_or.mpr ⟨hjam, hlong⟩)]
  simp only [if_neg hlong]
  have hactive : k.activateExecuting.LooksLike k := looksLike_setTerminal rfl rfl
  cases hfind : fs.readDentryByName (parseCommand command).1 with
  | none => exact Prints.nil hactive
  | some dentry =>
    exact (prints_executeFile k.activateExecuting dentry (parseCommand command).2).of_looksLike
      hactive

theorem drew_execute (k : Kernel) (command : CString) :
    Drew k.currTerminalVisible 0 0 (expandTabs (executeMessage fs k command junk)) k
      (execute fs k (some command) junk regs).1 :=
  (prints_execute k command).drew

/-- `switch_terminal` swaps pages and prints. -/
theorem drew_switchTerminal (k : Kernel) (t : Fin 3) :
    Drew t 0 0 (expandTabs (switchMessage fs k t junk))
      (if t = k.currTerminalVisible then k else k.showTerminal t)
      (switchTerminal fs k t junk regs).1 := by
  rcases switchTerminal_cases fs k t junk regs with
    ⟨hvis, heq⟩ | ⟨hvis, hact, heq⟩ | ⟨hvis, hact, heq⟩ <;> rw [heq, switchMessage]
  · rw [if_pos hvis, if_pos (Or.inl hvis)]
    exact Drew.nil _ _ _ rfl rfl
  · rw [if_neg hvis, if_pos (Or.inr hact)]
    exact Drew.nil _ _ _ rfl rfl
  · rw [if_neg hvis, if_neg (by simp [hvis, hact])]
    have hopen : (k.opened t).place = (k.showTerminal t).place :=
      place_setTerminal (k := k.showTerminal t) (t := t) rfl rfl
    exact (drew_execute (k.opened t) shell).of_same hopen rfl

end Messages

/-! ## What an event draws -/

/-- What is drawn. -/
inductive Output
  /-- a text for terminal `t`, on page `page`; a backspace erases on page `erase` -/
  | text (t : Fin 3) (page erase : Fin 4) (text : List Byte)
  /-- the VGA page is blanked -/
  | clear

/-- Where `clear` stores. -/
def clearStores : List Word :=
  (List.range 2000).flatMap fun i =>
    [videoBase + BitVec.ofNat 32 (2 * i), videoBase + BitVec.ofNat 32 (2 * i + 1)]

namespace Output

/-- The places its cursor goes through. -/
def places (k : Kernel) : Output → List Place
  | .text t _ _ bytes => placeMachine.states (k.place t) (expandTabs bytes)
  | .clear => [Place.origin]

/-- The addresses it is stored at. -/
def stores (k : Kernel) : Output → List Word
  | .text t page erase bytes => textStores page erase (k.place t) (expandTabs bytes)
  | .clear => clearStores

/-- It has been drawn between `k` and `k'`. -/
def Drawn (k k' : Kernel) : Output → Prop
  | .text t page erase bytes => Drew t page erase (expandTabs bytes) k k'
  | .clear =>
    k'.place = Function.update k.place k.currTerminalExecuting Place.origin ∧
      ∀ a ∉ clearStores, k'.video a = k.video a

/-- No backspace comes in the upper left corner. -/
def StaysInside (k : Kernel) : Output → Prop
  | .text t _ _ bytes => placeMachine.Guarded Inside (k.place t) (expandTabs bytes)
  | .clear => True

instance (k : Kernel) : (o : Output) → Decidable (o.StaysInside k)
  | .text t _ _ bytes =>
    inferInstanceAs (Decidable (placeMachine.Guarded Inside (k.place t) (expandTabs bytes)))
  | .clear => isTrue trivial

end Output

/-- What a key draws. -/
def KeyAction.output (fs : FileSystem) (k : Kernel) (sum : Int) (junk : Nat → Byte) :
    KeyAction → Output
  | .modifier => .text k.currTerminalVisible 0 0 []
  | .switchTo t => .text t 0 0 (switchMessage fs k t junk)
  | .clearScreen => .clear
  | .tab => .text k.currTerminalVisible 0 0 fourSpaces
  | .char c => .text k.currTerminalVisible 0 0 (if c = 0x08 ∧ sum = 0 then [] else [c])

/-- What `write_terminal` draws. -/
def writeOutput (k : Kernel) (buf : Nat → Byte) (nbytes : Word) : Output :=
  if k.jammer ∨ k.hotjam then .text k.currTerminalExecuting 0 0 []
  else
    let text := (List.range nbytes.toInt.toNat).map buf
    if k.currTerminalVisible = k.currTerminalExecuting then .text k.currTerminalVisible 0 0 text
    else .text k.currTerminalExecuting k.currTerminalExecuting.succ 0 text

/-- What an event draws. -/
def consoleOutput (fs : FileSystem) (beyond : Nat → Byte) (c : Console) : ConsoleEvent → Output
  | .scancode code junk _ =>
    (c.keyboard.pressed beyond code).output fs c.kernel c.keyboard.sum junk
  | .write buf nbytes => writeOutput c.kernel buf nbytes
  | .pitTick _ | .read .. | .lineServed => .text c.kernel.currTerminalVisible 0 0 []

/-- The kernel in which a key draws: `switch_terminal` swaps the pages first. -/
def KeyAction.drawingKernel (k : Kernel) : KeyAction → Kernel
  | .switchTo t => if t = k.currTerminalVisible then k else k.showTerminal t
  | _ => k

/-- The kernel in which an event draws. -/
def drawingKernel (beyond : Nat → Byte) (c : Console) : ConsoleEvent → Kernel
  | .scancode code _ _ => (c.keyboard.pressed beyond code).drawingKernel c.kernel
  | _ => c.kernel

section Events
variable {fs : FileSystem} {beyond : Nat → Byte} {k : Kernel}

/-- The loop of `clear`. -/
theorem video_clear (k : Kernel) (a : Word) (ha : a ∉ clearStores) :
    (clear k).video a = k.video a := by
  have hvideo : ∀ (k : Kernel) (v : Word → Byte) (t : Fin 3) (x y : Int),
      ((k.setVideo v).moveTo t x y).video = v := fun _ _ _ _ _ => rfl
  rw [clear, hvideo]
  refine foldl_of_forall (fun i hi mem => ?_) k.video
  have hne : a ∉ [videoBase + BitVec.ofNat 32 (2 * i), videoBase + BitVec.ofNat 32 (2 * i + 1)] :=
    fun hmem => ha (List.mem_flatMap.mpr ⟨i, hi, hmem⟩)
  simp only [List.mem_cons, List.not_mem_nil, or_false, not_or] at hne
  rw [Function.update_of_ne hne.2, Function.update_of_ne hne.1]

theorem place_clear (k : Kernel) :
    (clear k).place = Function.update k.place k.currTerminalExecuting Place.origin := by
  have hplace : ∀ (k : Kernel) (v : Word → Byte), (k.setVideo v).place = k.place :=
    fun _ _ => rfl
  rw [clear, place_moveTo, hplace]
  rfl

/-- Ctrl and L clear the screen twice. -/
theorem drawn_ctrlLPressed (k : Kernel) : Output.clear.Drawn k (ctrlLPressed k) := by
  have hmoved : ∀ (k : Kernel) (v : Word → Byte) (t : Fin 3) (x y : Int),
      ((k.setVideo v).moveTo t x y).currTerminalExecuting = k.currTerminalExecuting :=
    fun _ _ _ _ _ => rfl
  have hexec : (clear k).currTerminalExecuting = k.currTerminalExecuting := by
    rw [clear, hmoved]
  have hcursor : ∀ k : Kernel,
      ({ updateCursor k 0 1 with cursorX := 6, cursorY := 0 } : Kernel).place = k.place ∧
        ({ updateCursor k 0 1 with cursorX := 6, cursorY := 0 } : Kernel).video = k.video :=
    fun _ => ⟨rfl, rfl⟩
  have hline : ∀ k : Kernel, (k.setTerminal k.currTerminalVisible
      { k.visible.blankBuffer with keyCount := 0 }).place = k.place :=
    fun _ => place_setTerminal rfl rfl
  have hset : ∀ (k : Kernel) (t : Fin 3) (v : Terminal), (k.setTerminal t v).video = k.video ∧
      (k.setTerminal t v).currTerminalExecuting = k.currTerminalExecuting :=
    fun _ _ _ => ⟨rfl, rfl⟩
  unfold ctrlLPressed openTerminal
  refine ⟨?_, fun a ha => ?_⟩
  · rw [(hcursor _).1, place_clear, hline, (hset _ _ _).2, place_clear, hexec,
      Function.update_idem]
  · rw [(hcursor _).2, video_clear _ a ha, (hset _ _ _).1, video_clear k a ha]

/-- A key is collected in the line, not on the screen. -/
theorem place_getChar (k : Kernel) (c : Byte) : (getChar k c).place = k.place := by
  have hplace : ∀ v : Terminal,
      (v.keyIn c).screenX = v.screenX ∧ (v.keyIn c).screenY = v.screenY := by
    intro v
    simp only [Terminal.keyIn]
    split_ifs <;> exact ⟨rfl, rfl⟩
  exact place_setTerminal (hplace k.visible).1 (hplace k.visible).2

theorem place_clearVisibleLine (k : Kernel) : (clearVisibleLine k).place = k.place :=
  place_setTerminal rfl rfl

theorem drew_keyPressed (k : Kernel) (c : Byte) :
    Drew k.currTerminalVisible 0 0 (expandTab c) k (keyPressed k c) := by
  exact (drew_putc k c).then (place_getChar (putc k c) c) rfl

theorem drew_tabPressed (k : Kernel) :
    Drew k.currTerminalVisible 0 0 (expandTabs fourSpaces) k (tabPressed k) := by
  have hcursor : ∀ (k' : Kernel) (x : Word),
      ({ k' with cursorX := x }.redrawCursor).place = k'.place ∧
      ({ k' with cursorX := x }.redrawCursor).video = k'.video :=
    fun _ _ => ⟨rfl, rfl⟩
  have hkey : ∀ k' : Kernel, (getChar k' 0x09).video = k'.video := fun _ => rfl
  unfold tabPressed
  exact (drew_puts k fourSpaces).then ((hcursor _ _).1.trans (place_getChar _ _))
    ((hcursor _ _).2.trans (hkey _))

theorem drawn_writeTerminal (k : Kernel) (buf : Nat → Byte) (nbytes : Word) :
    (writeOutput k buf nbytes).Drawn k (writeTerminal k buf nbytes).1 := by
  unfold writeOutput writeTerminal
  by_cases hjam : k.jammer = true
  · rw [if_pos hjam, if_pos (Or.inl hjam)]
    exact Drew.nil _ _ _ rfl rfl
  by_cases hhot : k.hotjam = true
  · rw [if_neg hjam, if_pos hhot, if_pos (Or.inr hhot)]
    exact Drew.nil _ _ _ rfl rfl
  rw [if_neg hjam, if_neg hhot, if_neg (not_or.mpr ⟨hjam, hhot⟩)]
  by_cases hvis : k.currTerminalVisible = k.currTerminalExecuting
  · simp only [if_pos hvis]
    exact drew_puts k _
  · simp only [if_neg hvis]
    exact drew_kPuts k _

/-- A read draws nothing. -/
theorem drawn_read (k : Kernel) (t : Fin 3) (old : Nat → Byte) (nbytes : Word) :
    (Output.text t 0 0 []).Drawn k
      (CallResult.ofTerminal k [] (readTerminal k old nbytes)).kernel := by
  rcases readTerminal_cases k old nbytes with
    ⟨_, heq⟩ | ⟨_, _, _, heq⟩ | ⟨_, _, _, heq⟩ | ⟨_, _, heq⟩ <;> rw [heq]
  · exact Drew.nil _ _ _ rfl rfl
  · exact Drew.nil _ _ _ rfl rfl
  · exact Drew.nil _ _ _ (place_clearVisibleLine { k with jammer := false }) rfl
  · exact Drew.nil _ _ _ (place_clearVisibleLine k) rfl

theorem drawn_serveLine (k : Kernel) (t : Fin 3) :
    (Output.text t 0 0 []).Drawn k (serveLine k) := by
  unfold serveLine
  split
  · exact Drew.nil _ _ _ (place_clearVisibleLine k) rfl
  · exact Drew.nil _ _ _ rfl rfl

theorem drawn_perform (fs : FileSystem) (k : Kernel) (sum : Int) (junk : Nat → Byte) (frame : Regs)
    (action : KeyAction) :
    (action.output fs k sum junk).Drawn (action.drawingKernel k)
      (action.perform fs k sum junk frame) := by
  cases action with
  | modifier => exact Drew.nil _ _ _ rfl rfl
  | switchTo t => exact drew_switchTerminal k t
  | clearScreen => exact drawn_ctrlLPressed k
  | tab => exact drew_tabPressed k
  | char c =>
    by_cases hignored : c = 0x08 ∧ sum = 0
    · simp only [KeyAction.output, KeyAction.perform, if_pos hignored]
      exact Drew.nil _ _ _ rfl rfl
    · simp only [KeyAction.output, KeyAction.perform, if_neg hignored]
      have hpressed := drew_keyPressed k c
      rwa [← List.append_nil (expandTab c)] at hpressed

/-- **What an event draws**: its output, after `switch_terminal` has swapped the pages. -/
theorem consoleStep_drawn (fs : FileSystem) (beyond : Nat → Byte) (c : Console)
    (e : ConsoleEvent) :
    (consoleOutput fs beyond c e).Drawn (drawingKernel beyond c e)
      (consoleStep fs beyond c e).kernel := by
  cases e with
  | scancode code junk frame =>
    have hkernel : (consoleStep fs beyond c (.scancode code junk frame)).kernel =
        (c.keyboard.pressed beyond code).perform fs c.kernel c.keyboard.sum junk frame :=
      keyboardHandler_kernel ..
    rw [hkernel]
    exact drawn_perform fs c.kernel c.keyboard.sum junk frame _
  | pitTick regs => exact Drew.nil _ _ _ rfl rfl
  | read old nbytes => exact drawn_read c.kernel c.kernel.currTerminalVisible old nbytes
  | lineServed => exact drawn_serveLine c.kernel c.kernel.currTerminalVisible
  | write buf nbytes => exact drawn_writeTerminal c.kernel buf nbytes

end Events

/-! ## Bounds -/

/-- Where cursors have been, and where bytes have been stored. -/
structure ScreenLog where
  places : List Place
  stores : List Word

/-- The history after an event. -/
def recordOutput (fs : FileSystem) (beyond : Nat → Byte) (c : Console) (e : ConsoleEvent)
    (log : ScreenLog) : ScreenLog where
  places := log.places ++ (consoleOutput fs beyond c e).places c.kernel
  stores := log.stores ++ (consoleOutput fs beyond c e).stores c.kernel

/-- The console with this history. -/
def screenMachine (fs : FileSystem) (beyond : Nat → Byte) :
    Machine (Console × ScreenLog) ConsoleEvent :=
  (consoleMachine fs beyond).withHistory (recordOutput fs beyond)

/-- Cursors are on their screens and have been nowhere else, and bytes have been stored at
offsets in `[0, 4000)` of the video pages only. -/
structure InBounds (c : Console × ScreenLog) : Prop where
  cursors : ∀ t, (c.1.kernel.place t).OnScreen
  places : ∀ p ∈ c.2.places, p.OnScreen
  stores : ∀ a ∈ c.2.stores, OnPage a

section Steps
variable {fs : FileSystem} {beyond : Nat → Byte} {c : Console × ScreenLog} {e : ConsoleEvent}

/-- Swapping pages moves no cursor. -/
theorem place_drawingKernel (beyond : Nat → Byte) (c : Console) (e : ConsoleEvent) :
    (drawingKernel beyond c e).place = c.kernel.place := by
  cases e with
  | pitTick | read | lineServed | write => rfl
  | scancode code junk frame =>
    show ((c.keyboard.pressed beyond code).drawingKernel c.kernel).place = c.kernel.place
    cases c.keyboard.pressed beyond code with
    | switchTo t =>
      rw [KeyAction.drawingKernel]
      split <;> rfl
    | modifier | clearScreen | tab | char => rfl

theorem clearStores_onPage : ∀ a ∈ clearStores, OnPage a := by
  intro a ha
  simp only [clearStores, List.mem_flatMap, List.mem_range] at ha
  obtain ⟨i, hi, ha⟩ := ha
  rcases List.mem_pair.mp ha with rfl | rfl
  · exact ⟨0, 2 * i, by omega, rfl⟩
  · exact ⟨0, 2 * i + 1, by omega, rfl⟩

/-- What an output does to the cursors. -/
theorem Output.Drawn.cursors {o : Output} {k k' : Kernel} (h : o.Drawn k k')
    (hon : ∀ t, (k.place t).OnScreen) (hplaces : ∀ p ∈ o.places k, p.OnScreen) (u : Fin 3) :
    (k'.place u).OnScreen := by
  cases o with
  | clear =>
    rw [h.1, Function.update_apply]
    split
    · decide
    · exact hon u
  | text t page erase bytes =>
    have hrun : placeMachine.Always Place.OnScreen (k.place t) (expandTabs bytes) :=
      Machine.always_iff_forall_states.mpr hplaces
    rw [Drew.place h, Function.update_apply]
    split
    · exact hrun.last
    · exact hon u

/-- The places of an output are on the screen if no backspace comes in the corner. -/
theorem Output.places_onScreen {o : Output} {k : Kernel} (hon : ∀ t, (k.place t).OnScreen) :
    (∀ p ∈ o.places k, p.OnScreen) ↔ o.StaysInside k := by
  cases o with
  | clear => simpa [Output.places, Output.StaysInside] using (by decide : Place.origin.OnScreen)
  | text t page erase bytes =>
    exact Machine.always_iff_forall_states.symm.trans (onScreen_text_iff (hon t) _)

theorem Output.stores_onPage {o : Output} {k : Kernel} (hon : ∀ t, (k.place t).OnScreen)
    (hin : o.StaysInside k) : ∀ a ∈ o.stores k, OnPage a := by
  cases o with
  | clear => exact clearStores_onPage
  | text t page erase bytes => exact textStores_onPage (hon t) hin

/-- **One event** keeps the bounds, if what it draws stays inside. -/
theorem inBounds_step (h : InBounds c)
    (hin : (consoleOutput fs beyond c.1 e).StaysInside c.1.kernel) :
    InBounds ((screenMachine fs beyond).step c e) := by
  have hplaces := (Output.places_onScreen h.cursors).mpr hin
  have hstores := Output.stores_onPage h.cursors hin
  have hsame : (consoleOutput fs beyond c.1 e).places (drawingKernel beyond c.1 e) =
      (consoleOutput fs beyond c.1 e).places c.1.kernel := by
    cases consoleOutput fs beyond c.1 e with
    | clear => rfl
    | text => rw [Output.places, Output.places, place_drawingKernel]
  refine ⟨?_, fun p hp => ?_, fun a ha => ?_⟩
  · refine (consoleStep_drawn fs beyond c.1 e).cursors ?_ ?_
    · rw [place_drawingKernel]
      exact h.cursors
    · rw [hsame]
      exact hplaces
  · rcases List.mem_append.mp hp with hp | hp
    · exact h.places p hp
    · exact hplaces p hp
  · rcases List.mem_append.mp ha with ha | ha
    · exact h.stores a ha
    · exact hstores a ha

/-- And it has to, since the places are recorded. -/
theorem staysInside_of_inBounds (h : InBounds c)
    (hafter : InBounds ((screenMachine fs beyond).step c e)) :
    (consoleOutput fs beyond c.1 e).StaysInside c.1.kernel :=
  (Output.places_onScreen h.cursors).mp fun p hp =>
    hafter.places p (List.mem_append_right c.2.places hp)

end Steps

/-- **Screen bounds.**  In every run from a console with its cursors on their screens:
cursors stay there and bytes are stored on the pages exactly if no text that is written,
echoed or printed has a backspace in the upper left corner. -/
theorem inBounds_iff (fs : FileSystem) (beyond : Nat → Byte) (c : Console)
    (hon : ∀ t, (c.kernel.place t).OnScreen) (es : List ConsoleEvent) :
    (screenMachine fs beyond).Always InBounds (c, ⟨[], []⟩) es ↔
      (screenMachine fs beyond).Guarded
        (fun c e => (consoleOutput fs beyond c.1 e).StaysInside c.1.kernel) (c, ⟨[], []⟩) es :=
  Machine.always_iff_guarded (fun _ hbounds => hbounds)
    (fun _ _ hbounds _ hin => inBounds_step hbounds hin)
    (fun _ _ hbounds _ hafter => staysInside_of_inBounds hbounds hafter)
    ⟨hon, by simp, by simp⟩ (Machine.guarded_true ..)

/-- A letter is typed, and the shell writes a text. -/
def typedAndWritten : List ConsoleEvent :=
  [.scancode 0x1E noJunk ⟨0, 0⟩, .write (fun i => (ascii "\x08ls\n".toList).getD i 0) 4]

theorem inBounds_typedAndWritten :
    (screenMachine shellImage noJunk).Always InBounds
        (bootedConsole shellImage zeroHardware noJunk ⟨0x7FFF00, 0x7FFF40⟩, ⟨[], []⟩)
        typedAndWritten ↔
      (screenMachine shellImage noJunk).Guarded
        (fun c e => (consoleOutput shellImage noJunk c.1 e).StaysInside c.1.kernel)
        (bootedConsole shellImage zeroHardware noJunk ⟨0x7FFF00, 0x7FFF40⟩, ⟨[], []⟩)
        typedAndWritten :=
  inBounds_iff shellImage noJunk _ (by decide +kernel) typedAndWritten

/-- The first shell writes a backspace. -/
def writtenBackspace : List ConsoleEvent := [.write (fun _ => 0x08) 1]

/-- The cursor goes to row -1, and the blank in front of the page, where no page is present. -/
theorem inBounds_writtenBackspace :
    ¬∀ (fs : FileSystem) (beyond : Nat → Byte) (c : Console),
      (∀ t, (c.kernel.place t).OnScreen) → ∀ es : List ConsoleEvent,
        (screenMachine fs beyond).Always InBounds (c, ⟨[], []⟩) es := by
  intro hall
  have hbounds := (hall shellImage noJunk
    (bootedConsole shellImage zeroHardware noJunk ⟨0x7FFF00, 0x7FFF40⟩) (by decide +kernel)
    writtenBackspace).last
  exact absurd (hbounds.cursors 0) (by decide +kernel)

end LinuxLikeOS
