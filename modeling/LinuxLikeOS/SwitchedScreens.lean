import LinuxLikeOS.ScreenBounds

/-! # Screens under switching

A terminal's screen is the VGA page while it is visible and its backing page while it is
hidden (`Kernel.screen`).  `switch_terminal` copies both pages, so each terminal takes its
screen along; a character goes to the screen of the terminal that emits it, whichever way it
is drawn.

So a screen depends on the terminal's own characters alone: it is the screen it was at the
start, with these written on it (`screensKept_run`).  The characters here are any but the
backspace, which `k_putc` erases on the wrong page.
-/
namespace LinuxLikeOS
open Transition

/-! ## One screen -/

/-- A page and the cursor on it. -/
@[ext] structure Screen where
  page : Page
  place : Place

namespace Screen
variable (s : Screen)

/-- A character that is not a tab. -/
def putChar (c : Byte) : Screen := ⟨s.page.draw s.place c, s.place.next c⟩

/-- A text; a tab is four spaces. -/
def write (text : List Byte) : Screen := (expandTabs text).foldl putChar s

variable {s}

theorem write_append (text text' : List Byte) :
    s.write (text ++ text') = (s.write text).write text' := by
  rw [write, write, write, expandTabs, expandTabs, expandTabs, List.flatMap_append,
    List.foldl_append]

theorem place_write (s : Screen) (text : List Byte) :
    (s.write text).place = placeMachine.run s.place (expandTabs text) := by
  have hchars : ∀ (l : List Byte) (s : Screen),
      (l.foldl putChar s).place = placeMachine.run s.place l := by
    intro l
    induction l with
    | nil => exact fun _ => rfl
    | cons c l ih => exact fun s => ih (s.putChar c)
  exact hchars _ s

end Screen

/-- Written from `p` on, the text has no backspace in the upper left corner. -/
def Place.StaysInside (p : Place) (text : List Byte) : Prop :=
  placeMachine.Guarded Inside p (expandTabs text)

instance (p : Place) (text : List Byte) : Decidable (p.StaysInside text) :=
  inferInstanceAs (Decidable (placeMachine.Guarded Inside p (expandTabs text)))

/-- The text has no backspace. -/
def NoBackspace (text : List Byte) : Prop := (0x08 : Byte) ∉ text

instance (text : List Byte) : Decidable (NoBackspace text) := inferInstanceAs (Decidable (¬_))

theorem noBackspace_expandTabs {text : List Byte} (h : NoBackspace text) :
    NoBackspace (expandTabs text) := by
  intro hmem
  obtain ⟨c, hc, hback⟩ := List.mem_flatMap.mp hmem
  unfold expandTab at hback
  split at hback
  · exact absurd hback (by decide)
  · exact h (List.mem_singleton.mp hback ▸ hc)

theorem staysInside_of_noBackspace {text : List Byte} (h : NoBackspace text) (p : Place) :
    p.StaysInside text :=
  Machine.guarded_of_forall fun _ hc _ hback => absurd (hback ▸ hc) (noBackspace_expandTabs h)

theorem staysInside_cons {p : Place} {c : Byte} {text : List Byte} :
    p.StaysInside (c :: text) ↔
      p.StaysInside [c] ∧ (placeMachine.run p (expandTabs [c])).StaysInside text := by
  have hcons : expandTabs ([c] ++ text) = expandTabs [c] ++ expandTabs text :=
    List.flatMap_append
  rw [← List.singleton_append, Place.StaysInside, hcons]
  exact Machine.guarded_append

theorem Screen.onScreen_write {s : Screen} (h : s.place.OnScreen) {text : List Byte}
    (hin : s.place.StaysInside text) : (s.write text).place.OnScreen := by
  rw [Screen.place_write]
  exact ((onScreen_text_iff h _).mpr hin).last

namespace Kernel
variable (k : Kernel)

/-- The page that shows terminal `t`, or keeps what it shows. -/
def screenPage (t : Fin 3) : Fin 4 := if t = k.currTerminalVisible then 0 else t.succ

/-- The screen of terminal `t`. -/
def screen (t : Fin 3) : Screen := ⟨k.page (k.screenPage t), k.place t⟩

end Kernel

/-! ## Writing on a screen -/

/-- Between `k` and `k'` the text has been written on the screen of terminal `t`. -/
structure Wrote (t : Fin 3) (text : List Byte) (k k' : Kernel) : Prop where
  visible : k'.currTerminalVisible = k.currTerminalVisible
  screen : k'.screen = Function.update k.screen t ((k.screen t).write text)

section Writing
variable {k k' k'' : Kernel} {t u : Fin 3} {text text' : List Byte}

theorem screenPage_inj : k.screenPage u = k.screenPage t ↔ u = t := by
  unfold Kernel.screenPage
  by_cases hu : u = k.currTerminalVisible
  · by_cases ht : t = k.currTerminalVisible
    · rw [if_pos hu, if_pos ht, hu, ht]
      exact iff_of_true rfl rfl
    · rw [if_pos hu, if_neg ht]
      exact iff_of_false (Fin.succ_ne_zero t).symm fun heq => ht (heq ▸ hu)
  · by_cases ht : t = k.currTerminalVisible
    · rw [if_neg hu, if_pos ht]
      exact iff_of_false (Fin.succ_ne_zero u) fun heq => hu (heq ▸ ht)
    · rw [if_neg hu, if_neg ht, Fin.succ_inj]

theorem screen_of_looksLike (h : k'.LooksLike k) : k'.screen = k.screen := by
  funext u
  rw [Kernel.screen, Kernel.screen, Kernel.screenPage, Kernel.screenPage, h.visible, h.place,
    Kernel.page, Kernel.page, h.video]

theorem Wrote.nil (h : k'.LooksLike k) (t : Fin 3) : Wrote t [] k k' :=
  ⟨h.visible, (screen_of_looksLike h).trans (Function.update_eq_self ..).symm⟩

theorem Wrote.append (h : Wrote t text k k') (h' : Wrote t text' k' k'') :
    Wrote t (text ++ text') k k'' := by
  refine ⟨h'.visible.trans h.visible, ?_⟩
  rw [h'.screen, h.screen, Function.update_self, Function.update_idem, Screen.write_append]

theorem Wrote.then (h : Wrote t text k k') (hlook : k''.LooksLike k') : Wrote t text k k'' :=
  ⟨hlook.visible.trans h.visible, (screen_of_looksLike hlook).trans h.screen⟩

/-- **A character on the page of its terminal** is written on its screen. -/
theorem wrote_char {c : Byte} (hc : c ≠ 0x09)
    (hvis : k'.currTerminalVisible = k.currTerminalVisible)
    (hplace : k'.place = Function.update k.place t ((k.place t).next c))
    (hpage : k'.page = Function.update k.page (k.screenPage t)
      ((k.page (k.screenPage t)).draw (k.place t) c)) :
    Wrote t [c] k k' := by
  have hone : ∀ s : Screen, s.write [c] = s.putChar c := by
    intro s
    have hexpand : expandTabs [c] = [c] := by
      rw [expandTabs, List.flatMap_singleton, expandTab, if_neg hc]
    rw [Screen.write, hexpand]
    rfl
  refine ⟨hvis, ?_⟩
  funext u
  have hsame : k'.screenPage u = k.screenPage u := by
    rw [Kernel.screenPage, Kernel.screenPage, hvis]
  rw [Kernel.screen, hsame, hpage, hplace, hone]
  by_cases hu : u = t
  · subst hu
    rw [Function.update_self, Function.update_self, Function.update_self]
    rfl
  · rw [Function.update_of_ne hu, Function.update_of_ne hu,
      Function.update_of_ne fun heq => hu (screenPage_inj.mp heq)]
    rfl

/-- `putc` writes on the visible screen. -/
theorem wrote_putcChar {c : Byte} (hon : (k.place k.currTerminalVisible).OnScreen) (hc : c ≠ 0x09)
    (hin : Inside (k.place k.currTerminalVisible) c) :
    Wrote k.currTerminalVisible [c] k (putcChar k c) := by
  have hpage : k.screenPage k.currTerminalVisible = 0 := if_pos rfl
  refine wrote_char hc (putcChar_visible k c) (place_putcChar k c) ?_
  rw [hpage]
  exact page_putcChar hon hin

/-- `k_putc` writes on the screen of a hidden terminal. -/
theorem wrote_kPutcChar {c : Byte} (hon : (k.place k.currTerminalExecuting).OnScreen)
    (hhidden : k.currTerminalVisible ≠ k.currTerminalExecuting) (hc : c ≠ 0x09) (hback : c ≠ 0x08) :
    Wrote k.currTerminalExecuting [c] k (kPutcChar k c) := by
  have hpage : k.screenPage k.currTerminalExecuting = k.currTerminalExecuting.succ :=
    if_neg hhidden.symm
  have hdrawn : drawnPage k.currTerminalExecuting.succ 0 c = k.currTerminalExecuting.succ :=
    if_neg hback
  have hdraw := page_kPutcChar hon (c := c) fun heq => absurd heq hback
  rw [hdrawn] at hdraw
  refine wrote_char hc (congrArg Kernel.currTerminalVisible (kPutcChar_offScreen k c) :)
    (place_kPutcChar k c) ?_
  rw [hpage]
  exact hdraw

/-- A terminal writes on its own screen only. -/
theorem Wrote.onScreen (h : Wrote t text k k') (hin : (k.place t).StaysInside text)
    (hon : ∀ u, (k.place u).OnScreen) (u : Fin 3) : (k'.place u).OnScreen := by
  have hplace : k'.place u = (k'.screen u).place := rfl
  rw [hplace, h.screen]
  by_cases hu : u = t
  · subst hu
    rw [Function.update_self]
    exact Screen.onScreen_write (hon u) hin
  · rw [Function.update_of_ne hu]
    exact hon u

/-- A loop that writes a text, character by character. -/
theorem wrote_foldl {draw : Kernel → Byte → Kernel} {P : Kernel → Prop}
    (hdraw : ∀ c ∈ text, ∀ k, P k → Wrote t [c] k (draw k c) ∧ P (draw k c)) (hk : P k) :
    Wrote t text k (text.foldl draw k) ∧ P (text.foldl draw k) := by
  induction text generalizing k with
  | nil => exact ⟨.nil (.refl k) t, hk⟩
  | cons c text ih =>
    obtain ⟨hwrote, hk'⟩ := hdraw c List.mem_cons_self k hk
    obtain ⟨hrest, hlast⟩ := ih (fun c' hc' => hdraw c' (List.mem_cons_of_mem c hc')) hk'
    exact ⟨hwrote.append hrest, hlast⟩

theorem noBackspace_singleton {c : Byte} (hc : c ≠ 0x08) : NoBackspace [c] :=
  fun hmem => hc (List.mem_singleton.mp hmem).symm

theorem staysInside_singleton {c : Byte} (hc : c ≠ 0x08) (p : Place) : p.StaysInside [c] :=
  staysInside_of_noBackspace (noBackspace_singleton hc) p

/-- A tab is four spaces. -/
theorem Wrote.tab (h : Wrote t fourSpaces k k') : Wrote t [0x09] k k' := by
  have htab : ∀ s : Screen, s.write [0x09] = s.write fourSpaces := fun _ => rfl
  exact ⟨h.visible, by rw [htab]; exact h.screen⟩

/-- Terminal `t` is visible, and cursors are on their screens. -/
structure Shown (t : Fin 3) (k : Kernel) : Prop where
  visible : k.currTerminalVisible = t
  onScreen : ∀ u, (k.place u).OnScreen

/-- Terminal `t` is executing and hidden, and cursors are on their screens. -/
structure Hidden (t : Fin 3) (k : Kernel) : Prop where
  executing : k.currTerminalExecuting = t
  hidden : k.currTerminalVisible ≠ t
  onScreen : ∀ u, (k.place u).OnScreen

theorem Shown.putcChar (h : Shown t k) {c : Byte} (hc : c ≠ 0x09) (hin : Inside (k.place t) c) :
    Wrote t [c] k (putcChar k c) ∧ Shown t (putcChar k c) := by
  obtain ⟨rfl, hon⟩ := h
  have hwrote := wrote_putcChar (hon k.currTerminalVisible) hc hin
  have hstays : (k.place k.currTerminalVisible).StaysInside [c] := by
    rw [Place.StaysInside, expandTabs, List.flatMap_singleton, expandTab, if_neg hc]
    exact ⟨hin, trivial⟩
  exact ⟨hwrote, hwrote.visible, hwrote.onScreen hstays hon⟩

theorem Hidden.kPutcChar (h : Hidden t k) {c : Byte} (hc : c ≠ 0x09) (hback : c ≠ 0x08) :
    Wrote t [c] k (kPutcChar k c) ∧ Hidden t (kPutcChar k c) := by
  obtain ⟨rfl, hhidden, hon⟩ := h
  have hwrote := wrote_kPutcChar (hon _) hhidden hc hback
  have hexec := kPutcChar_executing k c
  refine ⟨hwrote, hexec, ?_, hwrote.onScreen (staysInside_singleton hback _) hon⟩
  rw [hwrote.visible]
  exact hhidden

theorem fourSpaces_plain : ∀ c ∈ fourSpaces, c ≠ 0x09 ∧ c ≠ 0x08 := by
  intro c hc
  obtain rfl : c = 0x20 := by simpa [fourSpaces] using hc
  decide

/-- `putc`. -/
theorem Shown.putc (h : Shown t k) {c : Byte} (hin : (k.place t).StaysInside [c]) :
    Wrote t [c] k (putc k c) ∧ Shown t (putc k c) := by
  unfold LinuxLikeOS.putc
  by_cases htab : c = 0x09
  · have hspaces := wrote_foldl (fun c hc k hk => Shown.putcChar (k := k) hk
      (fourSpaces_plain c hc).1 fun hback => absurd hback (fourSpaces_plain c hc).2) h
    rw [if_pos htab, htab]
    exact ⟨(hspaces.1.then ⟨rfl, rfl, rfl, rfl⟩).tab, hspaces.2.visible, hspaces.2.onScreen⟩
  · rw [if_neg htab]
    rw [Place.StaysInside, expandTabs, List.flatMap_singleton, expandTab, if_neg htab] at hin
    exact h.putcChar htab hin.1

/-- `k_putc`. -/
theorem Hidden.kPutc (h : Hidden t k) {c : Byte} (hback : c ≠ 0x08) :
    Wrote t [c] k (kPutc k c) ∧ Hidden t (kPutc k c) := by
  unfold LinuxLikeOS.kPutc
  by_cases htab : c = 0x09
  · have hspaces := wrote_foldl (fun c hc k hk =>
      Hidden.kPutcChar (k := k) hk (fourSpaces_plain c hc).1 (fourSpaces_plain c hc).2) h
    rw [if_pos htab, htab]
    exact ⟨hspaces.1.tab, hspaces.2⟩
  · rw [if_neg htab]
    exact h.kPutcChar htab hback

/-- `puts`. -/
theorem Shown.puts (h : Shown t k) (hin : (k.place t).StaysInside text) :
    Wrote t text k (puts k text) ∧ Shown t (puts k text) := by
  induction text generalizing k with
  | nil => exact ⟨.nil (.refl k) t, h⟩
  | cons c text ih =>
    obtain ⟨hfirst, hrest⟩ := staysInside_cons.mp hin
    obtain ⟨hwrote, hshown⟩ := h.putc hfirst
    have hplace : (LinuxLikeOS.putc k c).place t =
        placeMachine.run (k.place t) (expandTabs [c]) := by
      have hscreen := congrArg Screen.place (congrFun hwrote.screen t)
      rw [Function.update_self, Screen.place_write] at hscreen
      exact hscreen
    rw [← hplace] at hrest
    obtain ⟨htail, hlast⟩ := ih hshown hrest
    exact ⟨hwrote.append htail, hlast⟩

theorem Prints.wrote (h : Prints text k k') (hshown : Shown t k)
    (hin : (k.place t).StaysInside text) : Wrote t text k k' := by
  obtain ⟨k₁, hbefore, hafter⟩ := h
  have hshown₁ : Shown t k₁ :=
    ⟨hbefore.visible.trans hshown.visible, by rw [hbefore.place]; exact hshown.onScreen⟩
  rw [← hbefore.place] at hin
  have hwrote := ((Wrote.nil hbefore t).append (hshown₁.puts hin).1).then hafter
  rwa [List.nil_append] at hwrote

end Writing

/-! ## Switching -/

section Switching
variable {fs : FileSystem} {k : Kernel} {t : Fin 3}

/-- **Each terminal takes its screen along.** -/
theorem screen_showTerminal (hmem : ∀ u, (k.multiTerminal u).terminalVidMem = backingPage u)
    (hvis : t ≠ k.currTerminalVisible) : (k.showTerminal t).screen = k.screen := by
  have hkept : k.visible.terminalVidMem = pageBase k.currTerminalVisible.succ :=
    (hmem k.currTerminalVisible).trans (backingPage_eq _)
  have hpage : (k.showTerminal t).page =
      Function.update (Function.update k.page k.currTerminalVisible.succ (k.page 0)) 0
        (k.page t.succ) := by
    have hne : t.succ ≠ k.currTerminalVisible.succ := fun h => hvis (Fin.succ_inj.mp h)
    show pageAt (memcpy (memcpy k.video k.visible.terminalVidMem videoBase 4096) videoBase
      (k.multiTerminal t).terminalVidMem 4096) = _
    rw [hkept, hmem t, backingPage_eq, videoBase_eq, pageAt_memcpy, pageAt_memcpy,
      Function.update_of_ne hne]
    rfl
  have hpages : ∀ u, (k.showTerminal t).page ((k.showTerminal t).screenPage u) =
      k.page (k.screenPage u) := by
    intro u
    have hshown : (k.showTerminal t).screenPage u = if u = t then 0 else u.succ := rfl
    rw [hpage, hshown, Kernel.screenPage]
    by_cases hu : u = t
    · rw [if_pos hu, Function.update_self, if_neg fun h => hvis (hu ▸ h), hu]
    · rw [if_neg hu, Function.update_of_ne (Fin.succ_ne_zero u)]
      by_cases hold : u = k.currTerminalVisible
      · rw [if_pos hold, hold, Function.update_self]
      · rw [if_neg hold, Function.update_of_ne fun h => hold (Fin.succ_inj.mp h)]
  funext u
  rw [Kernel.screen, hpages]
  rfl

theorem vidMem_of_offScreen {k' : Kernel} (h : k'.offScreen = k.offScreen) (u : Fin 3) :
    (k'.multiTerminal u).terminalVidMem = (k.multiTerminal u).terminalVidMem :=
  (congrArg (fun k : Kernel => (k.multiTerminal u).terminalVidMem) h :)

/-- Where `switch_terminal` keeps a terminal's page does not change. -/
theorem vidMem_execute (command : Option CString) (junk : Nat → Byte) (regs : Regs) (u : Fin 3) :
    ((execute fs k command junk regs).1.multiTerminal u).terminalVidMem =
      (k.multiTerminal u).terminalVidMem := by
  have hset : ∀ (k : Kernel) (t : Fin 3) (v : Terminal),
      v.terminalVidMem = (k.multiTerminal t).terminalVidMem →
      ((k.setTerminal t v).multiTerminal u).terminalVidMem =
        (k.multiTerminal u).terminalVidMem := by
    intro k t v hv
    by_cases hu : u = t
    · subst hu
      simpa [Kernel.setTerminal] using hv
    · simp [Kernel.setTerminal, hu]
  have hactive := hset k k.currTerminalExecuting { k.executing with active := true } rfl
  rcases execute_cases fs k command junk regs with
    ⟨_, heq⟩ | ⟨_, k', hoff | hoff, heq⟩ | ⟨_, pid, arg, eip, image, _, _, heq⟩ <;> rw [heq]
  · exact vidMem_of_offScreen hoff u
  · exact (vidMem_of_offScreen hoff u).trans hactive
  · exact (hset k.activateExecuting k.currTerminalExecuting
      { k.activateExecuting.executing with programPid := pid } rfl).trans hactive

theorem noBackspace_fileMessage (dentry : Dentry) (junk : Nat → Byte) :
    NoBackspace (fileMessage fs k dentry junk) := by
  unfold fileMessage
  split
  · split <;> decide
  · decide

theorem noBackspace_switchMessage (t : Fin 3) (junk : Nat → Byte) :
    NoBackspace (switchMessage fs k t junk) := by
  unfold switchMessage executeMessage
  split
  · exact List.not_mem_nil
  · split
    · exact List.not_mem_nil
    · split
      · exact List.not_mem_nil
      · exact noBackspace_fileMessage _ junk

/-- The hardware cursor for a place. -/
def Place.register (p : Place) : BitVec 16 := BitVec.ofInt 16 (p.y * 80 + p.x)

/-- The hardware cursor is where the visible terminal's is. -/
def Kernel.CursorFollows (k : Kernel) : Prop :=
  k.cursor = (k.place k.currTerminalVisible).register

/-- **`switch_terminal` swaps the pages**, lets the cursor follow, and prints. -/
theorem prints_switchTerminal (fs : FileSystem) (hvis : t ≠ k.currTerminalVisible)
    (junk : Nat → Byte) (frame : Regs) :
    Prints (switchMessage fs k t junk) (k.showTerminal t).followVisible
      (switchTerminal fs k t junk frame).1 := by
  rcases switchTerminal_cases fs k t junk frame with
    ⟨hsame, _⟩ | ⟨_, hact, heq⟩ | ⟨_, hact, heq⟩
  · exact absurd hsame hvis
  · rw [heq, switchMessage, if_pos (Or.inr hact)]
    exact Prints.nil ⟨rfl, rfl, rfl, rfl⟩
  · rw [heq, switchMessage, if_neg (by simp [hvis, hact])]
    have hplace : (k.opened t).place = (k.showTerminal t).place :=
      place_setTerminal (k := k.showTerminal t) (t := t) rfl rfl
    have hcursor : ∀ k : Kernel, k.followVisible.CursorFollows := fun _ => rfl
    have hregister : (k.opened t).cursor = (k.showTerminal t).followVisible.cursor := by
      have hopened : (k.opened t).CursorFollows := hcursor _
      have hshown : (k.showTerminal t).followVisible.CursorFollows := hcursor _
      rw [Kernel.CursorFollows, hplace] at hopened
      exact hopened.trans hshown.symm
    exact (prints_execute (k.opened t) shell).of_looksLike ⟨rfl, hplace, rfl, hregister⟩

theorem cursorFollows_putc (k : Kernel) (c : Byte) : (putc k c).CursorFollows := by
  have hsync : ∀ k : Kernel, (syncCursor k).CursorFollows := fun _ => rfl
  unfold putc putcChar
  split <;> exact hsync _

theorem Prints.cursorFollows {text : List Byte} {k k' : Kernel} (h : Prints text k k')
    (hk : k.CursorFollows) : k'.CursorFollows := by
  obtain ⟨k₁, hbefore, hafter⟩ := h
  have hlook : ∀ {k k' : Kernel}, k'.LooksLike k → k.CursorFollows → k'.CursorFollows := by
    intro k k' hlook hk
    rw [Kernel.CursorFollows, hlook.cursor, hlook.place, hlook.visible]
    exact hk
  refine hlook hafter ?_
  have hputs : ∀ (text : List Byte) (k : Kernel), k.CursorFollows →
      (LinuxLikeOS.puts k text).CursorFollows := by
    intro text
    induction text with
    | nil => exact fun _ hk => hk
    | cons c text ih => exact fun k _ => ih _ (cursorFollows_putc k c)
  exact hputs text k₁ (hlook hbefore hk)

end Switching

/-! ## Runs -/

/-- What happens to screens. -/
inductive ScreenEvent
  | switchTo (t : Fin 3) (junk : Nat → Byte) (frame : Regs)
  /-- a timer interrupt: another terminal executes -/
  | pitTick (regs : Regs)
  /-- the executing terminal emits a character -/
  | emit (c : Byte)

/-- A character of the executing terminal, as `write_terminal` draws it. -/
def emitChar (k : Kernel) (c : Byte) : Kernel :=
  if k.currTerminalVisible = k.currTerminalExecuting then putc k c else kPutc k c

theorem emitChar_offScreen (k : Kernel) (c : Byte) : (emitChar k c).offScreen = k.offScreen := by
  unfold emitChar
  split
  · exact putc_offScreen k c
  · exact kPutc_offScreen k c

/-- The executing terminal emits a character on its own screen. -/
theorem wrote_emitChar {k : Kernel} (hon : ∀ t, (k.place t).OnScreen) {c : Byte} (hc : c ≠ 0x08) :
    Wrote k.currTerminalExecuting [c] k (emitChar k c) := by
  unfold emitChar
  by_cases hvis : k.currTerminalVisible = k.currTerminalExecuting
  · have hshown : Shown k.currTerminalExecuting k := ⟨hvis, hon⟩
    rw [if_pos hvis]
    exact (hshown.putc (staysInside_singleton hc _)).1
  · have hhidden : Hidden k.currTerminalExecuting k := ⟨rfl, hvis, hon⟩
    rw [if_neg hvis]
    exact (hhidden.kPutc hc).1

/-- The kernel after an event. -/
def screenStep (fs : FileSystem) (k : Kernel) : ScreenEvent → Kernel
  | .switchTo t junk frame => (switchTerminal fs k t junk frame).1
  | .pitTick regs => (pitHandler k regs).1
  | .emit c => emitChar k c

/-- What each terminal has written so far: the characters it has emitted, and what a shell
that could not be started there has printed. -/
def recordText (fs : FileSystem) (k : Kernel) (e : ScreenEvent) (texts : Fin 3 → List Byte) :
    Fin 3 → List Byte :=
  match e with
  | .switchTo t junk _ => Function.update texts t (texts t ++ switchMessage fs k t junk)
  | .pitTick _ => texts
  | .emit c =>
    Function.update texts k.currTerminalExecuting (texts k.currTerminalExecuting ++ [c])

/-- Switching, and the texts. -/
def switchingMachine (fs : FileSystem) : Machine (Kernel × (Fin 3 → List Byte)) ScreenEvent :=
  Machine.withHistory ⟨screenStep fs⟩ (recordText fs)

/-- The event is no backspace. -/
def ScreenEvent.Plain : ScreenEvent → Prop
  | .emit c => c ≠ 0x08
  | _ => True

/-- Behind a switch to another terminal the cursor is where that terminal's is. -/
def CursorFollowsSwitch (fs : FileSystem) (c : Kernel × (Fin 3 → List Byte)) : ScreenEvent → Prop
  | .switchTo t junk frame => t ≠ c.1.currTerminalVisible →
      ((switchingMachine fs).step c (.switchTo t junk frame)).1.currTerminalVisible = t ∧
        ((switchingMachine fs).step c (.switchTo t junk frame)).1.CursorFollows
  | _ => True

/-- The screens are the ones at the start with the terminals' own texts on them. -/
structure ScreensKept (k : Kernel) (c : Kernel × (Fin 3 → List Byte)) : Prop where
  backing : ∀ t, (c.1.multiTerminal t).terminalVidMem = backingPage t
  onScreen : ∀ t, (c.1.place t).OnScreen
  screens : ∀ t, c.1.screen t = (k.screen t).write (c.2 t)

section Runs
variable {fs : FileSystem} {k : Kernel} {c : Kernel × (Fin 3 → List Byte)}

/-- What is written by one terminal goes on with its own screen. -/
theorem ScreensKept.wrote (h : ScreensKept k c) {t : Fin 3} {text : List Byte} {k' : Kernel}
    (hin : (c.1.place t).StaysInside text) (hwrote : Wrote t text c.1 k')
    (hmem : ∀ u, (k'.multiTerminal u).terminalVidMem = (c.1.multiTerminal u).terminalVidMem) :
    ScreensKept k (k', Function.update c.2 t (c.2 t ++ text)) := by
  refine ⟨fun u => (hmem u).trans (h.backing u), hwrote.onScreen hin h.onScreen, fun u => ?_⟩
  show k'.screen u = (k.screen u).write (Function.update c.2 t (c.2 t ++ text) u)
  rw [hwrote.screen]
  by_cases hu : u = t
  · subst hu
    rw [Function.update_self, Function.update_self, h.screens, Screen.write_append]
  · rw [Function.update_of_ne hu, Function.update_of_ne hu, h.screens]

theorem ScreensKept.emit (h : ScreensKept k c) {b : Byte} (hb : b ≠ 0x08) :
    ScreensKept k ((switchingMachine fs).step c (.emit b)) :=
  h.wrote (staysInside_singleton hb _) (wrote_emitChar h.onScreen hb)
    (vidMem_of_offScreen (emitChar_offScreen c.1 b))

theorem vidMem_switchTerminal (t : Fin 3) (junk : Nat → Byte) (frame : Regs) (u : Fin 3) :
    ((switchTerminal fs k t junk frame).1.multiTerminal u).terminalVidMem =
      (k.multiTerminal u).terminalVidMem := by
  rcases switchTerminal_cases fs k t junk frame with
    ⟨_, heq⟩ | ⟨_, _, heq⟩ | ⟨_, _, heq⟩ <;> rw [heq]
  · rfl
  · rw [vidMem_execute]
    show ((k.showTerminal t).openVisible.multiTerminal u).terminalVidMem = _
    by_cases hu : u = t
    · subst hu
      simp [Kernel.openVisible, Kernel.setTerminal, Kernel.showTerminal, Kernel.visible]
    · simp [Kernel.openVisible, Kernel.setTerminal, Kernel.showTerminal, hu]

/-- A switch takes the screens along, and prints at most for the terminal it opens. -/
theorem ScreensKept.switchTo (h : ScreensKept k c) (t : Fin 3) (junk : Nat → Byte) (frame : Regs) :
    ScreensKept k ((switchingMachine fs).step c (.switchTo t junk frame)) := by
  by_cases hvis : t = c.1.currTerminalVisible
  · have hstep : (switchingMachine fs).step c (.switchTo t junk frame) = c := by
      have hmessage : switchMessage fs c.1 t junk = [] := if_pos (Or.inl hvis)
      have hkernel : (switchTerminal fs c.1 t junk frame).1 = c.1 := by
        rw [switchTerminal, if_pos hvis]
      show ((switchTerminal fs c.1 t junk frame).1,
        Function.update c.2 t (c.2 t ++ switchMessage fs c.1 t junk)) = c
      rw [hmessage, hkernel, List.append_nil, Function.update_eq_self]
    rw [hstep]
    exact h
  · have hshow : (c.1.showTerminal t).followVisible.screen = c.1.screen :=
      screen_showTerminal h.backing hvis
    have hkept : ScreensKept k ((c.1.showTerminal t).followVisible, c.2) :=
      ⟨h.backing, h.onScreen, fun u => (congrFun hshow u).trans (h.screens u)⟩
    have hshown : Shown t (c.1.showTerminal t).followVisible := ⟨rfl, h.onScreen⟩
    have hin : ((c.1.showTerminal t).followVisible.place t).StaysInside
        (switchMessage fs c.1 t junk) :=
      staysInside_of_noBackspace (noBackspace_switchMessage t junk) _
    have hprints := prints_switchTerminal fs hvis junk frame
    exact hkept.wrote hin (hprints.wrote hshown hin) (vidMem_switchTerminal (k := c.1) t junk frame)

/-- **One event** keeps the screens. -/
theorem screensKept_step (h : ScreensKept k c) {e : ScreenEvent} (he : e.Plain) :
    ScreensKept k ((switchingMachine fs).step c e) := by
  cases e with
  | switchTo t junk frame => exact h.switchTo t junk frame
  | pitTick regs => exact ⟨h.backing, h.onScreen, h.screens⟩
  | emit b => exact h.emit he

theorem cursorFollows_switch (c : Kernel × (Fin 3 → List Byte)) (e : ScreenEvent) :
    CursorFollowsSwitch fs c e := by
  cases e with
  | pitTick | emit => trivial
  | switchTo t junk frame =>
    intro hvis
    have hprints := prints_switchTerminal fs hvis junk frame
    obtain ⟨k₁, hbefore, hafter⟩ := id hprints
    have hputs : (puts k₁ (switchMessage fs c.1 t junk)).currTerminalVisible =
        k₁.currTerminalVisible := (congrArg Kernel.currTerminalVisible (puts_offScreen k₁ _) :)
    exact ⟨hafter.visible.trans (hputs.trans hbefore.visible), hprints.cursorFollows rfl⟩

end Runs

/-- **Screens under switching.**  From a kernel whose terminals are hidden on their own pages,
with their cursors on the screen, and whatever is switched, scheduled and emitted but a
backspace: each terminal's screen is always the one it had, with its own characters written
on it; and behind every switch to another terminal the hardware cursor is at that
terminal's. -/
theorem screensKept_run (fs : FileSystem) (k : Kernel)
    (hbacking : ∀ t, (k.multiTerminal t).terminalVidMem = backingPage t)
    (hon : ∀ t, (k.place t).OnScreen) (es : List ScreenEvent) (hplain : ∀ e ∈ es, e.Plain) :
    (switchingMachine fs).Always (fun c => ∀ t, c.1.screen t = (k.screen t).write (c.2 t))
        (k, fun _ => []) es ∧
      (switchingMachine fs).Guarded (CursorFollowsSwitch fs) (k, fun _ => []) es := by
  have hguard := Machine.guarded_of_forall (M := switchingMachine fs)
    (G := fun _ e => e.Plain) (s := (k, fun _ => [])) fun e he _ => hplain e he
  constructor
  · refine (Machine.always_of_step (I := ScreensKept k) (fun c e hc he => screensKept_step hc he)
      ⟨hbacking, hon, fun _ => rfl⟩ hguard).mono fun c hc => hc.screens
  · exact Machine.guarded_of_forall fun e _ c => cursorFollows_switch c e

/-- Two terminals write, one of them in the background; a third is opened and left. -/
def switchedScreens : List ScreenEvent :=
  [.emit 0x61, .pitTick ⟨0x7FFE00, 0x7FFE40⟩, .switchTo 1 noJunk ⟨0x7FFD00, 0x7FFD40⟩, .emit 0x62,
    .pitTick ⟨0x7FDF00, 0x7FDF40⟩, .pitTick ⟨0x7FDF00, 0x7FDF40⟩, .emit 0x09,
    .switchTo 2 noJunk ⟨0x7FFD00, 0x7FFD40⟩,
    .switchTo 0 noJunk ⟨0x7FFD00, 0x7FFD40⟩]

theorem screensKept_switchedScreens :
    let k := booted shellImage zeroHardware noJunk ⟨0x7FFF00, 0x7FFF40⟩
    (switchingMachine shellImage).Always
        (fun c => ∀ t, c.1.screen t = (k.screen t).write (c.2 t)) (k, fun _ => [])
        switchedScreens ∧
      (switchingMachine shellImage).Guarded (CursorFollowsSwitch shellImage) (k, fun _ => [])
        switchedScreens :=
  screensKept_run shellImage _ (by decide +kernel) (by decide +kernel) switchedScreens
    (by simp [switchedScreens, ScreenEvent.Plain])

end LinuxLikeOS
