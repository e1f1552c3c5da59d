import LinuxLikeOS.ScreenBounds

/-! # Columns

A backspace in the upper left corner takes a cursor off its screen, and nothing stops it
there: `screen_y` gets as low as there are backspaces.  But the cursor keeps to the columns,
and it does not get below the last row (`Place.InColumns`), for an event does one of three
things to cursors: it moves one by characters, it homes one, or it leaves them alone.  So
all cursors keep to the columns in every run (`inColumns_step`).
-/
namespace LinuxLikeOS
open Transition

/-- In a column, and not below the last row. -/
def Place.InColumns (p : Place) : Prop := (0 ≤ p.x ∧ p.x < 80) ∧ p.y < 25

instance (p : Place) : Decidable p.InColumns := inferInstanceAs (Decidable ((_ ∧ _) ∧ _))

/-- All cursors are. -/
def Kernel.InColumns (k : Kernel) : Prop := ∀ t, (k.place t).InColumns

/-! ## Characters -/

section Places
variable {p : Place}

/-- **A character keeps its cursor** in the columns. -/
theorem inColumns_next (h : p.InColumns) (c : Byte) : (p.next c).InColumns := by
  obtain ⟨⟨hx, hx'⟩, hy⟩ := h
  have hrow : ∀ y : Int, y.tmod 25 < 25 := fun y => Int.tmod_lt_of_pos y (by decide)
  have hstart : ∀ y : Int, y < 25 → Place.InColumns ⟨0, y⟩ :=
    fun y hy => ⟨(by decide : (0 : Int) ≤ 0 ∧ (0 : Int) < 80), hy⟩
  unfold Place.next
  by_cases hback : c = 0x08
  · rw [if_pos hback]
    unfold Place.back Place.InColumns
    dsimp only
    split <;> omega
  rw [if_neg hback]
  by_cases hline : c = 0x0A ∨ c = 0x0D
  · rw [if_pos hline]
    split
    · exact hstart p.y hy
    · exact hstart _ (hrow _)
  rw [if_neg hline]
  by_cases hcolumn : p.x = 79
  · rw [if_pos hcolumn]
    split
    · exact hstart p.y hy
    · exact hstart (p.y + 1) (by omega)
  · rw [if_neg hcolumn]
    exact ⟨⟨Int.tmod_nonneg 80 (by omega), Int.tmod_lt_of_pos _ (by decide)⟩, hrow _⟩

theorem inColumns_text (h : p.InColumns) (text : List Byte) :
    (placeMachine.run p text).InColumns := by
  have hrun : placeMachine.Always Place.InColumns p text :=
    Machine.always_of_step (fun _ c hp _ => inColumns_next hp c) h (Machine.guarded_true p text)
  exact hrun.last

end Places

/-! ## Events -/

section Events
variable {fs : FileSystem} {k k' : Kernel}

theorem Kernel.InColumns.of_place (h : k.InColumns) (hplace : k'.place = k.place) :
    k'.InColumns := by
  intro t
  rw [hplace]
  exact h t

/-- What is drawn keeps the cursors in the columns. -/
theorem Kernel.InColumns.drawn (h : k.InColumns) {o : Output} (hdrawn : o.Drawn k k') :
    k'.InColumns := by
  intro u
  cases o with
  | clear =>
    rw [hdrawn.1, Function.update_apply]
    split
    · decide
    · exact h u
  | text t page erase bytes =>
    rw [Drew.place hdrawn, Function.update_apply]
    split
    · exact inColumns_text (h t) (expandTabs bytes)
    · exact h u

theorem Kernel.InColumns.clear (h : k.InColumns) : (clear k).InColumns :=
  h.drawn (o := .clear) ⟨place_clear k, video_clear k⟩

theorem Kernel.InColumns.execute (h : k.InColumns) (command : Option CString)
    (junk : Nat → Byte) (regs : Regs) :
    (execute fs k command junk regs).1.InColumns := by
  cases command with
  | none =>
    refine h.of_place ?_
    unfold LinuxLikeOS.execute
    split <;> rfl
  | some command => exact h.drawn (o := .text _ 0 0 _) (drew_execute k command)

theorem Kernel.InColumns.switchTerminal (h : k.InColumns) (t : Fin 3) (junk : Nat → Byte)
    (frame : Regs) : (switchTerminal fs k t junk frame).1.InColumns := by
  have hshow : (if t = k.currTerminalVisible then k else k.showTerminal t).InColumns := by
    split
    · exact h
    · exact h
  exact hshow.drawn (o := .text t 0 0 _) (drew_switchTerminal k t)

/-- `close` clears the screen, if it closes a terminal. -/
theorem Kernel.InColumns.close (h : k.InColumns) (fd : Word) :
    (Syscall.close k fd).kernel.InColumns := by
  refine close_keeps (P := Kernel.InColumns) h (fun op i => ?_) fd
  cases op with
  | stdin | stdout =>
    have hblank : (k.setTerminal k.currTerminalVisible k.visible.blankBuffer).InColumns :=
      h.of_place (place_setTerminal rfl rfl)
    exact hblank.clear
  | file | directory | rtc => exact h

theorem Kernel.InColumns.resumeParent (h : k.InColumns) (currPid : Int) (status junkFd : Word) :
    (resumeParent k currPid status junkFd).1.InColumns := by
  have hgive : (k.giveBack currPid).InColumns := by
    refine h.of_place ?_
    exact place_setTerminal rfl rfl
  have hclose := hgive.close junkFd
  rcases resumeParent_cases k currPid status junkFd with ⟨_, heq⟩ | ⟨_, heq⟩ <;> rw [heq]
  · exact hclose
  · exact hclose

theorem Kernel.InColumns.halt (h : k.InColumns) (status : Byte) (junk : Nat → Byte)
    (junkFd : Word) (regs : Regs) : (halt fs k status junk junkFd regs).1.InColumns := by
  have hhalting : k.halting.InColumns := h
  have hretire : k.halting.retire.InColumns := h.of_place (place_setTerminal rfl rfl)
  have hexec : (LinuxLikeOS.execute fs k.halting.retire (some shell) junk regs).1.InColumns :=
    hretire.execute (some shell) junk regs
  rcases halt_cases fs k status junk junkFd regs with
    ⟨_, pid, arg, eip, image, hrun, heq⟩ | ⟨_, k', v, hrun, heq⟩ | ⟨_, heq⟩
  · rw [hrun] at hexec
    rw [heq]
    exact hexec
  · rw [hrun] at hexec
    rw [heq]
    exact Kernel.InColumns.resumeParent hexec _ _ _
  · rw [heq]
    exact Kernel.InColumns.resumeParent hhalting _ _ _

theorem Kernel.InColumns.writeTerminal (h : k.InColumns) (buf : Nat → Byte) (nbytes : Word) :
    (writeTerminal k buf nbytes).1.InColumns :=
  h.drawn (drawn_writeTerminal k buf nbytes)

theorem Kernel.InColumns.readTerminal (h : k.InColumns) (old : Nat → Byte) (nbytes : Word) :
    (CallResult.ofTerminal k [] (readTerminal k old nbytes)).kernel.InColumns :=
  h.drawn (drawn_read k 0 old nbytes)

/-- **One event** keeps the cursors in the columns. -/
theorem inColumns_step (fs : FileSystem) (h : k.InColumns) (e : Event) :
    (kernelStep fs k e).InColumns := by
  cases e with
  | pitTick | raiseException => exact h
  | switchTo t junk entry frame => exact h.switchTerminal t junk frame
  | execute command junk regs => exact h.execute command junk regs
  | halt status junk junkFd regs => exact h.halt status junk junkFd regs
  | key c =>
    have hdrawn : (Output.text k.currTerminalVisible 0 0 [c]).Drawn k (keyPressed k c) := by
      rw [Output.Drawn, expandTabs, List.flatMap_singleton]
      exact drew_keyPressed k c
    exact h.drawn hdrawn
  | ctrlL => exact h.drawn (drawn_ctrlLPressed k)
  | read fd buf old nbytes =>
    exact read_keeps h (fun _ _ _ => h) (h.readTerminal old nbytes) (h.writeTerminal old nbytes)
      fd buf
  | lineServed => exact h.drawn (drawn_serveLine k 0)
  | write fd buf text nbytes =>
    exact write_keeps h (h.readTerminal text nbytes) (h.writeTerminal text nbytes) (fun _ => h)
      fd buf
  | «open» filename =>
    exact open_keeps (P := Kernel.InColumns) h (fun _ _ => h) (fun _ _ => h) filename
  | close fd => exact h.close fd
  | getargs buf nbytes =>
    show (Syscall.getargs k buf nbytes).kernel.InColumns
    rwa [getargs_kernel]
  | vidmap screenStart => exact vidmap_keeps (P := Kernel.InColumns) h (fun _ => h) screenStart

/-- Before the first shell all cursors are home. -/
theorem inColumns_booted (fs : FileSystem) (h : Hardware) (junk : Nat → Byte) (regs : Regs) :
    (booted fs h junk regs).InColumns := by
  have hhome : ∀ t, (initialised h).place t = Place.origin := fun _ => rfl
  have hinitialised : (initialised h).InColumns := by
    intro t
    rw [hhome]
    decide
  exact hinitialised.execute (some shell) junk regs

end Events

end LinuxLikeOS
