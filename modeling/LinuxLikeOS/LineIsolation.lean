import LinuxLikeOS.TerminalLine
import LinuxLikeOS.TypedLines

/-! # Who gets a line

Every event changes the line of one terminal, in one of the ways that keep it
(`TerminalLine`), or of none; a reader that returns has the line that its call has
cleared.  So returns are as they should be in every run in which a reader's terminal is
visible when it sees, copies or clears a line, nothing is typed behind a finished line,
and no call asks for zero bytes (`isolated_run`).
-/
namespace LinuxLikeOS
open Transition

/-! ## The events, one terminal at a time -/

/-- What keys and readers see of the terminals. -/
def Kernel.inputs (k : Kernel) (t : Fin 3) : Bool × Int :=
  ((k.multiTerminal t).enter, (k.multiTerminal t).keyCount)

section Inputs
variable {k k' : Kernel}

theorem inputs_of_keyLines (h : k'.keyLines = k.keyLines) : k'.inputs = k.inputs :=
  congrArg (fun (lines : Fin 3 → KeyLine) t => ((lines t).enter, (lines t).keyCount)) h

/-- One line has changed. -/
theorem inputs_update {t : Fin 3} {v : KeyLine}
    (h : k'.keyLines = Function.update k.keyLines t v) :
    k'.inputs = Function.update k.inputs t (v.enter, v.keyCount) := by
  have hpair : ∀ (k : Kernel) (u : Fin 3),
      k.inputs u = ((k.keyLines u).enter, (k.keyLines u).keyCount) := fun _ _ => rfl
  funext u
  rw [hpair, h]
  by_cases hu : u = t
  · subst hu
    rw [Function.update_self, Function.update_self]
  · rw [Function.update_of_ne hu, Function.update_of_ne hu, hpair]

end Inputs

section Views
variable {fs : FileSystem} {c c' : Desk × LineLog}

/-- A step that leaves terminal `t` with the view `v` and the others as they are. -/
theorem lineView_changed {t : Fin 3} {v : LineView} {k' : Kernel}
    {reader' : Fin 3 → Option Reader} {log' : LineLog}
    (hin : k'.inputs = Function.update c.1.kernel.inputs t (v.enter, v.keyCount))
    (hreader : reader' = Function.update c.1.reader t v.reader)
    (hcount : log'.count = Function.update c.2.count t v.count)
    (htag : log'.tag = Function.update c.2.tag t v.tag)
    (hcopied : log'.copied = Function.update c.2.copied t v.copied)
    (hcleared : log'.cleared = Function.update c.2.cleared t v.cleared) :
    lineView (⟨k', reader'⟩, log') = Function.update (lineView c) t v := by
  funext u
  have hpair := congrFun hin u
  by_cases hu : u = t
  · subst hu
    rw [Function.update_self] at hpair ⊢
    ext1
    · exact congrArg Prod.fst hpair
    · exact congrArg Prod.snd hpair
    all_goals simp only [lineView, hreader, hcount, htag, hcopied, hcleared, Function.update_self]
  · rw [Function.update_of_ne hu] at hpair ⊢
    ext1
    · exact congrArg Prod.fst hpair
    · exact congrArg Prod.snd hpair
    all_goals simp only [lineView, hreader, hcount, htag, hcopied, hcleared,
      Function.update_of_ne hu]

/-- A step that takes the reader of terminal `t` to `stage`, with no line changed. -/
theorem lineView_goesOn {t : Fin 3} {log' : LineLog} (r : Reader) (stage : Stage)
    (hcount : log'.count = c.2.count) (htag : log'.tag = c.2.tag)
    (hcopied : log'.copied = c.2.copied) (hcleared : log'.cleared = c.2.cleared) :
    lineView (⟨c.1.kernel, Function.update c.1.reader t (r.at stage)⟩, log') =
      Function.update (lineView c) t ((lineView c t).goesOn r stage) := by
  refine lineView_changed (Function.update_eq_self ..).symm rfl ?_ ?_ ?_ ?_
  · rw [hcount]
    exact (Function.update_eq_self ..).symm
  · rw [htag]
    exact (Function.update_eq_self ..).symm
  · rw [hcopied]
    exact (Function.update_eq_self ..).symm
  · rw [hcleared]
    exact (Function.update_eq_self ..).symm

theorem lineView_key (c : Desk × LineLog) (input : Byte) :
    lineView ((deskMachine fs).step c (.key input)) =
      Function.update (lineView c) c.1.kernel.currTerminalVisible
        ((lineView c c.1.kernel.currTerminalVisible).typed c.1.kernel.currTerminalVisible
          input) :=
  lineView_changed (inputs_update (keyLines_keyPressed c.1.kernel input))
    (Function.update_eq_self ..).symm rfl rfl (Function.update_eq_self ..).symm
    (Function.update_eq_self ..).symm

theorem lineView_ctrlL (c : Desk × LineLog) :
    lineView ((deskMachine fs).step c .ctrlL) =
      Function.update (lineView c) c.1.kernel.currTerminalVisible
        (lineView c c.1.kernel.currTerminalVisible).blanked :=
  lineView_changed (inputs_update (keyLines_ctrlLPressed c.1.kernel))
    (Function.update_eq_self ..).symm (Function.update_eq_self ..).symm rfl
    (Function.update_eq_self ..).symm (Function.update_eq_self ..).symm

/-- Events that leave the input of every terminal alone. -/
theorem lineView_same (hin : c'.1.kernel.inputs = c.1.kernel.inputs)
    (hreader : c'.1.reader = c.1.reader) (hlog : c'.2 = c.2) : lineView c' = lineView c := by
  funext t
  have hpair := congrFun hin t
  ext1
  · exact congrArg Prod.fst hpair
  · exact congrArg Prod.snd hpair
  · exact congrFun hreader t
  all_goals simp only [lineView, hlog]

end Views

/-! ## The invariant of all terminals -/

/-- Every terminal's line is kept, and what has been returned is isolated and from
lines before the ones in the buffers. -/
structure LinesKept (c : Desk × LineLog) : Prop where
  kept : ∀ t, (lineView c t).Kept t
  isolated : Isolated c.2
  past : ∀ r ∈ c.2.returns, ∀ g ∈ r.lines, g.2 < (lineView c g.1).current

section Steps
variable {fs : FileSystem} {c c' : Desk × LineLog} {t : Fin 3} {v : LineView}

/-- A change of one terminal leaves the others' lines kept. -/
theorem LinesKept.kept_changed (h : LinesKept c)
    (hview : lineView c' = Function.update (lineView c) t v) (hkept : v.Kept t) (u : Fin 3) :
    (lineView c' u).Kept u := by
  rw [hview]
  by_cases hu : u = t
  · subst hu
    rw [Function.update_self]
    exact hkept
  · rw [Function.update_of_ne hu]
    exact h.kept u

/-- A change of one terminal without a return. -/
theorem LinesKept.update (h : LinesKept c) (hview : lineView c' = Function.update (lineView c) t v)
    (hreturns : c'.2.returns = c.2.returns)
    (hkept : v.Kept t ∧ v.current = (lineView c t).current) : LinesKept c' := by
  refine ⟨h.kept_changed hview hkept.1, ?_, fun r hr g hg => ?_⟩
  · obtain ⟨hown, honce, hcleared⟩ := h.isolated
    exact ⟨by rwa [hreturns], by rwa [hreturns], by rwa [hreturns]⟩
  · rw [hreturns] at hr
    have hpast := h.past r hr g hg
    rw [hview]
    by_cases hg : g.1 = t
    · rw [hg] at hpast ⊢
      rwa [Function.update_self, hkept.2]
    · rwa [Function.update_of_ne hg]

/-- A return of the line in the buffer of `t`, which is cleared. -/
theorem LinesKept.withReturn (h : LinesKept c) {lines cleared : List LineId}
    (hview : lineView c' = Function.update (lineView c) t v)
    (hreturns : c'.2.returns = c.2.returns ++ [⟨t, lines, cleared⟩])
    (hlines : (lineView c t).OnlyCurrent t lines) (hsome : lines ≠ [])
    (hcleared : (lineView c t).OnlyCurrent t cleared)
    (hkept : v.Kept t ∧ (lineView c t).current < v.current) : LinesKept c' := by
  have hcurrent : ∀ u, (lineView c u).current ≤ (lineView c' u).current := by
    intro u
    rw [hview]
    by_cases hu : u = t
    · subst hu
      rw [Function.update_self]
      exact Nat.le_of_lt hkept.2
    · rw [Function.update_of_ne hu]
  refine ⟨h.kept_changed hview hkept.1, ⟨?_, ?_, ?_⟩, ?_⟩
  · intro r hr g hg
    rw [hreturns, List.mem_append, List.mem_singleton] at hr
    rcases hr with hr | rfl
    · exact h.isolated.own r hr g hg
    · rw [hlines g hg]
  · rw [hreturns, List.pairwise_append]
    refine ⟨h.isolated.once, List.pairwise_singleton .., fun r hr r' hr' g hg hg' => ?_⟩
    rw [List.mem_singleton] at hr'
    subst hr'
    -- earlier returns are of earlier lines
    have hpast := h.past r hr g hg
    rw [hlines g hg'] at hpast
    exact Nat.lt_irrefl _ hpast
  · intro r hr g hg
    rw [hreturns, List.mem_append, List.mem_singleton] at hr
    rcases hr with hr | rfl
    · exact h.isolated.cleared r hr g hg
    · -- both lists hold the line in the buffer and nothing else
      obtain ⟨g', hg'⟩ := List.exists_mem_of_ne_nil lines hsome
      rw [hcleared g hg, ← hlines g' hg']
      exact hg'
  · intro r hr g hg
    rw [hreturns, List.mem_append, List.mem_singleton] at hr
    rcases hr with hr | rfl
    · exact Nat.lt_of_lt_of_le (h.past r hr g hg) (hcurrent g.1)
    · rw [hlines g hg, hview]
      simpa using hkept.2

/-- A step that no line takes part in. -/
theorem LinesKept.same (h : LinesKept c) (hview : lineView c' = lineView c) (hlog : c'.2 = c.2) :
    LinesKept c' := by
  refine ⟨?_, ?_, ?_⟩
  · rw [hview]
    exact h.kept
  · rw [hlog]
    exact h.isolated
  · rw [hview, hlog]
    exact h.past

theorem readingTask_pos {nbytes : Word} (h : nbytes ≠ 0) : 0 < readingTask nbytes := by
  unfold readingTask
  split
  · exact Nat.pos_of_ne_zero fun hzero => h (BitVec.eq_of_toNat_eq hzero)
  · decide

theorem LinesKept.beginRead (h : LinesKept c) (old : Nat → Byte) {nbytes : Word}
    (hpos : nbytes ≠ 0) : LinesKept ((deskMachine fs).step c (.beginRead old nbytes)) := by
  cases hr : c.1.reader c.1.kernel.currTerminalExecuting with
  | some r =>
    have hsame : (deskMachine fs).step c (.beginRead old nbytes) = c := by
      simp only [deskMachine, Machine.withHistory, deskStep, recordLines, hr]
    rwa [hsame]
  | none =>
    have hstep : (deskMachine fs).step c (.beginRead old nbytes) =
        (⟨c.1.kernel, Function.update c.1.reader c.1.kernel.currTerminalExecuting
          (some ⟨old, nbytes, .polling⟩)⟩, c.2.begun c.1.kernel.currTerminalExecuting) := by
      simp only [deskMachine, Machine.withHistory, deskStep, recordLines, hr]
    rw [hstep]
    exact h.update (lineView_changed (Function.update_eq_self ..).symm rfl
        (Function.update_eq_self ..).symm (Function.update_eq_self ..).symm rfl rfl) rfl
      ((h.kept _).begun hr old (readingTask_pos hpos))

/-- The state after a step of the reader `r`. -/
theorem step_reader {r : Reader} (hr : c.1.reader c.1.kernel.currTerminalExecuting = some r) :
    (deskMachine fs).step c .readerStep =
      (⟨(readStep r.old r.nbytes (c.1.kernel, r.stage)).1,
        Function.update c.1.reader c.1.kernel.currTerminalExecuting
          (r.at (readStep r.old r.nbytes (c.1.kernel, r.stage)).2)⟩,
        c.2.readerStep c.1.kernel.currTerminalExecuting c.1.kernel.currTerminalVisible r.nbytes
          r.stage) := by
  simp only [deskMachine, Machine.withHistory, deskStep, recordLines, hr, Desk.readerStep]

/-- A step of a reader that stays at its stage. -/
theorem LinesKept.waits (h : LinesKept c) {r : Reader}
    (hr : c.1.reader c.1.kernel.currTerminalExecuting = some r)
    (hstep : readStep r.old r.nbytes (c.1.kernel, r.stage) = (c.1.kernel, r.stage))
    (hat : r.at r.stage = some r)
    (hlog : c.2.readerStep c.1.kernel.currTerminalExecuting c.1.kernel.currTerminalVisible r.nbytes
      r.stage = c.2) : LinesKept ((deskMachine fs).step c .readerStep) := by
  rw [step_reader hr, hstep, hat, hlog, ← hr, Function.update_eq_self]
  exact h

theorem LinesKept.polling (h : LinesKept c) {r : Reader}
    (hr : c.1.reader c.1.kernel.currTerminalExecuting = some r) (hstage : r.stage = .polling)
    (hg : StepAttended c.1.kernel r.nbytes r.stage) :
    LinesKept ((deskMachine fs).step c .readerStep) := by
  obtain ⟨old, nbytes, stage⟩ := r
  subst hstage
  cases henter : c.1.kernel.visible.enter with
  | false => exact h.waits hr (by simp [readStep, henter]) rfl rfl
  | true =>
    -- the line that the reader sees is its own terminal's
    have hvis : c.1.kernel.currTerminalVisible = c.1.kernel.currTerminalExecuting := hg henter
    have henter' : (lineView c c.1.kernel.currTerminalExecuting).enter = true := by
      rw [← hvis]
      exact henter
    rw [step_reader hr]
    simp only [readStep, henter, if_true, LineLog.readerStep]
    exact h.update (lineView_goesOn _ _ rfl rfl rfl rfl) rfl ((h.kept _).answered hr rfl henter')

theorem LinesKept.copying (h : LinesKept c) {r : Reader}
    (hr : c.1.reader c.1.kernel.currTerminalExecuting = some r) {i : Nat} {stored : List Byte}
    (hstage : r.stage = .copying i stored) (hg : StepAttended c.1.kernel r.nbytes r.stage) :
    LinesKept ((deskMachine fs).step c .readerStep) := by
  obtain ⟨old, nbytes, stage⟩ := r
  subst hstage
  rw [step_reader hr]
  by_cases hi : i < readingTask nbytes
  · obtain ⟨hvis, hlt⟩ := hg hi
    -- whether the byte is a newline decides the next stage, and nothing else
    have hcopied : ∀ (k' : Kernel) (stage : Stage), k'.inputs = c.1.kernel.inputs →
        (∃ s, stage = .spinning s) ∨ (∃ s, stage = .copying (i + 1) s) →
        LinesKept (⟨k', Function.update c.1.reader c.1.kernel.currTerminalExecuting
          (Reader.at ⟨old, nbytes, .copying i stored⟩ stage)⟩,
          c.2.copy c.1.kernel.currTerminalExecuting c.1.kernel.currTerminalVisible i) := by
      intro k' stage hin hnext
      rw [hvis]
      exact h.update (lineView_changed (hin.trans (Function.update_eq_self ..).symm) rfl
          (Function.update_eq_self ..).symm (Function.update_eq_self ..).symm rfl
          (Function.update_eq_self ..).symm) rfl
        ((h.kept _).copiedByte hr rfl hlt hnext)
    simp only [readStep, hi, if_true, LineLog.readerStep]
    split
    · exact hcopied _ _ rfl (Or.inl ⟨_, rfl⟩)
    · exact hcopied _ _ rfl (Or.inr ⟨_, rfl⟩)
  · simp only [readStep, hi, if_false, LineLog.readerStep]
    exact h.update (lineView_goesOn _ _ rfl rfl rfl rfl) rfl ((h.kept _).copiedAll hr rfl hi _)

theorem LinesKept.spinning (h : LinesKept c) {r : Reader}
    (hr : c.1.reader c.1.kernel.currTerminalExecuting = some r) {stored : List Byte}
    (hstage : r.stage = .spinning stored) :
    LinesKept ((deskMachine fs).step c .readerStep) := by
  obtain ⟨old, nbytes, stage⟩ := r
  subst hstage
  by_cases hvis : c.1.kernel.currTerminalExecuting = c.1.kernel.currTerminalVisible
  · rw [step_reader hr]
    simp only [readStep, if_pos hvis, LineLog.readerStep]
    rw [← hvis]
    obtain ⟨_, honly, hsome, hcleared⟩ := (h.kept _).reads_at hr rfl
    have hwiped : (lineView c c.1.kernel.currTerminalExecuting).OnlyCurrent
        c.1.kernel.currTerminalExecuting
        ((c.2.clearAll c.1.kernel.currTerminalExecuting c.1.kernel.currTerminalExecuting).cleared
          c.1.kernel.currTerminalExecuting) := by
      intro g hg
      have hnone : c.2.cleared c.1.kernel.currTerminalExecuting = [] := hcleared
      simp only [LineLog.clearAll, Function.update_self, hnone, List.nil_append,
        List.mem_filterMap, List.mem_range] at hg
      obtain ⟨i, hi, htag⟩ := hg
      exact (h.kept _).tagged i g hi htag
    have hin : (clearVisibleLine c.1.kernel).inputs =
        Function.update c.1.kernel.inputs c.1.kernel.currTerminalExecuting (false, 0) := by
      rw [hvis]
      exact inputs_update (keyLines_clearVisibleLine c.1.kernel)
    exact h.withReturn (lineView_changed hin rfl (Function.update_eq_self ..).symm rfl
      (Function.update_eq_self ..).symm rfl) rfl honly hsome hwiped
        ((h.kept _).served hr rfl (LinuxLikeOS.returned stored.length))
  · refine h.waits hr ?_ rfl ?_
    · simp only [readStep, if_neg hvis]
    · simp only [LineLog.readerStep, if_neg hvis]

theorem LinesKept.clearing (h : LinesKept c) {r : Reader}
    (hr : c.1.reader c.1.kernel.currTerminalExecuting = some r) {j : Nat} {stored : List Byte}
    (hstage : r.stage = .clearing j stored) (hg : StepAttended c.1.kernel r.nbytes r.stage) :
    LinesKept ((deskMachine fs).step c .readerStep) := by
  obtain ⟨old, nbytes, stage⟩ := r
  subst hstage
  rw [step_reader hr]
  by_cases hj : j < clearSteps
  · have hvis : c.1.kernel.currTerminalVisible = c.1.kernel.currTerminalExecuting := hg hj
    have hkept := (h.kept _).clearedStep hr rfl hj
    have hin := inputs_update (keyLines_setTerminal c.1.kernel c.1.kernel.currTerminalVisible
      (c.1.kernel.visible.clearStep j))
    have hsame : c.1.kernel.visible = c.1.kernel.executing := by
      rw [Kernel.visible, hvis]
      rfl
    rw [hsame, hvis] at hin
    simp only [readStep, if_pos hj]
    rw [hsame, hvis]
    rcases j with _ | _ | i
    · exact h.update (lineView_changed hin rfl (Function.update_eq_self ..).symm
        (Function.update_eq_self ..).symm (Function.update_eq_self ..).symm
        (Function.update_eq_self ..).symm) rfl hkept
    · exact h.update (lineView_changed hin rfl (Function.update_eq_self ..).symm
        (Function.update_eq_self ..).symm (Function.update_eq_self ..).symm
        (Function.update_eq_self ..).symm) rfl hkept
    · simp only [LineLog.readerStep, if_pos hj]
      exact h.update (lineView_changed hin rfl (Function.update_eq_self ..).symm rfl
        (Function.update_eq_self ..).symm rfl) rfl hkept
  · obtain ⟨i, rfl⟩ : ∃ i, j = i + 2 := ⟨j - 2, by unfold clearSteps at hj; omega⟩
    obtain ⟨honly, hsome, hown, _⟩ := (h.kept _).reads_at hr rfl
    simp only [readStep, if_neg hj, LineLog.readerStep]
    exact h.withReturn (lineView_goesOn _ _ rfl rfl rfl rfl) rfl honly hsome hown
      ((h.kept _).returned hr rfl hj (LinuxLikeOS.returned stored.length))

/-- **One event** keeps every terminal's line, if it is attended. -/
theorem linesKept_step (h : LinesKept c) {e : DeskEvent} (hg : Attended c.1 e) :
    LinesKept ((deskMachine fs).step c e) := by
  cases e with
  | key input => exact h.update (lineView_key c input) rfl ((h.kept _).typed hg input)
  | ctrlL => exact h.update (lineView_ctrlL c) rfl ((h.kept _).blanked hg)
  | switchTo t junk frame =>
    exact h.same
      (lineView_same (inputs_of_keyLines (keyLines_switchTerminal fs t junk frame)) rfl rfl) rfl
  | pitTick regs => exact h.same (lineView_same rfl rfl rfl) rfl
  | beginRead old nbytes => exact h.beginRead old hg
  | readerStep =>
    cases hr : c.1.reader c.1.kernel.currTerminalExecuting with
    | none =>
      have hsame : (deskMachine fs).step c .readerStep = c := by
        simp only [deskMachine, Machine.withHistory, deskStep, recordLines, hr, Desk.readerStep]
      rwa [hsame]
    | some r =>
      have hstep : StepAttended c.1.kernel r.nbytes r.stage := by
        have hreader : ReaderAttended c.1.kernel (c.1.reader c.1.kernel.currTerminalExecuting) := hg
        rwa [hr] at hreader
      cases hstage : r.stage with
      | polling => exact h.polling hr hstage hstep
      | copying i stored => exact h.copying hr hstage hstep
      | spinning stored => exact h.spinning hr hstage
      | clearing j stored => exact h.clearing hr hstage hstep
      | returned ret stored =>
        -- a call that has returned is nobody's reader
        exact ((h.kept _).reads_at hr hstage).elim

theorem linesKept_booted (h : Hardware) (junk : Nat → Byte) (regs : Regs)
    (after : Fin 3 → Nat → Option LineId) : LinesKept (bootedDesk fs h junk regs after) := by
  have hline := keyLines_booted fs h junk regs
  have henter : ∀ t, (lineView (bootedDesk fs h junk regs after) t).enter = false := fun t =>
    congrArg KeyLine.enter (hline t)
  have hcount : ∀ t, (lineView (bootedDesk fs h junk regs after) t).keyCount = 0 := fun t =>
    congrArg KeyLine.keyCount (hline t)
  have hopen : ∀ t, (lineView (bootedDesk fs h junk regs after) t).pending = false := fun t => by
    rw [LineView.pending, henter]
    rfl
  have hreader : ∀ t, (lineView (bootedDesk fs h junk regs after) t).reader = none := fun _ => rfl
  have hreturns : (bootedDesk fs h junk regs after).2.returns = [] := rfl
  refine ⟨fun t => ⟨?_, ?_, ?_, ?_, by simp [hreader]⟩,
    ⟨by simp [hreturns], by simp [hreturns], by simp [hreturns]⟩, by simp [hreturns]⟩
  · intro i g hi hg
    rw [show (lineView (bootedDesk fs h junk regs after) t).tag i = none from if_pos hi] at hg
    cases hg
  · intro hdone
    rw [hopen] at hdone
    cases hdone
  · intro hset
    rw [henter] at hset
    cases hset
  · intro _
    rw [hcount]
    exact ⟨Int.le_refl 0, fun hpos => absurd hpos (Int.lt_irrefl 0)⟩

end Steps

/-- **Line isolation.**  In every attended run from boot, in every state: calls have
returned lines of their own terminals only, no line twice, and cleared no line that they
did not return. -/
theorem isolated_run (fs : FileSystem) (h : Hardware) (junk : Nat → Byte) (regs : Regs)
    (after : Fin 3 → Nat → Option LineId) (es : List DeskEvent)
    (hg : (deskMachine fs).Guarded (fun c e => Attended c.1 e) (bootedDesk fs h junk regs after)
      es) :
    (deskMachine fs).Always (fun c => Isolated c.2) (bootedDesk fs h junk regs after) es := by
  have hkept : (deskMachine fs).Always LinesKept (bootedDesk fs h junk regs after) es :=
    Machine.always_of_step (fun _ _ hkept hattended => linesKept_step hkept hattended)
      (linesKept_booted h junk regs after) hg
  exact hkept.mono fun _ hk => hk.isolated

/-- The first terminal's shell reads; the second terminal is opened and its shell reads
a line typed there; then the first terminal is shown and its shell is given a line. -/
def twoReaders : List DeskEvent :=
  [.beginRead noJunk 127, .readerStep,
    .pitTick ⟨0x7FFE00, 0x7FFE40⟩, .switchTo 1 noJunk ⟨0x7FFD00, 0x7FFD40⟩,
    .beginRead noJunk 127, .key 0x62, .key 0x0A, .readerStep, .readerStep, .readerStep, .readerStep,
    .switchTo 0 noJunk ⟨0x7FDD00, 0x7FDD40⟩, .key 0x61, .key 0x0A,
    .pitTick ⟨0x7FDF00, 0x7FDF40⟩, .pitTick ⟨0x7FDF00, 0x7FDF40⟩,
    .readerStep, .readerStep, .readerStep, .readerStep]

theorem isolated_twoReaders :
    (deskMachine shellImage).Always (fun c => Isolated c.2)
      (bootedDesk shellImage zeroHardware noJunk ⟨0x7FFF00, 0x7FFF40⟩ fun _ _ => none)
      twoReaders :=
  isolated_run shellImage zeroHardware noJunk ⟨0x7FFF00, 0x7FFF40⟩ (fun _ _ => none) twoReaders
    (by decide +kernel)

example : ((deskMachine shellImage).run
    (bootedDesk shellImage zeroHardware noJunk ⟨0x7FFF00, 0x7FFF40⟩ fun _ _ => none)
    twoReaders).2.returns =
      [⟨1, [(1, 0), (1, 0)], [(1, 0), (1, 0)]⟩, ⟨0, [(0, 0), (0, 0)], [(0, 0), (0, 0)]⟩] := by
  decide +kernel

/-- After a tick the second terminal is opened, and after two more the first terminal's shell
reads in the background while a line is typed in the second. -/
def backgroundReader : List DeskEvent :=
  [.pitTick ⟨0x7FFE00, 0x7FFE40⟩, .switchTo 1 noJunk ⟨0x7FFD00, 0x7FFD40⟩,
    .pitTick ⟨0x7FDF00, 0x7FDF40⟩, .pitTick ⟨0x7FDF00, 0x7FDF40⟩,
    .beginRead noJunk 127, .key 0x62, .key 0x0A,
    .readerStep, .readerStep, .readerStep,
    .switchTo 0 noJunk ⟨0x7FFD00, 0x7FFD40⟩, .readerStep]

/-- The first terminal's shell is given the second terminal's line. -/
theorem isolated_backgroundReader :
    ¬∀ (fs : FileSystem) (h : Hardware) (junk : Nat → Byte) (regs : Regs)
      (after : Fin 3 → Nat → Option LineId) (es : List DeskEvent),
      (deskMachine fs).Always (fun c => Isolated c.2) (bootedDesk fs h junk regs after) es := by
  intro hall
  have hown := (hall shellImage zeroHardware noJunk ⟨0x7FFF00, 0x7FFF40⟩ (fun _ _ => none)
    backgroundReader).last.own ⟨0, [(1, 0), (1, 0)], []⟩ (by decide +kernel) (1, 0) (by decide)
  exact absurd hown (by decide)

end LinuxLikeOS
