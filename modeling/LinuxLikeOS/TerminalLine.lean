import LinuxLikeOS.ReaderDesk

/-! # One terminal's line

What the keys and the reader of a terminal have to do with each other is in a few fields
of the state and of its history (`LineView`).  Between a clearing and the next Enter they
hold the line that is being typed; from then to its clearing the line is pending, and
nothing is typed.  `LineView.Kept` is the invariant, and there is one lemma for each thing
that a key or a step of the reader does to these fields.
-/
namespace LinuxLikeOS

/-! ## The fields and their invariant -/

/-- What the invariant is about, for one terminal. -/
@[ext] structure LineView where
  enter : Bool
  keyCount : Int
  reader : Option Reader
  count : Nat
  tag : Nat → Option LineId
  copied : List LineId
  cleared : List LineId

/-- The parts of the state that belong to terminal `t`'s line. -/
def lineView (c : Desk × LineLog) (t : Fin 3) : LineView where
  enter := (c.1.kernel.multiTerminal t).enter
  keyCount := (c.1.kernel.multiTerminal t).keyCount
  reader := c.1.reader t
  count := c.2.count t
  tag := c.2.tag t
  copied := c.2.copied t
  cleared := c.2.cleared t

namespace LineView
variable (t : Fin 3) (v : LineView)

/-- A finished line has not been cleared. -/
def pending : Bool := v.enter || Reader.isClearing v.reader

/-- The number of the line in the buffer. -/
def current : Nat := if v.pending then v.count - 1 else v.count

/-- All of these are the line in the buffer. -/
def OnlyCurrent (lines : List LineId) : Prop := ∀ g ∈ lines, g = (t, v.current)

/-- A call of the terminal's reader has copied and cleared the line in the buffer only. -/
def Reads (nbytes : Word) : Stage → Prop
  | .polling => 0 < readingTask nbytes ∧ v.copied = [] ∧ v.cleared = []
  | .copying i _ => 0 < readingTask nbytes ∧ v.enter = true ∧ v.OnlyCurrent t v.copied ∧
      (0 < i → v.copied ≠ []) ∧ v.cleared = []
  | .spinning _ => v.enter = true ∧ v.OnlyCurrent t v.copied ∧ v.copied ≠ [] ∧ v.cleared = []
  | .clearing j _ => v.OnlyCurrent t v.copied ∧ v.copied ≠ [] ∧ v.OnlyCurrent t v.cleared ∧
      (0 < j → v.enter = false) ∧ (1 < j → v.keyCount = 0) ∧ ∀ i, i + 2 < j → v.tag i = none
  | .returned .. => False

/-- The invariant of one terminal: its buffer holds one line, which starts at its first
byte, and its reader has that line. -/
structure Kept : Prop where
  tagged : ∀ i g, i < 128 → v.tag i = some g → g = (t, v.current)
  counted : v.pending = true → 0 < v.count
  first : v.enter = true → v.tag 0 ≠ none
  typing : v.pending = false → 0 ≤ v.keyCount ∧ (0 < v.keyCount → v.tag 0 ≠ none)
  reading : ∀ r, v.reader = some r → v.Reads t r.nbytes r.stage

end LineView

/-! ## What the events do to it -/

namespace LineView
variable (t : Fin 3) (v : LineView)

/-- A key. -/
def typed (c : Byte) : LineView :=
  { v with
    enter := v.enter || c = 0x0A
    keyCount := if c = 0x08 ∧ 0 < v.keyCount then v.keyCount - 1 else v.keyCount + 1
    count := if c = 0x0A then v.count + 1 else v.count
    tag := if 128 ≤ v.keyCount then v.tag
      else if c = 0x08 ∧ 0 < v.keyCount then Function.update v.tag (v.keyCount - 1).toNat none
      else Function.update v.tag v.keyCount.toNat (some (t, v.count)) }

/-- Ctrl and L. -/
def blanked : LineView :=
  { v with keyCount := 0, tag := fun i => if i < 128 then none else v.tag i }

/-- A call begins. -/
def begun (old : Nat → Byte) (nbytes : Word) : LineView :=
  { v with reader := some ⟨old, nbytes, .polling⟩, copied := [], cleared := [] }

/-- The call goes on to another stage. -/
def goesOn (r : Reader) (stage : Stage) : LineView := { v with reader := r.at stage }

/-- Byte `i` is copied. -/
def copiedByte (i : Nat) : LineView := { v with copied := v.copied ++ (v.tag i).toList }

/-- The first `j` assignments have been made, and now the next one. -/
def clearedStep : Nat → LineView
  | 0 => { v with enter := false }
  | 1 => { v with keyCount := 0 }
  | i + 2 =>
    { v with
      tag := Function.update v.tag i none
      cleared := v.cleared ++ (v.tag i).toList }

/-- The whole line is cleared. -/
def clearedLine : LineView :=
  { v.blanked with
    enter := false
    cleared := v.cleared ++ (List.range 128).filterMap v.tag }

end LineView

section Kept
variable {t : Fin 3} {v : LineView} {r : Reader}

theorem LineView.current_open (h : v.pending = false) : v.current = v.count := by
  rw [LineView.current, h]
  rfl

theorem LineView.current_pending (h : v.pending = true) : v.current = v.count - 1 := by
  rw [LineView.current, h]
  rfl

theorem LineView.pending_eq_false :
    v.pending = false ↔ v.enter = false ∧ Reader.isClearing v.reader = false :=
  Bool.or_eq_false_iff

/-- What a reader has done at its stage. -/
theorem LineView.Kept.reads_at (h : v.Kept t) (hr : v.reader = some r) {stage : Stage}
    (hstage : r.stage = stage) : v.Reads t r.nbytes stage := by
  rw [← hstage]
  exact h.reading r hr

/-- A line that has not been finished has no reader, or one that polls. -/
theorem LineView.Kept.polls (h : v.Kept t) (hopen : v.pending = false) (hr : v.reader = some r) :
    r.stage = .polling := by
  obtain ⟨henter, hclear⟩ := LineView.pending_eq_false.mp hopen
  have hreads := h.reading r hr
  obtain ⟨old, nbytes, stage⟩ := r
  cases stage with
  | polling => rfl
  | copying i stored =>
    rw [hreads.2.1] at henter
    exact nomatch henter
  | spinning stored =>
    rw [hreads.1] at henter
    exact nomatch henter
  | clearing j stored =>
    rw [hr] at hclear
    exact nomatch hclear
  | returned ret stored => exact hreads.elim

/-- A step that does not touch the reader of an open line leaves it polling. -/
theorem LineView.Kept.stillPolls {v' : LineView} (h : v.Kept t) (hopen : v.pending = false)
    (hreader : v'.reader = v.reader) (hcopied : v'.copied = v.copied)
    (hcleared : v'.cleared = v.cleared) :
    ∀ r, v'.reader = some r → v'.Reads t r.nbytes r.stage := by
  intro r hr
  rw [hreader] at hr
  have hstage := h.polls hopen hr
  obtain ⟨hpos, hnone, hnone'⟩ := h.reads_at hr hstage
  rw [hstage]
  exact ⟨hpos, hcopied.trans hnone, hcleared.trans hnone'⟩

/-- Keys fill the buffer from its first byte on. -/
theorem LineView.Kept.typed_first (h : v.Kept t) (hopen : v.pending = false) (c : Byte) :
    0 ≤ (v.typed t c).keyCount ∧ (0 < (v.typed t c).keyCount → (v.typed t c).tag 0 ≠ none) := by
  obtain ⟨hnonneg, hfirst⟩ := h.typing hopen
  simp only [LineView.typed]
  by_cases hfull : 128 ≤ v.keyCount
  · rw [if_pos hfull]
    refine ⟨by split <;> omega, fun _ => hfirst (by omega)⟩
  · rw [if_neg hfull]
    by_cases hback : c = 0x08 ∧ 0 < v.keyCount
    · simp only [if_pos hback]
      refine ⟨by omega, fun hpos => ?_⟩
      rw [Function.update_of_ne (by omega)]
      exact hfirst hback.2
    · simp only [if_neg hback]
      refine ⟨by omega, fun _ => ?_⟩
      by_cases hzero : v.keyCount = 0
      · simp [hzero]
      · rw [Function.update_of_ne (by omega)]
        exact hfirst (by omega)

/-- A key typed in a terminal whose line is not finished belongs to that line. -/
theorem LineView.Kept.typed (h : v.Kept t) (hopen : v.pending = false) (c : Byte) :
    (v.typed t c).Kept t ∧ (v.typed t c).current = v.current := by
  obtain ⟨hunset, hclear⟩ := LineView.pending_eq_false.mp hopen
  have hpending : (v.typed t c).pending = decide (c = 0x0A) := by
    simp [LineView.pending, LineView.typed, hunset, hclear]
  -- Enter counts the line and makes it pending, so its number stays the same
  have hcurrent : (v.typed t c).current = v.count := by
    rw [LineView.current, hpending]
    by_cases hline : c = 0x0A
    · simp [LineView.typed, hline]
    · simp only [LineView.typed, hline, decide_false, Bool.false_eq_true, if_false]
  rw [LineView.current_open hopen]
  refine ⟨⟨?_, ?_, ?_, ?_, ?_⟩, hcurrent⟩
  · intro i g hi hg
    rw [hcurrent]
    have hold : v.tag i = some g → g = (t, v.count) := fun hg => by
      rw [h.tagged i g hi hg, LineView.current_open hopen]
    simp only [LineView.typed] at hg
    split at hg
    · exact hold hg
    · split at hg
      · rw [Function.update_apply] at hg
        split at hg
        · cases hg
        · exact hold hg
      · rw [Function.update_apply] at hg
        split at hg
        · exact (Option.some.inj hg).symm
        · exact hold hg
  · intro hdone
    rw [hpending, decide_eq_true_iff] at hdone
    simp [LineView.typed, hdone]
  · intro henter
    have hline : c = 0x0A := by simpa [LineView.typed, hunset] using henter
    obtain ⟨hnonneg, _⟩ := h.typing hopen
    refine (h.typed_first hopen c).2 ?_
    simp only [LineView.typed, hline]
    rw [if_neg (by simp)]
    omega
  · exact fun _ => h.typed_first hopen c
  · exact h.stillPolls hopen rfl rfl rfl

/-- A line that is not finished may be dropped. -/
theorem LineView.Kept.blanked (h : v.Kept t) (hopen : v.pending = false) :
    v.blanked.Kept t ∧ v.blanked.current = v.current := by
  obtain ⟨hunset, _⟩ := LineView.pending_eq_false.mp hopen
  refine ⟨⟨?_, h.counted, ?_, ?_, ?_⟩, rfl⟩
  · intro i g hi hg
    simp [LineView.blanked, hi] at hg
  · intro henter
    rw [show v.blanked.enter = v.enter from rfl, hunset] at henter
    cases henter
  · exact fun _ => ⟨Int.le_refl 0, fun hpos => absurd hpos (Int.lt_irrefl 0)⟩
  · exact h.stillPolls hopen rfl rfl rfl

/-- A call that begins waits for a line. -/
theorem LineView.Kept.begun (h : v.Kept t) (hnone : v.reader = none) (old : Nat → Byte)
    {nbytes : Word} (hpos : 0 < readingTask nbytes) :
    (v.begun old nbytes).Kept t ∧ (v.begun old nbytes).current = v.current := by
  have hpending : (v.begun old nbytes).pending = v.pending := by
    simp only [LineView.pending, LineView.begun, hnone]
    rfl
  have hcurrent : (v.begun old nbytes).current = v.current := by
    rw [LineView.current, hpending]
    rfl
  refine ⟨⟨?_, ?_, h.first, ?_, ?_⟩, hcurrent⟩
  · rw [hcurrent]
    exact h.tagged
  · rw [hpending]
    exact h.counted
  · rw [hpending]
    exact h.typing
  · intro r hr
    rw [LineView.begun, Option.some.injEq] at hr
    rw [← hr]
    exact ⟨hpos, rfl, rfl⟩

/-- A step on a finished line that does not finish its clearing. -/
theorem LineView.Kept.pendingStep {v' : LineView} (h : v.Kept t) (hdone : v.pending = true)
    (hdone' : v'.pending = true) (hcount : v'.count = v.count)
    (htag : ∀ i g, v'.tag i = some g → v.tag i = some g)
    (hfirst : v'.enter = true → v'.tag 0 ≠ none)
    (hreading : ∀ r, v'.reader = some r → v'.Reads t r.nbytes r.stage) :
    v'.Kept t ∧ v'.current = v.current := by
  have hcurrent : v'.current = v.current := by
    rw [LineView.current_pending hdone', LineView.current_pending hdone, hcount]
  refine ⟨⟨?_, ?_, hfirst, ?_, hreading⟩, hcurrent⟩
  · intro i g hi hg
    rw [hcurrent]
    exact h.tagged i g hi (htag i g hg)
  · intro _
    rw [hcount]
    exact h.counted hdone
  · intro hopen
    rw [hdone'] at hopen
    cases hopen

/-- A step that leaves the terminal with an empty line and no reader. -/
theorem LineView.Kept.finished {v' : LineView} (h : v.Kept t) (hdone : v.pending = true)
    (henter : v'.enter = false) (hreader : v'.reader = none) (hcount : v'.count = v.count)
    (hkey : v'.keyCount = 0) (htag : ∀ i, i < 128 → v'.tag i = none) :
    v'.Kept t ∧ v.current < v'.current := by
  have hopen : v'.pending = false := by
    rw [LineView.pending, henter, hreader]
    rfl
  have hpos := h.counted hdone
  refine ⟨⟨?_, ?_, ?_, ?_, ?_⟩, ?_⟩
  · intro i g hi hg
    rw [htag i hi] at hg
    cases hg
  · intro hdone'
    rw [hopen] at hdone'
    cases hdone'
  · intro henter'
    rw [henter] at henter'
    cases henter'
  · intro _
    rw [hkey]
    exact ⟨Int.le_refl 0, fun hpos => absurd hpos (Int.lt_irrefl 0)⟩
  · intro r hr
    rw [hreader] at hr
    cases hr
  · rw [LineView.current_open hopen, LineView.current_pending hdone, hcount]
    omega

theorem LineView.reading_goesOn {stage : Stage}
    (hreads : (v.goesOn r stage).Reads t r.nbytes stage) :
    ∀ r', (v.goesOn r stage).reader = some r' → (v.goesOn r stage).Reads t r'.nbytes r'.stage := by
  intro r' hr'
  have heq : r' = { r with stage := stage } := Reader.eq_of_at hr'
  rw [heq]
  exact hreads

theorem LineView.pending_of_enter (henter : v.enter = true) : v.pending = true := by
  rw [LineView.pending, henter]
  rfl

theorem LineView.pending_of_clearing {j : Nat} {stored : List Byte} (hr : v.reader = some r)
    (hstage : r.stage = .clearing j stored) : v.pending = true := by
  obtain ⟨old, nbytes, stage⟩ := r
  subst hstage
  rw [LineView.pending, hr]
  exact Bool.or_true _

theorem LineView.pending_goesOn_clearing (j : Nat) (stored : List Byte) :
    (v.goesOn r (.clearing j stored)).pending = true := Bool.or_true _

/-- The reader sees that its line is finished. -/
theorem LineView.Kept.answered (h : v.Kept t) (hr : v.reader = some r) (hstage : r.stage = .polling)
    (henter : v.enter = true) :
    (v.goesOn r (.copying 0 [])).Kept t ∧ (v.goesOn r (.copying 0 [])).current = v.current := by
  obtain ⟨hpos, hcopied, hcleared⟩ := h.reads_at hr hstage
  have hnone : ∀ g, g ∉ v.copied := by simp [hcopied]
  exact h.pendingStep (LineView.pending_of_enter henter) (LineView.pending_of_enter henter) rfl
    (fun _ _ hg => hg) h.first (LineView.reading_goesOn
      ⟨hpos, henter, fun g hg => absurd hg (hnone g), nofun, hcleared⟩)

/-- The reader copies a byte of its line. -/
theorem LineView.Kept.copiedByte (h : v.Kept t) (hr : v.reader = some r) {i : Nat}
    {stored : List Byte} (hstage : r.stage = .copying i stored) (hi : i < 128) {stage : Stage}
    (hnext : (∃ s, stage = .spinning s) ∨ ∃ s, stage = .copying (i + 1) s) :
    ((v.copiedByte i).goesOn r stage).Kept t ∧
      ((v.copiedByte i).goesOn r stage).current = v.current := by
  obtain ⟨hpos, henter, honly, hsome, hcleared⟩ := h.reads_at hr hstage
  have hdone := LineView.pending_of_enter henter
  have hdone' : ((v.copiedByte i).goesOn r stage).pending = true :=
    LineView.pending_of_enter henter
  have hcurrent : ((v.copiedByte i).goesOn r stage).current = v.current := by
    rw [LineView.current_pending hdone', LineView.current_pending hdone]
    rfl
  have honly' : ((v.copiedByte i).goesOn r stage).OnlyCurrent t
      (v.copied ++ (v.tag i).toList) := by
    intro g hg
    rw [hcurrent]
    rcases List.mem_append.mp hg with hg | hg
    · exact honly g hg
    · exact h.tagged i g hi (Option.mem_toList.mp hg)
  have hsome' : v.copied ++ (v.tag i).toList ≠ [] := by
    intro hnil
    obtain ⟨hcopied, htag⟩ := List.append_eq_nil_iff.mp hnil
    -- the first byte of a finished line is tagged, so something has been copied
    rcases Nat.eq_zero_or_pos i with hzero | hi
    · subst hzero
      exact h.first henter (by simpa using htag)
    · exact hsome hi hcopied
  refine h.pendingStep hdone hdone' rfl (fun _ _ hg => hg) h.first (LineView.reading_goesOn ?_)
  rcases hnext with ⟨s, rfl⟩ | ⟨s, rfl⟩
  · exact ⟨henter, honly', hsome', hcleared⟩
  · exact ⟨hpos, henter, honly', fun _ => hsome', hcleared⟩

/-- The reader has copied what it was asked for and goes on to clear. -/
theorem LineView.Kept.copiedAll (h : v.Kept t) (hr : v.reader = some r) {i : Nat}
    {stored : List Byte} (hstage : r.stage = .copying i stored) (hi : ¬i < readingTask r.nbytes)
    (stored' : List Byte) :
    (v.goesOn r (.clearing 0 stored')).Kept t ∧
      (v.goesOn r (.clearing 0 stored')).current = v.current := by
  obtain ⟨hpos, henter, honly, hsome, hcleared⟩ := h.reads_at hr hstage
  have hdone := LineView.pending_of_enter henter
  have hcurrent : (v.goesOn r (.clearing 0 stored')).current = v.current := by
    rw [LineView.current_pending (LineView.pending_goesOn_clearing 0 stored'),
      LineView.current_pending hdone]
    rfl
  have hnone : ∀ g, g ∉ v.cleared := by simp [hcleared]
  refine h.pendingStep hdone (LineView.pending_goesOn_clearing 0 stored') rfl (fun _ _ hg => hg)
    h.first (LineView.reading_goesOn ⟨?_, hsome (by omega), fun g hg => absurd hg (hnone g), nofun,
      nofun, fun i hi => by omega⟩)
  intro g hg
  rw [hcurrent]
  exact honly g hg

/-- The reader makes an assignment that clears its line. -/
theorem LineView.Kept.clearedStep (h : v.Kept t) (hr : v.reader = some r) {j : Nat}
    {stored : List Byte} (hstage : r.stage = .clearing j stored) (hj : j < clearSteps) :
    ((v.clearedStep j).goesOn r (.clearing (j + 1) stored)).Kept t ∧
      ((v.clearedStep j).goesOn r (.clearing (j + 1) stored)).current = v.current := by
  obtain ⟨honly, hsome, hown, henter, hkey, hblank⟩ := h.reads_at hr hstage
  have hdone := LineView.pending_of_clearing hr hstage
  have hcount : (v.clearedStep j).count = v.count := by
    rcases j with _ | _ | i <;> rfl
  have hdone' := LineView.pending_goesOn_clearing (v := v.clearedStep j) (r := r) (j + 1) stored
  have hcurrent : ((v.clearedStep j).goesOn r (.clearing (j + 1) stored)).current = v.current := by
    rw [LineView.current_pending hdone', LineView.current_pending hdone]
    exact congrArg (· - 1) hcount
  have honly' : ∀ g ∈ v.copied, g = (t, v.current) := honly
  rw [← hcurrent] at honly'
  -- `enter`, then `key_count`, then the bytes
  rcases j with _ | _ | i
  · exact h.pendingStep hdone hdone' rfl (fun _ _ hg => hg) nofun (LineView.reading_goesOn
      ⟨honly', hsome, by rwa [LineView.OnlyCurrent, hcurrent], fun _ => rfl, fun hlt => by omega,
        fun i hi => by omega⟩)
  · have hent : v.enter = false := henter (by omega)
    refine h.pendingStep hdone hdone' rfl (fun _ _ hg => hg) ?_ (LineView.reading_goesOn
      ⟨honly', hsome, by rwa [LineView.OnlyCurrent, hcurrent], fun _ => hent, fun _ => rfl,
        fun i hi => by omega⟩)
    intro hset
    rw [show ((v.clearedStep 1).goesOn r _).enter = v.enter from rfl, hent] at hset
    cases hset
  · have hent : v.enter = false := henter (by omega)
    refine h.pendingStep hdone hdone' rfl ?_ ?_ (LineView.reading_goesOn
      ⟨honly', hsome, ?_, fun _ => hent, fun _ => hkey (by omega), ?_⟩)
    · intro k g hg
      simp only [LineView.goesOn, LineView.clearedStep, Function.update_apply] at hg
      split at hg
      · cases hg
      · exact hg
    · intro hset
      rw [show ((v.clearedStep (i + 2)).goesOn r _).enter = v.enter from rfl, hent] at hset
      cases hset
    · intro g hg
      rw [hcurrent]
      rcases List.mem_append.mp hg with hg | hg
      · exact hown g hg
      · exact h.tagged i g (by unfold clearSteps at hj; omega) (Option.mem_toList.mp hg)
    · intro k hk
      simp only [LineView.goesOn, LineView.clearedStep, Function.update_apply]
      split
      · rfl
      · exact hblank k (by omega)

/-- The reader's terminal is visible again, and the call clears the line and returns. -/
theorem LineView.Kept.served (h : v.Kept t) (hr : v.reader = some r) {stored : List Byte}
    (hstage : r.stage = .spinning stored) (ret : Word) :
    (v.clearedLine.goesOn r (.returned ret stored)).Kept t ∧
      v.current < (v.clearedLine.goesOn r (.returned ret stored)).current := by
  obtain ⟨henter, _⟩ := h.reads_at hr hstage
  exact h.finished (LineView.pending_of_enter henter) rfl rfl rfl rfl (fun i hi => if_pos hi)

/-- The call has cleared the line and returns. -/
theorem LineView.Kept.returned (h : v.Kept t) (hr : v.reader = some r) {j : Nat}
    {stored : List Byte} (hstage : r.stage = .clearing j stored) (hj : ¬j < clearSteps)
    (ret : Word) :
    (v.goesOn r (.returned ret stored)).Kept t ∧
      v.current < (v.goesOn r (.returned ret stored)).current := by
  obtain ⟨_, _, _, henter, hkey, hblank⟩ := h.reads_at hr hstage
  unfold clearSteps at hj
  exact h.finished (LineView.pending_of_clearing hr hstage) (henter (by omega)) rfl rfl
    (hkey (by omega)) (fun i hi => hblank i (by omega))

end Kept

end LinuxLikeOS
