import LinuxLikeOS.LineEditing
import LinuxLikeOS.ReaderSteps

/-! # What `read_terminal` makes of a finished line

A call that finds a line finished copies it up to its newline, or as much of it as it was
asked for and a newline behind that, and reports how many bytes it has stored
(`ReadsLine`).  `lineRead_iff` says when it does.

There are two slips.  A count of 127 is reported as 128, whatever it counts; and whether
the newline is missing is looked up behind the copied bytes, in what the caller's buffer
held before the call.
-/
namespace LinuxLikeOS
open Transition

/-! ## Finished lines -/

/-- The line of a terminal is finished: `chars` and Enter have been typed, and the buffer
holds as much of that as it has room for. -/
structure CompletedLine (v : KeyLine) (chars : List Byte) : Prop where
  enter : v.enter = true
  noNewline : 0x0A ∉ chars
  held : ∀ i < 128, ∀ h : i < (chars ++ [0x0A]).length, v.keyboardBuffer i = (chars ++ [0x0A])[i]

section Typing
variable {k : Kernel} {v : KeyLine} {chars : List Byte}

/-- Keys without a backspace add to the line. -/
theorem HoldsLine.keys (h : HoldsLine v chars) {keys : List Byte} (hkeys : 0x08 ∉ keys) :
    HoldsLine (keys.foldl KeyLine.typed v) (chars ++ keys) := by
  induction keys generalizing v chars with
  | nil => simpa using h
  | cons c keys ih =>
    rw [List.mem_cons, not_or] at hkeys
    have hadded := ih (h.add fun heq => hkeys.1 heq.symm) hkeys.2
    rwa [List.append_assoc, List.singleton_append] at hadded

theorem enter_keys (keys : List Byte) :
    (keys.foldl KeyLine.typed v).enter = (v.enter || keys.contains 0x0A) := by
  induction keys generalizing v with
  | nil => simp
  | cons c keys ih =>
    have hfirst : (v.typed c).enter = (v.enter || decide (c = 0x0A)) := rfl
    have hsame : decide (c = 0x0A) = ((0x0A : Byte) == c) := by
      rw [BEq.comm]
      rfl
    rw [List.foldl_cons, ih, hfirst, hsame, List.contains_cons, Bool.or_assoc]

/-- A line that has been typed is finished, also if keys have been pressed since. -/
theorem HoldsLine.completed {more : List Byte} (h : HoldsLine v (chars ++ 0x0A :: more))
    (henter : v.enter = true) (hchars : 0x0A ∉ chars) : CompletedLine v chars := by
  refine ⟨henter, hchars, fun i hi hlen => ?_⟩
  have hsplit : chars ++ 0x0A :: more = (chars ++ [0x0A]) ++ more := by simp
  rw [hsplit] at h
  rw [h.get hi (by rw [List.length_append]; omega), List.getElem_append_left hlen]

theorem visible_keyPressed (k : Kernel) (c : Byte) :
    (keyPressed k c).currTerminalVisible = k.currTerminalVisible :=
  (visible_keyLine_of_offScreen (putc_offScreen k c)).1

/-- The keys reach the line of the visible terminal. -/
theorem keyLine_keys (keys : List Byte) :
    (keys.foldl keyPressed k).visible.keyLine = keys.foldl KeyLine.typed k.visible.keyLine := by
  induction keys generalizing k with
  | nil => rfl
  | cons c keys ih =>
    have hline := congrFun (keyLines_keyPressed k c) k.currTerminalVisible
    rw [Function.update_self] at hline
    have hpressed : (keyPressed k c).visible.keyLine = k.visible.keyLine.typed c := by
      rw [Kernel.visible, visible_keyPressed]
      exact hline
    rw [List.foldl_cons, ih, hpressed, List.foldl_cons]

/-- **Typing a line finishes it**: on an empty line, any characters and Enter. -/
theorem completedLine_typed (hempty : HoldsLine k.visible.keyLine []) (hchars : 0x0A ∉ chars)
    {more : List Byte} (hkeys : 0x08 ∉ chars ++ 0x0A :: more) :
    CompletedLine ((chars ++ 0x0A :: more).foldl keyPressed k).visible.keyLine chars := by
  rw [keyLine_keys]
  refine (hempty.keys hkeys).completed ?_ hchars
  rw [enter_keys]
  simp

end Typing

/-! ## The result of a call -/

/-- A call whose wait for its terminal, if it comes to that, ends in `later`. -/
def TerminalRead.served (later : Kernel) : TerminalRead → TerminalRead
  | .spinning _ stored => .done (clearVisibleLine later) (returned stored.length) stored
  | .polling => .polling
  | .done k ret stored => .done k ret stored

/-- What a call should make of a finished line. -/
def TerminalRead.ReadsLine (chars : List Byte) : TerminalRead → Prop
  | .done k ret stored =>
    ret.toNat = stored.length ∧ (∃ part, part <+: chars ∧ stored = part ++ [0x0A]) ∧
      k.visible.enter = false ∧ k.visible.keyCount = 0 ∧
      ∀ i < 128, k.visible.keyboardBuffer i = 0
  | .polling | .spinning .. => False

/-- A line of `m` characters is read well: its newline is among the bytes asked for, and
is not the 127th; or it is not, fewer or more than 126 characters are copied, and the
caller's byte behind them is not a newline. -/
def LineCounted (m : Nat) (old : Nat → Byte) (nbytes : Word) : Prop :=
  let n := min nbytes.toNat 127
  m < n ∧ m ≠ 126 ∨ n ≤ m ∧ n ≠ 126 ∧ old n ≠ 0x0A

instance (m : Nat) (old : Nat → Byte) (nbytes : Word) : Decidable (LineCounted m old nbytes) :=
  inferInstanceAs (Decidable (_ ∨ _))

section Result
variable {k later : Kernel} {chars stored : List Byte} {old : Nat → Byte} {nbytes : Word}

/-- `served` is the step that ends the wait. -/
theorem served_reached (hexec : later.currTerminalExecuting = later.currTerminalVisible) :
    readStep old nbytes (later, .spinning stored) =
      ((TerminalRead.spinning k stored).served later).reached later :=
  if_pos hexec

/-- The copy loop stops behind the newline of a text. -/
theorem copyLine_text {line : Nat → Byte} {text : List Byte} (htext : 0x0A ∉ text) {n i : Nat}
    (hheld : ∀ j < n, ∀ h : j < (text ++ [0x0A]).length, line (i + j) = (text ++ [0x0A])[j]) :
    copyLine line n i = (text ++ [0x0A]).take n := by
  induction text generalizing n i with
  | nil =>
    cases n with
    | zero => rfl
    | succ n =>
      have hhead : line i = 0x0A := hheld 0 n.succ_pos (by decide)
      rw [copyLine, if_pos hhead, hhead, List.nil_append, List.take_succ_cons, List.take_nil]
  | cons c text ih =>
    rw [List.mem_cons, not_or] at htext
    cases n with
    | zero => rfl
    | succ n =>
      have hhead : line i = c := hheld 0 n.succ_pos (Nat.succ_pos _)
      have htail : copyLine line n (i + 1) = (text ++ [0x0A]).take n := by
        refine ih htext.2 fun j hj h => ?_
        have hnext := hheld (j + 1) (Nat.succ_lt_succ hj) (Nat.succ_lt_succ h)
        rwa [show i + (j + 1) = i + 1 + j by omega] at hnext
      rw [copyLine, hhead, if_neg (fun heq => htext.1 heq.symm), htail, List.cons_append,
        List.take_succ_cons]

theorem readingTask_of_pos (hpos : 0 < nbytes.toInt) :
    readingTask nbytes = min nbytes.toNat 127 := by
  have hcond := BitVec.toInt_eq_toNat_cond nbytes
  have hslt : nbytes.slt 127 = decide (nbytes.toInt < 127) := rfl
  rw [readingTask, hslt]
  simp only [decide_eq_true_eq]
  split at hcond <;> split <;> omega

/-- What is copied of a finished line. -/
theorem CompletedLine.copied (h : CompletedLine k.visible.keyLine chars) (hpos : 0 < nbytes.toInt) :
    copiedLine k nbytes = (chars ++ [0x0A]).take (min nbytes.toNat 127) := by
  rw [copiedLine, readingTask_of_pos hpos]
  refine copyLine_text h.noNewline fun j hj hlen => ?_
  rw [Nat.zero_add]
  exact h.held j (by omega) hlen

/-- How a call on a finished line ends. -/
theorem CompletedLine.served (h : CompletedLine k.visible.keyLine chars) (later : Kernel)
    (old : Nat → Byte) (hpos : 0 < nbytes.toInt) :
    ∃ k' stored, (readTerminal k old nbytes).served later =
        .done (clearVisibleLine k') (returned stored.length) stored ∧
      (chars.length < min nbytes.toNat 127 ∧ stored = chars ++ [0x0A] ∨
        min nbytes.toNat 127 ≤ chars.length ∧
          stored = endLine (chars.take (min nbytes.toNat 127)) old) := by
  have hcopied := h.copied hpos
  have henter : k.visible.enter = true := h.enter
  by_cases hlt : chars.length < min nbytes.toNat 127
  · -- the newline is copied, too
    have hall : copiedLine k nbytes = chars ++ [0x0A] := by
      rw [hcopied, List.take_of_length_le
        (by rw [List.length_append, List.length_singleton]; omega)]
    have hmem : 0x0A ∈ copiedLine k nbytes := by
      rw [hall]
      exact List.mem_append_right _ (List.mem_singleton_self _)
    rcases readTerminal_cases k old nbytes with
      ⟨hoff, _⟩ | ⟨_, _, _, heq⟩ | ⟨_, _, _, heq⟩ | ⟨_, hnot, _⟩
    · exact absurd (hoff.symm.trans henter) (by decide)
    · exact ⟨later, copiedLine k nbytes, by rw [heq]; rfl, Or.inl ⟨hlt, hall⟩⟩
    · exact ⟨{ k with jammer := false }, copiedLine k nbytes, by rw [heq]; rfl, Or.inl ⟨hlt, hall⟩⟩
    · exact absurd hmem hnot
  · have hpart : copiedLine k nbytes = chars.take (min nbytes.toNat 127) := by
      rw [hcopied, List.take_append_of_le_length (by omega)]
    have hnot : 0x0A ∉ copiedLine k nbytes := by
      rw [hpart]
      exact fun hmem => h.noNewline (List.mem_of_mem_take hmem)
    rcases readTerminal_cases k old nbytes with
      ⟨hoff, _⟩ | ⟨_, hmem, _⟩ | ⟨_, hmem, _⟩ | ⟨_, _, heq⟩
    · exact absurd (hoff.symm.trans henter) (by decide)
    · exact absurd hmem hnot
    · exact absurd hmem hnot
    · exact ⟨k, endLine (copiedLine k nbytes) old, by rw [heq]; rfl,
        Or.inr ⟨by omega, by rw [hpart]⟩⟩

/-- The line is cleared whatever is returned. -/
theorem visible_clearVisibleLine (k : Kernel) :
    (clearVisibleLine k).visible.enter = false ∧ (clearVisibleLine k).visible.keyCount = 0 ∧
      ∀ i < 128, (clearVisibleLine k).visible.keyboardBuffer i = 0 := by
  have hline : (clearVisibleLine k).visible.keyLine = k.visible.keyLine.cleared := by
    have hlines := congrFun (keyLines_clearVisibleLine k) k.currTerminalVisible
    rwa [Function.update_self] at hlines
  exact ⟨congrArg KeyLine.enter hline, congrArg KeyLine.keyCount hline, fun i hi =>
    (congrFun (congrArg KeyLine.keyboardBuffer hline) i).trans (if_pos hi)⟩

/-- Counts are reported as they are, but for 127. -/
theorem toNat_returned {n : Nat} (hn : n ≤ 128) : (returned n).toNat = n ↔ n ≠ 127 := by
  unfold returned
  rw [BitVec.toNat_ofNat]
  split <;> omega

/-- A line that is stored with its newline. -/
theorem readsLine_whole (k : Kernel) (hlen : chars.length < 127) :
    (TerminalRead.done (clearVisibleLine k) (returned (chars ++ [0x0A]).length)
        (chars ++ [0x0A])).ReadsLine chars ↔ chars.length ≠ 126 := by
  have hlength : (chars ++ [0x0A]).length = chars.length + 1 := by simp
  have hcount := toNat_returned (n := (chars ++ [0x0A]).length) (by omega)
  constructor
  · rintro ⟨hret, -⟩
    have := hcount.mp hret
    omega
  · intro hne
    exact ⟨hcount.mpr (by omega), ⟨chars, List.prefix_rfl, rfl⟩, visible_clearVisibleLine k⟩

/-- The first `n` characters of a line, and what is stored behind them. -/
theorem readsLine_part (k : Kernel) {n : Nat} (hchars : 0x0A ∉ chars) (hpos : 0 < n) (hn : n ≤ 127)
    (hle : n ≤ chars.length) :
    (TerminalRead.done (clearVisibleLine k) (returned (endLine (chars.take n) old).length)
        (endLine (chars.take n) old)).ReadsLine chars ↔ n ≠ 126 ∧ old n ≠ 0x0A := by
  have hlen : (chars.take n).length = n := by
    rw [List.length_take]
    omega
  by_cases hold : old n = 0x0A
  · -- no newline is stored
    have hnone : endLine (chars.take n) old = chars.take n :=
      if_neg (by rw [hlen]; exact fun h => h.2 hold)
    rw [hnone]
    refine iff_of_false ?_ fun h => h.2 hold
    rintro ⟨-, ⟨part, -, hpart⟩, -⟩
    refine hchars (List.mem_of_mem_take (i := n) ?_)
    rw [hpart]
    exact List.mem_append_right _ (List.mem_singleton_self _)
  · have hadded : endLine (chars.take n) old = chars.take n ++ [0x0A] :=
      if_pos (by rw [hlen]; exact ⟨hpos, hold⟩)
    have hlength : (chars.take n ++ [0x0A]).length = n + 1 := by
      rw [List.length_append, hlen, List.length_singleton]
    have hcount := toNat_returned (n := (chars.take n ++ [0x0A]).length) (by omega)
    rw [hadded]
    constructor
    · rintro ⟨hret, -⟩
      have := hcount.mp hret
      exact ⟨by omega, hold⟩
    · rintro ⟨hne, -⟩
      exact ⟨hcount.mpr (by omega), ⟨chars.take n, List.take_prefix n chars, rfl⟩,
        visible_clearVisibleLine k⟩

/-- **The result of `read_terminal`**: a finished line is counted and stored well exactly if
its length, the caller's buffer and `nbytes` keep clear of the two slips. -/
theorem lineRead_iff (hline : CompletedLine k.visible.keyLine chars) (later : Kernel)
    (old : Nat → Byte) (hpos : 0 < nbytes.toInt) :
    ((readTerminal k old nbytes).served later).ReadsLine chars ↔
      LineCounted chars.length old nbytes := by
  obtain ⟨k', stored, heq, hstored⟩ := hline.served later old hpos
  have hnat : 0 < nbytes.toNat := by
    have hcond := BitVec.toInt_eq_toNat_cond nbytes
    split at hcond <;> omega
  rw [heq]
  unfold LineCounted
  generalize hn : min nbytes.toNat 127 = n at hstored
  rcases hstored with ⟨hlt, rfl⟩ | ⟨hle, rfl⟩
  · have hcounted : chars.length < n ∧ chars.length ≠ 126 ∨
        n ≤ chars.length ∧ n ≠ 126 ∧ old n ≠ 0x0A ↔ chars.length ≠ 126 := by
      simp only [hlt, not_le.mpr hlt, true_and, false_and, or_false]
    exact (readsLine_whole k' (by omega)).trans hcounted.symm
  · have hcounted : chars.length < n ∧ chars.length ≠ 126 ∨
        n ≤ chars.length ∧ n ≠ 126 ∧ old n ≠ 0x0A ↔ n ≠ 126 ∧ old n ≠ 0x0A := by
      simp only [hle, not_lt.mpr hle, true_and, false_and, false_or]
    exact (readsLine_part k' hline.noNewline (by omega) (by omega) hle).trans hcounted.symm

end Result

/-- The kernel after booting and the typing of a line. -/
def afterLine (chars : List Byte) : Kernel :=
  (chars ++ [0x0A]).foldl keyPressed (booted shellImage zeroHardware noJunk ⟨0x7FFF00, 0x7FFF40⟩)

theorem completedLine_afterLine {chars : List Byte} (hchars : 0x0A ∉ chars)
    (hkeys : 0x08 ∉ chars ++ [0x0A]) : CompletedLine (afterLine chars).visible.keyLine chars :=
  completedLine_typed (holdsLines_booted shellImage zeroHardware noJunk ⟨0x7FFF00, 0x7FFF40⟩ _)
    hchars hkeys

/-- `ls` and Enter, read with a buffer of 128 bytes. -/
theorem lineRead_ls :
    CompletedLine (afterLine [0x6C, 0x73]).visible.keyLine [0x6C, 0x73] ∧ 0 < (128 : Word).toInt ∧
      (((readTerminal (afterLine [0x6C, 0x73]) noJunk 128).served (afterLine [])).ReadsLine
          [0x6C, 0x73] ↔ LineCounted 2 noJunk 128) :=
  have hline : CompletedLine (afterLine [0x6C, 0x73]).visible.keyLine [0x6C, 0x73] :=
    completedLine_afterLine (by decide) (by decide)
  ⟨hline, by decide, lineRead_iff hline (afterLine []) noJunk (by decide)⟩

/-- A line of 126 characters is stored with its newline, 127 bytes, and 128 are
reported. -/
theorem miscounted_126 :
    ¬∀ (k later : Kernel) (chars : List Byte) (old : Nat → Byte) (nbytes : Word),
      CompletedLine k.visible.keyLine chars → 0 < nbytes.toInt →
        ((readTerminal k old nbytes).served later).ReadsLine chars := by
  intro hall
  have hnever : ∀ {k : Kernel} {chars : List Byte}, chars.length = 126 →
      ¬CompletedLine k.visible.keyLine chars := by
    intro k chars hlen hline
    have hpos : 0 < (128 : Word).toInt := by decide
    have hmin : min (128 : Word).toNat 127 = 127 := rfl
    have hread := hall k k chars noJunk 128 hline hpos
    obtain ⟨k', stored, heq, hstored⟩ := hline.served k noJunk hpos
    rw [heq] at hread
    rw [hmin, hlen] at hstored
    rcases hstored with ⟨-, rfl⟩ | ⟨hle, -⟩
    · have hcount : (chars ++ [0x0A]).length = 127 := by
        rw [List.length_append, hlen]
        rfl
      exact (toNat_returned (by omega)).mp hread.1 hcount
    · omega
  exact hnever (List.length_replicate ..) (completedLine_afterLine
    (show 0x0A ∉ List.replicate 126 (0x61 : Byte) by decide) (by decide))

end LinuxLikeOS
