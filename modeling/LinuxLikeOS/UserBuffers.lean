import LinuxLikeOS.SystemCalls

/-! # What is stored in a caller's buffer

`read` and `getargs` store through a pointer that the caller hands in, consecutive bytes
from there on.  How many they are has a closed form for each driver (`readStores`), and
what a call returns and stores is known from what it was dispatched to (`Answers`).

`read` is dispatched in one state and its driver may answer in a later one.  The
caller's buffer is the caller's memory: the kernel's own data are not changed by storing
into it.
-/
namespace LinuxLikeOS
open CountedLoop

/-! ## A call that has its waits behind it -/

/-- `read`, dispatched in `k`, whose driver finds its data in `later`, when it returns:
`read_terminal` waits until the executing terminal is the visible one. -/
def Syscall.readReturned (fs : FileSystem) (k later : Kernel) (fd buf : Word) (old : Nat → Byte)
    (nbytes : Word) : CallResult :=
  Syscall.readAnswered fs k { later with currTerminalExecuting := later.currTerminalVisible } fd buf
    old nbytes

/-- `max(nbytes, 0)`. -/
def bufferSize (nbytes : Word) : Nat := nbytes.toInt.toNat

/-! ## How many bytes are stored -/

/-- The bytes `read_terminal` stores of a finished line: up to the newline if that comes
in time, and otherwise as many as it was asked for, and a newline unless there is one
behind them already. -/
def lineStores (line old : Nat → Byte) (nbytes : Word) : Nat :=
  let n := readingTask nbytes
  if leading (inLine line) n 0 < n then leading (inLine line) n 0 + 1
  else if 0 < n ∧ old n ≠ 0x0A then n + 1
  else n

theorem length_endLine (copied : List Byte) (old : Nat → Byte) :
    (endLine copied old).length =
      if 0 < copied.length ∧ old copied.length ≠ 0x0A then copied.length + 1
      else copied.length := by
  unfold endLine
  split <;> simp

theorem lineStores_of_newline {k : Kernel} {nbytes : Word} (h : 0x0A ∈ copiedLine k nbytes)
    (old : Nat → Byte) :
    (copiedLine k nbytes).length = lineStores k.visible.keyboardBuffer old nbytes := by
  have hlt := (newline_mem_copyLine _ _).mp h
  rw [copiedLine, length_copyLine, lineStores, if_pos hlt, if_pos hlt]

theorem lineStores_of_none {k : Kernel} {nbytes : Word} (h : 0x0A ∉ copiedLine k nbytes)
    (old : Nat → Byte) :
    (endLine (copiedLine k nbytes) old).length =
      lineStores k.visible.keyboardBuffer old nbytes := by
  have hlen := length_copyLine_of_notMem h
  have hnot := mt (newline_mem_copyLine _ _).mpr h
  rw [length_endLine, copiedLine, hlen, lineStores, if_neg hnot]

/-- The bytes `directory_read` stores: a file name, or nothing past the last entry. -/
def nameStores (fs : FileSystem) (e : FdEntry) : Nat :=
  ((fs.readDentryByIndex e.filePosition).map fun d => d.filename.strlen).getD 0

/-- The bytes `file_read` stores: up to the first position that holds none. -/
def fileStores (fs : FileSystem) (e : FdEntry) (nbytes : Word) : Nat :=
  if fs.unreadable e.inode e.filePosition then 0
  else leading (fs.holdsByte e.inode e.filePosition) nbytes.toNat 0

/-- The descriptor that the file and directory drivers read. -/
def driverEntry (later : Kernel) (i : Fin 8) : FdEntry := (later.pcb later.guessedSlot).fd i

section Dispatched
variable (fs : FileSystem) (later : Kernel) (old : Nat → Byte) (nbytes : Word)

/-- The bytes stored by a `read` that was dispatched so. -/
def readStores : Dispatch → Nat
  | .driver _ .stdin =>
    if later.visible.enter then lineStores later.visible.keyboardBuffer old nbytes else 0
  | .driver i .file => fileStores fs (driverEntry later i) nbytes
  | .driver i .directory => nameStores fs (driverEntry later i)
  | .driver _ .stdout | .driver _ .rtc | .refused | .null _ => 0

/-- The checks that make such a `read` return -1 before it stores anything. -/
def ReadRefuses : Dispatch → Prop
  | .refused => True
  | .driver i .file =>
    fs.unreadable (driverEntry later i).inode (driverEntry later i).filePosition = true
  | .driver _ .stdin | .driver _ .stdout | .driver _ .directory | .driver _ .rtc | .null _ => False

/-- What such a `read` returns and stores. -/
def Answers (r : CallResult) : Dispatch → Prop
  | .refused => r.ret = some minusOne ∧ r.stored = []
  | .null _ => r.ret = none ∧ r.stored = []
  | .driver _ .stdin =>
    if later.visible.enter then r.ret = some (returned r.stored.length) ∧
      r.stored.length = lineStores later.visible.keyboardBuffer old nbytes
    else r.ret = none ∧ r.stored = []
  | .driver _ .stdout =>
    (∃ n, n ≤ bufferSize nbytes ∧ r.ret = some (BitVec.ofNat 32 n)) ∧ r.stored = []
  | .driver i .file =>
    let data := fs.readData (driverEntry later i).inode (driverEntry later i).filePosition nbytes
    r.ret = some data.ret ∧ r.stored = data.stored
  | .driver i .directory => r.ret = some (BitVec.ofNat 32 r.stored.length) ∧
      r.stored.length = nameStores fs (driverEntry later i)
  | .driver _ .rtc => r.ret = some 0 ∧ r.stored = []

end Dispatched

section Read
variable {fs : FileSystem} {k later : Kernel} {fd buf : Word} {old : Nat → Byte} {nbytes : Word}

theorem dispatchRead_driver {slot : Byte} {i : Fin 8} {op : FileOperation}
    (h : dispatchRead k slot fd buf = .driver i op) : buf ≠ 0 := by
  unfold dispatchRead at h
  split at h
  · cases h
  · split at h
    · cases h
    · rename_i hnot
      exact fun hbuf => hnot (Or.inr hbuf)

/-- `read_terminal` when it returns: what it has stored and what it returns. -/
theorem readTerminal_returned (k : Kernel) (old : Nat → Byte) (nbytes : Word)
    (hexec : k.currTerminalExecuting = k.currTerminalVisible) :
    (k.visible.enter = false ∧ readTerminal k old nbytes = .polling) ∨
    (k.visible.enter = true ∧ ∃ k' stored,
      readTerminal k old nbytes = .done k' (returned stored.length) stored ∧
      stored.length = lineStores k.visible.keyboardBuffer old nbytes) := by
  rcases readTerminal_cases k old nbytes with
    ⟨henter, heq⟩ | ⟨_, _, hne, _⟩ | ⟨henter, hline, _, heq⟩ | ⟨henter, hline, heq⟩
  · exact Or.inl ⟨henter, heq⟩
  · exact absurd hexec hne
  · exact Or.inr ⟨henter, _, _, heq, lineStores_of_newline hline old⟩
  · exact Or.inr ⟨henter, _, _, heq, lineStores_of_none hline old⟩

/-- `write_terminal` returns the number of bytes it has drawn. -/
theorem writeTerminal_ret (k : Kernel) (buf : Nat → Byte) (nbytes : Word) :
    ∃ n, n ≤ bufferSize nbytes ∧ (writeTerminal k buf nbytes).2 = BitVec.ofNat 32 n := by
  unfold writeTerminal
  split
  · exact ⟨0, Nat.zero_le _, rfl⟩
  · split
    · exact ⟨0, Nat.zero_le _, rfl⟩
    · exact ⟨bufferSize nbytes, Nat.le_refl _, by simp [bufferSize]⟩

/-- **What `read` returns and stores**, by what it is dispatched to. -/
theorem readReturned_answers (fs : FileSystem) (k later : Kernel) (fd buf : Word)
    (old : Nat → Byte) (nbytes : Word) :
    Answers fs later old nbytes (Syscall.readReturned fs k later fd buf old nbytes)
      (dispatchRead k k.visibleSlot fd buf) := by
  let k' : Kernel := { later with currTerminalExecuting := later.currTerminalVisible }
  have hread : Syscall.readReturned fs k later fd buf old nbytes =
      readWith fs k k' k.visibleSlot later.guessedSlot fd buf old nbytes := rfl
  rw [hread, readWith]
  cases hd : dispatchRead k k.visibleSlot fd buf with
  | refused => exact ⟨rfl, rfl⟩
  | null i => exact ⟨rfl, rfl⟩
  | driver i op =>
    have hbuf := dispatchRead_driver hd
    cases op with
    | stdin =>
      simp only [Answers, runRead]
      rcases readTerminal_returned k' old nbytes rfl with
        ⟨henter, heq⟩ | ⟨henter, k'', stored, heq, hlen⟩
      · have henter' : later.visible.enter = false := henter
        rw [heq, henter', if_neg (by decide)]
        exact ⟨rfl, rfl⟩
      · have henter' : later.visible.enter = true := henter
        rw [heq, henter', if_pos rfl]
        exact ⟨rfl, hlen⟩
    | stdout =>
      obtain ⟨n, hn, hret⟩ := writeTerminal_ret k' old nbytes
      exact ⟨⟨n, hn, congrArg some hret⟩, rfl⟩
    | file =>
      simp only [Answers, runRead, fileRead, if_neg hbuf]
      exact ⟨rfl, rfl⟩
    | directory =>
      have hentry : (k'.pcb later.guessedSlot).fd i = driverEntry later i := rfl
      simp only [Answers, runRead, directoryRead, if_neg hbuf, hentry, nameStores]
      cases fs.readDentryByIndex (driverEntry later i).filePosition with
      | none => exact ⟨rfl, rfl⟩
      | some d => exact ⟨rfl, rfl⟩
    | rtc => exact ⟨rfl, rfl⟩

variable {r : CallResult} {d : Dispatch}

theorem Answers.length_stored (h : Answers fs later old nbytes r d) :
    r.stored.length = readStores fs later old nbytes d := by
  cases d with
  | refused | null i => simp only [readStores, h.2, List.length_nil]
  | driver i op =>
    cases op with
    | stdin =>
      simp only [Answers] at h
      simp only [readStores]
      split at h
      · rename_i henter
        rw [if_pos henter, h.2]
      · rename_i henter
        rw [if_neg henter, h.2, List.length_nil]
    | stdout | rtc => simp only [readStores, h.2, List.length_nil]
    | file => simp only [readStores, h.2, fileStores, FileSystem.length_readData]
    | directory => exact h.2

/-- A `read` that returns -1 and has stored nothing was refused. -/
theorem Answers.refused_iff (h : Answers fs later old nbytes r d) :
    (r.ret = some minusOne ∧ r.stored = []) ↔ ReadRefuses fs later d := by
  cases d with
  | refused => exact iff_of_true h trivial
  | null i => exact iff_of_false (fun hret => by rw [h.1] at hret; exact nomatch hret.1) id
  | driver i op =>
    cases op with
    | stdin =>
      refine iff_of_false (fun hret => ?_) id
      simp only [Answers] at h
      split at h
      · rw [h.1, hret.2] at hret
        exact absurd (Option.some.inj hret.1) (by decide)
      · rw [h.1] at hret
        exact nomatch hret.1
    | stdout =>
      refine iff_of_false (fun hret => ?_) id
      obtain ⟨⟨n, hn, hcount⟩, _⟩ := h
      rw [hcount, Option.some.injEq] at hret
      -- fewer than `2^31` bytes are drawn, so their number is not -1
      have hlt := BitVec.toInt_lt (x := nbytes)
      have hone : minusOne.toNat = 2 ^ 32 - 1 := rfl
      have hnat := congrArg BitVec.toNat hret.1
      rw [BitVec.toNat_ofNat, hone] at hnat
      unfold bufferSize at hn
      omega
    | file =>
      simp only [Answers] at h
      simp only [ReadRefuses]
      rw [h.1, h.2, Option.some.injEq]
      constructor
      · rintro ⟨hret, hstored⟩
        -- past the checks, a read that stores nothing returns 0
        by_contra hreadable
        rw [FileSystem.readData_ret_of_empty nbytes (by simpa using hreadable) hstored] at hret
        exact absurd hret (by decide)
      · intro hunreadable
        rw [FileSystem.readData_of_unreadable nbytes hunreadable]
        exact ⟨rfl, rfl⟩
    | directory =>
      refine iff_of_false (fun hret => ?_) id
      rw [h.1, hret.2] at hret
      exact absurd (Option.some.inj hret.1) (by decide)
    | rtc =>
      exact iff_of_false (fun hret => by rw [h.1] at hret; exact absurd hret.1 (by decide)) id

end Read

theorem getargs_cases (k : Kernel) (buf nbytes : Word) :
    ((buf = 0 ∨ (k.pcb k.visibleSlot).arg.strlen = 0) ∧
      Syscall.getargs k buf nbytes = .returns k minusOne []) ∨
    (buf ≠ 0 ∧ (k.pcb k.visibleSlot).arg.strlen ≠ 0 ∧
      Syscall.getargs k buf nbytes =
        ⟨k, some 0, (k.pcb k.visibleSlot).arg.bytes ++ [0], []⟩) := by
  by_cases hnull : buf = 0
  · exact Or.inl ⟨Or.inl hnull, if_pos hnull⟩
  · by_cases hempty : (k.pcb k.visibleSlot).arg.strlen = 0
    · exact Or.inl ⟨Or.inr hempty, by rw [Syscall.getargs, if_neg hnull, if_pos hempty]⟩
    · exact Or.inr ⟨hnull, hempty, by rw [Syscall.getargs, if_neg hnull, if_neg hempty]⟩

end LinuxLikeOS
