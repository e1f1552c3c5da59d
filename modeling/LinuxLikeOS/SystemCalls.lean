import LinuxLikeOS.Drivers
import LinuxLikeOS.FileSystem
import LinuxLikeOS.ProcessTable

/-! # The descriptor system calls, `getargs` and `vidmap`

Each of these calls looks a process up and works on its control block, and they
do not look it up in the same way: `open`, `write` and `close` take the executing
terminal's process, `read` and `getargs` the visible terminal's, and `file_read`
and `directory_read` the one `get_current_pid` guesses.  The model keeps the three
lookups apart (`Kernel.executingSlot`, `visibleSlot`, `guessedSlot`), and a call
reports which descriptors it consulted.

`read` is split where the source jumps through the jump table: a call is
dispatched in one state and its driver runs in the same or, if it had to wait, a
later one.
-/
namespace LinuxLikeOS

/-- What a call has done: the kernel it leaves, what is in `eax` if it has
returned, the bytes it has stored from the caller's pointer on, and the
descriptors it has consulted or changed. -/
structure CallResult where
  kernel : Kernel
  ret : Option Word
  stored : List Byte
  touched : List (Byte × Fin 8)

/-- A call that returns without storing through the caller's pointer. -/
def CallResult.returns (k : Kernel) (ret : Word) (touched : List (Byte × Fin 8)) : CallResult :=
  ⟨k, some ret, [], touched⟩

/-- The call of `read_terminal` in the state `k`, as a result. -/
def CallResult.ofTerminal (k : Kernel) (touched : List (Byte × Fin 8)) :
    TerminalRead → CallResult
  | .polling => ⟨k, none, [], touched⟩
  | .spinning k' stored => ⟨k', none, stored, touched⟩
  | .done k' ret stored => ⟨k', some ret, stored, touched⟩

/-- A descriptor number between 0 and 7. -/
def fdIndex (fd : Word) : Option (Fin 8) :=
  if h : fd.toNat < 8 then some ⟨fd.toNat, h⟩ else none

namespace Kernel
variable (k : Kernel)

/-- The control block `open`, `write` and `close` work on. -/
def executingSlot : Byte := pcbIndex k.executing.programPid

/-- The control block `read` and `getargs` work on. -/
def visibleSlot : Byte := pcbIndex k.visible.programPid

/-- The control block `file_read` and `directory_read` work on. -/
def guessedSlot : Byte := pcbIndex k.getCurrentPid

/-- Writes one descriptor. -/
def setFd (slot : Byte) (i : Fin 8) (e : FdEntry) : Kernel :=
  k.setPcb slot { k.pcb slot with fd := Function.update (k.pcb slot).fd i e }

/-- Moves `file_position` of one descriptor on. -/
def advance (slot : Byte) (i : Fin 8) (n : Word) : Kernel :=
  k.setFd slot i { (k.pcb slot).fd i with filePosition := ((k.pcb slot).fd i).filePosition + n }

end Kernel

/-! ## The file drivers -/

section Drivers
variable (fs : FileSystem) (k : Kernel)

/-- `file_open`; `dircetory_entry`, which it fills, is read nowhere. -/
def fileOpen (fname : CString) : Word :=
  match fs.readDentryByName fname with
  | some _ => 0
  | none => minusOne

/-- `file_read`, with the control block it picks. -/
def fileRead (slot : Byte) (i : Fin 8) (buf nbytes : Word) : CallResult :=
  if buf = 0 then .returns k minusOne []
  else
    let e := (k.pcb slot).fd i
    let data := fs.readData e.inode e.filePosition nbytes
    ⟨if data.ret ≠ minusOne then k.advance slot i data.ret else k, some data.ret, data.stored,
      [(slot, i)]⟩

/-- `directory_read`, with the control block it picks. -/
def directoryRead (slot : Byte) (i : Fin 8) (buf : Word) : CallResult :=
  if buf = 0 then .returns k minusOne []
  else
    match fs.readDentryByIndex ((k.pcb slot).fd i).filePosition with
    | none => .returns k 0 [(slot, i)]
    | some d =>
      ⟨k.advance slot i 1, some (BitVec.ofNat 32 d.filename.strlen), d.filename.bytes, [(slot, i)]⟩

/-- The third entry of a jump table.  `RTC_read` waits for a tick of the clock
and returns 0. -/
def runRead (slot : Byte) (i : Fin 8) (op : FileOperation) (buf : Word) (old : Nat → Byte)
    (nbytes : Word) : CallResult :=
  match op with
  | .stdin => .ofTerminal k [] (readTerminal k old nbytes)
  | .stdout =>
    let (k', ret) := writeTerminal k old nbytes
    .returns k' ret []
  | .file => fileRead fs k slot i buf nbytes
  | .directory => directoryRead fs k slot i buf
  | .rtc => .returns k 0 []

/-- The fourth entry of a jump table. -/
def runWrite (op : FileOperation) (old : Nat → Byte) (nbytes : Word) : CallResult :=
  match op with
  | .stdin => .ofTerminal k [] (readTerminal k old nbytes)
  | .stdout =>
    let (k', ret) := writeTerminal k old nbytes
    .returns k' ret []
  | .file | .directory => .returns k minusOne []
  | .rtc =>
    match rtcWrite k old nbytes with
    | some k' => .returns k' 0 []
    | none => .returns k minusOne []

/-- The second entry of a jump table; all return 0. -/
def runClose (op : FileOperation) : Kernel :=
  match op with
  | .stdin | .stdout => closeTerminal k
  | .file | .directory | .rtc => k

end Drivers

/-! ## The system calls -/

/-- What `read` finds in the jump table slot of the control block `slot`: a
refusal, the NULL table, or a driver to call. -/
inductive Dispatch
  | refused
  | null (i : Fin 8)
  | driver (i : Fin 8) (op : FileOperation)
  deriving DecidableEq

/-- The checks of `read` before its jump. -/
def dispatchRead (k : Kernel) (slot : Byte) (fd buf : Word) : Dispatch :=
  match fdIndex fd with
  | none => .refused
  | some i =>
    if i = 1 ∨ buf = 0 then .refused
    else if ((k.pcb slot).fd i).flag = 0 then .refused
    else
      match ((k.pcb slot).fd i).fileOperation with
      | none => .null i
      | some op => .driver i op

/-- The descriptors `read` consults before its jump. -/
def consultedByRead (slot : Byte) (fd buf : Word) : List (Byte × Fin 8) :=
  match fdIndex fd with
  | none => []
  | some i => if i = 1 ∨ buf = 0 then [] else [(slot, i)]

/-- A `read` that is dispatched on the control block `slot` of `k`, and whose
driver runs in the state `later` and picks the control block `driverSlot`. -/
def readWith (fs : FileSystem) (k later : Kernel) (slot driverSlot : Byte) (fd buf : Word)
    (old : Nat → Byte) (nbytes : Word) : CallResult :=
  match dispatchRead k slot fd buf with
  | .refused => .returns k minusOne (consultedByRead slot fd buf)
  | .null _ => ⟨k, none, [], consultedByRead slot fd buf⟩
  | .driver i op =>
    let r := runRead fs later driverSlot i op buf old nbytes
    { r with touched := consultedByRead slot fd buf ++ r.touched }

/-- `read`, dispatched in `k` and answered in `later`. -/
def Syscall.readAnswered (fs : FileSystem) (k later : Kernel) (fd buf : Word) (old : Nat → Byte)
    (nbytes : Word) : CallResult :=
  readWith fs k later k.visibleSlot later.guessedSlot fd buf old nbytes

/-- `read`. -/
def Syscall.read (fs : FileSystem) (k : Kernel) (fd buf : Word) (old : Nat → Byte)
    (nbytes : Word) : CallResult :=
  Syscall.readAnswered fs k k fd buf old nbytes

/-- `write`. -/
def Syscall.write (k : Kernel) (fd buf : Word) (old : Nat → Byte) (nbytes : Word) : CallResult :=
  match fdIndex fd with
  | none => .returns k minusOne []
  | some i =>
    if i = 0 ∨ buf = 0 then .returns k minusOne []
    else
      let e := (k.pcb k.executingSlot).fd i
      if e.flag = 0 then .returns k minusOne [(k.executingSlot, i)]
      else
        match e.fileOperation with
        | none => ⟨k, none, [], [(k.executingSlot, i)]⟩
        | some op => { runWrite k op old nbytes with touched := [(k.executingSlot, i)] }

/-- The loop of `open`: the first free descriptor from 2 on. -/
def freeFd (fd : Fin 8 → FdEntry) : Option (Fin 8) := Fin.find? fun i => 2 ≤ i ∧ (fd i).flag = 0

/-- The jump table and inode `open` gives a file of type `filetype`. -/
def openedEntry (d : Dentry) : FdEntry :=
  if d.filetype = 0 then ⟨some .rtc, 0, 0, 1⟩
  else if d.filetype = 1 then ⟨some .directory, 0, 0, 1⟩
  else ⟨some .file, d.inodeNum, 0, 1⟩

/-- `open`; `none` is the NULL pointer. -/
def Syscall.open (fs : FileSystem) (k : Kernel) (filename : Option CString) : CallResult :=
  match filename with
  | none => .returns k minusOne []
  | some fname =>
    match fs.readDentryByName fname with
    | none => .returns k minusOne []
    | some d =>
      match freeFd (k.pcb k.executingSlot).fd with
      | none => .returns k minusOne []
      | some i =>
        let k' := k.setFd k.executingSlot i (openedEntry d)
        if d.filetype = 0 then .returns (intiRtc k') (BitVec.ofNat 32 i) [(k.executingSlot, i)]
        -- a file that has just been found is found again
        else if d.filetype ≠ 1 ∧ fileOpen fs fname = minusOne then
          .returns k' minusOne [(k.executingSlot, i)]
        else .returns k' (BitVec.ofNat 32 i) [(k.executingSlot, i)]

/-- `close`. -/
def Syscall.close (k : Kernel) (fd : Word) : CallResult :=
  match fdIndex fd with
  | none => .returns k minusOne []
  | some i =>
    if i < 2 then .returns k minusOne []
    else
      let e := (k.pcb k.executingSlot).fd i
      if e.flag = 0 then .returns k minusOne [(k.executingSlot, i)]
      else
        match e.fileOperation with
        | none => ⟨k, none, [], [(k.executingSlot, i)]⟩
        | some op =>
          .returns ((runClose k op).setFd k.executingSlot i .cleared) 0 [(k.executingSlot, i)]

/-- `getargs`; it does not look at `nbytes`. -/
def Syscall.getargs (k : Kernel) (buf _nbytes : Word) : CallResult :=
  if buf = 0 then .returns k minusOne []
  else
    let arg := (k.pcb k.visibleSlot).arg
    if arg.strlen = 0 then .returns k minusOne []
    else ⟨k, some 0, arg.bytes ++ [0], []⟩

/-- `PROGRAM_IMG_START`. -/
def programImgStart : Word := 0x8000000

/-- `PROGRAM_IMG_END`. -/
def programImgEnd : Word := 0x8400000

/-- The entry of `page_table_video` for terminal `t`. -/
def videoEntry (t : Fin 3) : Fin 1024 := Fin.castLE (by decide) t

/-- The four assignments of `vidmap` to `page_table_video`. -/
def mapVideo (table : Fin 1024 → Pte) (executing visible : Fin 3) : Fin 1024 → Pte :=
  let e := videoEntry executing
  let v := videoEntry visible
  let opened := Function.update table e
    { table e with present := true, writable := true, user := true }
  Function.update opened v { opened v with pba := 0xB8 }

/-- The address `vidmap` gives terminal `t`. -/
def vidmapAddress (t : Fin 3) : Word := programImgEnd + 0x1000 * BitVec.ofNat 32 t

/-- A word at `a`, in the program page or right behind it, has a byte in the next page, the first
one `vidmap` hands out, and that page is not present. -/
def Kernel.storeFaults (k : Kernel) (a : Word) : Bool :=
  decide (programImgEnd - 4 < a) &&
    !((k.pageDirectory videoPde).present && (k.pageTableVideo (videoEntry 0)).present)

/-- `vidmap`.  It stores the address first, and that faults if there is no page for it. -/
def Syscall.vidmap (k : Kernel) (screenStart : Word) : CallResult :=
  if screenStart = 0 then .returns k minusOne []
  else if screenStart < programImgStart ∨ programImgEnd < screenStart then
    .returns k minusOne []
  else if k.storeFaults screenStart then ⟨k, none, [], []⟩
  else
    ⟨{ k with pageTableVideo :=
        mapVideo k.pageTableVideo k.currTerminalExecuting k.currTerminalVisible },
      some 0, wordBytes (vidmapAddress k.currTerminalExecuting), []⟩

/-! ## The kernel behind a call

A call leaves the kernel as it is, or it runs a driver, or it sets a descriptor: what holds
in these cases holds behind the call. -/

section Keeps
variable {fs : FileSystem} {k : Kernel} {P : Kernel → Prop}

theorem runRead_keeps {old : Nat → Byte} {nbytes : Word} (hsame : P k)
    (hadvance : ∀ slot i n, P (k.advance slot i n))
    (hread : P (CallResult.ofTerminal k [] (readTerminal k old nbytes)).kernel)
    (hwrite : P (writeTerminal k old nbytes).1) (slot : Byte) (i : Fin 8) (op : FileOperation)
    (buf : Word) : P (runRead fs k slot i op buf old nbytes).kernel := by
  cases op with
  | stdin => exact hread
  | stdout => exact hwrite
  | file =>
    simp only [runRead, fileRead]
    split
    · exact hsame
    · dsimp only
      split
      · exact hadvance slot i _
      · exact hsame
  | directory =>
    simp only [runRead, directoryRead]
    split
    · exact hsame
    · split
      · exact hsame
      · exact hadvance slot i 1
  | rtc => exact hsame

theorem read_keeps {old : Nat → Byte} {nbytes : Word} (hsame : P k)
    (hadvance : ∀ slot i n, P (k.advance slot i n))
    (hread : P (CallResult.ofTerminal k [] (readTerminal k old nbytes)).kernel)
    (hwrite : P (writeTerminal k old nbytes).1) (fd buf : Word) :
    P (Syscall.read fs k fd buf old nbytes).kernel := by
  unfold Syscall.read Syscall.readAnswered readWith
  split
  · exact hsame
  · exact hsame
  · exact runRead_keeps hsame hadvance hread hwrite _ _ _ buf

theorem runWrite_keeps {old : Nat → Byte} {nbytes : Word} (hsame : P k)
    (hread : P (CallResult.ofTerminal k [] (readTerminal k old nbytes)).kernel)
    (hwrite : P (writeTerminal k old nbytes).1) (hclock : ∀ a, P { k with rtcRegA := a })
    (op : FileOperation) : P (runWrite k op old nbytes).kernel := by
  cases op with
  | stdin => exact hread
  | stdout => exact hwrite
  | file | directory => exact hsame
  | rtc =>
    simp only [runWrite]
    split
    · rename_i k' hrtc
      obtain ⟨a, rfl⟩ := rtcWrite_eq_some hrtc
      exact hclock a
    · exact hsame

theorem write_keeps {old : Nat → Byte} {nbytes : Word} (hsame : P k)
    (hread : P (CallResult.ofTerminal k [] (readTerminal k old nbytes)).kernel)
    (hwrite : P (writeTerminal k old nbytes).1) (hclock : ∀ a, P { k with rtcRegA := a })
    (fd buf : Word) : P (Syscall.write k fd buf old nbytes).kernel := by
  unfold Syscall.write
  split
  · exact hsame
  · split
    · exact hsame
    · dsimp only
      split
      · exact hsame
      · split
        · exact hsame
        · exact runWrite_keeps hsame hread hwrite hclock _

theorem open_keeps (hsame : P k) (hset : ∀ i e, P (k.setFd k.executingSlot i e))
    (hclock : ∀ i e, P (intiRtc (k.setFd k.executingSlot i e))) (filename : Option CString) :
    P (Syscall.open fs k filename).kernel := by
  unfold Syscall.open
  split
  · exact hsame
  · split
    · exact hsame
    · split
      · exact hsame
      · rename_i i _
        dsimp only
        split
        · exact hclock i _
        · split
          · exact hset i _
          · exact hset i _

theorem close_keeps (hsame : P k)
    (hclose : ∀ op i, P ((runClose k op).setFd k.executingSlot i .cleared)) (fd : Word) :
    P (Syscall.close k fd).kernel := by
  unfold Syscall.close
  split
  · exact hsame
  · split
    · exact hsame
    · dsimp only
      split
      · exact hsame
      · split
        · exact hsame
        · exact hclose _ _

/-- `getargs` writes nothing but the caller's buffer. -/
theorem getargs_kernel (buf nbytes : Word) : (Syscall.getargs k buf nbytes).kernel = k := by
  unfold Syscall.getargs
  split
  · rfl
  · dsimp only
    split <;> rfl

theorem vidmap_keeps (hsame : P k)
    (hmap : ∀ table, P { k with pageTableVideo := table }) (screenStart : Word) :
    P (Syscall.vidmap k screenStart).kernel := by
  unfold Syscall.vidmap
  split
  · exact hsame
  · split
    · exact hsame
    · split
      · exact hsame
      · exact hmap _

end Keeps

end LinuxLikeOS
