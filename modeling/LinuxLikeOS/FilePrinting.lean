import LinuxLikeOS.UserPrograms
import LinuxLikeOS.EndOfFile
import LinuxLikeOS.ExecutableGate

/-! # What `cat` and `ls` print

A program that reads a file in buffers prints the file if each buffer begins where the last
one ended, and stops at its end if `read` sees the end.  `cat` keeps the first: after each round
it has printed what lies before the position of its descriptor.  The second is a matter of
the image: behind a last full block `read_data` checks a block number that the file does not
use.  `catOutcome` says what comes of it, and of a directory or the clock in place of a
file; `ls` prints the directory with a newline behind each name (`lsOutcome`).

Both are shown over `processSystem`; over the kernel they follow (`shows_of_yields`).
-/
namespace LinuxLikeOS
open CallingPrograms CountedLoop TerminatedText
open CallingPrograms.Program (make loop)
open Ece391

/-! ## Descriptors of a process -/

namespace Process
variable {p : Process}

/-- Descriptor 1 is the terminal. -/
structure Console (p : Process) : Prop where
  flag : (p.fds 1).flag ≠ 0
  fileOperation : (p.fds 1).fileOperation = some .stdout

@[simp] theorem setFd_fds (i : Fin 8) (e : FdEntry) :
    (p.setFd i e).fds = Function.update p.fds i e := rfl

@[simp] theorem setFd_text (i : Fin 8) (e : FdEntry) : (p.setFd i e).text = p.text := rfl

@[simp] theorem advance_text (i : Fin 8) (n : Word) : (p.advance i n).text = p.text := rfl

@[simp] theorem print_fds (text : List Byte) : (p.print text).fds = p.fds := rfl

@[simp] theorem print_text (text : List Byte) : (p.print text).text = p.text ++ text := rfl

theorem Console.setFd (h : p.Console) {i : Fin 8} (hi : 2 ≤ i) (e : FdEntry) :
    (p.setFd i e).Console := by
  have hne : (1 : Fin 8) ≠ i := by
    rintro rfl
    exact absurd hi (by decide)
  constructor
  · rw [setFd_fds, Function.update_of_ne hne]
    exact h.flag
  · rw [setFd_fds, Function.update_of_ne hne]
    exact h.fileOperation

theorem Console.print (h : p.Console) (text : List Byte) : (p.print text).Console :=
  ⟨h.flag, h.fileOperation⟩

end Process

theorem fdIndex_ofNat (i : Fin 8) : fdIndex (BitVec.ofNat 32 i) = some i := by
  have hmod : (BitVec.ofNat 32 (i : Nat)).toNat = i := by
    rw [BitVec.toNat_ofNat]
    omega
  unfold fdIndex
  simp [hmod]

theorem toNat_ofNat_small {n : Nat} (hn : n < 2 ^ 32) : (BitVec.ofNat 32 n).toNat = n := by
  rw [BitVec.toNat_ofNat, Nat.mod_eq_of_lt hn]

theorem toInt_ofNat_small {n : Nat} (hn : n < 2 ^ 31) : (BitVec.ofNat 32 n).toInt.toNat = n := by
  have hnat := toNat_ofNat_small (n := n) (by omega)
  rw [BitVec.toInt_eq_toNat_of_lt (by omega), Int.toNat_natCast, hnat]

/-- A process that can open a file and print it. -/
structure Process.Ready (p : Process) : Prop where
  console : p.Console
  free : ∃ i, freeFd p.fds = some i

/-! ## What the calls do -/

section Calls
variable {fs : FileSystem} {arg : CString} {p : Process} {α : Type} {Q : α → Process → Prop}

theorem usable_eq {fd buf : Word} {unusable i : Fin 8} (hfd : fdIndex fd = some i)
    (hi : i ≠ unusable) (hbuf : buf ≠ 0) (hflag : (p.fds i).flag ≠ 0) :
    p.usable fd buf unusable = some i := by
  simp only [Process.usable, hfd, hi, hbuf, or_self, if_false, if_neg hflag]

/-- A descriptor that `open` has given can be read. -/
theorem usable_open {fd buf : Word} {i : Fin 8} (hi : 2 ≤ i) (hflag : (p.fds i).flag = 1)
    (hfd : fdIndex fd = some i) (hbuf : buf ≠ 0) : p.usable fd buf 1 = some i := by
  have hone : i ≠ 1 := by
    rintro rfl
    exact absurd hi (by decide)
  exact usable_eq hfd hone hbuf (by rw [hflag]; exact (by decide : (1 : Word) ≠ 0))

theorem write_console (hout : p.Console) {a : Word} (ha : a ≠ 0) (s : Nat → Byte) {n : Nat}
    (hn : n < 2 ^ 31) :
    processSystem fs arg (.write 1 a s (BitVec.ofNat 32 n)) p =
      some (⟨BitVec.ofNat 32 n, []⟩, p.print ((List.range n).map s)) := by
  have hfd : fdIndex 1 = some 1 := by decide
  have husable : p.usable 1 a 0 = some 1 := usable_eq hfd (by decide) ha hout.flag
  simp only [processSystem, husable, hout.fileOperation, toInt_ofNat_small hn, List.length_map,
    List.length_range]

/-- The text at the start of an array is printed. -/
theorem run_fdputs (hout : p.Console) {a : Word} (ha : a ≠ 0) {s : Nat → Byte} {room : Nat}
    (hroom : room < 2 ^ 31) (hlen : (text 0 s room 0).length < room) :
    (fdputs 1 a s room).run (processSystem fs arg) p = some ((), p.print (text 0 s room 0)) := by
  have hcount : leading (fun j => s j != 0) room 0 = (text 0 s room 0).length :=
    (length_text s room 0).symm
  have hstrlen : strlenWithin s room = some (text 0 s room 0).length := by
    unfold strlenWithin
    dsimp only
    rw [hcount, if_pos hlen]
  have hwrite : processSystem fs arg
      (.write 1 a s (BitVec.ofNat 32 (text 0 s room 0).length)) p = _ :=
    write_console hout ha s (by omega)
  rw [map_range_text] at hwrite
  unfold fdputs
  rw [hstrlen]
  show (processSystem fs arg _ p).bind _ = _
  rw [hwrite]
  rfl

theorem run_putLiteral (hout : p.Console) {a : Word} (ha : a ≠ 0) {s : CString}
    (hs : s.strlen < 2 ^ 30) :
    (putLiteral 1 a s).run (processSystem fs arg) p = some ((), p.print s.bytes) := by
  have htext : text 0 s.get (s.strlen + 1) 0 = s.bytes := text_getD s.noNul (Nat.le_succ _)
  have hrun : (putLiteral 1 a s).run (processSystem fs arg) p = _ :=
    run_fdputs hout ha (by omega) (by rw [htext]; exact Nat.lt_succ_self _)
  rw [htext] at hrun
  exact hrun

/-- A string in an array, as `open` sees it. -/
theorem stringWithin_eq {array : Nat → Byte} {room : Nat} {s : CString}
    (htext : text 0 array room 0 = s.bytes) (hlen : s.strlen < room) :
    stringWithin array room = some s := by
  have hcount : leading (fun j => array j != 0) room 0 = s.strlen := by
    rw [← length_text array room 0, htext]
    rfl
  have hstring : CString.ofBytes ((List.range room).map array) = s := by
    have hbytes : ((List.range room).map array).takeWhile (· ≠ 0) = s.bytes := by
      rw [← htext, text_eq_takeWhile, List.range_eq_range']
    cases s
    simp only [CString.ofBytes, hbytes]
  unfold stringWithin strlenWithin
  dsimp only
  rw [hcount, if_pos hlen, Option.map_some, hstring]

theorem open_free {s : CString} {d : Dentry} {i : Fin 8} (hfound : fs.readDentryByName s = some d)
    (hfree : freeFd p.fds = some i) :
    processSystem fs arg (.open (some s)) p =
      some (⟨BitVec.ofNat 32 i, []⟩, p.setFd i (openedEntry d)) := by
  simp only [processSystem, Option.bind_some, hfound, hfree]

theorem open_missing {s : CString} (hmissing : fs.readDentryByName s = none) :
    processSystem fs arg (.open (some s)) p = some (.refused, p) := by
  simp only [processSystem, Option.bind_some, hmissing]

theorem run_openText {array : Nat → Byte} {room : Nat} {s : CString}
    (htext : text 0 array room 0 = s.bytes) (hlen : s.strlen < room) {d : Dentry} {i : Fin 8}
    (hfound : fs.readDentryByName s = some d) (hfree : freeFd p.fds = some i) :
    (openText array room).run (processSystem fs arg) p =
      some (BitVec.ofNat 32 i, p.setFd i (openedEntry d)) := by
  unfold openText
  rw [stringWithin_eq htext hlen]
  show (processSystem fs arg (.open (some s)) p).bind _ = _
  rw [open_free hfound hfree]
  rfl

theorem run_openText_missing {array : Nat → Byte} {room : Nat} {s : CString}
    (htext : text 0 array room 0 = s.bytes) (hlen : s.strlen < room)
    (hmissing : fs.readDentryByName s = none) :
    (openText array room).run (processSystem fs arg) p = some (minusOne, p) := by
  unfold openText
  rw [stringWithin_eq htext hlen]
  show (processSystem fs arg (.open (some s)) p).bind _ = _
  rw [open_missing hmissing]
  rfl

theorem getargs_empty (harg : arg.strlen = 0) (a n : Word) :
    processSystem fs arg (.getargs a n) p = some (.refused, p) := by
  simp only [processSystem, harg, or_true, if_true]

theorem getargs_given (harg : arg.strlen ≠ 0) {a : Word} (ha : a ≠ 0) (n : Word) :
    processSystem fs arg (.getargs a n) p = some (⟨0, arg.bytes ++ [0]⟩, p) := by
  simp only [processSystem, harg, ha, or_self, if_false]

/-- A string that has been stored is there. -/
theorem text_overlay (s : CString) (old : Nat → Byte) {room : Nat} (hroom : s.strlen < room) :
    text 0 (overlay (s.bytes ++ [0]) old) room 0 = s.bytes := by
  refine text_of_entries s.noNul hroom (fun j hj => ?_) ?_
  · simp [overlay, List.getElem?_append_left hj, hj]
  · simp [overlay]

/-- A free descriptor is not one of the standard two. -/
theorem freeFd_ge {fds : Fin 8 → FdEntry} {i : Fin 8} (h : freeFd fds = some i) : 2 ≤ i := by
  have hfind := (Fin.find?_eq_some_iff.mp h).1
  simp only [decide_eq_true_eq] at hfind
  exact hfind.1

/-- The descriptor that `open` returns. -/
theorem ofNat_fin_ne_minusOne (i : Fin 8) : BitVec.ofNat 32 i ≠ minusOne := by
  revert i
  decide

/-- A number of bytes is not one of the two answers that end a loop. -/
theorem ofNat_ne_status {n : Nat} (hpos : 0 < n) (hn : n < 2 ^ 31) :
    BitVec.ofNat 32 n ≠ 0 ∧ BitVec.ofNat 32 n ≠ minusOne := by
  have hnat := toNat_ofNat_small (n := n) (by omega)
  have hminus : minusOne.toNat = 2 ^ 32 - 1 := by decide
  constructor
  · intro hzero
    rw [hzero] at hnat
    simp at hnat
    omega
  · intro hone
    rw [hone, hminus] at hnat
    omega

/-- An array that begins with stored bytes holds them. -/
theorem map_range_overlay (stored : List Byte) (old : Nat → Byte) :
    (List.range stored.length).map (overlay stored old) = stored := by
  refine List.ext_getElem (by simp) fun j hj hj' => ?_
  simp [overlay, hj']

end Calls

/-! ## An open file -/

section Opened
variable {p : Process} {i : Fin 8}

/-- A process that has opened a file as descriptor `i`, read it up to `q` and printed `text`. -/
def Process.readTo (p : Process) (i : Fin 8) (op : FileOperation) (inode : Word) (q : Nat)
    (text : List Byte) : Process :=
  (p.print text).setFd i ⟨some op, inode, BitVec.ofNat 32 q, 1⟩

theorem readTo_advance (p : Process) (i : Fin 8) (op : FileOperation) (inode : Word) (q n : Nat)
    (text : List Byte) :
    (p.readTo i op inode q text).advance i (BitVec.ofNat 32 n) =
      p.readTo i op inode (q + n) text := by
  simp [Process.readTo, Process.advance, Process.setFd, Process.print, BitVec.ofNat_add]

theorem readTo_print (p : Process) (i : Fin 8) (op : FileOperation) (inode : Word) (q : Nat)
    (text text' : List Byte) :
    (p.readTo i op inode q text).print text' = p.readTo i op inode q (text ++ text') := by
  simp [Process.readTo, Process.setFd, Process.print]

theorem readTo_console (hout : p.Console) (hi : 2 ≤ i) (op : FileOperation) (inode : Word) (q : Nat)
    (text : List Byte) : (p.readTo i op inode q text).Console :=
  (hout.print text).setFd hi _

theorem readTo_entry (p : Process) (i : Fin 8) (op : FileOperation) (inode : Word) (q : Nat)
    (text : List Byte) :
    (p.readTo i op inode q text).fds i = ⟨some op, inode, BitVec.ofNat 32 q, 1⟩ := by
  simp [Process.readTo]

/-- The state of a process whose file has just been opened. -/
theorem setFd_opened (p : Process) (i : Fin 8) (op : FileOperation) (inode : Word) :
    p.setFd i ⟨some op, inode, 0, 1⟩ = p.readTo i op inode 0 [] := by
  simp [Process.readTo, Process.setFd, Process.print]

end Opened

/-! ## Reading a file -/

section Files
variable {fs : FileSystem} {inode : Word}

/-- A read that ends inside the file, or at an end that is seen, returns what is there. -/
theorem readData_chunk (hfile : fs.ValidFile inode) {q n : Nat}
    (hq : q ≤ (fs.fileContents inode).length) (hpos : 0 < n) (hn : n < 2 ^ 31)
    (hend : q + n ≤ (fs.fileContents inode).length ∨
      fs.badBlock inode ((fs.fileContents inode).length / 4096) = false) :
    fs.readData inode (BitVec.ofNat 32 q) (BitVec.ofNat 32 n) =
      ⟨BitVec.ofNat 32 (((fs.fileContents inode).drop q).take n).length,
        ((fs.fileContents inode).drop q).take n⟩ := by
  have hlen := hfile.length_le
  rw [length_fileContents] at hq hend
  have hqnat : (BitVec.ofNat 32 q).toNat = q := toNat_ofNat_small (by omega)
  have hnnat : (BitVec.ofNat 32 n).toNat = n := toNat_ofNat_small (by omega)
  by_cases hin : q + n ≤ (fs.inodeLength inode).toNat
  · have hlength := (ofNat_ne_status hpos hn).1
    have hread := readData_slice hfile hlength (by rw [hqnat, hnnat]; exact hin)
    rw [hread, hqnat, hnnat, List.length_take, List.length_drop, length_fileContents,
      Nat.min_eq_left (by omega)]
  · have hread : fs.readData inode (BitVec.ofNat 32 q) (BitVec.ofNat 32 n) = _ :=
      FileSystem.readData_toEnd hfile (by omega) (by omega)
    have hall : ((fs.fileContents inode).drop q).take n = (fs.fileContents inode).drop q :=
      List.take_of_length_le (by rw [List.length_drop, length_fileContents]; omega)
    rw [hread, hqnat, hall, hend.resolve_left hin, List.length_drop, length_fileContents]
    rfl

/-- At an end that is not seen a read fails. -/
theorem readData_unseen (hfile : fs.ValidFile inode) {q n : Nat}
    (hq : q ≤ (fs.fileContents inode).length) (hn : n < 2 ^ 31)
    (hpast : (fs.fileContents inode).length < q + n)
    (hbad : fs.badBlock inode ((fs.fileContents inode).length / 4096) = true) :
    (fs.readData inode (BitVec.ofNat 32 q) (BitVec.ofNat 32 n)).ret = minusOne := by
  have hlen := hfile.length_le
  rw [length_fileContents] at hq hpast hbad
  have hqnat : (BitVec.ofNat 32 q).toNat = q := toNat_ofNat_small (by omega)
  have hnnat : (BitVec.ofNat 32 n).toNat = n := toNat_ofNat_small (by omega)
  rw [FileSystem.readData_toEnd hfile (by omega) (by omega), hbad, if_pos rfl]

/-- A regular file that is found is valid. -/
theorem validFile_of_found (himage : fs.ValidImage) {name : CString} {d : Dentry}
    (hfound : fs.readDentryByName name = some d) (hrtc : d.filetype ≠ 0)
    (hdirectory : d.filetype ≠ 1) : fs.ValidFile d.inodeNum := by
  obtain ⟨j, _, hj, rfl⟩ := findDentry_mem hfound
  have hcount := himage.count
  have hint : fs.dirCount.toInt.toNat = fs.dirCount.toNat := by
    rw [BitVec.toInt_eq_toNat_of_lt (by omega), Int.toNat_natCast]
  have htype := himage.types j (by omega)
  refine himage.files j (by omega) ?_
  generalize (fs.dentryAt (fs.direntry j)).filetype = t at hrtc hdirectory htype
  have hzero : t.toNat ≠ 0 := fun h => hrtc (BitVec.eq_of_toNat_eq h)
  have hone : t.toNat ≠ 1 := fun h => hdirectory (BitVec.eq_of_toNat_eq h)
  exact BitVec.eq_of_toNat_eq (by show t.toNat = 2; omega)

/-- An end that is not seen is behind a full block. -/
theorem length_mod_of_unseen (hfile : fs.ValidFile inode)
    (hbad : fs.badBlock inode ((fs.fileContents inode).length / 4096) = true) :
    (fs.fileContents inode).length % 4096 = 0 := by
  rw [length_fileContents] at hbad ⊢
  by_contra hpart
  rw [hfile.covered _ (by omega)] at hbad
  cases hbad

/-- `read` of a regular file. -/
theorem read_file {arg : CString} {p : Process} {i : Fin 8} {q : Word} (hi : 2 ≤ i)
    (hentry : p.fds i = ⟨some .file, inode, q, 1⟩) {fd buf : Word} (hfd : fdIndex fd = some i)
    (hbuf : buf ≠ 0) (old : Nat → Byte) {n ret : Word} {stored : List Byte}
    (hread : fs.readData inode q n = ⟨ret, stored⟩) :
    processSystem fs arg (.read fd buf old n) p =
      some (⟨ret, stored⟩, if ret ≠ minusOne then p.advance i ret else p) := by
  have hone : i ≠ 1 := by
    rintro rfl
    exact absurd hi (by decide)
  have husable := usable_open hi (by rw [hentry]) hfd hbuf
  simp only [processSystem, husable, hentry, hread]

/-- `read` of the clock returns when it has ticked. -/
theorem read_clock {arg : CString} {p : Process} {i : Fin 8} (hi : 2 ≤ i)
    (hentry : p.fds i = ⟨some .rtc, 0, 0, 1⟩) {fd buf : Word} (hfd : fdIndex fd = some i)
    (hbuf : buf ≠ 0) (old : Nat → Byte) (n : Word) :
    processSystem fs arg (.read fd buf old n) p = some (⟨0, []⟩, p) := by
  have husable := usable_open hi (by rw [hentry]) hfd hbuf
  simp only [processSystem, husable, hentry]

/-- `read` of the directory. -/
theorem read_directory {arg : CString} {p : Process} {i : Fin 8} {q : Nat} (hi : 2 ≤ i)
    (hentry : p.fds i = ⟨some .directory, inode, BitVec.ofNat 32 q, 1⟩) {fd buf : Word}
    (hfd : fdIndex fd = some i) (hbuf : buf ≠ 0) (old : Nat → Byte) (n : Word)
    (hq : q < fs.dirCount.toNat) :
    processSystem fs arg (.read fd buf old n) p =
      some (⟨BitVec.ofNat 32 (fs.nameAt (fs.direntry q)).strlen,
        (fs.nameAt (fs.direntry q)).bytes⟩, p.advance i (BitVec.ofNat 32 1)) := by
  have husable := usable_open hi (by rw [hentry]) hfd hbuf
  have hqnat := toNat_ofNat_small (n := q) (by omega)
  have hfound : fs.readDentryByIndex (BitVec.ofNat 32 q) = some (fs.dentryAt (fs.direntry q)) := by
    rw [FileSystem.readDentryByIndex, if_pos (by rw [BitVec.lt_def, hqnat]; exact hq), hqnat]
  simp only [processSystem, husable, hentry, hfound]
  rfl

/-- Behind the last entry there is nothing. -/
theorem read_directory_end {arg : CString} {p : Process} {i : Fin 8} (hi : 2 ≤ i)
    (hentry : p.fds i = ⟨some .directory, inode, BitVec.ofNat 32 fs.dirCount.toNat, 1⟩)
    {fd buf : Word} (hfd : fdIndex fd = some i) (hbuf : buf ≠ 0) (old : Nat → Byte) (n : Word) :
    processSystem fs arg (.read fd buf old n) p = some (⟨0, []⟩, p) := by
  have husable := usable_open hi (by rw [hentry]) hfd hbuf
  have hnone : fs.readDentryByIndex (BitVec.ofNat 32 fs.dirCount.toNat) = none := by
    rw [FileSystem.readDentryByIndex, if_neg (by simp)]
  simp only [processSystem, husable, hentry, hnone]

end Files

/-! ## `cat` -/

section Cat
variable {fs : FileSystem} {arg : CString} {p : Process} {i : Fin 8} {inode : Word}

/-- Where `cat` is in a file: a whole number of buffers in, or at the end. -/
def AtChunk (fs : FileSystem) (p : Process) (i : Fin 8) (inode : Word) (p' : Process) : Prop :=
  ∃ q, (q % 1024 = 0 ∨ q = (fs.fileContents inode).length) ∧ q ≤ (fs.fileContents inode).length ∧
    p' = p.readTo i .file inode q ((fs.fileContents inode).take q)

/-- The bytes of the file that are not read yet. -/
def bytesLeft (fs : FileSystem) (i : Fin 8) (inode : Word) (p : Process) : Nat :=
  (fs.fileContents inode).length - (p.fds i).filePosition.toNat

theorem bytesLeft_readTo {q : Nat} (hq : q < 2 ^ 32) (text : List Byte) :
    bytesLeft fs i inode (p.readTo i .file inode q text) =
      (fs.fileContents inode).length - q := by
  unfold bytesLeft
  rw [readTo_entry, toNat_ofNat_small hq]

/-- What `cat` ends with: the file is printed; if its end is not seen, a message too. -/
def Printed (fs : FileSystem) (p : Process) (i : Fin 8) (inode : Word) (status : Word)
    (p' : Process) : Prop :=
  let contents := fs.fileContents inode
  if fs.badBlock inode (contents.length / 4096) then
    status = 3 ∧ p' = p.readTo i .file inode contents.length
      (contents ++ ascii "file read failed\n".toList)
  else status = 0 ∧ p' = p.readTo i .file inode contents.length contents

/-- **A round of `cat`** prints a buffer of the file, or leaves at its end. -/
theorem yields_catRound (hfile : fs.ValidFile inode) (hout : p.Console) (hi : 2 ≤ i)
    {fd : Word} (hfd : fdIndex fd = some i) (buf : Buffer 1024) (literals : Buffer 1)
    (old : Nat → Byte) {p' : Process} (h : AtChunk fs p i inode p') :
    Yields (processSystem fs arg) (catRound fd buf literals old) p'
      (Round (fun _ => AtChunk fs p i inode) (fun _ => bytesLeft fs i inode)
        (Printed fs p i inode) old p') := by
  obtain ⟨q, hchunk, hq, rfl⟩ := h
  have hlen := hfile.length_le
  rw [← length_fileContents] at hlen
  have hentry := readTo_entry p i .file inode q ((fs.fileContents inode).take q)
  have hconsole := readTo_console hout hi .file inode q ((fs.fileContents inode).take q)
  unfold catRound
  by_cases hlast : q = (fs.fileContents inode).length
  · subst hlast
    rw [List.take_length] at hentry hconsole ⊢
    cases hseen : fs.badBlock inode ((fs.fileContents inode).length / 4096) with
    | true =>
      have hret := readData_unseen hfile hq (n := 1024) (by decide) (by omega) hseen
      obtain ⟨stored, hread⟩ : ∃ stored, fs.readData inode
          (BitVec.ofNat 32 (fs.fileContents inode).length) 1024 = ⟨minusOne, stored⟩ :=
        ⟨_, congrArg (fun ret => ReadData.mk ret _) hret⟩
      refine yields_make (read_file hi hentry hfd buf.notNull old hread) ?_
      dsimp only
      rw [if_neg (by decide : minusOne ≠ 0), if_pos rfl, if_neg (fun hne => hne rfl)]
      refine yields_seq (run_putLiteral hconsole literals.notNull (by decide)) (yields_done ?_)
      show Printed fs p i inode 3 _
      rw [Printed, if_pos hseen, readTo_print]
      exact ⟨rfl, rfl⟩
    | false =>
      have hread := readData_chunk hfile hq (n := 1024) (by decide) (by decide) (Or.inr hseen)
      rw [List.drop_length, List.take_nil, List.length_nil] at hread
      refine yields_make (read_file hi hentry hfd buf.notNull old hread) ?_
      rw [if_pos (by decide : BitVec.ofNat 32 0 ≠ minusOne), readTo_advance]
      dsimp only
      rw [if_pos (by decide : BitVec.ofNat 32 0 = 0)]
      refine yields_done ?_
      show Printed fs p i inode 0 _
      rw [Printed, if_neg (by simp [hseen])]
      exact ⟨rfl, rfl⟩
  · have hwhole : q % 1024 = 0 := hchunk.resolve_right hlast
    have hinside : q + 1024 ≤ (fs.fileContents inode).length ∨
        fs.badBlock inode ((fs.fileContents inode).length / 4096) = false := by
      cases hseen : fs.badBlock inode ((fs.fileContents inode).length / 4096) with
      | false => exact Or.inr rfl
      | true =>
        have hfull := length_mod_of_unseen hfile hseen
        exact Or.inl (by omega)
    have hread := readData_chunk hfile hq (n := 1024) (by decide) (by decide) hinside
    have hcount : (((fs.fileContents inode).drop q).take 1024).length =
        min 1024 ((fs.fileContents inode).length - q) := by
      rw [List.length_take, List.length_drop]
    have hnext : (fs.fileContents inode).take q ++ ((fs.fileContents inode).drop q).take 1024 =
        (fs.fileContents inode).take (q + (((fs.fileContents inode).drop q).take 1024).length) := by
      rw [List.take_add, ← List.prefix_iff_eq_take.mp (List.take_prefix 1024 _)]
    generalize ((fs.fileContents inode).drop q).take 1024 = chunk at hread hcount hnext
    have hret := ofNat_ne_status (n := chunk.length) (by omega) (by omega)
    refine yields_make (read_file hi hentry hfd buf.notNull old hread) ?_
    dsimp only
    rw [if_neg hret.1, if_neg hret.2, if_pos hret.2, readTo_advance]
    refine yields_make
      (write_console (readTo_console hout hi .file inode _ _) buf.notNull _ (by omega)) ?_
    dsimp only
    rw [if_neg hret.2, readTo_print, map_range_overlay, hnext]
    refine yields_done ⟨⟨q + chunk.length, by omega, by omega, rfl⟩, ?_⟩
    dsimp only
    rw [bytesLeft_readTo (by omega), bytesLeft_readTo (by omega)]
    omega

/-- Where a program is in the directory if it prints `line j` for entry `j`. -/
def AtEntry (fs : FileSystem) (p : Process) (i : Fin 8) (line : Nat → List Byte) (p' : Process) :
    Prop :=
  ∃ q, q ≤ fs.dirCount.toNat ∧
    p' = p.readTo i .directory 0 q ((List.range q).flatMap line)

/-- The directory, printed. -/
def Listed (fs : FileSystem) (p : Process) (i : Fin 8) (line : Nat → List Byte) (status : Word)
    (p' : Process) : Prop :=
  status = 0 ∧ p' = p.readTo i .directory 0 fs.dirCount.toNat
    ((List.range fs.dirCount.toNat).flatMap line)

/-- The entries that are not read yet. -/
def entriesLeft (fs : FileSystem) (i : Fin 8) (p : Process) : Nat :=
  fs.dirCount.toNat - (p.fds i).filePosition.toNat

theorem entriesLeft_readTo {q : Nat} (hq : q < 2 ^ 32) (text : List Byte) :
    entriesLeft fs i (p.readTo i .directory 0 q text) = fs.dirCount.toNat - q := by
  unfold entriesLeft
  rw [readTo_entry, toNat_ofNat_small hq]

/-- What a round of a loop over the directory does: one more entry, or the end. -/
abbrev EntryRound {σ : Type} (fs : FileSystem) (p : Process) (i : Fin 8) (line : Nat → List Byte)
    (x : σ) (p' : Process) : σ ⊕ Word → Process → Prop :=
  Round (fun _ => AtEntry fs p i line) (fun _ => entriesLeft fs i) (Listed fs p i line) x p'

/-- The next entry has been read and its line printed. -/
theorem entryRound_next {σ : Type} (hcount : fs.dirCount.toNat ≤ 63) {line : Nat → List Byte}
    {q : Nat} (hq : q < fs.dirCount.toNat) (x y : σ) :
    EntryRound fs p i line x (p.readTo i .directory 0 q ((List.range q).flatMap line)) (.inl y)
      (p.readTo i .directory 0 (q + 1) ((List.range q).flatMap line ++ line q)) := by
  refine ⟨⟨q + 1, hq, ?_⟩, ?_⟩
  · rw [List.range_succ, List.flatMap_append, List.flatMap_singleton]
  · dsimp only
    rw [entriesLeft_readTo (by omega), entriesLeft_readTo (by omega)]
    omega

/-- A loop over the directory from its start. -/
theorem yields_entries {σ : Type} {body : σ → UserProgram (σ ⊕ Word)} {line : Nat → List Byte}
    (hdir : fs.ValidDirectory)
    (hround : ∀ x p', AtEntry fs p i line p' →
      Yields (processSystem fs arg) (body x) p' (EntryRound fs p i line x p'))
    {rounds : Nat} (hrounds : 63 < rounds) (x : σ) :
    Yields (processSystem fs arg) (loop body rounds x) (p.readTo i .directory 0 0 [])
      (Listed fs p i line) := by
  refine yields_loop hround ⟨0, Nat.zero_le _, rfl⟩ ?_
  have hcount := hdir.count
  unfold entriesLeft
  omega

/-- **A round of `cat` on the directory** prints a name. -/
theorem yields_catRound_directory (hdir : fs.ValidDirectory) (hout : p.Console) (hi : 2 ≤ i)
    {fd : Word} (hfd : fdIndex fd = some i) (buf : Buffer 1024) (literals : Buffer 1)
    (old : Nat → Byte) {p' : Process}
    (h : AtEntry fs p i (fun j => (fs.nameAt (fs.direntry j)).bytes) p') :
    Yields (processSystem fs arg) (catRound fd buf literals old) p'
      (EntryRound fs p i (fun j => (fs.nameAt (fs.direntry j)).bytes) old p') := by
  obtain ⟨q, hq, rfl⟩ := h
  have hcount := hdir.count
  unfold catRound
  by_cases hlast : q = fs.dirCount.toNat
  · subst hlast
    refine yields_make
      (read_directory_end hi (readTo_entry p i .directory 0 _ _) hfd buf.notNull old 1024) ?_
    dsimp only
    rw [if_pos rfl]
    exact yields_done ⟨rfl, rfl⟩
  · have hlt : q < fs.dirCount.toNat := by omega
    have hname := hdir.named q hlt
    have hlong := strlen_nameAt_le fs (fs.direntry q)
    have hpos : 0 < (fs.nameAt (fs.direntry q)).strlen := List.length_pos_iff.mpr hname
    have hret := ofNat_ne_status hpos (by omega)
    refine yields_make
      (read_directory hi (readTo_entry p i .directory 0 _ _) hfd buf.notNull old 1024 hlt) ?_
    dsimp only
    rw [if_neg hret.1, if_neg hret.2]
    rw [readTo_advance]
    refine yields_make
      (write_console (readTo_console hout hi .directory 0 _ _) buf.notNull _ (by omega)) ?_
    dsimp only
    rw [if_neg hret.2, readTo_print, CString.strlen, map_range_overlay]
    exact yields_done (entryRound_next hcount hlt _ _)

/-- **`cat` of the clock** ends with its first tick. -/
theorem yields_catRound_clock (hi : 2 ≤ i) {fd : Word} (hfd : fdIndex fd = some i)
    (buf : Buffer 1024) (literals : Buffer 1) (old : Nat → Byte) {p' : Process}
    (h : p' = p.setFd i ⟨some .rtc, 0, 0, 1⟩) :
    Yields (processSystem fs arg) (catRound fd buf literals old) p'
      (Round (fun _ p' => p' = p.setFd i ⟨some .rtc, 0, 0, 1⟩) (fun _ _ => 0)
        (fun status p' => status = 0 ∧ p' = p.setFd i ⟨some .rtc, 0, 0, 1⟩) old p') := by
  subst h
  unfold catRound
  refine yields_make (read_clock hi (Function.update_self ..) hfd buf.notNull old 1024) ?_
  dsimp only
  rw [if_pos rfl]
  exact yields_done ⟨rfl, rfl⟩

/-! ### The whole program -/

/-- What `cat` prints, and its status. -/
def catOutcome (fs : FileSystem) (arg : CString) : List Byte × Word :=
  if arg.strlen = 0 then (ascii "could not read arguments\n".toList, 3)
  else
    match fs.readDentryByName arg with
    | none => (ascii "file not found\n".toList, 2)
    | some d =>
      let contents := fs.fileContents d.inodeNum
      if d.filetype = 0 then ([], 0)
      else if d.filetype = 1 then
        ((List.range fs.dirCount.toNat).flatMap fun j => (fs.nameAt (fs.direntry j)).bytes, 0)
      -- the end of the file is not seen if the entry behind its last full block is bad
      else if fs.badBlock d.inodeNum (contents.length / 4096) then
        (contents ++ ascii "file read failed\n".toList, 3)
      else (contents, 0)

theorem yields_cat (himage : fs.ValidImage) (hp : p.Ready) (harg : arg.strlen < 1024)
    (buf : Buffer 1024) (literals : Buffer 1) (old : Nat → Byte) {rounds : Nat}
    (hrounds : 1023 * 4096 < rounds) :
    Yields (processSystem fs arg) (cat buf literals old rounds) p fun status p' =>
      p'.text = p.text ++ (catOutcome fs arg).1 ∧ status = (catOutcome fs arg).2 := by
  unfold cat catOutcome
  by_cases hempty : arg.strlen = 0
  · refine yields_make (getargs_empty hempty _ _) ?_
    rw [if_pos (by decide : Answer.refused.ret ≠ 0), if_pos hempty]
    exact yields_seq (run_putLiteral hp.console literals.notNull (by decide))
      (yields_done ⟨rfl, rfl⟩)
  · refine yields_make (getargs_given hempty buf.notNull _) ?_
    dsimp only
    rw [if_neg (fun hne => hne rfl), if_neg hempty]
    have htext := text_overlay arg old harg
    obtain ⟨i, hfree⟩ := hp.free
    have hi := freeFd_ge hfree
    cases hfound : fs.readDentryByName arg with
    | none =>
      refine yields_seq (run_openText_missing htext harg hfound) ?_
      rw [if_pos rfl]
      exact yields_seq (run_putLiteral hp.console literals.notNull (by decide))
        (yields_done ⟨rfl, rfl⟩)
    | some d =>
      refine yields_seq (run_openText htext harg hfound hfree) ?_
      rw [if_neg (ofNat_fin_ne_minusOne i)]
      dsimp only
      unfold openedEntry
      by_cases hrtc : d.filetype = 0
      · rw [if_pos hrtc, if_pos hrtc]
        refine (yields_loop (fun old p' h => yields_catRound_clock hi (fdIndex_ofNat i) buf literals
          old h) rfl (by omega)).mono ?_
        rintro status p' ⟨rfl, rfl⟩
        exact ⟨(List.append_nil _).symm, rfl⟩
      · by_cases hdirectory : d.filetype = 1
        · rw [if_neg hrtc, if_neg hrtc, if_pos hdirectory, if_pos hdirectory, setFd_opened]
          refine (yields_entries himage.toValidDirectory
            (fun old p' h => yields_catRound_directory himage.toValidDirectory
              hp.console hi (fdIndex_ofNat i) buf literals old h) (by omega) _).mono ?_
          rintro status p' ⟨rfl, rfl⟩
          exact ⟨rfl, rfl⟩
        · have hfile := validFile_of_found himage hfound hrtc hdirectory
          have hlen := hfile.length_le
          rw [← length_fileContents] at hlen
          rw [if_neg hrtc, if_neg hrtc, if_neg hdirectory, if_neg hdirectory, setFd_opened]
          refine (yields_loop (fun old p' h => yields_catRound hfile hp.console hi
            (fdIndex_ofNat i) buf literals old h) ⟨0, Or.inl rfl, Nat.zero_le _, rfl⟩ ?_).mono ?_
          · unfold bytesLeft
            omega
          · intro status p' hprinted
            unfold Printed at hprinted
            dsimp only at hprinted
            split at hprinted
            · rename_i hseen
              obtain ⟨rfl, rfl⟩ := hprinted
              rw [if_pos hseen]
              exact ⟨rfl, rfl⟩
            · rename_i hseen
              obtain ⟨rfl, rfl⟩ := hprinted
              rw [if_neg hseen]
              exact ⟨rfl, rfl⟩

end Cat

/-! ## `ls` -/

section Ls
variable {fs : FileSystem} {arg : CString} {p : Process} {i : Fin 8}

/-- What `ls` prints for entry `j`. -/
def lsLine (fs : FileSystem) (j : Nat) : List Byte := (fs.nameAt (fs.direntry j)).bytes ++ [0x0A]

/-- An array that begins with a text to which a byte is added. -/
theorem map_range_update (text : List Byte) (c : Byte) (old : Nat → Byte) :
    (List.range (text.length + 1)).map (Function.update (overlay text old) text.length c) =
      text ++ [c] := by
  have hbefore : ∀ j ∈ List.range text.length,
      Function.update (overlay text old) text.length c j = overlay text old j := by
    intro j hj
    exact Function.update_of_ne (Nat.ne_of_lt (List.mem_range.mp hj)) ..
  rw [List.range_succ, List.map_append, List.map_congr_left hbefore, map_range_overlay]
  simp

/-- **A round of `ls`** prints a name and a newline. -/
theorem yields_lsRound (hdir : fs.ValidDirectory) (hout : p.Console) (hi : 2 ≤ i)
    {fd : Word} (hfd : fdIndex fd = some i) (buf : Buffer 33) (literals : Buffer 1)
    (old : Nat → Byte) {p' : Process} (h : AtEntry fs p i (lsLine fs) p') :
    Yields (processSystem fs arg) (lsRound fd buf literals old) p'
      (EntryRound fs p i (lsLine fs) old p') := by
  obtain ⟨q, hq, rfl⟩ := h
  have hcount := hdir.count
  unfold lsRound
  by_cases hlast : q = fs.dirCount.toNat
  · subst hlast
    refine yields_make
      (read_directory_end hi (readTo_entry p i .directory 0 _ _) hfd buf.notNull old 32) ?_
    dsimp only
    rw [if_pos rfl]
    exact yields_done ⟨rfl, rfl⟩
  · have hlt : q < fs.dirCount.toNat := by omega
    have hlong := strlen_nameAt_le fs (fs.direntry q)
    have hpos : 0 < (fs.nameAt (fs.direntry q)).strlen := List.length_pos_iff.mpr (hdir.named q hlt)
    have hret := ofNat_ne_status hpos (by omega)
    have hcnt := toNat_ofNat_small (n := (fs.nameAt (fs.direntry q)).strlen) (by omega)
    have hwritten := ofNat_ne_status (n := (fs.nameAt (fs.direntry q)).strlen + 1)
      (Nat.succ_pos _) (by omega)
    refine yields_make
      (read_directory hi (readTo_entry p i .directory 0 _ _) hfd buf.notNull old 32 hlt) ?_
    dsimp only
    rw [if_neg hret.1, if_neg hret.2, readTo_advance, hcnt,
      show BitVec.ofNat 32 (fs.nameAt (fs.direntry q)).strlen + 1 =
        BitVec.ofNat 32 ((fs.nameAt (fs.direntry q)).strlen + 1) from (BitVec.ofNat_add ..).symm]
    refine yields_make
      (write_console (readTo_console hout hi .directory 0 _ _) buf.notNull _ (by omega)) ?_
    dsimp only
    rw [if_neg hwritten.2, readTo_print, CString.strlen, map_range_update]
    exact yields_done (entryRound_next hcount hlt _ _)

/-- What `ls` prints, and its status. -/
def lsOutcome (fs : FileSystem) : List Byte × Word :=
  match fs.readDentryByName dot with
  | none => (ascii "directory open failed\n".toList, 2)
  | some _ => ((List.range fs.dirCount.toNat).flatMap (lsLine fs), 0)

theorem yields_ls (himage : fs.ValidImage) (hp : p.Ready)
    (hdot : ∀ d, fs.readDentryByName dot = some d → d.filetype = 1) (buf : Buffer 33)
    (literals : Buffer 1) (old : Nat → Byte) {rounds : Nat} (hrounds : 63 < rounds) :
    Yields (processSystem fs arg) (ls buf literals old rounds) p fun status p' =>
      p'.text = p.text ++ (lsOutcome fs).1 ∧ status = (lsOutcome fs).2 := by
  unfold ls lsOutcome
  obtain ⟨i, hfree⟩ := hp.free
  have hi := freeFd_ge hfree
  cases hfound : fs.readDentryByName dot with
  | none =>
    refine yields_make (open_missing hfound) ?_
    dsimp only
    rw [if_pos (show Answer.refused.ret = minusOne from rfl)]
    exact yields_seq (run_putLiteral hp.console literals.notNull (by decide))
      (yields_done ⟨rfl, rfl⟩)
  | some d =>
    refine yields_make (open_free hfound hfree) ?_
    dsimp only
    rw [if_neg (ofNat_fin_ne_minusOne i), openedEntry, if_neg (by rw [hdot d hfound]; decide),
      if_pos (hdot d hfound), setFd_opened]
    refine (yields_entries himage.toValidDirectory
      (fun old p' h => yields_lsRound himage.toValidDirectory hp.console hi (fdIndex_ofNat i) buf
        literals old h) hrounds _).mono ?_
    rintro status p' ⟨rfl, rfl⟩
    exact ⟨rfl, rfl⟩

end Ls

/-! ## Over the kernel -/

/-- Run by the process of `k`, the program ends with `status`, and the console shows `text`. -/
def Shows (fs : FileSystem) (k : Kernel) (ticks : Nat → List Regs) (program : UserProgram Word)
    (text : List Byte) (status : Word) : Prop :=
  ∃ k' n, program.run (tickingSystem fs ticks) (k, 0) = some (status, k', n) ∧
    k'.offProcess = puts k.offProcess text ∧ Alone k'

theorem shows_of_yields {fs : FileSystem} {k : Kernel} (hk : Alone k) (ticks : Nat → List Regs)
    {program : UserProgram Word} {outcome : List Byte × Word}
    (h : Yields (processSystem fs (k.pcb k.executingSlot).arg) program k.runningProcess
      fun status p => p.text = k.runningProcess.text ++ outcome.1 ∧ status = outcome.2) :
    Shows fs k ticks program outcome.1 outcome.2 := by
  obtain ⟨status, ⟨k', n⟩, hrun, p, hserves, htext, rfl⟩ := yields_kernel hk ticks h
  refine ⟨k', n, hrun, ?_, hserves.alone hk⟩
  rw [hserves.console, htext]
  rfl

/-- **`cat`.**  On a valid image, and with the machine to itself, `cat` shows the file its
argument names from its first byte to its last, whatever its length, its buffer held before and
however often the timer ticks; then it ends with 0, or, if the end of the file is not seen,
with a message and 3. -/
theorem cat_shows {fs : FileSystem} (himage : fs.ValidImage) {k : Kernel} (hk : Alone k)
    (hready : k.runningProcess.Ready) (harg : (k.pcb k.executingSlot).arg.strlen < 1024)
    (ticks : Nat → List Regs) (buf : Buffer 1024) (literals : Buffer 1) (old : Nat → Byte)
    {rounds : Nat} (hrounds : 1023 * 4096 < rounds) :
    Shows fs k ticks (cat buf literals old rounds)
      (catOutcome fs (k.pcb k.executingSlot).arg).1 (catOutcome fs (k.pcb k.executingSlot).arg).2 :=
  shows_of_yields hk ticks (yields_cat himage hready harg buf literals old hrounds)

/-- The image of a directory, a shell and a file with a long name is valid. -/
theorem directoryImage_validImage : directoryImage.ValidImage := by
  have hlength : (directoryImage.inodeLength 0).toNat = 28 := by decide +kernel
  have hfile : directoryImage.ValidFile 0 := by
    refine ⟨by decide +kernel, by decide +kernel, fun n hn => ?_⟩
    obtain rfl : n = 0 := by omega
    decide +kernel
  have hcount : directoryImage.dirCount.toNat = 3 := by decide +kernel
  have hinodes : ∀ j : Fin 3,
      (directoryImage.dentryAt (directoryImage.direntry j)).inodeNum = 0 := by decide +kernel
  refine ⟨directoryImage_valid, fun j hj _ => ?_⟩
  rw [hcount] at hj
  exact (hinodes ⟨j, hj⟩).symm ▸ hfile

/-- The first shell has run `shell shell`. -/
def withArgument : Kernel :=
  kernelStep directoryImage (booted directoryImage zeroHardware noJunk ⟨0x7FFF00, 0x7FFF40⟩)
    (.execute (some ⟨ascii "shell shell".toList, by decide⟩) noJunk ⟨0x7FFE00, 0x7FFE40⟩)

theorem alone_withArgument : Alone withArgument where
  visible := by decide +kernel
  guessed := by decide +kernel
  jammer := by decide +kernel
  hotjam := by decide +kernel
  active := by decide +kernel
  others := by decide +kernel

theorem ready_withArgument : withArgument.runningProcess.Ready where
  console := ⟨by decide +kernel, by decide +kernel⟩
  free := ⟨2, by decide +kernel⟩

theorem cat_shows_withArgument :
    Shows directoryImage withArgument (fun _ => [⟨0x7FDF00, 0x7FDF40⟩])
      (cat ⟨0x83FFB00, by decide, by decide⟩ ⟨0x8049000, by decide, by decide⟩ noJunk 4190209)
      (catOutcome directoryImage (withArgument.pcb withArgument.executingSlot).arg).1
      (catOutcome directoryImage (withArgument.pcb withArgument.executingSlot).arg).2 :=
  cat_shows directoryImage_validImage alone_withArgument ready_withArgument
    (by decide +kernel) _ _ _ _ (by omega)

/-- It is the shell's own file. -/
example : catOutcome directoryImage (withArgument.pcb withArgument.executingSlot).arg =
    (directoryImage.fileContents 0, 0) := by decide +kernel

/-- **`ls`** shows the names of the directory in their order, each on its line. -/
theorem ls_shows {fs : FileSystem} (himage : fs.ValidImage)
    (hdot : ∀ d, fs.readDentryByName dot = some d → d.filetype = 1) {k : Kernel} (hk : Alone k)
    (hready : k.runningProcess.Ready) (ticks : Nat → List Regs) (buf : Buffer 33)
    (literals : Buffer 1) (old : Nat → Byte) {rounds : Nat} (hrounds : 63 < rounds) :
    Shows fs k ticks (ls buf literals old rounds) (lsOutcome fs).1 (lsOutcome fs).2 :=
  shows_of_yields hk ticks (yields_ls himage hready hdot buf literals old hrounds)

theorem ls_shows_withArgument :
    Shows directoryImage withArgument (fun _ => [⟨0x7FDF00, 0x7FDF40⟩])
      (ls ⟨0x83FFF00, by decide, by decide⟩ ⟨0x8049000, by decide, by decide⟩ noJunk 64)
      (lsOutcome directoryImage).1 (lsOutcome directoryImage).2 := by
  have hdot : directoryImage.readDentryByName dot = some ⟨dot, 1, 0⟩ := by decide +kernel
  refine ls_shows directoryImage_validImage (fun d hd => ?_) alone_withArgument ready_withArgument
    _ _ _ _ (by decide)
  rw [hdot] at hd
  exact Option.some.inj hd ▸ rfl

end LinuxLikeOS
