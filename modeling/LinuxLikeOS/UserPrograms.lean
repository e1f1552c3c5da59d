import LinuxLikeOS.ProcessCalls
import LinuxLikeOS.DirectoryReads

/-! # The file programs

`cat`, `ls` and `grep` of `syscalls/`, with the functions of `ece391support.c` they use.  An
array of a program is its address (`Buffer`) and a function that gives its entries; what it
holds before the program writes to it is an argument.  A loop gets its number of rounds, and
where a C function would run over the memory behind an array, the program has `stopped`.

`_start` hands what `main` returns to `halt`; here a program ends with it.
-/
namespace LinuxLikeOS
open CallingPrograms CountedLoop
open CallingPrograms.Program (make loop)

/-- Where an array of a program is. -/
structure Buffer (size : Nat) where
  address : Word
  notNull : address ≠ 0
  fits : address.toNat + size ≤ 2 ^ 32

/-- The address of an entry. -/
def Buffer.entry {size : Nat} (b : Buffer size) (i : Nat) : Word :=
  b.address + BitVec.ofNat 32 i

/-- Stores bytes from entry `start` on. -/
def storeFrom (array : Nat → Byte) (start : Nat) (bytes : List Byte) (i : Nat) : Byte :=
  if start ≤ i then bytes.getD (i - start) (array i) else array i

/-- The string at the start of an array, if its NUL is among the first `room` entries. -/
def stringWithin (array : Nat → Byte) (room : Nat) : Option CString :=
  (strlenWithin array room).map fun _ => CString.ofBytes ((List.range room).map array)

/-! ## `ece391support.c` -/

namespace Ece391

/-- `ece391_fdputs` of the text `s` at `a`. -/
def fdputs (fd a : Word) (s : Nat → Byte) (room : Nat) : UserProgram Unit :=
  match strlenWithin s room with
  | none => .stopped
  | some len => do
    let _ ← make (.write fd a s (BitVec.ofNat 32 len))
    pure ()

/-- `ece391_fdputs` of a string constant. -/
def putLiteral (fd a : Word) (s : CString) : UserProgram Unit := fdputs fd a s.get (s.strlen + 1)

/-- The loop of `ece391_strcpy` inside one array, from its `i`th entry on. -/
def strcpy (array : Nat → Byte) (dst src : Nat) : Nat → Nat → Option (Nat → Byte)
  | 0, _ => none
  | rounds + 1, i =>
    let copied := Function.update array (dst + i) (array (src + i))
    if array (src + i) = 0 then some copied else strcpy copied dst src rounds (i + 1)

/-- `ece391_strncmp` of `n` characters from the `i`th on. -/
def strncmp (s1 s2 : Nat → Byte) : Nat → Nat → Int
  | 0, _ => 0
  | n + 1, i =>
    if s1 i = s2 i then if s1 i = 0 then 0 else strncmp s1 s2 n (i + 1)
    else (s1 i).toNat - (s2 i).toNat

/-- `ece391_open` of the string in an array. -/
def openText (array : Nat → Byte) (room : Nat) : UserProgram Word :=
  match stringWithin array room with
  | none => .stopped
  | some fname => do
    let opened ← make (.open (some fname))
    pure opened.ret

end Ece391

open Ece391

/-! ## `cat` -/

/-- The loop of `cat`; it leaves with the status. -/
def catRound (fd : Word) (buf : Buffer 1024) (literals : Buffer 1) (old : Nat → Byte) :
    UserProgram ((Nat → Byte) ⊕ Word) := do
  let data ← make (.read fd buf.address old 1024)
  if data.ret = 0 then pure (.inr 0)
  else if data.ret = minusOne then
    putLiteral 1 literals.address ⟨ascii "file read failed\n".toList, by decide⟩
    pure (.inr 3)
  else
    let bytes := overlay data.stored old
    let written ← make (.write 1 buf.address bytes data.ret)
    if written.ret = minusOne then pure (.inr 3) else pure (.inl bytes)

/-- `main` of `ece391cat.c`. -/
def cat (buf : Buffer 1024) (literals : Buffer 1) (old : Nat → Byte) (rounds : Nat) :
    UserProgram Word := do
  let args ← make (.getargs buf.address 1024)
  if args.ret ≠ 0 then
    putLiteral 1 literals.address ⟨ascii "could not read arguments\n".toList, by decide⟩
    pure 3
  else
    let name := overlay args.stored old
    let fd ← openText name 1024
    if fd = minusOne then
      putLiteral 1 literals.address ⟨ascii "file not found\n".toList, by decide⟩
      pure 2
    else loop (catRound fd buf literals) rounds name

/-! ## `ls` -/

/-- `"."`. -/
def dot : CString := ⟨ascii ".".toList, by decide⟩

/-- The loop of `ls`. -/
def lsRound (fd : Word) (buf : Buffer 33) (literals : Buffer 1) (old : Nat → Byte) :
    UserProgram ((Nat → Byte) ⊕ Word) := do
  let entry ← make (.read fd buf.address old 32)
  if entry.ret = 0 then pure (.inr 0)
  else if entry.ret = minusOne then
    putLiteral 1 literals.address ⟨ascii "directory entry read failed\n".toList, by decide⟩
    pure (.inr 3)
  else
    let line := Function.update (overlay entry.stored old) entry.ret.toNat 0x0A
    let written ← make (.write 1 buf.address line (entry.ret + 1))
    if written.ret = minusOne then pure (.inr 3) else pure (.inl line)

/-- `main` of `ece391ls.c`. -/
def ls (buf : Buffer 33) (literals : Buffer 1) (old : Nat → Byte) (rounds : Nat) :
    UserProgram Word := do
  let opened ← make (.open (some dot))
  if opened.ret = minusOne then
    putLiteral 1 literals.address ⟨ascii "directory open failed\n".toList, by decide⟩
    pure 2
  else loop (lsRound opened.ret buf literals) rounds old

/-! ## `grep` -/

/-- The arrays of `grep` and its string constants. -/
structure GrepMemory where
  data : Buffer 1025
  buf : Buffer 33
  search : Buffer 1024
  literals : Buffer 1

/-- `line_end`: the next newline, or `last`. -/
def lineEnd (data : Nat → Byte) (last lineStart : Nat) : Nat :=
  lineStart + leading (fun j => data j != 0x0A) (last - lineStart) lineStart

/-- The loop over `check` finds the string in a line. -/
def foundInLine (data s : Nat → Byte) (sLen lineStart lineEnd : Nat) : Bool :=
  (List.range (lineEnd - lineStart)).any fun j =>
    s 0 == data (lineStart + j) &&
      Ece391.strncmp (fun i => data (lineStart + j + i)) s sLen 0 == 0

/-- The four `ece391_fdputs` of a line that is found. -/
def printLine (m : GrepMemory) (fname data : Nat → Byte) (lineStart : Nat) : UserProgram Unit := do
  fdputs 1 m.buf.address fname 33
  putLiteral 1 m.literals.address ⟨ascii ":".toList, by decide⟩
  fdputs 1 (m.data.entry lineStart) (fun i => data (lineStart + i)) (1025 - lineStart)
  putLiteral 1 m.literals.address ⟨ascii "\n".toList, by decide⟩

/-- The search of a line. -/
def searchLine (m : GrepMemory) (s fname data : Nat → Byte) (sLen lineStart lineEnd : Nat) :
    UserProgram Unit :=
  if foundInLine data s sLen lineStart lineEnd then printLine m fname data lineStart else pure ()

/-- A round of the inner loop of `do_one_file`, on `data` and `line_start`; the loop leaves `data`
and `last`. -/
def searchRound (m : GrepMemory) (s fname : Nat → Byte) (sLen : Nat) (cnt : Word) (last : Nat)
    (state : (Nat → Byte) × Nat) :
    UserProgram (((Nat → Byte) × Nat) ⊕ ((Nat → Byte) × Nat)) :=
  let (data, lineStart) := state
  let lineEnd := lineEnd data last lineStart
  let ended := Function.update data lineEnd 0
  if data lineEnd ≠ 0x0A ∧ cnt ≠ 0 ∧ lineStart ≠ 0 then
    -- the part of a line at the end of the buffer goes to its start
    match Ece391.strcpy ended 0 lineStart 1025 0 with
    | none => .stopped
    | some moved => pure (.inr (moved, last - lineStart))
  else do
    searchLine m s fname ended sLen lineStart lineEnd
    if lineEnd + 1 ≥ last then pure (.inr (ended, 0)) else pure (.inl (ended, lineEnd + 1))

/-- A round of the outer loop of `do_one_file`, on `data` and `last`. -/
def chunkRound (m : GrepMemory) (s fname : Nat → Byte) (sLen : Nat) (fd : Word) (rounds : Nat)
    (state : (Nat → Byte) × Nat) : UserProgram (((Nat → Byte) × Nat) ⊕ Word) := do
  let (data, last) := state
  let chunk ← make
    (.read fd (m.data.entry last) (fun i => data (last + i)) (BitVec.ofNat 32 (1024 - last)))
  if chunk.ret = minusOne then
    putLiteral 1 m.literals.address ⟨ascii "file read failed\n".toList, by decide⟩
    pure (.inr minusOne)
  else
    let left ← loop (searchRound m s fname sLen chunk.ret (last + chunk.ret.toNat)) rounds
      (storeFrom data last chunk.stored, 0)
    if chunk.ret = 0 then pure (.inr 0) else pure (.inl left)

/-- `do_one_file`. -/
def doOneFile (m : GrepMemory) (s fname : Nat → Byte) (old : Nat → Byte) (rounds : Nat) :
    UserProgram Word :=
  match strlenWithin s 1024 with
  | none => .stopped
  | some sLen => do
    let fd ← openText fname 33
    if fd = minusOne then
      putLiteral 1 m.literals.address ⟨ascii "file open failed\n".toList, by decide⟩
      pure minusOne
    else
      let status ← loop (chunkRound m s fname sLen fd rounds) rounds (old, 0)
      if status = minusOne then pure minusOne
      else
        let closed ← make (.close fd)
        if closed.ret = minusOne then
          putLiteral 1 m.literals.address ⟨ascii "file close failed\n".toList, by decide⟩
          pure minusOne
        else pure 0

/-- A round of the loop of `grep`. -/
def grepRound (m : GrepMemory) (s : Nat → Byte) (fd : Word) (old : Nat → Nat → Byte) (rounds : Nat)
    (state : (Nat → Byte) × Nat) : UserProgram (((Nat → Byte) × Nat) ⊕ Word) := do
  let (buf, n) := state
  let entry ← make (.read fd m.buf.address buf 32)
  if entry.ret = 0 then pure (.inr 0)
  else if entry.ret = minusOne then
    putLiteral 1 m.literals.address ⟨ascii "directory entry read failed\n".toList, by decide⟩
    pure (.inr 3)
  else
    let name := overlay entry.stored buf
    if name 0 = 0x2E then pure (.inl (name, n + 1))
    else
      let fname := Function.update name entry.ret.toNat 0
      let status ← doOneFile m s fname (old n) rounds
      if status ≠ 0 then pure (.inr 3) else pure (.inl (fname, n + 1))

/-- `main` of `ece391grep.c`; `old n` is what `data` holds at first in round `n`. -/
def grep (m : GrepMemory) (oldSearch oldBuf : Nat → Byte) (old : Nat → Nat → Byte) (rounds : Nat) :
    UserProgram Word := do
  let args ← make (.getargs m.search.address 1024)
  if args.ret ≠ 0 then
    putLiteral 1 m.literals.address ⟨ascii "could not read argument\n".toList, by decide⟩
    pure 3
  else
    let opened ← make (.open (some dot))
    if opened.ret = minusOne then
      putLiteral 1 m.literals.address ⟨ascii "directory open failed\n".toList, by decide⟩
      pure 2
    else
      loop (grepRound m (overlay args.stored oldSearch) opened.ret old rounds) rounds (oldBuf, 0)

end LinuxLikeOS
