import LinuxLikeOS.NameLookup

/-! # The command line of `execute`

The parser goes over a command with 8-bit indices and copies the first word to `cmd`, an array
of 32 bytes, and what follows its blanks to `arg`, one of 128.  The only length that is checked
is that of the whole command, so a word of 32 bytes fills `cmd` without a NUL, and a longer one
is stored behind it (`buffersSafe_iff`).

For the other commands the arrays hold the strings of `parseCommand`, and `execute` can refuse
such a command without leaving a trace (`execute_refused`).
-/
namespace LinuxLikeOS
open CountedLoop TerminatedText

/-! ## Words -/

/-- The first word of a command. -/
def firstWord (command : CString) : List Byte :=
  (command.bytes.dropWhile isBlank).takeWhile fun c => !isBlank c

/-- What follows the first word and the blanks behind it. -/
def argumentText (command : CString) : List Byte :=
  ((command.bytes.dropWhile isBlank).dropWhile fun c => !isBlank c).dropWhile isBlank

section Words
variable {command : CString}

theorem skipWhile_eq (p : Byte → Bool) (command : CString) (i : Nat) :
    skipWhile p command i = i + ((command.bytes.drop i).takeWhile p).length := by
  rw [← leading_getD (z := 0)]
  rfl

theorem drop_skipWhile (p : Byte → Bool) (command : CString) (i : Nat) :
    command.bytes.drop (skipWhile p command i) = (command.bytes.drop i).dropWhile p := by
  rw [skipWhile_eq, ← List.drop_drop, drop_length_takeWhile]

/-- What a loop of the parser passes over. -/
theorem slice_skipWhile (p : Byte → Bool) (command : CString) (i : Nat) :
    (command.slice i (skipWhile p command i - i)).bytes = (command.bytes.drop i).takeWhile p := by
  rw [skipWhile_eq, Nat.add_sub_cancel_left]
  exact (List.prefix_iff_eq_take.mp (List.takeWhile_prefix p)).symm

/-- **What the parser finds.** -/
theorem parseCommand_bytes (command : CString) :
    (parseCommand command).1.bytes = firstWord command ∧
      (parseCommand command).2.bytes = argumentText command := by
  have hall : ∀ l : List Byte, l.takeWhile (fun _ => true) = l := fun l =>
    List.takeWhile_eq_self_iff.mpr fun _ _ => rfl
  simp only [parseCommand, slice_skipWhile, drop_skipWhile, List.drop_zero, hall]
  exact ⟨rfl, rfl⟩

/-- An argument has a word and a blank before it. -/
theorem length_argumentText (h : argumentText command ≠ []) :
    (argumentText command).length < command.strlen := by
  have hrest : (firstWord command).length +
      ((command.bytes.dropWhile isBlank).dropWhile fun c => !isBlank c).length ≤
        command.strlen := by
    rw [firstWord, ← List.length_append, List.takeWhile_append_dropWhile]
    exact (List.dropWhile_sublist _).length_le
  have hle : (argumentText command).length ≤
      ((command.bytes.dropWhile isBlank).dropWhile fun c => !isBlank c).length :=
    (List.dropWhile_sublist _).length_le
  have hpos : 0 < (firstWord command).length := by
    rw [List.length_pos_iff]
    intro hnil
    -- without a word all is blank
    have hblank : command.bytes.dropWhile isBlank = [] := by
      by_contra hne
      have hhead := List.head_dropWhile_not isBlank hne
      rw [firstWord, List.takeWhile_eq_nil_iff] at hnil
      have hfirst := hnil (List.length_pos_iff.mpr hne)
      rw [List.head_eq_getElem] at hhead
      rw [List.get_eq_getElem, hhead] at hfirst
      exact hfirst rfl
    rw [argumentText, hblank] at h
    exact h rfl
  omega

end Words

/-! ## Buffers -/

/-- A loop of the parser, with its 8-bit index; `none` if it has not ended after `n` steps. -/
def skipLoop (p : Byte → Bool) (command : CString) : Nat → Byte → Option Byte
  | 0, _ => none
  | n + 1, i =>
    if p (command.get i.toNat) ∧ i.toNat ≠ command.strlen then skipLoop p command n (i + 1)
    else some i

/-- The stores `dest[i] = command[start + i]` of a copy loop: indices and bytes. -/
def copyStores (command : CString) (start length : Byte) : List (Nat × Byte) :=
  (List.range length.toNat).map fun i => (i, command.get (start.toNat + i))

/-- The stores into `cmd` and into `arg`. -/
structure ParserStores where
  cmd : List (Nat × Byte)
  arg : List (Nat × Byte)
  deriving DecidableEq

/-- The parser.  A loop that does not end in 256 steps has seen all indices there are. -/
def parseStores (command : CString) : Option ParserStores := do
  let cmdStart ← skipLoop isBlank command 256 0
  let cmdEnd ← skipLoop (fun c => !isBlank c) command 256 cmdStart
  let argStart ← skipLoop isBlank command 256 cmdEnd
  let argEnd ← skipLoop (fun _ => true) command 256 argStart
  some ⟨copyStores command cmdStart (cmdEnd - cmdStart),
    copyStores command argStart (argEnd - argStart)⟩

/-- A zeroed array of `size` bytes, and the memory behind it. -/
def zeroed (size : Nat) (behind : Nat → Byte) (j : Nat) : Byte :=
  if j < size then 0 else behind (j - size)

/-- Memory after stores. -/
def storeEach (mem : Nat → Byte) (stores : List (Nat × Byte)) : Nat → Byte :=
  stores.foldl (fun mem s => Function.update mem s.1 s.2) mem

/-- The string at the start of `mem`. -/
def HoldsString (mem : Nat → Byte) (s : CString) : Prop := ∀ j, j ≤ s.strlen → mem j = s.get j

/-- The memory behind `cmd`, and behind `arg`. -/
structure StackArrays where
  behindCmd : Nat → Byte
  behindArg : Nat → Byte

/-- The arrays are used as they are meant to be: every store is inside, both strings end inside,
and so `strcpy` of `arg` ends inside the 128 bytes of `PCB->arg`. -/
structure BuffersSafe (stack : StackArrays) (pcbArg : Nat → Byte) (stores : ParserStores) :
    Prop where
  cmdStores : ∀ s ∈ stores.cmd, s.1 < 32
  argStores : ∀ s ∈ stores.arg, s.1 < 128
  cmdEnds : ∃ j, j < 32 ∧ storeEach (zeroed 32 stack.behindCmd) stores.cmd j = 0
  argEnds : ∃ j, j < 128 ∧ storeEach (zeroed 128 stack.behindArg) stores.arg j = 0
  pcbArg : ∃ filled,
    strcpy (storeEach (zeroed 128 stack.behindArg) stores.arg) 128 0 pcbArg = some filled

/-- Every command that gets to the parser is parsed, in its buffers. -/
def ParserSafe (stack : StackArrays) (pcbArg : Nat → Byte) (command : CString) : Prop :=
  command.strlen ≤ 128 → ∃ stores, parseStores command = some stores ∧
    BuffersSafe stack pcbArg stores

/-- With some command, `read_dentry_by_name` gets this name in `cmd`. -/
def Nameable (stack : StackArrays) (fname : CString) : Prop :=
  ∃ command : CString, command.strlen ≤ 128 ∧ ∃ stores, parseStores command = some stores ∧
    HoldsString (storeEach (zeroed 32 stack.behindCmd) stores.cmd) fname

section Parsing
variable {command s : CString}

theorem skipWhile_le (p : Byte → Bool) {i : Nat} (hi : i ≤ command.strlen) :
    i ≤ skipWhile p command i ∧ skipWhile p command i ≤ command.strlen := by
  have hle := leading_le (p := fun j => p (command.get j)) (command.strlen - i) i
  unfold skipWhile
  omega

/-- **The loops end**, with the indices of `parseCommand`. -/
theorem skipLoop_eq (p : Byte → Bool) (hlen : command.strlen ≤ 128) {n i : Nat}
    (hi : i ≤ command.strlen) (hn : command.strlen - i < n) :
    skipLoop p command n (BitVec.ofNat 8 i) = some (BitVec.ofNat 8 (skipWhile p command i)) := by
  induction n generalizing i with
  | zero => cases hn
  | succ n ih =>
    have hindex : (BitVec.ofNat 8 i).toNat = i := by
      rw [BitVec.toNat_ofNat]
      omega
    rw [skipLoop, hindex, skipWhile]
    by_cases hend : i = command.strlen
    · rw [if_neg fun h => h.2 hend, hend, Nat.sub_self]
      rfl
    · obtain ⟨m, hm⟩ : ∃ m, command.strlen - i = m + 1 := ⟨command.strlen - i - 1, by omega⟩
      rw [hm, leading]
      by_cases hp : p (command.get i) = true
      · have hnext : BitVec.ofNat 8 i + 1 = BitVec.ofNat 8 (i + 1) := (BitVec.ofNat_add i 1).symm
        have hrest := ih (i := i + 1) (by omega) (by omega)
        rw [skipWhile, show command.strlen - (i + 1) = m by omega] at hrest
        rw [if_pos ⟨hp, hend⟩, if_pos hp, hnext, hrest]
        congr 2
        omega
      · rw [if_neg fun h => hp h.1, if_neg hp]
        rfl

/-- The stores that put a string at the start of an array. -/
def stringStores (s : CString) : List (Nat × Byte) :=
  (List.range s.strlen).map fun i => (i, s.get i)

/-- A copy loop copies a slice. -/
theorem copyStores_eq (hlen : command.strlen ≤ 128) {a b : Nat} (hab : a ≤ b)
    (hb : b ≤ command.strlen) :
    copyStores command (BitVec.ofNat 8 a) (BitVec.ofNat 8 b - BitVec.ofNat 8 a) =
      stringStores (command.slice a (b - a)) := by
  have hstart : (BitVec.ofNat 8 a).toNat = a := by
    rw [BitVec.toNat_ofNat]
    omega
  have hlength : (BitVec.ofNat 8 b - BitVec.ofNat 8 a).toNat = b - a := by
    rw [BitVec.toNat_sub, BitVec.toNat_ofNat, BitVec.toNat_ofNat]
    omega
  have hslice : (command.slice a (b - a)).strlen = b - a := by
    have hbytes : command.bytes.length = command.strlen := rfl
    simp only [CString.strlen, CString.slice, List.length_take, List.length_drop]
    omega
  rw [copyStores, stringStores, hstart, hlength, hslice]
  refine List.map_congr_left fun j hj => ?_
  have hlt := List.mem_range.mp hj
  simp [CString.get, CString.slice, List.getD_eq_getElem?_getD, List.getElem?_take_of_lt hlt]

/-- **The parser stores the strings of `parseCommand`.** -/
theorem parseStores_eq (hlen : command.strlen ≤ 128) :
    parseStores command =
      some ⟨stringStores (parseCommand command).1, stringStores (parseCommand command).2⟩ := by
  have hcmdStart := skipWhile_le isBlank (Nat.zero_le command.strlen)
  have hcmdEnd := skipWhile_le (fun c => !isBlank c) hcmdStart.2
  have hargStart := skipWhile_le isBlank hcmdEnd.2
  have hargEnd := skipWhile_le (fun _ => true) hargStart.2
  have hzero : (0 : Byte) = BitVec.ofNat 8 0 := rfl
  have hfuel : ∀ i, command.strlen - i < 256 := fun i => by omega
  rw [parseStores, hzero, skipLoop_eq isBlank hlen (Nat.zero_le _) (hfuel _), Option.bind_eq_bind,
    Option.bind_some, skipLoop_eq _ hlen hcmdStart.2 (hfuel _), Option.bind_some,
    skipLoop_eq isBlank hlen hcmdEnd.2 (hfuel _), Option.bind_some,
    skipLoop_eq _ hlen hargStart.2 (hfuel _), Option.bind_some,
    copyStores_eq hlen hcmdEnd.1 hcmdEnd.2, copyStores_eq hlen hargEnd.1 hargEnd.2]
  rfl

end Parsing

section Safety
variable {s fname : CString} {size : Nat} {behind : Nat → Byte}

theorem storeEach_string (mem : Nat → Byte) (s : CString) (j : Nat) :
    storeEach mem (stringStores s) j = if j < s.strlen then s.get j else mem j := by
  have hloop : ∀ n, ((List.range n).map fun i => (i, s.get i)).foldl
      (fun mem s => Function.update mem s.1 s.2) mem j = if j < n then s.get j else mem j := by
    intro n
    induction n with
    | zero => rfl
    | succ n ih =>
      rw [List.range_succ, List.map_append, List.foldl_append, List.map_singleton,
        List.foldl_cons, List.foldl_nil]
      by_cases hj : j = n
      · rw [hj, Function.update_self, if_pos (Nat.lt_succ_self n)]
      · rw [Function.update_of_ne hj, ih]
        exact if_congr (by omega) rfl rfl
  exact hloop s.strlen

theorem get_eq_getElem {j : Nat} (hj : j < s.bytes.length) : s.get j = s.bytes[j] := by
  rw [CString.get, List.getD_eq_getElem?_getD, List.getElem?_eq_getElem hj]
  rfl

theorem get_ne_zero {j : Nat} (hj : j < s.strlen) : s.get j ≠ 0 := by
  intro h
  rw [get_eq_getElem hj] at h
  exact s.noNul (h ▸ List.getElem_mem hj)

theorem get_strlen (s : CString) : s.get s.strlen = 0 := by
  simp [CString.get, CString.strlen]

/-- A string is stored inside an array if it is not longer. -/
theorem stores_inside_iff : (∀ st ∈ stringStores s, st.1 < size) ↔ s.strlen ≤ size := by
  simp only [stringStores, List.forall_mem_map, List.mem_range]
  constructor
  · intro h
    by_contra hlong
    exact Nat.lt_irrefl size (h size (by omega))
  · exact fun h i hi => Nat.lt_of_lt_of_le hi h

/-- It ends in the array if it is shorter. -/
theorem ends_inside_iff :
    (∃ j, j < size ∧ storeEach (zeroed size behind) (stringStores s) j = 0) ↔ s.strlen < size := by
  constructor
  · rintro ⟨j, hj, hnul⟩
    rw [storeEach_string] at hnul
    by_contra hlong
    rw [if_pos (by omega)] at hnul
    exact get_ne_zero (by omega) hnul
  · intro h
    refine ⟨s.strlen, h, ?_⟩
    rw [storeEach_string, if_neg (Nat.lt_irrefl _), zeroed, if_pos h]

/-- What is found at the array: a string that is stored in it, or one that fills it, if the
memory behind it starts with a NUL. -/
theorem holdsString_iff (hfname : fname.strlen ≤ size) :
    HoldsString (storeEach (zeroed size behind) (stringStores s)) fname ↔
      s = fname ∧ (fname.strlen < size ∨ behind 0 = 0) := by
  have hat : ∀ j, storeEach (zeroed size behind) (stringStores s) j =
      if j < s.strlen then s.get j else zeroed size behind j := storeEach_string _ s
  constructor
  · intro h
    have hlen : s.strlen = fname.strlen := by
      rcases Nat.lt_trichotomy s.strlen fname.strlen with hlt | heq | hlt
      · -- behind a shorter string the array is zero
        have hend := h s.strlen (Nat.le_of_lt hlt)
        rw [hat, if_neg (Nat.lt_irrefl _), zeroed, if_pos (by omega)] at hend
        exact absurd hend.symm (get_ne_zero hlt)
      · exact heq
      · have hend := h fname.strlen (Nat.le_refl _)
        rw [hat, if_pos hlt, get_strlen] at hend
        exact absurd hend (get_ne_zero hlt)
    have hbytes : s.bytes = fname.bytes := by
      refine List.ext_getElem hlen fun j hj hj' => ?_
      have hlt : j < s.strlen := hj
      have hbyte := h j (Nat.le_of_lt hj')
      rwa [hat, if_pos hlt, get_eq_getElem hj, get_eq_getElem hj'] at hbyte
    refine ⟨by cases s; cases fname; simp_all, ?_⟩
    by_cases hshort : fname.strlen < size
    · exact Or.inl hshort
    · have hend := h fname.strlen (Nat.le_refl _)
      rw [hat, if_neg (by omega), get_strlen, zeroed, if_neg hshort] at hend
      rw [show fname.strlen - size = 0 by omega] at hend
      exact Or.inr hend
  · rintro ⟨rfl, hend⟩ j hj
    rw [hat]
    rcases Nat.lt_or_eq_of_le hj with hlt | rfl
    · rw [if_pos hlt]
    · rw [if_neg (Nat.lt_irrefl _), get_strlen, zeroed]
      split
      · rfl
      · rename_i hfull
        rw [show s.strlen - size = 0 by omega]
        exact hend.resolve_left hfull

/-- **The buffers are safe if the strings fit with their NULs.** -/
theorem buffersSafe_stringStores (stack : StackArrays) (pcbArg : Nat → Byte) (s t : CString) :
    BuffersSafe stack pcbArg ⟨stringStores s, stringStores t⟩ ↔ s.strlen < 32 ∧ t.strlen < 128 := by
  constructor
  · intro h
    exact ⟨ends_inside_iff.mp h.cmdEnds, ends_inside_iff.mp h.argEnds⟩
  · rintro ⟨hs, ht⟩
    have hends : ∃ j, j < 128 ∧ storeEach (zeroed 128 stack.behindArg) (stringStores t) j = 0 :=
      ends_inside_iff.mpr ht
    refine ⟨stores_inside_iff.mpr hs.le, stores_inside_iff.mpr ht.le, ends_inside_iff.mpr hs,
      hends, _, strcpy_eq rfl ?_ pcbArg⟩
    obtain ⟨j, hj, hnul⟩ := hends
    by_contra hlong
    have hpass :=
      leading_pass (n := 128) (i := 0) (j := j) (Nat.lt_of_lt_of_le hj (not_lt.mp hlong))
    simp [hnul] at hpass

/-- A string without blanks is the first word of itself. -/
theorem firstWord_of_noBlank (h : ∀ c ∈ s.bytes, isBlank c = false) : firstWord s = s.bytes := by
  have hdrop : s.bytes.dropWhile isBlank = s.bytes := by
    rw [List.dropWhile_eq_self_iff]
    intro hpos
    simpa using h _ (List.getElem_mem hpos)
  rw [firstWord, hdrop, List.takeWhile_eq_self_iff]
  exact fun c hc => by simp [h c hc]

/-- The argument of a command that is not too long fits. -/
theorem strlen_argument {command : CString} (hlen : command.strlen ≤ 128) :
    (parseCommand command).2.strlen < 128 := by
  rw [CString.strlen, (parseCommand_bytes command).2]
  by_cases hnil : argumentText command = []
  · rw [hnil]
    decide
  · exact Nat.lt_of_lt_of_le (length_argumentText hnil) hlen

end Safety

/-- **The parser's buffers.**  A command is parsed inside them exactly if it is too long to be
parsed, or its first word has at most 31 characters; and a file name of up to 32 characters can
be given exactly if it has no blank and at most 31 characters, or 32 when there happens to be a
NUL behind `cmd`. -/
theorem buffersSafe_iff (stack : StackArrays) (pcbArg : Nat → Byte) (command fname : CString)
    (hfname : fname.strlen ≤ 32) :
    (ParserSafe stack pcbArg command ↔
      128 < command.strlen ∨ (firstWord command).length ≤ 31) ∧
    (Nameable stack fname ↔ (∀ c ∈ fname.bytes, isBlank c = false) ∧
      (fname.strlen ≤ 31 ∨ stack.behindCmd 0 = 0)) := by
  have hword : ∀ command : CString,
      (parseCommand command).1.strlen = (firstWord command).length := fun command =>
    congrArg List.length (parseCommand_bytes command).1
  constructor
  · by_cases hlong : 128 < command.strlen
    · exact iff_of_true (fun h => absurd h (by omega)) (Or.inl hlong)
    · have hlen : command.strlen ≤ 128 := by omega
      have harg := strlen_argument hlen
      rw [ParserSafe, or_iff_right hlong, parseStores_eq hlen, ← hword]
      simp only [hlen, true_implies, Option.some.injEq, exists_eq_left',
        buffersSafe_stringStores, harg, and_true]
      omega
  · constructor
    · rintro ⟨command, hlen, stores, hparse, hholds⟩
      rw [parseStores_eq hlen, Option.some.injEq] at hparse
      subst hparse
      obtain ⟨rfl, hend⟩ := (holdsString_iff hfname).mp hholds
      refine ⟨fun c hc => ?_, hend.imp_left Nat.le_of_lt_succ⟩
      rw [(parseCommand_bytes command).1] at hc
      simpa using List.mem_takeWhile_imp hc
    · rintro ⟨hblank, hend⟩
      refine ⟨fname, by omega, _, parseStores_eq (by omega), (holdsString_iff hfname).mpr ⟨?_, ?_⟩⟩
      · have hbytes := (parseCommand_bytes fname).1
        rw [firstWord_of_noBlank hblank] at hbytes
        cases hparsed : (parseCommand fname).1
        cases fname
        simp_all
      · exact hend.imp_left Nat.lt_succ_of_le

theorem buffersSafe_shell :
    (ParserSafe ⟨noJunk, noJunk⟩ noJunk ⟨ascii " cat  frame0.txt".toList, by decide⟩ ↔
      128 < (⟨ascii " cat  frame0.txt".toList, by decide⟩ : CString).strlen ∨
        (firstWord ⟨ascii " cat  frame0.txt".toList, by decide⟩).length ≤ 31) ∧
    (Nameable ⟨noJunk, noJunk⟩ shell ↔ (∀ c ∈ shell.bytes, isBlank c = false) ∧
      (shell.strlen ≤ 31 ∨ noJunk 0 = 0)) :=
  buffersSafe_iff ⟨noJunk, noJunk⟩ noJunk _ shell (by decide)

/-- A word of 33 bytes is stored behind `cmd`. -/
theorem overrun_longWord :
    ¬∀ (stack : StackArrays) (pcbArg : Nat → Byte) (command fname : CString),
      fname.strlen ≤ 32 → ParserSafe stack pcbArg command ∧ Nameable stack fname := by
  intro hall
  let word : CString := ⟨List.replicate 33 0x61, by decide⟩
  have hlen : word.strlen ≤ 128 := by decide
  obtain ⟨stores, hparse, hsafe⟩ := (hall ⟨noJunk, noJunk⟩ noJunk word shell (by decide)).1 hlen
  rw [parseStores_eq hlen, Option.some.injEq] at hparse
  have hstored : (32, 0x61) ∈ stores.cmd := by
    rw [← hparse]
    decide
  exact absurd (hsafe.cmdStores _ hstored) (by decide)

/-! ## `execute` with its buffers -/

/-- The string at the start of `mem`, if its NUL is among the first `n` bytes. -/
def stringIn (n : Nat) (mem : Nat → Byte) : Option CString :=
  (strlenWithin mem n).map fun length => CString.ofBytes ((List.range length).map mem)

/-- `execute`, which looks up and keeps what it finds in its arrays; nothing is said about a
command whose strings do not end there. -/
def executeBuffered (fs : FileSystem) (k : Kernel) (stack : StackArrays)
    (command : Option CString) (junk : Nat → Byte) (regs : Regs) : Option (Kernel × Control) :=
  if k.jammed then some (k, .returned 0)
  else
    match command with
    | none => some (k, .returned minusOne)
    | some command =>
      if command.strlen > 128 then some (k, .returned minusOne)
      else do
        let stores ← parseStores command
        let cmd ← stringIn 32 (storeEach (zeroed 32 stack.behindCmd) stores.cmd)
        let arg ← stringIn 128 (storeEach (zeroed 128 stack.behindArg) stores.arg)
        match fs.readDentryByName cmd with
        | none => some (k.activateExecuting, .returned minusOne)
        | some dentry => some (executeFile fs k.activateExecuting dentry arg junk regs)

/-- Processes, control blocks, paging, the TSS and what the terminals say of processes are as
before. -/
structure Untouched (k k' : Kernel) : Prop where
  process : k'.process = k.process
  pcb : k'.pcb = k.pcb
  pageDirectory : k'.pageDirectory = k.pageDirectory
  tss : k'.tss = k.tss
  active : ∀ t, (k'.multiTerminal t).active = (k.multiTerminal t).active
  basePid : ∀ t, (k'.multiTerminal t).basePid = (k.multiTerminal t).basePid
  programPid : ∀ t, (k'.multiTerminal t).programPid = (k.multiTerminal t).programPid

section Execution
variable {fs : FileSystem} {k : Kernel} {s : CString} {size : Nat}

/-- A string that has been stored is found. -/
theorem stringIn_stringStores (h : s.strlen < size) (behind : Nat → Byte) :
    stringIn size (storeEach (zeroed size behind) (stringStores s)) = some s := by
  have hat := storeEach_string (zeroed size behind) s
  generalize storeEach (zeroed size behind) (stringStores s) = mem at hat
  have hlength : leading (fun j => mem j != 0) size 0 = s.strlen := by
    refine leading_eq_iff.mpr ⟨h.le, fun j hj => ?_, fun _ => ?_⟩
    · rw [Nat.zero_add, hat, if_pos hj]
      simpa using get_ne_zero hj
    · rw [Nat.zero_add, hat, if_neg (Nat.lt_irrefl _), zeroed, if_pos h]
      rfl
  have hbytes : (List.range s.strlen).map mem = s.bytes := by
    refine List.ext_getElem (by simp [CString.strlen]) fun j hj hj' => ?_
    have hlt : j < s.strlen := hj'
    rw [List.getElem_map, List.getElem_range, hat, if_pos hlt, get_eq_getElem hj']
  have hstring : CString.ofBytes s.bytes = s := by
    rw [CString.mk.injEq]
    refine List.takeWhile_eq_self_iff.mpr fun c hc => ?_
    simpa using fun hz : c = 0 => s.noNul (hz ▸ hc)
  rw [stringIn, strlenWithin, hlength, if_pos h, Option.map_some, hbytes, hstring]

/-- **The buffers hold what the parser finds**: with a first word that fits, `execute` does what
it does with strings. -/
theorem executeBuffered_eq (fs : FileSystem) (k : Kernel) (stack : StackArrays)
    {command : Option CString} (hword : ∀ c ∈ command, (firstWord c).length ≤ 31)
    (junk : Nat → Byte) (regs : Regs) :
    executeBuffered fs k stack command junk regs = some (execute fs k command junk regs) := by
  unfold executeBuffered execute
  split
  · rfl
  · cases command with
    | none => rfl
    | some command =>
      dsimp only
      split
      · rfl
      · rename_i hlong
        have hcmd : (parseCommand command).1.strlen < 32 := by
          rw [CString.strlen, (parseCommand_bytes command).1]
          exact Nat.lt_succ_of_le (hword command rfl)
        have harg := strlen_argument (Nat.le_of_not_lt hlong)
        simp only [parseStores_eq (Nat.le_of_not_lt hlong), Option.bind_eq_bind, Option.bind_some,
          stringIn_stringStores hcmd, stringIn_stringStores harg]
        cases fs.readDentryByName (parseCommand command).1 <;> rfl

theorem untouched_of_offScreen {k' : Kernel} (h : k'.offScreen = k.offScreen) :
    Untouched k k' where
  process := (congrArg Kernel.process h :)
  pcb := (congrArg Kernel.pcb h :)
  pageDirectory := (congrArg Kernel.pageDirectory h :)
  tss := (congrArg Kernel.tss h :)
  active t := (congrArg (fun k => (k.multiTerminal t).active) h :)
  basePid t := (congrArg (fun k => (k.multiTerminal t).basePid) h :)
  programPid t := (congrArg (fun k => (k.multiTerminal t).programPid) h :)

theorem activateExecuting_of_active (h : k.executing.active = true) :
    k.activateExecuting = k := by
  have hsame : ({ k.executing with active := true } : Terminal) = k.executing := by rw [← h]
  rw [Kernel.activateExecuting, hsame, Kernel.setTerminal]
  have hupdate : Function.update k.multiTerminal k.currTerminalExecuting k.executing =
      k.multiTerminal := Function.update_eq_self ..
  rw [hupdate]

end Execution

/-- **Refused commands leave no trace.**  In a state whose executing terminal is active, `execute`
of any command with a first word of at most 31 characters has touched nothing if it returns
-1. -/
theorem execute_refused (fs : FileSystem) (k : Kernel) (stack : StackArrays)
    (hactive : k.executing.active = true) {command : Option CString}
    (hword : ∀ c ∈ command, (firstWord c).length ≤ 31) (junk : Nat → Byte) (regs : Regs) :
    ∃ k' control, executeBuffered fs k stack command junk regs = some (k', control) ∧
      (control = .returned minusOne → Untouched k k') := by
  rw [executeBuffered_eq fs k stack hword junk regs]
  rcases execute_cases fs k command junk regs with
    ⟨_, heq⟩ | ⟨_, k', hoff | hoff, heq⟩ | ⟨_, pid, arg, eip, image, _, _, heq⟩
  · exact ⟨_, _, congrArg some heq, fun _ => untouched_of_offScreen rfl⟩
  · exact ⟨_, _, congrArg some heq, fun _ => untouched_of_offScreen hoff⟩
  · rw [activateExecuting_of_active hactive] at hoff
    exact ⟨_, _, congrArg some heq, fun _ => untouched_of_offScreen hoff⟩
  · exact ⟨_, _, congrArg some heq, fun hret => nomatch hret⟩

/-- The first shell asks for a program that does not exist. -/
theorem execute_refused_noFile :
    ∃ k' control, executeBuffered shellImage
        (booted shellImage zeroHardware noJunk ⟨0x7FFF00, 0x7FFF40⟩) ⟨noJunk, noJunk⟩
        (some ⟨ascii "cat frame0.txt".toList, by decide⟩) noJunk ⟨0x7FFE00, 0x7FFE40⟩ =
          some (k', control) ∧
      (control = .returned minusOne →
        Untouched (booted shellImage zeroHardware noJunk ⟨0x7FFF00, 0x7FFF40⟩) k') :=
  execute_refused shellImage _ ⟨noJunk, noJunk⟩ (by decide +kernel)
    (by
      rintro c ⟨⟩
      decide) noJunk ⟨0x7FFE00, 0x7FFE40⟩

end LinuxLikeOS
