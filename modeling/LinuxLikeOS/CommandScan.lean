import LinuxLikeOS.CommandLine

/-! # The scan of a command

The parser of `execute` once more, with a record of what it does on the way: where in the
command it reads, and which values its 8-bit indices have when they are counted up.  Forgetting
the record gives the parser back (`scanCommand_stores`).

The loops test a character before they ask whether it is the NUL, and two of them have
conditions that always hold.  Still no loop gets behind the NUL, as each asks before it counts
on, so with a command of 128 characters no index wraps (`scanCorrect`).
-/
namespace LinuxLikeOS
open CountedLoop TerminatedText

/-- What a loop of the parser has done: where its index stopped, where it has read the command,
and the values of the index that were counted up. -/
structure LoopScan where
  stop : Byte
  reads : List Nat
  increments : List Byte

/-- A loop of the parser, with its record. -/
def scanLoop (p : Byte → Bool) (command : CString) : Nat → Byte → Option LoopScan
  | 0, _ => none
  | n + 1, i =>
    if p (command.get i.toNat) ∧ i.toNat ≠ command.strlen then
      (scanLoop p command n (i + 1)).map fun t =>
        ⟨t.stop, i.toNat :: t.reads, i :: t.increments⟩
    else some ⟨i, [i.toNat], []⟩

/-- What the parser has done: its stores, where it has read the command, the 8-bit values it has
counted up, and the pairs of which it has taken the difference. -/
structure CommandScan where
  stores : ParserStores
  reads : List Nat
  increments : List Byte
  differences : List (Byte × Byte)

/-- Where a copy loop reads. -/
def copyReads (start length : Byte) : List Nat :=
  (List.range length.toNat).map fun i => start.toNat + i

/-- The parser, with its record. -/
def scanCommand (command : CString) : Option CommandScan := do
  let a ← scanLoop isBlank command 256 0
  let b ← scanLoop (fun c => !isBlank c) command 256 a.stop
  let c ← scanLoop isBlank command 256 b.stop
  let d ← scanLoop (fun _ => true) command 256 c.stop
  let cmdLength := b.stop - a.stop
  let argLength := d.stop - c.stop
  some {
    stores := ⟨copyStores command a.stop cmdLength, copyStores command c.stop argLength⟩
    reads := a.reads ++ b.reads ++ copyReads a.stop cmdLength ++ c.reads ++ d.reads ++
      copyReads c.stop argLength
    increments := a.increments ++ b.increments ++ c.increments ++ d.increments
    differences := [(b.stop, a.stop), (d.stop, c.stop)] }

/-- What the scan of a command should do: the arrays hold the first word and the argument, with
NULs up to their ends; the command is read up to its NUL; and no 8-bit number wraps. -/
structure ScanCorrect (stack : StackArrays) (command : CString) (scan : CommandScan) : Prop where
  cmd : ∀ j, j < 32 →
    storeEach (zeroed 32 stack.behindCmd) scan.stores.cmd j = (firstWord command).getD j 0
  arg : ∀ j, j < 128 →
    storeEach (zeroed 128 stack.behindArg) scan.stores.arg j = (argumentText command).getD j 0
  cmdEnds : (firstWord command).length < 32
  argEnds : (argumentText command).length < 128
  reads : ∀ r ∈ scan.reads, r ≤ command.strlen
  increments : ∀ i ∈ scan.increments, i.toNat + 1 < 2 ^ 8
  differences : ∀ d ∈ scan.differences, d.2.toNat ≤ d.1.toNat

section Scans
variable {p : Byte → Bool} {command : CString} {stack : StackArrays}

/-- **Forgetting the record** of a loop. -/
theorem scanLoop_stop (p : Byte → Bool) (command : CString) (n : Nat) (i : Byte) :
    (scanLoop p command n i).map LoopScan.stop = skipLoop p command n i := by
  induction n generalizing i with
  | zero => rfl
  | succ n ih =>
    rw [scanLoop, skipLoop, ← ih (i + 1)]
    split
    · rw [Option.map_map]
      rfl
    · rfl

theorem scanCommand_stores (command : CString) :
    (scanCommand command).map CommandScan.stores = parseStores command := by
  unfold scanCommand parseStores
  simp only [← scanLoop_stop, Option.bind_eq_bind, Option.bind_map, Option.map_bind,
    Function.comp_def, Option.map_some]

/-- What holds of a loop that starts inside the command. -/
structure LoopInside (command : CString) (i : Byte) (t : LoopScan) : Prop where
  forward : i.toNat ≤ t.stop.toNat
  inside : t.stop.toNat ≤ command.strlen
  reads : ∀ r ∈ t.reads, r ≤ command.strlen
  increments : ∀ a ∈ t.increments, a.toNat < command.strlen

/-- **A loop stays inside the command.** -/
theorem scanLoop_inside (hlen : command.strlen ≤ 128) {n : Nat} {i : Byte} {t : LoopScan}
    (hi : i.toNat ≤ command.strlen) (hscan : scanLoop p command n i = some t) :
    LoopInside command i t := by
  induction n generalizing i t with
  | zero => cases hscan
  | succ n ih =>
    rw [scanLoop] at hscan
    split at hscan
    · rename_i hgo
      obtain ⟨rest, hrest, rfl⟩ := Option.map_eq_some_iff.mp hscan
      -- the NUL is not passed, so the index does not wrap
      have hlt : i.toNat < command.strlen := Nat.lt_of_le_of_ne hi hgo.2
      have hnext : (i + 1).toNat = i.toNat + 1 := by
        rw [BitVec.toNat_add]
        exact Nat.mod_eq_of_lt (Nat.lt_of_le_of_lt (Nat.succ_le_of_lt hlt) (by omega))
      have hinside := ih (by omega) hrest
      refine ⟨?_, hinside.inside, ?_, ?_⟩
      · exact Nat.le_trans (by omega) hinside.forward
      · exact List.forall_mem_cons.mpr ⟨hi, hinside.reads⟩
      · exact List.forall_mem_cons.mpr ⟨hlt, hinside.increments⟩
    · obtain rfl := Option.some.inj hscan
      exact ⟨Nat.le_refl _, hi, fun r hr => List.mem_singleton.mp hr ▸ hi, nofun⟩

/-- A loop that starts inside the command ends. -/
theorem scanLoop_ends (p : Byte → Bool) (hlen : command.strlen ≤ 128) {i : Byte}
    (hi : i.toNat ≤ command.strlen) :
    ∃ t, scanLoop p command 256 i = some t ∧ LoopInside command i t := by
  have hindex : BitVec.ofNat 8 i.toNat = i := by simp
  have hstop := scanLoop_stop p command 256 i
  rw [← hindex, skipLoop_eq p hlen hi (by omega), hindex] at hstop
  obtain ⟨t, ht, _⟩ := Option.map_eq_some_iff.mp hstop
  exact ⟨t, ht, scanLoop_inside hlen hi ht⟩

/-- A copy loop between two indices of the command reads inside it. -/
theorem copyReads_inside {a b : Byte} (hab : a.toNat ≤ b.toNat) (hb : b.toNat ≤ command.strlen) :
    ∀ r ∈ copyReads a (b - a), r ≤ command.strlen := by
  have hlength : (b - a).toNat = b.toNat - a.toNat :=
    BitVec.toNat_sub_of_le (BitVec.le_def.mpr hab)
  intro r hr
  obtain ⟨i, hi, rfl⟩ := List.mem_map.mp hr
  rw [List.mem_range, hlength] at hi
  omega

/-- **The record of a scan.** -/
theorem scanCommand_inside (hlen : command.strlen ≤ 128) :
    ∃ scan, scanCommand command = some scan ∧
      (∀ r ∈ scan.reads, r ≤ command.strlen) ∧
      (∀ i ∈ scan.increments, i.toNat < command.strlen) ∧
      ∀ d ∈ scan.differences, d.2.toNat ≤ d.1.toNat := by
  obtain ⟨a, hscanA, ha⟩ := scanLoop_ends isBlank hlen (i := 0) (Nat.zero_le _)
  obtain ⟨b, hscanB, hb⟩ := scanLoop_ends (fun c => !isBlank c) hlen ha.inside
  obtain ⟨c, hscanC, hc⟩ := scanLoop_ends isBlank hlen hb.inside
  obtain ⟨d, hscanD, hd⟩ := scanLoop_ends (fun _ => true) hlen hc.inside
  have hcmd := copyReads_inside hb.forward hb.inside
  have harg := copyReads_inside hd.forward hd.inside
  refine ⟨_, by
    rw [scanCommand, hscanA, Option.bind_eq_bind, Option.bind_some, hscanB, Option.bind_some,
      hscanC, Option.bind_some, hscanD, Option.bind_some], ?_, ?_, ?_⟩
  · simp only [List.forall_mem_append]
    exact ⟨⟨⟨⟨⟨ha.reads, hb.reads⟩, hcmd⟩, hc.reads⟩, hd.reads⟩, harg⟩
  · simp only [List.forall_mem_append]
    exact ⟨⟨⟨ha.increments, hb.increments⟩, hc.increments⟩, hd.increments⟩
  · simp only [List.forall_mem_cons]
    exact ⟨hb.forward, hd.forward, nofun⟩

/-- An array in which a string is stored, and zero behind it. -/
theorem array_stringStores (s : CString) (behind : Nat → Byte) {size j : Nat} (hj : j < size) :
    storeEach (zeroed size behind) (stringStores s) j = s.bytes.getD j 0 := by
  rw [storeEach_string]
  by_cases hin : j < s.strlen
  · exact if_pos hin
  · rw [if_neg hin, zeroed, if_pos hj, List.getD_eq_getElem?_getD,
      List.getElem?_eq_none (not_lt.mp hin)]
    rfl

end Scans

/-- **Command parsing.**  The scan of every command of at most 128 characters, with a first word
of at most 31, ends, and it is correct. -/
theorem scanCorrect (stack : StackArrays) (command : CString) (hlen : command.strlen ≤ 128)
    (hword : (firstWord command).length ≤ 31) :
    ∃ scan, scanCommand command = some scan ∧ ScanCorrect stack command scan := by
  obtain ⟨scan, hscan, hreads, hincrements, hdifferences⟩ := scanCommand_inside hlen
  obtain ⟨hcmd, harg⟩ := parseCommand_bytes command
  have hstores := scanCommand_stores command
  rw [hscan, parseStores_eq hlen, Option.map_some, Option.some.injEq] at hstores
  refine ⟨scan, hscan, ?_, ?_, Nat.lt_succ_of_le hword, ?_, hreads, ?_, hdifferences⟩
  · intro j hj
    rw [hstores, ← hcmd]
    exact array_stringStores _ _ hj
  · intro j hj
    rw [hstores, ← harg]
    exact array_stringStores _ _ hj
  · rw [← harg]
    exact strlen_argument hlen
  · intro i hi
    have := hincrements i hi
    omega

theorem scanCorrect_twoBlanks :
    ∃ scan, scanCommand ⟨ascii " cat  frame0.txt ".toList, by decide⟩ = some scan ∧
      ScanCorrect ⟨noJunk, noJunk⟩ ⟨ascii " cat  frame0.txt ".toList, by decide⟩ scan :=
  scanCorrect ⟨noJunk, noJunk⟩ _ (by decide) (by decide)

end LinuxLikeOS
