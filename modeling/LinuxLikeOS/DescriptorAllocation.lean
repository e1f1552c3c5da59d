import LinuxLikeOS.Frames
import LinuxLikeOS.Transition

/-! # Allocating descriptors

`open` gives its file the first descriptor from 2 on whose `flag` is 0 and marks it before it
calls the driver; `close` calls the driver before it clears the entry.  No driver fails: the
directory and clock drivers cannot, and `file_open` looks up a name that has just been found.

So a process that starts with descriptors 0 and 1 always holds each descriptor `open` has given
it once, until it closes it, whatever happens between its calls (`descriptors_run`).
-/
namespace LinuxLikeOS
open Transition

/-! ## One call -/

/-- The descriptors of the executing process. -/
def Kernel.descriptors (k : Kernel) : Fin 8 → FdEntry := (k.pcb k.executingSlot).fd

/-- Descriptor `i` is the first from 2 on that is not open. -/
structure LeastFree (fd : Fin 8 → FdEntry) (i : Fin 8) : Prop where
  numbered : 2 ≤ i
  free : (fd i).flag = 0
  least : ∀ j, 2 ≤ j → j < i → (fd j).flag ≠ 0

/-- What `open` is to do.  `openedEntry` has position 0, and the jump table and inode for the
type of the file. -/
structure OpenAnswered (fs : FileSystem) (k : Kernel) (filename : Option CString) : Prop where
  refused : filename.bind fs.readDentryByName = none ∨
      (∀ i, 2 ≤ i → (k.descriptors i).flag ≠ 0) →
    (Syscall.open fs k filename).ret = some minusOne ∧ (Syscall.open fs k filename).kernel = k
  served : ∀ d i, filename.bind fs.readDentryByName = some d → LeastFree k.descriptors i →
    (Syscall.open fs k filename).ret = some (BitVec.ofNat 32 i) ∧
      (Syscall.open fs k filename).kernel.pcb = (k.setFd k.executingSlot i (openedEntry d)).pcb

/-- What `close` is to do. -/
structure CloseAnswered (k : Kernel) (fd : Word) : Prop where
  refused : (∀ i, fdIndex fd = some i → 2 ≤ i → (k.descriptors i).flag = 0) →
    (Syscall.close k fd).ret = some minusOne ∧ (Syscall.close k fd).kernel = k
  served : ∀ i, fdIndex fd = some i → 2 ≤ i → (k.descriptors i).flag ≠ 0 →
    (Syscall.close k fd).ret = some 0 ∧
      (Syscall.close k fd).kernel.pcb = (k.setFd k.executingSlot i .cleared).pcb

section Calls
variable {fs : FileSystem} {k : Kernel} {fd : Fin 8 → FdEntry} {i : Fin 8}

theorem freeFd_eq_some_iff : freeFd fd = some i ↔ LeastFree fd i := by
  rw [freeFd, Fin.find?_eq_some_iff]
  simp only [decide_eq_true_eq, decide_eq_false_iff_not, not_and]
  constructor
  · rintro ⟨⟨hnumbered, hfree⟩, hleast⟩
    exact ⟨hnumbered, hfree, fun j hj hlt => hleast j hlt hj⟩
  · rintro ⟨hnumbered, hfree, hleast⟩
    exact ⟨⟨hnumbered, hfree⟩, fun j hlt hj => hleast j hj hlt⟩

theorem freeFd_eq_none_iff : freeFd fd = none ↔ ∀ i, 2 ≤ i → (fd i).flag ≠ 0 := by
  rw [freeFd, Fin.find?_eq_none_iff]
  simp only [decide_eq_false_iff_not, not_and, ne_eq]

theorem open_refused (filename : Option CString)
    (h : filename.bind fs.readDentryByName = none ∨ freeFd k.descriptors = none) :
    Syscall.open fs k filename = .returns k minusOne [] := by
  cases filename with
  | none => rfl
  | some fname =>
    rw [Option.bind_some] at h
    simp only [Syscall.open]
    cases hfind : fs.readDentryByName fname with
    | none => rfl
    | some d =>
      have hfull : freeFd (k.pcb k.executingSlot).fd = none :=
        h.resolve_left (by simp [hfind])
      rw [hfull]

theorem open_served {filename : Option CString} {d : Dentry}
    (hfind : filename.bind fs.readDentryByName = some d) (hfree : freeFd k.descriptors = some i) :
    (Syscall.open fs k filename).ret = some (BitVec.ofNat 32 i) ∧
      (Syscall.open fs k filename).kernel.pcb =
        (k.setFd k.executingSlot i (openedEntry d)).pcb := by
  obtain ⟨fname, rfl, hname⟩ := Option.bind_eq_some_iff.mp hfind
  have hslot : freeFd (k.pcb k.executingSlot).fd = some i := hfree
  have hfile : fileOpen fs fname ≠ minusOne := by simp [fileOpen, hname, minusOne]
  have hdriver : ¬(d.filetype ≠ 1 ∧ fileOpen fs fname = minusOne) := fun h => hfile h.2
  unfold Syscall.open
  simp only [hname, hslot, if_neg hdriver]
  split <;> exact ⟨rfl, rfl⟩

/-- **`open` takes the first free descriptor, or changes none.** -/
theorem openAnswered (fs : FileSystem) (k : Kernel) (filename : Option CString) :
    OpenAnswered fs k filename where
  refused h := by
    rw [open_refused filename (h.imp_right freeFd_eq_none_iff.mpr)]
    exact ⟨rfl, rfl⟩
  served _ _ hfind hleast := open_served hfind (freeFd_eq_some_iff.mpr hleast)

/-- **`close` clears an open descriptor, or changes none**, if it finds no NULL table. -/
theorem closeAnswered
    (htables : ∀ i, (k.descriptors i).flag ≠ 0 → (k.descriptors i).fileOperation ≠ none)
    (fd : Word) : CloseAnswered k fd := by
  constructor
  · intro h
    unfold Syscall.close
    split
    · exact ⟨rfl, rfl⟩
    · rename_i i hfd
      by_cases hlow : i < 2
      · rw [if_pos hlow]
        exact ⟨rfl, rfl⟩
      · have hfree : ((k.pcb k.executingSlot).fd i).flag = 0 := h i hfd (not_lt.mp hlow)
        rw [if_neg hlow]
        dsimp only
        rw [if_pos hfree]
        exact ⟨rfl, rfl⟩
  · intro i hfd hnumbered hflag
    obtain ⟨op, hop⟩ := Option.ne_none_iff_exists'.mp (htables i hflag)
    have hused : ¬((k.pcb k.executingSlot).fd i).flag = 0 := hflag
    have htable : ((k.pcb k.executingSlot).fd i).fileOperation = some op := hop
    have hrun : (runClose k op).pcb = k.pcb :=
      (congrArg Kernel.pcb (runClose_offConsole k op) :)
    unfold Syscall.close
    simp only [hfd, if_neg (not_lt.mpr hnumbered), if_neg hused, htable, CallResult.returns,
      Kernel.setFd, Kernel.setPcb, hrun, and_self]

end Calls

/-! ## Sequences of calls -/

/-- What happens to a process's descriptors. -/
inductive DescriptorEvent
  | open (filename : Option CString)
  | close (fd : Word)
  /-- all that happens up to the next of these calls, which finds the kernel `k'` -/
  | meanwhile (k' : Kernel)

/-- The kernel after an event. -/
def descriptorStep (fs : FileSystem) (k : Kernel) : DescriptorEvent → Kernel
  | .open filename => (Syscall.open fs k filename).kernel
  | .close fd => (Syscall.close k fd).kernel
  | .meanwhile k' => k'

/-- The descriptors that `open` has returned and `close` has not taken back. -/
def recordLive (fs : FileSystem) (k : Kernel) (e : DescriptorEvent) (live : List (Fin 8)) :
    List (Fin 8) :=
  match e with
  | .open filename => ((Syscall.open fs k filename).ret.bind fdIndex).toList ++ live
  | .close fd =>
    if (Syscall.close k fd).ret = some 0 then live.filter fun i => fdIndex fd ≠ some i else live
  | .meanwhile _ => live

/-- The calls, and the live descriptors. -/
def descriptorMachine (fs : FileSystem) : Machine (Kernel × List (Fin 8)) DescriptorEvent :=
  Machine.withHistory ⟨descriptorStep fs⟩ (recordLive fs)

/-- When the process calls again it is the executing one, and its descriptors are as it left
them, but for positions it has moved by reading. -/
def Returns (k : Kernel) : DescriptorEvent → Prop
  | .meanwhile k' => ∀ i, (k'.descriptors i).flag = (k.descriptors i).flag ∧
      (k'.descriptors i).fileOperation = (k.descriptors i).fileOperation
  | _ => True

/-- Descriptors 0 and 1 are open, and no other. -/
structure StandardOnly (k : Kernel) : Prop where
  stdin : k.descriptors 0 = ⟨some .stdin, 0, 0, 1⟩
  stdout : k.descriptors 1 = ⟨some .stdout, 0, 0, 1⟩
  others : ∀ i, 2 ≤ i → (k.descriptors i).flag = 0

/-- What holds between the calls. -/
structure DescriptorsKept (c : Kernel × List (Fin 8)) : Prop where
  standard : ∀ i, i < 2 → (c.1.descriptors i).flag = 1
  flags : ∀ i, (c.1.descriptors i).flag = 0 ∨ (c.1.descriptors i).flag = 1
  tables : ∀ i, (c.1.descriptors i).flag ≠ 0 → (c.1.descriptors i).fileOperation ≠ none
  distinct : c.2.Nodup
  live : ∀ i, i ∈ c.2 ↔ 2 ≤ i ∧ (c.1.descriptors i).flag ≠ 0

/-- What the calls are to do. -/
def CallAnswered (fs : FileSystem) (k : Kernel) : DescriptorEvent → Prop
  | .open filename => OpenAnswered fs k filename
  | .close fd => CloseAnswered k fd
  | .meanwhile _ => True

section Sequences
variable {fs : FileSystem} {c : Kernel × List (Fin 8)}

theorem openedEntry_used (d : Dentry) :
    (openedEntry d).flag = 1 ∧ (openedEntry d).fileOperation ≠ none := by
  unfold openedEntry
  split
  · simp
  · split <;> simp

/-- A call of the process that has written one of its descriptors. -/
theorem descriptors_of_setFd {k k' : Kernel} {i : Fin 8} {e : FdEntry}
    (hcore : k'.core = k.core) (hpcb : k'.pcb = (k.setFd k.executingSlot i e).pcb) :
    k'.descriptors = Function.update k.descriptors i e := by
  have hslot : k'.executingSlot = k.executingSlot := (congrArg Kernel.executingSlot hcore :)
  rw [Kernel.descriptors, Kernel.descriptors, hslot, hpcb]
  simp [Kernel.setFd, Kernel.setPcb]

/-- A new descriptor is not among the live ones. -/
theorem DescriptorsKept.opened (h : DescriptorsKept c) {i : Fin 8}
    (hleast : LeastFree c.1.descriptors i) (d : Dentry) {k' : Kernel}
    (hafter : k'.descriptors = Function.update c.1.descriptors i (openedEntry d)) :
    DescriptorsKept (k', i :: c.2) := by
  obtain ⟨hflag, htable⟩ := openedEntry_used d
  have hat : ∀ j, k'.descriptors j = if j = i then openedEntry d else c.1.descriptors j := by
    intro j
    rw [hafter, Function.update_apply]
  refine ⟨fun j hj => ?_, fun j => ?_, fun j hused => ?_, ?_, fun j => ?_⟩
  · have hne : j ≠ i := fun heq => absurd (heq ▸ hj) (not_lt.mpr hleast.numbered)
    rw [hat, if_neg hne]
    exact h.standard j hj
  · rw [hat]
    split
    · exact Or.inr hflag
    · exact h.flags j
  · rw [hat] at hused ⊢
    split
    · exact htable
    · rename_i hne
      rw [if_neg hne] at hused
      exact h.tables j hused
  · refine List.nodup_cons.mpr ⟨fun hmem => ?_, h.distinct⟩
    exact ((h.live i).mp hmem).2 hleast.free
  · rw [hat, List.mem_cons, h.live]
    by_cases hj : j = i
    · rw [if_pos hj, hflag]
      exact iff_of_true (Or.inl hj) ⟨hj ▸ hleast.numbered, by decide⟩
    · rw [if_neg hj]
      exact or_iff_right hj

/-- A closed descriptor is taken from the live ones. -/
theorem DescriptorsKept.closed (h : DescriptorsKept c) {i : Fin 8} (hnumbered : 2 ≤ i)
    {k' : Kernel} (hafter : k'.descriptors = Function.update c.1.descriptors i .cleared) :
    DescriptorsKept (k', c.2.filter fun j => some i ≠ some j) := by
  have hat : ∀ j, k'.descriptors j = if j = i then .cleared else c.1.descriptors j := by
    intro j
    rw [hafter, Function.update_apply]
  refine ⟨fun j hj => ?_, fun j => ?_, fun j hused => ?_, h.distinct.filter _, fun j => ?_⟩
  · have hne : j ≠ i := fun heq => absurd (heq ▸ hj) (not_lt.mpr hnumbered)
    rw [hat, if_neg hne]
    exact h.standard j hj
  · rw [hat]
    split
    · exact Or.inl rfl
    · exact h.flags j
  · rw [hat] at hused ⊢
    by_cases hj : j = i
    · rw [if_pos hj] at hused
      exact absurd rfl hused
    · rw [if_neg hj] at hused ⊢
      exact h.tables j hused
  · rw [hat, List.mem_filter, h.live]
    by_cases hj : j = i
    · rw [if_pos hj]
      exact iff_of_false (fun hmem => by simp [hj] at hmem) fun hused => hused.2 rfl
    · rw [if_neg hj]
      exact and_iff_left (by simpa using fun heq => hj heq.symm)

theorem DescriptorsKept.open (h : DescriptorsKept c) (filename : Option CString) :
    DescriptorsKept ((descriptorMachine fs).step c (.open filename)) := by
  have hanswer := openAnswered fs c.1 filename
  have hindex : ∀ i : Fin 8, fdIndex (BitVec.ofNat 32 i) = some i := by decide
  have hminus : fdIndex minusOne = none := by decide
  show DescriptorsKept ((Syscall.open fs c.1 filename).kernel,
    ((Syscall.open fs c.1 filename).ret.bind fdIndex).toList ++ c.2)
  cases hfree : freeFd c.1.descriptors with
  | none =>
    obtain ⟨hret, hkernel⟩ := hanswer.refused (Or.inr (freeFd_eq_none_iff.mp hfree))
    rw [hret, hkernel, Option.bind_some, hminus]
    exact h
  | some i =>
    have hleast := freeFd_eq_some_iff.mp hfree
    cases hfind : filename.bind fs.readDentryByName with
    | none =>
      obtain ⟨hret, hkernel⟩ := hanswer.refused (Or.inl hfind)
      rw [hret, hkernel, Option.bind_some, hminus]
      exact h
    | some d =>
      obtain ⟨hret, hpcb⟩ := hanswer.served d i hfind hleast
      rw [hret, Option.bind_some, hindex]
      exact h.opened hleast d (descriptors_of_setFd (core_open fs filename) hpcb)

theorem DescriptorsKept.close (h : DescriptorsKept c) (fd : Word) :
    DescriptorsKept ((descriptorMachine fs).step c (.close fd)) := by
  have hanswer := closeAnswered h.tables fd
  show DescriptorsKept ((Syscall.close c.1 fd).kernel,
    if (Syscall.close c.1 fd).ret = some 0 then c.2.filter fun i => fdIndex fd ≠ some i else c.2)
  by_cases hserved : ∃ i, fdIndex fd = some i ∧ 2 ≤ i ∧ (c.1.descriptors i).flag ≠ 0
  · obtain ⟨i, hfd, hnumbered, hused⟩ := hserved
    obtain ⟨hret, hpcb⟩ := hanswer.served i hfd hnumbered hused
    rw [if_pos hret, hfd]
    exact h.closed hnumbered (descriptors_of_setFd (core_close fd) hpcb)
  · obtain ⟨hret, hkernel⟩ := hanswer.refused fun i hfd hnumbered => by
      by_contra hused
      exact hserved ⟨i, hfd, hnumbered, hused⟩
    rw [hret, hkernel, if_neg (by decide)]
    exact h

theorem DescriptorsKept.meanwhile (h : DescriptorsKept c) {k' : Kernel}
    (hsame : Returns c.1 (.meanwhile k')) :
    DescriptorsKept ((descriptorMachine fs).step c (.meanwhile k')) := by
  show DescriptorsKept (k', c.2)
  refine ⟨fun i hi => ?_, fun i => ?_, fun i hused => ?_, h.distinct, fun i => ?_⟩
  · rw [(hsame i).1]
    exact h.standard i hi
  · rw [(hsame i).1]
    exact h.flags i
  · rw [(hsame i).1] at hused
    rw [(hsame i).2]
    exact h.tables i hused
  · rw [(hsame i).1]
    exact h.live i

end Sequences

/-- **Descriptor allocation.**  From descriptors 0 and 1 on, in every sequence of calls of `open`
and `close`, and whatever happens between them: each call gives the first free descriptor or
takes back the one it names, and changes no other; and between the calls descriptors 0 and 1
are open, all open ones have a jump table, and those that are live are distinct. -/
theorem descriptors_run (fs : FileSystem) (k : Kernel) (hstart : StandardOnly k)
    (es : List DescriptorEvent)
    (hreturns : (descriptorMachine fs).Guarded (fun c => Returns c.1) (k, []) es) :
    (descriptorMachine fs).Always DescriptorsKept (k, []) es ∧
      (descriptorMachine fs).Guarded (fun c => CallAnswered fs c.1) (k, []) es := by
  have hbelow : ∀ i : Fin 8, i < 2 → i = 0 ∨ i = 1 := by decide
  have hkept : DescriptorsKept (k, []) := by
    refine ⟨fun i hi => ?_, fun i => ?_, fun i hused => ?_, List.nodup_nil, fun i => ?_⟩
    · rcases hbelow i hi with rfl | rfl
      · exact congrArg FdEntry.flag hstart.stdin
      · exact congrArg FdEntry.flag hstart.stdout
    · by_cases hi : i < 2
      · rcases hbelow i hi with rfl | rfl
        · exact Or.inr (congrArg FdEntry.flag hstart.stdin)
        · exact Or.inr (congrArg FdEntry.flag hstart.stdout)
      · exact Or.inl (hstart.others i (not_lt.mp hi))
    · by_cases hi : i < 2
      · rcases hbelow i hi with rfl | rfl
        · exact ne_of_eq_of_ne (congrArg FdEntry.fileOperation hstart.stdin) (by decide)
        · exact ne_of_eq_of_ne (congrArg FdEntry.fileOperation hstart.stdout) (by decide)
      · exact absurd (hstart.others i (not_lt.mp hi)) hused
    · exact iff_of_false List.not_mem_nil fun hused => hused.2 (hstart.others i hused.1)
  have hstep : ∀ c e, DescriptorsKept c → Returns c.1 e →
      DescriptorsKept ((descriptorMachine fs).step c e) := by
    intro c e hc hreturn
    cases e with
    | «open» filename => exact hc.open filename
    | close fd => exact hc.close fd
    | meanwhile k' => exact hc.meanwhile hreturn
  refine ⟨Machine.always_of_step hstep hkept hreturns,
    Machine.guarded_of_step hstep (fun c e hc _ => ?_) hkept hreturns⟩
  cases e with
  | «open» filename => exact openAnswered fs c.1 filename
  | close fd => exact closeAnswered hc.tables fd
  | meanwhile k' => trivial

/-- The first shell opens its own file twice and closes what it can. -/
theorem descriptors_shell :
    let k := booted shellImage zeroHardware noJunk ⟨0x7FFF00, 0x7FFF40⟩
    let es := [.open (some shell), .open none, .open (some shell), .close 1, .close 3, .close 3]
    (descriptorMachine shellImage).Always DescriptorsKept (k, []) es ∧
      (descriptorMachine shellImage).Guarded (fun c => CallAnswered shellImage c.1) (k, []) es :=
  descriptors_run shellImage _ ⟨by decide +kernel, by decide +kernel, by decide +kernel⟩ _
    ⟨trivial, trivial, trivial, trivial, trivial, trivial, trivial⟩

end LinuxLikeOS
