import LinuxLikeOS.CTypes
import LinuxLikeOS.StackMachine

/-! # The system call linkage

`system_call_handler` saves six registers and the flags, checks `eax`, and jumps
through `systable` to the stub of a system call.  A stub pushes the arguments, calls the
C function and pops them; `quit` restores what was saved and returns from the interrupt.

`systable` has nine words, for 0 to 8, and the check lets 9 and 10 through: they are the
only values with which the jump reads past the table (`dispatched_iff`).  For all others
the handler does what it should, whatever the called functions do with their arguments
and with the registers, as long as they come back with the stack pointer they were
called with and leave the saved words alone (`KeepsFrame`).
-/
namespace LinuxLikeOS
open StackMachine

/-! ## The source -/

/-- The C functions that the stubs call. -/
inductive Routine
  | halt | execute | read | write | open | close | getargs | vidmap
  deriving DecidableEq

/-- The labels of the file. -/
inductive Label
  | systemCallHandler | fail | systable | spare
  | halt | execute | read | write | open | close | getargs | vidmap
  | quit
  deriving DecidableEq

/-- `system_call_handler`. -/
def systemCallHandler : List (Line Label Routine) :=
  [.label .systemCallHandler] ++
    ops [.push .esi, .push .edi, .push .ebp, .push .edx, .push .ecx, .push .ebx, .pushf] ++
    [.instr (.op (.cmp 1 .eax)), .instr (.jb .fail),
      .instr (.op (.cmp 10 .eax)), .instr (.ja .fail),
      .instr (.jmpTable .systable .eax)]

/-- `fail`. -/
def fail : List (Line Label Routine) :=
  [.label .fail, .instr (.op (.mov (-1) .eax)), .instr (.jmp .quit)]

/-- `systable`, and the label `spare`, which has no code of its own. -/
def systable : List (Line Label Routine) :=
  [.label .systable, .long .spare, .long .halt, .long .execute, .long .read, .long .write,
    .long .open, .long .close, .long .getargs, .long .vidmap, .label .spare]

/-- The stub at `l` that calls `f` with the arguments `args`. -/
def stub (l : Label) (args : List Reg) (f : Routine) : List (Line Label Routine) :=
  [.label l] ++ ops (args.reverse.map .push) ++ [.instr (.call f)] ++ ops (args.map .pop) ++
    [.instr (.jmp .quit)]

namespace Stub

/-- `Halt`. -/
def halt := stub .halt [.ebx] .halt

/-- `Execute`. -/
def execute := stub .execute [.ebx] .execute

/-- `Read`. -/
def read := stub .read [.ebx, .ecx, .edx] .read

/-- `Write`. -/
def write := stub .write [.ebx, .ecx, .edx] .write

/-- `Open`. -/
def «open» := stub .open [.ebx] .open

/-- `Close`. -/
def close := stub .close [.ebx] .close

/-- `Getargs`. -/
def getargs := stub .getargs [.ebx, .ecx] .getargs

/-- `Vidmap`. -/
def vidmap := stub .vidmap [.ebx] .vidmap

end Stub

/-- `quit`. -/
def quit : List (Line Label Routine) :=
  [.label .quit] ++
    ops [.popf, .pop .ebx, .pop .ecx, .pop .edx, .pop .ebp, .pop .edi, .pop .esi] ++
    [.instr .iret]

/-- The whole file. -/
def linkage : List (Line Label Routine) :=
  systemCallHandler ++ fail ++ systable ++ Stub.halt ++ Stub.execute ++ Stub.read ++ Stub.write ++
    Stub.open ++ Stub.close ++ Stub.getargs ++ Stub.vidmap ++ quit

/-! ## What the handler should do -/

/-- The stubs of the system calls that there are. -/
def implemented : List (Label × List Reg × Routine) :=
  [(.halt, [.ebx], .halt), (.execute, [.ebx], .execute),
    (.read, [.ebx, .ecx, .edx], .read), (.write, [.ebx, .ecx, .edx], .write),
    (.open, [.ebx], .open), (.close, [.ebx], .close),
    (.getargs, [.ebx, .ecx], .getargs), (.vidmap, [.ebx], .vidmap)]

/-- The words that a stub pushes for a function. -/
def argumentWords : Routine → Nat
  | .read | .write => 3
  | .getargs => 2
  | .halt | .execute | .open | .close | .vidmap => 1

/-- A function that comes back has the stack pointer it was called with, and has not
written to the seven saved words above its arguments.  It may have written to its
arguments and to every register. -/
def KeepsFrame (routine : Routine → Cpu → Option Cpu) : Prop :=
  ∀ f s s', routine f s = some s' → s'.esp = s.esp ∧
    ∀ i, argumentWords f ≤ i → i < argumentWords f + 7 →
      s'.mem (s.esp + BitVec.ofNat 32 (4 * i)) = s.mem (s.esp + BitVec.ofNat 32 (4 * i))

/-- The handler's first line. -/
def handlerEntry (s : Cpu) : Config := ⟨.at (target linkage .systemCallHandler), s⟩

/-- The stack pointer, the flags and all registers but `eax` are as they were. -/
structure Restored (s t : Cpu) : Prop where
  esp : t.esp = s.esp
  eflags : t.eflags = s.eflags
  reg : ∀ r, r ≠ .eax → t.reg r = s.reg r

section Dispatch
variable (routine : Routine → Cpu → Option Cpu) (s : Cpu)

/-- The handler after `n` steps. -/
def handled (n : Nat) : Config := stepped linkage routine n (handlerEntry s)

/-- Step `n` is the jump through `systable`, to the stub of a system call. -/
def JumpsToStub (n : Nat) : Prop :=
  ∃ pc, (handled routine s n).control = .at pc ∧
    linkage[pc]? = some (.instr (.jmpTable .systable .eax)) ∧
    ∃ e ∈ implemented, (handled routine s (n + 1)).control = .at (target linkage e.1)

/-- What the handler should do: never jump through a word that is not the table's; go
to a stub or return -1; and return with everything restored. -/
structure Dispatched : Prop where
  inTable : ∀ n, (handled routine s n).control ≠ .outside
  settles : (∃ n, JumpsToStub routine s n) ∨
    ∃ n, (handled routine s n).control = .iret ∧ (handled routine s n).cpu.reg .eax = -1
  restored : ∀ n, (handled routine s n).control = .iret → Restored s (handled routine s n).cpu

end Dispatch

/-! ## The parts of a run -/

/-- The words that the handler saves. -/
def savedWords (s : Cpu) : List (BitVec 32) :=
  [s.eflags, s.reg .ebx, s.reg .ecx, s.reg .edx, s.reg .ebp, s.reg .edi, s.reg .esi]

/-- The saved words of `s` are on the stack. -/
structure Framed (s t : Cpu) : Prop where
  esp : t.esp = s.esp - 28
  saved : Holds t.mem t.esp (savedWords s)

section Parts
variable (routine : Routine → Cpu → Option Cpu) {s t : Cpu}

/-- The registers are saved. -/
theorem reaches_checks (s : Cpu) :
    ∃ t, Reaches linkage routine (handlerEntry s) ⟨.at 8, t⟩ ∧ Framed s t ∧ t.reg = s.reg := by
  let saved : List Reg := [.esi, .edi, .ebp, .edx, .ecx, .ebx]
  have hpushes := holds_pushes saved (s := s) holds_nil (by decide)
  have hframe := holds_pushWord hpushes (by simp [saved])
    (execAll (saved.map .push) s).eflags
  have hrun : Reaches linkage routine (handlerEntry s)
      ⟨.at 8, (execAll (saved.map .push) s).pushWord (execAll (saved.map .push) s).eflags⟩ :=
    (reaches_label routine (l := .systemCallHandler) s (by decide)).trans
      (reaches_ops routine (saved.map .push ++ [.pushf]) s (by decide))
  refine ⟨_, hrun, ⟨?_, ?_⟩, pushes_reg saved s⟩
  · show (execAll (saved.map .push) s).esp - 4 = s.esp - 28
    rw [pushes_esp]
    simp only [saved, List.length_cons, List.length_nil]
    bv_omega
  · rw [pushes_eflags] at hframe ⊢
    exact hframe

/-- `quit` restores what was saved. -/
theorem reaches_iret (h : Framed s t) :
    ∃ u, Reaches linkage routine ⟨.at (target linkage .quit), t⟩ ⟨.iret, u⟩ ∧ Restored s u ∧
      u.reg .eax = t.reg .eax := by
  let restored : List Reg := [.ebx, .ecx, .edx, .ebp, .edi, .esi]
  have hlabel : linkage[target linkage .quit]? = some (.label .quit) := by decide
  have hrun := (reaches_label routine t hlabel).trans
    (reaches_ops routine (.popf :: restored.map .pop) t (by decide))
  have hiret := hrun.trans (reaches_instr routine (i := .iret) _ (by decide))
  obtain ⟨hflags, hregs⟩ := holds_cons.mp h.saved
  refine ⟨_, hiret, ⟨?_, ?_, ?_⟩, ?_⟩
  · show (execAll (restored.map .pop) (Op.exec t .popf)).esp = s.esp
    rw [pops_esp]
    simp only [Op.exec, h.esp, restored, List.length_cons, List.length_nil]
    bv_omega
  · show (execAll (restored.map .pop) (Op.exec t .popf)).eflags = s.eflags
    rw [pops_eflags]
    exact hflags
  · intro r hr
    exact pops_reg s.reg restored (s := Op.exec t .popf) hregs r
      (by cases r <;> simp_all [restored])
  · exact pops_other restored _ (by decide)

/-- `fail` returns -1. -/
theorem reaches_fail (h : Framed s t) :
    ∃ u, Reaches linkage routine ⟨.at (target linkage .fail), t⟩ ⟨.iret, u⟩ ∧ Restored s u ∧
      u.reg .eax = -1 := by
  have hlabel : linkage[target linkage .fail]? = some (.label .fail) := by decide
  have hfail := ((reaches_label routine t hlabel).trans
    (reaches_ops routine [.mov (-1) .eax] t (by decide))).trans
      (reaches_instr routine (i := .jmp .quit) _ (by decide))
  have hframed : Framed s (Op.exec t (.mov (-1) .eax)) := ⟨h.esp, h.saved⟩
  obtain ⟨u, hquit, hrestored, heax⟩ := reaches_iret routine hframed
  exact ⟨u, hfail.trans hquit, hrestored, by simp [heax, Op.exec]⟩

/-- The lines of a stub. -/
theorem stub_lines : ∀ e ∈ implemented,
    linkage[target linkage e.1]? = some (.label e.1) ∧
    ops (e.2.1.reverse.map .push) <+: linkage.drop (target linkage e.1 + 1) ∧
    linkage[target linkage e.1 + 1 + e.2.1.length]? = some (.instr (.call e.2.2)) ∧
    ops (e.2.1.map .pop) <+: linkage.drop (target linkage e.1 + 1 + e.2.1.length + 1) ∧
    linkage[target linkage e.1 + 1 + e.2.1.length + 1 + e.2.1.length]? =
      some (.instr (.jmp .quit)) ∧
    argumentWords e.2.2 = e.2.1.length ∧ e.2.1.length ≤ 3 := by
  decide

/-- The saved words are still there after the arguments have been popped. -/
theorem framed_stub {routine} (hroutine : KeepsFrame routine) (h : Framed s t)
    {args : List Reg} {f : Routine} (hwords : argumentWords f = args.length)
    (hshort : args.length ≤ 3) {u : Cpu}
    (hret : routine f (execAll (args.reverse.map .push) t) = some u) :
    Framed s (execAll (args.map .pop) u) := by
  obtain ⟨hesp, hmem⟩ := hroutine f _ u hret
  have hpushed := pushes_esp args.reverse t
  rw [List.length_reverse] at hpushed
  have hstack := holds_pushes args.reverse h.saved (by
    simp only [savedWords, List.length_cons, List.length_nil, List.length_reverse]
    omega)
  refine ⟨?_, ?_⟩
  · rw [pops_esp, hesp, hpushed, h.esp]
    bv_omega
  · rw [pops_esp, pops_mem, hesp]
    -- the saved words are behind the arguments, where the function has not written
    intro i w hw
    have hi : i < 7 := (List.getElem?_eq_some_iff.mp hw).1
    have haddr : (execAll (args.reverse.map .push) t).esp + BitVec.ofNat 32 (4 * args.length) +
        BitVec.ofNat 32 (4 * i) = (execAll (args.reverse.map .push) t).esp +
          BitVec.ofNat 32 (4 * (args.length + i)) := by
      bv_omega
    rw [haddr, hmem (args.length + i) (by omega) (by omega)]
    exact hstack (args.length + i) w (by simpa [List.getElem?_append_right] using hw)

/-- **A stub** returns with everything restored, if its function comes back. -/
theorem reaches_stub {routine} (hroutine : KeepsFrame routine) (h : Framed s t)
    {e : Label × List Reg × Routine} (he : e ∈ implemented) :
    (∃ u, Reaches linkage routine ⟨.at (target linkage e.1), t⟩ ⟨.iret, u⟩ ∧ Restored s u) ∨
      ∃ u, Reaches linkage routine ⟨.at (target linkage e.1), t⟩ ⟨.away, u⟩ := by
  obtain ⟨hlabel, hpush, hcall, hpop, hjmp, hwords, hshort⟩ := stub_lines e he
  have hpushes := (reaches_label routine t hlabel).trans (reaches_ops routine _ t hpush)
  rw [List.length_map, List.length_reverse] at hpushes
  have hcalled := hpushes.trans (reaches_instr routine _ hcall)
  cases hret : routine e.2.2 (execAll (e.2.1.reverse.map .push) t) with
  | none =>
    simp only [Instr.step, hret] at hcalled
    exact Or.inr ⟨_, hcalled⟩
  | some u =>
    simp only [Instr.step, hret] at hcalled
    have hpops := hcalled.trans (reaches_ops routine _ u hpop)
    rw [List.length_map] at hpops
    have hframed := framed_stub hroutine h hwords hshort hret
    obtain ⟨v, hquit, hrestored, _⟩ := reaches_iret routine hframed
    exact Or.inl ⟨v, (hpops.trans (reaches_instr routine _ hjmp)).trans hquit, hrestored⟩

/-- The range check: 1 to 10 go on to the jump, everything else to `fail`. -/
theorem reaches_checked (h : Framed s t) :
    ∃ u, Framed s u ∧ u.reg = t.reg ∧ Reaches linkage routine ⟨.at 8, t⟩
      ⟨.at (if 1 ≤ (t.reg .eax).toNat ∧ (t.reg .eax).toNat ≤ 10 then 12
        else target linkage .fail), u⟩ := by
  let first := Op.exec t (.cmp 1 .eax)
  let second := Op.exec first (.cmp 10 .eax)
  have hbelow : Reaches linkage routine ⟨.at 8, t⟩
      (Instr.step linkage routine 9 first (.jb .fail)) :=
    (reaches_ops routine [.cmp 1 .eax] t (by decide)).trans
      (reaches_instr routine first (by decide))
  have hcarry : carry first.eflags = decide ((t.reg .eax).toNat < 1) := carry_compareFlags ..
  by_cases hlow : (t.reg .eax).toNat < 1
  · -- 0 is below 1: `jb` goes to `fail`
    refine ⟨first, ⟨h.esp, h.saved⟩, rfl, ?_⟩
    rw [Instr.step, if_pos (by simpa [hcarry] using hlow)] at hbelow
    rwa [if_neg (by omega)]
  · rw [Instr.step, if_neg (by simpa [hcarry] using hlow)] at hbelow
    have habove : Reaches linkage routine ⟨.at 8, t⟩
        (Instr.step linkage routine 11 second (.ja .fail)) :=
      (hbelow.trans (reaches_ops routine [.cmp 10 .eax] first (by decide))).trans
        (reaches_instr routine second (by decide))
    have hcarry' : carry second.eflags = decide ((t.reg .eax).toNat < 10) := carry_compareFlags ..
    have hzero : zero second.eflags = decide (t.reg .eax = 10) := zero_compareFlags ..
    have hten : t.reg .eax = 10 ↔ (t.reg .eax).toNat = 10 := by bv_omega
    have hle : carry second.eflags ∨ zero second.eflags ↔ (t.reg .eax).toNat ≤ 10 := by
      rw [hcarry', hzero, decide_eq_true_iff, decide_eq_true_iff, hten]
      omega
    refine ⟨second, ⟨h.esp, h.saved⟩, rfl, ?_⟩
    by_cases hhigh : (t.reg .eax).toNat ≤ 10
    · rw [Instr.step, if_pos (hle.mpr hhigh)] at habove
      rwa [if_pos (by omega)]
    · rw [Instr.step, if_neg (mt hle.mp hhigh)] at habove
      rwa [if_neg (by omega)]

/-- `systable` has a stub for 1 to 8, and nothing for 9 and 10. -/
theorem systable_word : ∀ n : Fin 11, 1 ≤ (n : Nat) →
    if (n : Nat) ≤ 8 then ∃ e ∈ implemented,
      tableWord linkage .systable (BitVec.ofNat 32 n) = some e.1
    else tableWord linkage .systable (BitVec.ofNat 32 n) = none := by
  decide

end Parts

/-! ## All values of `eax` -/

section Handler
variable {routine : Routine → Cpu → Option Cpu} {s : Cpu}

/-- A run that comes to an end that is as it should be. -/
theorem dispatched_of_ended {d : Config} (hrun : Reaches linkage routine (handlerEntry s) d)
    (hd : d.Ended) (hin : d.control ≠ .outside) (hrestored : d.control = .iret → Restored s d.cpu)
    (hsettles : (∃ n, JumpsToStub routine s n) ∨ d.control = .iret ∧ d.cpu.reg .eax = -1) :
    Dispatched routine s := by
  have hend : ∀ n, (handled routine s n).Ended → handled routine s n = d := fun n =>
    ended_unique hrun hd
  refine ⟨?_, ?_, ?_⟩
  · intro n hout
    have heq := hend n (fun pc hpc => by rw [hout] at hpc; cases hpc)
    rw [heq] at hout
    exact hin hout
  · rcases hsettles with hjump | hfail
    · exact Or.inl hjump
    · obtain ⟨n, hn⟩ := hrun
      refine Or.inr ⟨n, ?_⟩
      rw [handled, hn]
      exact hfail
  · intro n hiret
    have heq := hend n (fun pc hpc => by rw [hiret] at hpc; cases hpc)
    rw [heq] at hiret ⊢
    exact hrestored hiret

/-- The handler comes to the jump with `eax` from 1 to 10, and to `fail` with all other
values. -/
theorem reaches_jump (routine : Routine → Cpu → Option Cpu) (s : Cpu) :
    ∃ u, Framed s u ∧ u.reg = s.reg ∧ Reaches linkage routine (handlerEntry s)
      ⟨.at (if 1 ≤ (s.reg .eax).toNat ∧ (s.reg .eax).toNat ≤ 10 then 12
        else target linkage .fail), u⟩ := by
  obtain ⟨t, hsaved, hframed, hreg⟩ := reaches_checks routine s
  obtain ⟨u, hframed', hreg', hchecked⟩ := reaches_checked routine hframed
  rw [hreg] at hreg' hchecked
  exact ⟨u, hframed', hreg', hsaved.trans hchecked⟩

/-- The jump at its line. -/
theorem handled_jump {u : Cpu} {n : Nat} (hn : handled routine s n = ⟨.at 12, u⟩) :
    handled routine s (n + 1) = Instr.step linkage routine 12 u (.jmpTable .systable .eax) := by
  rw [handled, stepped, Function.iterate_succ_apply']
  rw [handled, stepped] at hn
  rw [hn]
  rfl

theorem dispatched_stub (hroutine : KeepsFrame routine) (hlow : 1 ≤ (s.reg .eax).toNat)
    (hhigh : (s.reg .eax).toNat ≤ 8) : Dispatched routine s := by
  obtain ⟨u, hframed, hreg, hrun⟩ := reaches_jump routine s
  rw [if_pos ⟨hlow, by omega⟩] at hrun
  obtain ⟨n, hn⟩ := hrun
  have hword := systable_word ⟨(s.reg .eax).toNat, by omega⟩ hlow
  simp only [BitVec.ofNat_toNat, BitVec.setWidth_eq, if_pos hhigh] at hword
  obtain ⟨e, he, hentry⟩ := hword
  have hstep : handled routine s (n + 1) = ⟨.at (target linkage e.1), u⟩ := by
    rw [handled_jump hn]
    simp only [Instr.step, hreg, hentry]
  have hjumps : JumpsToStub routine s n :=
    ⟨12, by rw [handled, hn], by decide, e, he, by rw [hstep]⟩
  have hstub : Reaches linkage routine (handlerEntry s) ⟨.at (target linkage e.1), u⟩ :=
    ⟨n + 1, hstep⟩
  rcases reaches_stub hroutine hframed he with ⟨v, hv, hrestored⟩ | ⟨v, hv⟩
  · exact dispatched_of_ended (hstub.trans hv) (ended_iret v) (by simp) (fun _ => hrestored)
      (Or.inl ⟨n, hjumps⟩)
  · exact dispatched_of_ended (hstub.trans hv) (ended_away v) (by simp) (by simp)
      (Or.inl ⟨n, hjumps⟩)

theorem dispatched_fail (hout : ¬(1 ≤ (s.reg .eax).toNat ∧ (s.reg .eax).toNat ≤ 10)) :
    Dispatched routine s := by
  obtain ⟨u, hframed, _, hrun⟩ := reaches_jump routine s
  rw [if_neg hout] at hrun
  obtain ⟨v, hv, hrestored, heax⟩ := reaches_fail routine hframed
  exact dispatched_of_ended (hrun.trans hv) (ended_iret v) (by simp) (fun _ => hrestored)
    (Or.inr ⟨rfl, heax⟩)

/-- With 9 and 10 the jump reads past the table. -/
theorem not_dispatched (hlow : 9 ≤ (s.reg .eax).toNat) (hhigh : (s.reg .eax).toNat ≤ 10) :
    ¬Dispatched routine s := by
  intro h
  obtain ⟨u, _, hreg, hrun⟩ := reaches_jump routine s
  rw [if_pos ⟨by omega, hhigh⟩] at hrun
  obtain ⟨n, hn⟩ := hrun
  have hpos : 1 ≤ (s.reg .eax).toNat := by omega
  have hword := systable_word ⟨(s.reg .eax).toNat, by omega⟩ hpos
  simp only [BitVec.ofNat_toNat, BitVec.setWidth_eq,
    if_neg (show ¬(s.reg .eax).toNat ≤ 8 by omega)] at hword
  refine h.inTable (n + 1) ?_
  rw [handled_jump hn]
  simp only [Instr.step, hreg, hword]

/-- **Dispatch.**  The handler does what it should exactly if `eax` is not 9 or 10: with
these two it jumps through the words after `systable`. -/
theorem dispatched_iff (hroutine : KeepsFrame routine) (s : Cpu) :
    Dispatched routine s ↔ s.reg .eax ≠ 9 ∧ s.reg .eax ≠ 10 := by
  have hnine : s.reg .eax = 9 ↔ (s.reg .eax).toNat = 9 := by bv_omega
  have hten : s.reg .eax = 10 ↔ (s.reg .eax).toNat = 10 := by bv_omega
  rw [Ne, Ne, hnine, hten]
  constructor
  · intro h
    constructor
    · exact fun heq => not_dispatched (by omega) (by omega) h
    · exact fun heq => not_dispatched (by omega) (by omega) h
  · rintro ⟨hne, hne'⟩
    by_cases hstub : 1 ≤ (s.reg .eax).toNat ∧ (s.reg .eax).toNat ≤ 8
    · exact dispatched_stub hroutine hstub.1 hstub.2
    · exact dispatched_fail (by omega)

end Handler

/-- Functions that return 0, leave 1 in `ecx` and `edx` and 0 in their first argument. -/
def returnsZero (_ : Routine) (s : Cpu) : Option Cpu :=
  some { s with
    reg := fun r => match r with
      | .eax => 0
      | .ecx | .edx => 1
      | r => s.reg r
    mem := Function.update s.mem s.esp 0 }

theorem keepsFrame_returnsZero : KeepsFrame returnsZero := by
  rintro f s _ ⟨⟩
  refine ⟨rfl, fun i hlow hhigh => Function.update_of_ne ?_ ..⟩
  have hone : 1 ≤ argumentWords f := by cases f <;> decide
  have hthree : argumentWords f ≤ 3 := by cases f <;> decide
  bv_omega

/-- A processor that makes system call `n`. -/
def callNumber (n : BitVec 32) : Cpu where
  reg := fun r => if r = .eax then n else 7
  esp := 0x7FFFEC
  eflags := 0x202
  mem := fun _ => 0

theorem dispatched_write : Dispatched returnsZero (callNumber 4) :=
  (dispatched_iff keepsFrame_returnsZero (callNumber 4)).mpr ⟨by decide, by decide⟩

/-- Number 9 is past the table. -/
theorem not_dispatched_nine :
    ¬∀ (routine : Routine → Cpu → Option Cpu) (s : Cpu),
      KeepsFrame routine → Dispatched routine s := by
  intro hall
  have hin := (hall returnsZero (callNumber 9) keepsFrame_returnsZero).inTable 13
  revert hin
  decide +kernel

end LinuxLikeOS
