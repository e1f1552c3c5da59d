import Mathlib.Algebra.Group.Nat.Defs
import Mathlib.Data.List.Basic
import Mathlib.Logic.Function.Iterate

/-! # A small x86 machine with a stack

Assembly source as a list of lines (`Line`): labels, instructions and data words that
hold the address of a label.  A position in the list is an address; `.long` words are
read by the indirect jump `jmp *table(,%reg,4)`, and a jump through anything else is
`outside`.  A called routine is a parameter: it either comes back with another state of
the processor or never does.

The library is for code that saves registers on the stack and restores them: what a row
of pushes leaves on the stack (`Holds`), what a row of pops reads from it, and how the
parts of a run compose (`Reaches`).  Memory is read and written in words, at addresses
that differ from the stack pointer by multiples of four.
-/
namespace StackMachine

/-! ## The processor -/

/-- The registers, without `esp` and `eip`. -/
inductive Reg
  | eax | ebx | ecx | edx | esi | edi | ebp
  deriving DecidableEq

/-- The state of the processor and of memory. -/
structure Cpu where
  reg : Reg → BitVec 32
  esp : BitVec 32
  eflags : BitVec 32
  mem : BitVec 32 → BitVec 32

/-- Instructions that go on to the next line. -/
inductive Op
  | push (r : Reg)
  | pushf
  | pop (r : Reg)
  | popf
  | mov (v : BitVec 32) (r : Reg)
  | cmp (v : BitVec 32) (r : Reg)
  deriving DecidableEq

/-- The flag in bit `i`. -/
def flagBit (i : Nat) (b : Bool) : BitVec 32 := if b then BitVec.twoPow 32 i else 0

/-- `cmp` sets the carry, parity, adjust, zero, sign and overflow flags from `a - b`. -/
def compareFlags (flags a b : BitVec 32) : BitVec 32 :=
  (flags &&& ~~~0x8D5) ||| flagBit 0 (BitVec.ult a b) |||
    flagBit 2 ((List.range 8).countP (a - b).getLsbD % 2 = 0) |||
    flagBit 4 (BitVec.ult (a &&& 0xF) (b &&& 0xF)) ||| flagBit 6 (a = b) |||
    flagBit 7 (a - b).msb ||| flagBit 11 (a.msb ≠ b.msb ∧ (a - b).msb ≠ a.msb)

/-- The carry flag. -/
def carry (flags : BitVec 32) : Bool := flags.getLsbD 0

/-- The zero flag. -/
def zero (flags : BitVec 32) : Bool := flags.getLsbD 6

/-- A word is pushed. -/
def Cpu.pushWord (s : Cpu) (v : BitVec 32) : Cpu :=
  { s with esp := s.esp - 4, mem := Function.update s.mem (s.esp - 4) v }

/-- What an instruction does to the processor. -/
def Op.exec (s : Cpu) : Op → Cpu
  | .push r => s.pushWord (s.reg r)
  | .pushf => s.pushWord s.eflags
  | .pop r => { s with reg := Function.update s.reg r (s.mem s.esp), esp := s.esp + 4 }
  | .popf => { s with eflags := s.mem s.esp, esp := s.esp + 4 }
  | .mov v r => { s with reg := Function.update s.reg r v }
  | .cmp v r => { s with eflags := compareFlags s.eflags (s.reg r) v }

/-- A row of instructions. -/
def execAll (os : List Op) (s : Cpu) : Cpu := os.foldl Op.exec s

@[simp] theorem execAll_nil (s : Cpu) : execAll [] s = s := rfl

@[simp] theorem execAll_cons (o : Op) (os : List Op) (s : Cpu) :
    execAll (o :: os) s = execAll os (o.exec s) := rfl

/-! ## Programs -/

/-- All instructions, over labels `L` and routines `F`. -/
inductive Instr (L F : Type)
  | op (o : Op)
  | jb (l : L)
  | ja (l : L)
  | jmp (l : L)
  | jmpTable (table : L) (r : Reg)
  | call (f : F)
  | iret
  deriving DecidableEq

/-- A line of the source. -/
inductive Line (L F : Type)
  | label (l : L)
  | instr (i : Instr L F)
  | long (l : L)
  deriving DecidableEq

variable {L F : Type}

/-- A row of instructions as lines. -/
def ops (os : List Op) : List (Line L F) := os.map fun o => .instr (.op o)

/-- Where the processor is: at a line, at an `iret`, in a routine that has not come
back, or past a jump through a word that is not a table's. -/
inductive Control
  | at (line : Nat)
  | iret
  | away
  | outside
  deriving DecidableEq

/-- A state of a run. -/
structure Config where
  control : Control
  cpu : Cpu

section Steps
variable [DecidableEq L] [DecidableEq F] (code : List (Line L F)) (routine : F → Cpu → Option Cpu)

/-- The line of a label. -/
def target (l : L) : Nat := code.idxOf (.label l)

/-- The label in word `i` after the label `table`, if there is such a word.  The
processor forms the address modulo `2^32`. -/
def tableWord (table : L) (i : BitVec 32) : Option L :=
  match (code[target code table + 1 + i.toNat % 2 ^ 30]? : Option (Line L F)) with
  | some (.long l) => some l
  | _ => none

/-- One instruction at line `pc`. -/
def Instr.step (pc : Nat) (s : Cpu) : Instr L F → Config
  | .op o => ⟨.at (pc + 1), o.exec s⟩
  | .jb l => ⟨.at (if carry s.eflags then target code l else pc + 1), s⟩
  | .ja l => ⟨.at (if carry s.eflags ∨ zero s.eflags then pc + 1 else target code l), s⟩
  | .jmp l => ⟨.at (target code l), s⟩
  | .jmpTable table r =>
    match tableWord code table (s.reg r) with
    | some l => ⟨.at (target code l), s⟩
    | none => ⟨.outside, s⟩
  | .call f =>
    match routine f s with
    | some s' => ⟨.at (pc + 1), s'⟩
    | none => ⟨.away, s⟩
  | .iret => ⟨.iret, s⟩

/-- One step; a run that has ended stays where it is. -/
def step (c : Config) : Config :=
  match c.control with
  | .at pc =>
    match code[pc]? with
    | some (.label _) => ⟨.at (pc + 1), c.cpu⟩
    | some (.instr i) => i.step code routine pc c.cpu
    | _ => ⟨.outside, c.cpu⟩
  | _ => c

/-- The state after `n` steps. -/
def stepped (n : Nat) (c : Config) : Config := (step code routine)^[n] c

/-- A run from `c` comes to `d`. -/
def Reaches (c d : Config) : Prop := ∃ n, stepped code routine n c = d

/-- A run has ended. -/
def Config.Ended (c : Config) : Prop := ∀ pc, c.control ≠ .at pc

end Steps

/-! ## Composing runs -/

section Runs
variable [DecidableEq L] [DecidableEq F] {code : List (Line L F)}
  {routine : F → Cpu → Option Cpu} {c d e : Config}

theorem Reaches.refl (c : Config) : Reaches code routine c c := ⟨0, rfl⟩

theorem Reaches.trans (h : Reaches code routine c d) (h' : Reaches code routine d e) :
    Reaches code routine c e := by
  obtain ⟨n, hn⟩ := h
  obtain ⟨m, hm⟩ := h'
  refine ⟨m + n, ?_⟩
  rw [stepped, Function.iterate_add_apply]
  rw [stepped] at hn hm
  rw [hn, hm]

theorem Reaches.step_eq (h : step code routine c = d) : Reaches code routine c d := ⟨1, h⟩

variable (routine)

/-- A label is passed. -/
theorem reaches_label {pc : Nat} {l : L} (s : Cpu) (hline : code[pc]? = some (.label l)) :
    Reaches code routine ⟨.at pc, s⟩ ⟨.at (pc + 1), s⟩ :=
  .step_eq (by simp only [step, hline])

/-- An instruction is executed. -/
theorem reaches_instr {pc : Nat} {i : Instr L F} (s : Cpu)
    (hline : code[pc]? = some (.instr i)) :
    Reaches code routine ⟨.at pc, s⟩ (i.step code routine pc s) :=
  .step_eq (by simp only [step, hline])

/-- A row of instructions is executed. -/
theorem reaches_ops (os : List Op) : ∀ {pc : Nat} (s : Cpu), ops os <+: code.drop pc →
    Reaches code routine ⟨.at pc, s⟩ ⟨.at (pc + os.length), execAll os s⟩ := by
  induction os with
  | nil => exact fun _ _ => .refl _
  | cons o os ih =>
    intro pc s hrow
    obtain ⟨rest, hrest⟩ := hrow
    have hline : code[pc]? = some (.instr (.op o)) := by
      have hhead := congrArg (·[0]?) hrest
      simpa [ops] using hhead.symm
    have htail : ops os <+: code.drop (pc + 1) := by
      refine ⟨rest, ?_⟩
      rw [← List.drop_drop, ← hrest]
      rfl
    have hstep := (reaches_instr routine s hline).trans (ih (o.exec s) htail)
    rwa [show pc + 1 + os.length = pc + (o :: os).length by simp [Nat.add_comm, Nat.add_left_comm]]
      at hstep

variable {routine}

theorem step_ended (h : c.Ended) : step code routine c = c := by
  unfold step
  split
  · exact absurd ‹_› (h _)
  · rfl

theorem ended_iret (s : Cpu) : (Config.mk .iret s).Ended := by
  intro pc h
  cases h

theorem ended_away (s : Cpu) : (Config.mk .away s).Ended := by
  intro pc h
  cases h

/-- **A run has one end.** -/
theorem ended_unique {n : Nat} (h : Reaches code routine c d) (hd : d.Ended)
    (hn : (stepped code routine n c).Ended) : stepped code routine n c = d := by
  obtain ⟨m, hm⟩ := h
  have hfix : ∀ {c' : Config}, c'.Ended → ∀ j, stepped code routine j c' = c' := fun hc' j =>
    Function.iterate_fixed (step_ended hc') j
  -- the longer of the two runs stays where the shorter one has ended
  rcases Nat.le_total n m with hle | hle
  · have hsplit : stepped code routine (m - n + n) c = stepped code routine (m - n)
        (stepped code routine n c) := Function.iterate_add_apply ..
    rw [Nat.sub_add_cancel hle, hm, hfix hn] at hsplit
    exact hsplit.symm
  · have hsplit : stepped code routine (n - m + m) c = stepped code routine (n - m)
        (stepped code routine m c) := Function.iterate_add_apply ..
    rwa [Nat.sub_add_cancel hle, hm, hfix hd] at hsplit

end Runs

/-! ## Flags -/

theorem getLsbD_flagBit {i : Nat} (hi : i < 32) (j : Nat) (b : Bool) :
    (flagBit i b).getLsbD j = (decide (i = j) && b) := by
  cases b <;> simp [flagBit, BitVec.getLsbD_twoPow, hi]

theorem carry_compareFlags (flags a b : BitVec 32) :
    carry (compareFlags flags a b) = BitVec.ult a b := by
  simp (disch := decide) only [carry, compareFlags, BitVec.getLsbD_or, BitVec.getLsbD_and,
    getLsbD_flagBit]
  simp

theorem zero_compareFlags (flags a b : BitVec 32) :
    zero (compareFlags flags a b) = decide (a = b) := by
  simp (disch := decide) only [zero, compareFlags, BitVec.getLsbD_or, BitVec.getLsbD_and,
    getLsbD_flagBit]
  simp

/-! ## The stack -/

/-- Memory holds the words `ws` from address `a` up. -/
def Holds (mem : BitVec 32 → BitVec 32) (a : BitVec 32) (ws : List (BitVec 32)) : Prop :=
  ∀ i w, ws[i]? = some w → mem (a + BitVec.ofNat 32 (4 * i)) = w

section Stack
variable {mem : BitVec 32 → BitVec 32} {a : BitVec 32} {w : BitVec 32} {ws : List (BitVec 32)}
  {s : Cpu}

theorem holds_nil : Holds mem a [] := fun _ _ h => by simp at h

theorem holds_cons : Holds mem a (w :: ws) ↔ mem a = w ∧ Holds mem (a + 4) ws := by
  have hshift : ∀ i : Nat, a + BitVec.ofNat 32 (4 * (i + 1)) = a + 4 + BitVec.ofNat 32 (4 * i) := by
    intro i
    bv_omega
  constructor
  · intro h
    refine ⟨by simpa using h 0 w rfl, fun i v hv => ?_⟩
    rw [← hshift]
    exact h (i + 1) v (by simpa using hv)
  · rintro ⟨hw, h⟩ i v hv
    cases i with
    | zero => simpa [hw] using hv
    | succ i =>
      rw [hshift]
      exact h i v (by simpa using hv)

/-- A pushed word stands below the words that were there. -/
theorem holds_pushWord (h : Holds s.mem s.esp ws) (hroom : ws.length < 2 ^ 30) (v : BitVec 32) :
    Holds (s.pushWord v).mem (s.pushWord v).esp (v :: ws) := by
  rw [holds_cons]
  refine ⟨Function.update_self .., fun i w hw => ?_⟩
  -- fewer than `2^30` words, so the new word is none of their addresses
  have hi : i < ws.length := (List.getElem?_eq_some_iff.mp hw).1
  have haddr : s.esp - 4 + 4 = s.esp := by bv_omega
  have hne : s.esp + BitVec.ofNat 32 (4 * i) ≠ s.esp - 4 := by bv_omega
  simp only [Cpu.pushWord, haddr]
  rw [Function.update_of_ne hne]
  exact h i w hw

/-- What a row of pushes leaves on the stack. -/
theorem holds_pushes : ∀ (rs : List Reg) {s : Cpu} {ws : List (BitVec 32)},
    Holds s.mem s.esp ws → ws.length + rs.length ≤ 2 ^ 30 →
    Holds (execAll (rs.map .push) s).mem (execAll (rs.map .push) s).esp
      ((rs.map s.reg).reverse ++ ws) := by
  intro rs
  induction rs with
  | nil => exact fun h _ => h
  | cons r rs ih =>
    intro s ws h hroom
    simp only [List.length_cons] at hroom
    have hpush := holds_pushWord h (by omega) (s.reg r)
    have hrest := ih hpush (by simp only [List.length_cons]; omega)
    have hreg : (s.pushWord (s.reg r)).reg = s.reg := rfl
    rw [hreg] at hrest
    simpa [Op.exec] using hrest

@[simp] theorem pushes_reg (rs : List Reg) (s : Cpu) : (execAll (rs.map .push) s).reg = s.reg := by
  induction rs generalizing s with
  | nil => rfl
  | cons r rs ih => exact ih _

@[simp] theorem pushes_eflags (rs : List Reg) (s : Cpu) :
    (execAll (rs.map .push) s).eflags = s.eflags := by
  induction rs generalizing s with
  | nil => rfl
  | cons r rs ih => exact ih _

theorem pushes_esp (rs : List Reg) (s : Cpu) :
    (execAll (rs.map .push) s).esp = s.esp - BitVec.ofNat 32 (4 * rs.length) := by
  induction rs generalizing s with
  | nil => simp
  | cons r rs ih =>
    rw [List.map_cons, execAll_cons, ih]
    show s.esp - 4 - _ = _
    simp only [List.length_cons]
    bv_omega

theorem pops_esp (rs : List Reg) (s : Cpu) :
    (execAll (rs.map .pop) s).esp = s.esp + BitVec.ofNat 32 (4 * rs.length) := by
  induction rs generalizing s with
  | nil => simp
  | cons r rs ih =>
    rw [List.map_cons, execAll_cons, ih]
    show s.esp + 4 + _ = _
    simp only [List.length_cons]
    bv_omega

@[simp] theorem pops_mem (rs : List Reg) (s : Cpu) : (execAll (rs.map .pop) s).mem = s.mem := by
  induction rs generalizing s with
  | nil => rfl
  | cons r rs ih => exact ih _

@[simp] theorem pops_eflags (rs : List Reg) (s : Cpu) :
    (execAll (rs.map .pop) s).eflags = s.eflags := by
  induction rs generalizing s with
  | nil => rfl
  | cons r rs ih => exact ih _

theorem pops_other (rs : List Reg) (s : Cpu) {r : Reg} (hr : r ∉ rs) :
    (execAll (rs.map .pop) s).reg r = s.reg r := by
  induction rs generalizing s with
  | nil => rfl
  | cons q rs ih =>
    simp only [List.mem_cons, not_or] at hr
    rw [List.map_cons, execAll_cons, ih _ hr.2]
    exact Function.update_of_ne hr.1 ..

/-- **Pops read what stands on the stack**: a register that is popped from a word that
holds its old value has its old value. -/
theorem pops_reg (value : Reg → BitVec 32) : ∀ (rs : List Reg) {s : Cpu},
    Holds s.mem s.esp (rs.map value) → ∀ r ∈ rs, (execAll (rs.map .pop) s).reg r = value r := by
  intro rs
  induction rs with
  | nil => exact fun _ r hr => absurd hr (List.not_mem_nil)
  | cons q rs ih =>
    intro s h r hr
    rw [List.map_cons, holds_cons] at h
    rw [List.map_cons, execAll_cons]
    by_cases hin : r ∈ rs
    · exact ih (s := Op.exec s (.pop q)) h.2 r hin
    · have hq : r = q := (List.mem_cons.mp hr).resolve_right hin
      subst hq
      rw [pops_other rs _ hin, ← h.1]
      exact Function.update_self ..

end Stack

end StackMachine
