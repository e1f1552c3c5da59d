import LinuxLikeOS.MemoryRanges
import Mathlib.Computability.StateTransition

/-! # A small x86 machine with string instructions

Assembly source as a list of lines: labels and instructions.  A position in the list is an
address, and a run ends behind the last line.  Memory is read and written in bytes, through a
segment register: `base` gives the address at which a segment begins.  Ordinary operands
are in the segment of `ds`; a string instruction reads from that segment and stores in the
one of `es`.

`rep` repeats a string instruction, one iteration a step, until `ecx` is zero.  What an
iteration preserves, the repetition does (`reaches_rep`).
-/
namespace StringMachine
open MemoryRanges StateTransition

/-! ## The processor -/

/-- The registers that are used. -/
inductive Reg
  | eax | ecx | edx | esi | edi
  deriving DecidableEq

/-- The state of the processor and of memory, with the carry, zero and direction flags. -/
structure Cpu where
  reg : Reg → BitVec 32
  ds : BitVec 16
  es : BitVec 16
  cf : Bool
  zf : Bool
  df : Bool
  mem : BitVec 32 → BitVec 8

/-- `$v` or `%r`. -/
inductive Operand
  | imm (v : BitVec 32)
  | reg (r : Reg)
  deriving DecidableEq

/-- Instructions that go on to the next line; operands in the order of the source. -/
inductive Op
  /-- `movb (%r), %al` -/
  | loadb (r : Reg)
  /-- `movb %al, (%r)` -/
  | storeb (r : Reg)
  | movl (q r : Reg)
  /-- `movw %ds, %r` -/
  | movwFromDs (r : Reg)
  /-- `movw %r, %es` -/
  | movwToEs (r : Reg)
  | addl (v : BitVec 32) (r : Reg)
  | subl (v : BitVec 32) (r : Reg)
  | andl (v : BitVec 32) (r : Reg)
  /-- by 1 to 31 bits -/
  | shrl (k : Nat) (r : Reg)
  | testl (a : Operand) (r : Reg)
  | cmp (q r : Reg)
  /-- `leal d(%q, %i), %r` -/
  | leal (d : BitVec 32) (q i r : Reg)
  | cld
  | std
  deriving DecidableEq

/-- The string instructions. -/
inductive StringOp
  | stosl | movsb | movsl
  deriving DecidableEq

namespace Cpu
variable (base : BitVec 16 → BitVec 32) (s : Cpu)

def set (r : Reg) (v : BitVec 32) : Cpu := { s with reg := Function.update s.reg r v }

/-- A result, with the flags that it sets. -/
def setResult (r : Reg) (v : BitVec 32) (carry : Bool) : Cpu :=
  { s.set r v with cf := carry, zf := v = 0 }

/-- `al`. -/
def al : BitVec 8 := (s.reg .eax).setWidth 8

/-- Memory as the segment of `ds` shows it. -/
def data (a : BitVec 32) : BitVec 8 := s.mem (base s.ds + a)

/-- Where a string instruction goes on, by the direction flag. -/
def next (size : Nat) (a : BitVec 32) : BitVec 32 :=
  if s.df then a - BitVec.ofNat 32 size else a + BitVec.ofNat 32 size

end Cpu

def Operand.value (s : Cpu) : Operand → BitVec 32
  | .imm v => v
  | .reg r => s.reg r

/-- What an instruction does. -/
def Op.exec (base : BitVec 16 → BitVec 32) (s : Cpu) : Op → Cpu
  | .loadb r => s.set .eax ((s.reg .eax).extractLsb' 8 24 ++ s.data base (s.reg r))
  | .storeb r => { s with mem := Function.update s.mem (base s.ds + s.reg r) s.al }
  | .movl q r => s.set r (s.reg q)
  | .movwFromDs r => s.set r ((s.reg r).extractLsb' 16 16 ++ s.ds)
  | .movwToEs r => { s with es := (s.reg r).setWidth 16 }
  | .addl v r => s.setResult r (s.reg r + v) (BitVec.uaddOverflow (s.reg r) v)
  | .subl v r => s.setResult r (s.reg r - v) (BitVec.ult (s.reg r) v)
  | .andl v r => s.setResult r (s.reg r &&& v) false
  | .shrl k r => s.setResult r (s.reg r >>> k) ((s.reg r).getLsbD (k - 1))
  | .testl a r => { s with cf := false, zf := s.reg r &&& a.value s = 0 }
  | .cmp q r => { s with cf := BitVec.ult (s.reg r) (s.reg q), zf := s.reg r = s.reg q }
  | .leal d q i r => s.set r (s.reg q + s.reg i + d)
  | .cld => { s with df := false }
  | .std => { s with df := true }

/-- A row of instructions. -/
def execAll (base : BitVec 16 → BitVec 32) (os : List Op) (s : Cpu) : Cpu :=
  os.foldl (Op.exec base) s

namespace StringOp

/-- How many bytes are stored. -/
def size : StringOp → Nat
  | .movsb => 1
  | .stosl | .movsl => 4

/-- The bytes that are stored. -/
def value (base : BitVec 16 → BitVec 32) (s : Cpu) : StringOp → Nat → BitVec 8
  | .stosl, i => (s.reg .eax).extractLsb' (8 * i) 8
  | .movsb, i | .movsl, i => s.data base (s.reg .esi + BitVec.ofNat 32 i)

/-- What a string instruction does, without `rep`. -/
def exec (base : BitVec 16 → BitVec 32) (s : Cpu) (o : StringOp) : Cpu :=
  { s with
    mem := store s.mem (base s.es + s.reg .edi) (o.value base s) o.size
    reg := fun
      | .edi => s.next o.size (s.reg .edi)
      | .esi => if o = .stosl then s.reg .esi else s.next o.size (s.reg .esi)
      | r => s.reg r }

/-- An iteration of `rep`. -/
def iterate (base : BitVec 16 → BitVec 32) (s : Cpu) (o : StringOp) : Cpu :=
  (o.exec base s).set .ecx (s.reg .ecx - 1)

end StringOp

/-! ## Programs -/

/-- All instructions, over labels `L`. -/
inductive Instr (L : Type)
  | op (o : Op)
  | rep (o : StringOp)
  | jz (l : L)
  | jae (l : L)
  | jmp (l : L)
  deriving DecidableEq

/-- A line of the source. -/
inductive Line (L : Type)
  | label (l : L)
  | instr (i : Instr L)
  deriving DecidableEq

/-- A state of a run. -/
structure Config where
  pc : Nat
  cpu : Cpu

variable {L : Type}

/-- A row of instructions as lines. -/
def ops (os : List Op) : List (Line L) := os.map fun o => .instr (.op o)

section Steps
variable [DecidableEq L] (base : BitVec 16 → BitVec 32) (code : List (Line L))

/-- The line of a label. -/
def target (l : L) : Nat := code.idxOf (.label l)

/-- One instruction at line `pc`. -/
def Instr.step (pc : Nat) (s : Cpu) : Instr L → Config
  | .op o => ⟨pc + 1, o.exec base s⟩
  | .rep o => if s.reg .ecx = 0 then ⟨pc + 1, s⟩ else ⟨pc, o.iterate base s⟩
  | .jz l => ⟨if s.zf then target code l else pc + 1, s⟩
  | .jae l => ⟨if s.cf then pc + 1 else target code l, s⟩
  | .jmp l => ⟨target code l, s⟩

/-- One step; there is none behind the last line. -/
def step (c : Config) : Option Config :=
  (code[c.pc]?).map fun
    | .label _ => ⟨c.pc + 1, c.cpu⟩
    | .instr i => i.step base code c.pc c.cpu

/-- The code, run from its first line on, ends in the state `t`. -/
def EndsIn (s t : Cpu) : Prop := ⟨code.length, t⟩ ∈ eval (step base code) ⟨0, s⟩

end Steps

/-! ## Registers and memory -/

section Cpu
variable {base : BitVec 16 → BitVec 32} {s : Cpu}

@[simp] theorem set_reg_self (s : Cpu) (r : Reg) (v : BitVec 32) : (s.set r v).reg r = v :=
  Function.update_self ..

theorem execAll_append (os os' : List Op) :
    execAll base (os ++ os') s = execAll base os' (execAll base os s) := List.foldl_append

/-- A counter that is counted down. -/
theorem toNat_sub_one {a : BitVec 32} {n : Nat} (h : a.toNat = n + 1) : (a - 1).toNat = n := by
  bv_omega

/-- The segment of `ds`, for `es` too. -/
theorem es_movw (base : BitVec 16 → BitVec 32) (s : Cpu) (r : Reg) :
    (execAll base [.movwFromDs r, .movwToEs r] s).es = s.ds := by
  have hr : ((Op.movwFromDs r).exec base s).reg r = (s.reg r).extractLsb' 16 16 ++ s.ds :=
    set_reg_self ..
  show (((Op.movwFromDs r).exec base s).reg r).setWidth 16 = s.ds
  rw [hr]
  exact BitVec.setWidth_append_eq_right

/-- A store through `ds`. -/
theorem data_storeb (base : BitVec 16 → BitVec 32) (s : Cpu) (r : Reg) :
    ((Op.storeb r).exec base s).data base =
      store (s.data base) (s.reg r) (fun _ => s.al) 1 := by
  funext a
  exact congrFun (store_offset s.mem (base s.ds) (s.reg r) (fun _ => s.al) 1) a

/-- A string instruction, if both segment registers hold the same. -/
theorem data_exec (h : s.es = s.ds) (o : StringOp) :
    (o.exec base s).data base = store (s.data base) (s.reg .edi) (o.value base s) o.size := by
  funext a
  have hexec : (o.exec base s).data base a =
      store s.mem (base s.es + s.reg .edi) (o.value base s) o.size (base s.ds + a) := rfl
  rw [hexec, h]
  exact congrFun (store_offset s.mem (base s.ds) (s.reg .edi) (o.value base s) o.size) a

end Cpu

/-! ## Parts of the code -/

/-- The code has the lines `part` from line `pc` on. -/
def HasLines (code : List (Line L)) (pc : Nat) (part : List (Line L)) : Prop :=
  part <+: code.drop pc

instance [DecidableEq L] (code : List (Line L)) (pc : Nat) (part : List (Line L)) :
    Decidable (HasLines code pc part) := inferInstanceAs (Decidable (part <+: code.drop pc))

section Parts
variable {code part part' : List (Line L)} {pc : Nat} {l : Line L}

/-- The first line of a part, and the others. -/
theorem hasLines_cons :
    HasLines code pc (l :: part) ↔ code[pc]? = some l ∧ HasLines code (pc + 1) part := by
  have hline : code[pc]? = (code.drop pc)[0]? := by rw [List.getElem?_drop, Nat.add_zero]
  have hrest : code.drop (pc + 1) = (code.drop pc).drop 1 := by rw [List.drop_drop]
  rw [HasLines, HasLines, hline, hrest]
  cases code.drop pc with
  | nil => simp
  | cons l' rest =>
    rw [List.cons_prefix_cons, List.getElem?_cons_zero, Option.some.injEq, eq_comm]
    rfl

/-- A part in two pieces. -/
theorem hasLines_append : HasLines code pc (part ++ part') ↔
    HasLines code pc part ∧ HasLines code (pc + part.length) part' := by
  induction part generalizing pc with
  | nil => exact ⟨fun h => ⟨List.nil_prefix, h⟩, fun h => h.2⟩
  | cons l part ih =>
    rw [List.cons_append, hasLines_cons, hasLines_cons, ih, and_assoc, List.length_cons,
      Nat.add_right_comm, Nat.add_assoc]

@[simp] theorem length_ops (os : List Op) : (ops os : List (Line L)).length = os.length :=
  List.length_map ..

@[simp] theorem label_notMem_ops (os : List Op) (l : L) : Line.label l ∉ ops os := by
  rw [ops, List.mem_map]
  rintro ⟨o, -, ho⟩
  cases ho

/-- A label that does not occur before. -/
theorem target_of_notMem [DecidableEq L] {pre : List (Line L)} {l : L} (h : Line.label l ∉ pre)
    (post : List (Line L)) : target (pre ++ .label l :: post) l = pre.length := by
  rw [target, List.idxOf_append_of_notMem h, List.idxOf_cons_self, Nat.add_zero]

end Parts

/-! ## Runs -/

section Runs
variable [DecidableEq L] {base : BitVec 16 → BitVec 32} {code : List (Line L)} {pc : Nat}
  {s t : Cpu}

/-- The end of a run. -/
theorem endsIn_of_reaches (h : Reaches (step base code) ⟨0, s⟩ ⟨code.length, t⟩) :
    EndsIn base code s t := by
  refine mem_eval.mpr ⟨h, ?_⟩
  rw [step, List.getElem?_eq_none (Nat.le_refl _)]
  rfl

variable (base)

/-- A label is passed. -/
theorem reaches_label {l : L} (hline : code[pc]? = some (.label l)) (s : Cpu) :
    Reaches (step base code) ⟨pc, s⟩ ⟨pc + 1, s⟩ :=
  .single (by simp only [step, hline, Option.map_some, Option.mem_def])

/-- An instruction is executed. -/
theorem reaches_instr {i : Instr L} (hline : code[pc]? = some (.instr i)) (s : Cpu) :
    Reaches (step base code) ⟨pc, s⟩ (i.step base code pc s) :=
  .single (by simp only [step, hline, Option.map_some, Option.mem_def])

/-- A row of instructions is executed. -/
theorem reaches_ops {os : List Op} (hrow : HasLines code pc (ops os)) (s : Cpu) :
    Reaches (step base code) ⟨pc, s⟩ ⟨pc + os.length, execAll base os s⟩ := by
  induction os generalizing pc s with
  | nil => exact .refl
  | cons o os ih =>
    obtain ⟨hline, hrest⟩ := hasLines_cons.mp hrow
    have hrun := (reaches_instr base hline s).trans (ih hrest (o.exec base s))
    rwa [Nat.add_right_comm, Nat.add_assoc] at hrun

/-- A test and a jump if it gives zero. -/
theorem reaches_testJz {a : Operand} {r : Reg} {l : L} {rest : List (Line L)}
    (hpart : HasLines code pc (.instr (.op (.testl a r)) :: .instr (.jz l) :: rest)) (s : Cpu) :
    Reaches (step base code) ⟨pc, s⟩
      ⟨if s.reg r &&& a.value s = 0 then target code l else pc + 2,
        (Op.testl a r).exec base s⟩ := by
  obtain ⟨htest, hrest⟩ := hasLines_cons.mp hpart
  obtain ⟨hjump, _⟩ := hasLines_cons.mp hrest
  have hrun := (reaches_instr base htest s).trans (reaches_instr base hjump _)
  simp only [Instr.step, Op.exec, decide_eq_true_eq] at hrun
  exact hrun

/-- The head of a loop that counts a register down to zero. -/
theorem reaches_loopHead {r : Reg} {l l' : L} {rest : List (Line L)}
    (hhead : HasLines code pc
      (.label l :: .instr (.op (.testl (.reg r) r)) :: .instr (.jz l') :: rest)) (s : Cpu) :
    Reaches (step base code) ⟨pc, s⟩
      ⟨if (s.reg r).toNat = 0 then target code l' else pc + 3,
        (Op.testl (.reg r) r).exec base s⟩ := by
  obtain ⟨hlabel, htest⟩ := hasLines_cons.mp hhead
  have hrun := (reaches_label base hlabel s).trans (reaches_testJz base htest s)
  have hzero : s.reg r &&& s.reg r = 0 ↔ (s.reg r).toNat = 0 := by
    rw [BitVec.and_self]
    exact BitVec.toNat_inj.symm
  simp only [Operand.value, hzero] at hrun
  exact hrun

variable {base}

/-- **Repetition**: `I k` holds with `k` iterations left. -/
theorem reaches_rep {o : StringOp} (hline : code[pc]? = some (.instr (.rep o)))
    {I : Nat → Cpu → Prop} (hcount : ∀ k s, I k s → (s.reg .ecx).toNat = k)
    (hstep : ∀ k s, I (k + 1) s → I k (o.iterate base s)) {n : Nat} (h : I n s) :
    ∃ t, Reaches (step base code) ⟨pc, s⟩ ⟨pc + 1, t⟩ ∧ I 0 t := by
  have hinstr := reaches_instr base hline s
  rw [Instr.step] at hinstr
  induction n generalizing s with
  | zero =>
    have hzero : s.reg .ecx = 0 := BitVec.eq_of_toNat_eq (hcount 0 s h)
    rw [if_pos hzero] at hinstr
    exact ⟨s, hinstr, h⟩
  | succ n ih =>
    have hne : s.reg .ecx ≠ 0 := by
      intro hzero
      have hnat := hcount (n + 1) s h
      rw [hzero] at hnat
      cases hnat
    rw [if_neg hne] at hinstr
    obtain ⟨t, hrun, ht⟩ := ih (hstep n s h) (reaches_instr base hline _)
    exact ⟨t, hinstr.trans hrun, ht⟩

end Runs

end StringMachine
