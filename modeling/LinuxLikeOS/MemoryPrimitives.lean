import LinuxLikeOS.CTypes
import LinuxLikeOS.StringMachine

/-! # `memset`, `memcpy` and `memmove`

The three functions are inline assembly.  `memset` and `memcpy` go byte by byte until the
destination is aligned, then by dwords with `rep`, and byte by byte through the rest;
the lines are the same but for how a byte and a dword are moved (`byDwords`).  `memmove`
goes byte by byte throughout, from the back if the source is below the destination.

What the moves have in common is in `Moves`: bytes add up.  So a run of `byDwords` moves as
many bytes as it was asked for, however they are split (`reaches_byDwords`).
-/
namespace LinuxLikeOS
open MemoryRanges StateTransition StringMachine

/-! ## The source -/

/-- The labels, without the name of the function that the source puts in front. -/
inductive MemoryLabel
  | top | aligned | bottom | done | go
  deriving DecidableEq

namespace Assembly

/-- Byte by byte, until `edi` is aligned. -/
def alignLoop (byte : List Op) : List (Line MemoryLabel) :=
  [.label .top, .instr (.op (.testl (.reg .ecx) .ecx)), .instr (.jz .done),
    .instr (.op (.testl (.imm 3) .edi)), .instr (.jz .aligned)] ++
    ops (byte ++ [.subl 1 .ecx]) ++ [.instr (.jmp .top)]

/-- By dwords; `edx` keeps the number of the bytes that are left. -/
def dwordMove (dwords : StringOp) : List (Line MemoryLabel) :=
  [.label .aligned] ++
    ops [.movwFromDs .edx, .movwToEs .edx, .movl .ecx .edx, .shrl 2 .ecx, .andl 3 .edx, .cld] ++
    [.instr (.rep dwords)]

/-- The bytes that are left. -/
def byteLoop (byte : List Op) : List (Line MemoryLabel) :=
  [.label .bottom, .instr (.op (.testl (.reg .edx) .edx)), .instr (.jz .done)] ++
    ops (byte ++ [.subl 1 .edx]) ++ [.instr (.jmp .bottom)]

/-- The code of `memset` and `memcpy`. -/
def byDwords (byte : List Op) (dwords : StringOp) : List (Line MemoryLabel) :=
  alignLoop byte ++ dwordMove dwords ++ byteLoop byte ++ [.label .done]

/-- `memset`. -/
def memset := byDwords [.storeb .edi, .addl 1 .edi] .stosl

/-- `memcpy`. -/
def memcpy := byDwords [.loadb .esi, .storeb .edi, .addl 1 .edi, .addl 1 .esi] .movsl

/-- `memmove`. -/
def memmove : List (Line MemoryLabel) :=
  ops [.movwFromDs .edx, .movwToEs .edx, .cld, .cmp .edi .esi] ++ [.instr (.jae .go)] ++
    ops [.leal (-1) .esi .ecx .esi, .leal (-1) .edi .ecx .edi, .std] ++
    [.label .go, .instr (.rep .movsb)]

end Assembly

/-- The inputs of the code of `memset`. -/
def memsetInputs (s : Cpu) (dest c n : Word) : Cpu :=
  let c := c &&& 0xFF
  ((s.set .eax (c <<< 24 ||| c <<< 16 ||| c <<< 8 ||| c)).set .edi dest).set .ecx n

/-- The inputs of the code of `memcpy` and `memmove`. -/
def copyInputs (s : Cpu) (dest src n : Word) : Cpu :=
  ((s.set .esi src).set .edi dest).set .ecx n

/-! ## The lines -/

section Lines
open Assembly
variable (byte : List Op) (dwords : StringOp)

/-- The parts of the code, one behind the other. -/
theorem parts_byDwords :
    let aligned := (alignLoop byte).length
    let bottom := aligned + (dwordMove dwords).length
    let done := bottom + (byteLoop byte).length
    HasLines (byDwords byte dwords) 0 (alignLoop byte) ∧
      HasLines (byDwords byte dwords) aligned (dwordMove dwords) ∧
      HasLines (byDwords byte dwords) bottom (byteLoop byte) ∧
      HasLines (byDwords byte dwords) done [.label .done] ∧
      (byDwords byte dwords).length = done + 1 := by
  have hall : HasLines (byDwords byte dwords) 0 (byDwords byte dwords) := List.prefix_rfl
  obtain ⟨hrest, hdone⟩ := hasLines_append.mp hall
  obtain ⟨hfirst, hbottom⟩ := hasLines_append.mp hrest
  obtain ⟨htop, haligned⟩ := hasLines_append.mp hfirst
  simp only [List.length_append, Nat.zero_add] at haligned hbottom hdone
  refine ⟨htop, haligned, hbottom, hdone, ?_⟩
  simp only [byDwords, List.length_append, List.length_singleton]

/-- Their labels. -/
theorem targets_byDwords :
    let aligned := (alignLoop byte).length
    let bottom := aligned + (dwordMove dwords).length
    target (byDwords byte dwords) .top = 0 ∧ target (byDwords byte dwords) .aligned = aligned ∧
      target (byDwords byte dwords) .bottom = bottom ∧
      target (byDwords byte dwords) .done = bottom + (byteLoop byte).length := by
  have hcode : byDwords byte dwords =
      alignLoop byte ++ (dwordMove dwords ++ (byteLoop byte ++ [.label .done])) := by
    simp only [byDwords, List.append_assoc]
  refine ⟨?_, ?_, ?_, ?_⟩
  · exact List.idxOf_cons_self
  · rw [hcode]
    exact target_of_notMem (by simp [alignLoop]) _
  · rw [hcode, ← List.append_assoc, ← List.length_append]
    exact target_of_notMem (by simp [alignLoop, dwordMove]) _
  · rw [← List.length_append, ← List.length_append]
    exact target_of_notMem (by simp [alignLoop, dwordMove, byteLoop]) _

end Lines

/-! ## Moving bytes -/

/-- Nothing is moved: what a move goes by is as it was. -/
structure Idle (s t : Cpu) : Prop where
  mem : t.mem = s.mem
  ds : t.ds = s.ds
  eax : t.reg .eax = s.reg .eax
  esi : t.reg .esi = s.reg .esi
  edi : t.reg .edi = s.reg .edi

/-- `R n` says that `n` bytes have been moved; bytes add up. -/
structure AddsUp (R : Nat → Cpu → Cpu → Prop) : Prop where
  idle : ∀ {s t}, Idle s t → R 0 s t
  trans : ∀ {m n s t u}, R m s t → R n t u → R (m + n) s u

/-- The instructions `byte` move one byte, and `dwords` moves four. -/
structure Moves (base : BitVec 16 → Word) (byte : List Op) (dwords : StringOp)
    (R : Nat → Cpu → Cpu → Prop) : Prop extends AddsUp R where
  one : ∀ s, R 1 s (execAll base byte s)
  counters : ∀ s r, r = .ecx ∨ r = .edx → (execAll base byte s).reg r = s.reg r
  size : dwords.size = 4
  four : ∀ s, s.es = s.ds → s.df = false → R dwords.size s (dwords.exec base s)

section Moving
open Assembly
variable {base : BitVec 16 → Word} {byte : List Op} {dwords : StringOp}
  {R : Nat → Cpu → Cpu → Prop}

/-- Idle instructions before and after a move. -/
theorem AddsUp.between (hR : AddsUp R) {n : Nat} {s t u v : Cpu} (hst : Idle s t)
    (h : R n t u) (huv : Idle u v) : R n s v := by
  have hmoved := hR.trans (hR.trans (hR.idle hst) h) (hR.idle huv)
  rwa [Nat.zero_add] at hmoved

theorem Idle.refl (s : Cpu) : Idle s s := ⟨rfl, rfl, rfl, rfl, rfl⟩

/-- One byte, and then `n`. -/
theorem AddsUp.succ (hR : AddsUp R) {n : Nat} {s t u v : Cpu} (hst : Idle s t)
    (h : R 1 t u) (hrest : R n u v) : R (n + 1) s v := by
  rw [Nat.add_comm]
  exact hR.trans (hR.between hst h (Idle.refl u)) hrest

variable (base) in
theorem idle_testl (a : Operand) (r : Reg) (s : Cpu) : Idle s ((Op.testl a r).exec base s) :=
  ⟨rfl, rfl, rfl, rfl, rfl⟩

variable (base) in
theorem idle_subl {r : Reg} (hr : r = .ecx ∨ r = .edx) (v : Word) (s : Cpu) :
    Idle s ((Op.subl v r).exec base s) := by
  rcases hr with rfl | rfl <;> exact ⟨rfl, rfl, rfl, rfl, rfl⟩

/-- **A round** of a loop: a byte is moved and counted. -/
theorem reaches_round {code : List (Line MemoryLabel)} (hR : Moves base byte dwords R) {r : Reg}
    (hr : r = .ecx ∨ r = .edx) {pc : Nat} {l : MemoryLabel}
    (hpart : HasLines code pc (ops (byte ++ [.subl 1 r]) ++ [.instr (.jmp l)])) {n : Nat} {s : Cpu}
    (hn : (s.reg r).toNat = n + 1) :
    ∃ t, Reaches (step base code) ⟨pc, s⟩ ⟨target code l, t⟩ ∧ R 1 s t ∧ (t.reg r).toNat = n := by
  obtain ⟨hrow, hjmp⟩ := hasLines_append.mp hpart
  obtain ⟨hjmp, _⟩ := hasLines_cons.mp hjmp
  rw [length_ops] at hjmp
  have hrun := (reaches_ops base hrow s).trans (reaches_instr base hjmp _)
  rw [execAll_append] at hrun
  refine ⟨_, hrun, hR.between (Idle.refl s) (hR.one s) (idle_subl base hr 1 _), ?_⟩
  have hcount : ((Op.subl 1 r).exec base (execAll base byte s)).reg r = s.reg r - 1 := by
    rw [← hR.counters s r hr]
    exact set_reg_self ..
  exact (congrArg BitVec.toNat hcount).trans (toNat_sub_one hn)

/-- The end of the code. -/
theorem reaches_done (s : Cpu) : Reaches (step base (byDwords byte dwords))
    ⟨target (byDwords byte dwords) .done, s⟩ ⟨(byDwords byte dwords).length, s⟩ := by
  obtain ⟨_, _, _, hdone, hlength⟩ := parts_byDwords byte dwords
  obtain ⟨_, _, _, htarget⟩ := targets_byDwords byte dwords
  rw [hlength, htarget]
  exact reaches_label base (hasLines_cons.mp hdone).1 s

/-- **The bytes that are left** are moved one by one. -/
theorem reaches_bottom (hR : Moves base byte dwords R) (s : Cpu) :
    ∃ t, Reaches (step base (byDwords byte dwords))
      ⟨target (byDwords byte dwords) .bottom, s⟩ ⟨(byDwords byte dwords).length, t⟩ ∧
        R (s.reg .edx).toNat s t := by
  obtain ⟨_, _, hpart, _, _⟩ := parts_byDwords byte dwords
  obtain ⟨_, _, hbottom, _⟩ := targets_byDwords byte dwords
  rw [← hbottom, byteLoop, List.append_assoc] at hpart
  obtain ⟨hhead, hround⟩ := hasLines_append.mp hpart
  generalize hn : (s.reg .edx).toNat = n
  induction n generalizing s with
  | zero =>
    have hrun := reaches_loopHead base hhead s
    rw [if_pos hn] at hrun
    exact ⟨_, hrun.trans (reaches_done _), hR.idle (idle_testl base _ _ s)⟩
  | succ n ih =>
    have hrun := reaches_loopHead base hhead s
    rw [if_neg (by omega)] at hrun
    have hidle := idle_testl base (.reg .edx) .edx s
    have hcount : (((Op.testl (.reg .edx) .edx).exec base s).reg .edx).toNat = n + 1 := hn
    obtain ⟨t, hround, hmoved, hleft⟩ := reaches_round hR (Or.inr rfl) hround hcount
    obtain ⟨u, hrest, hu⟩ := ih t hleft
    exact ⟨u, (hrun.trans hround).trans hrest, hR.succ hidle hmoved hu⟩

/-- **Repeated moves**, from the front. -/
theorem reaches_repMoves {code : List (Line MemoryLabel)} {pc : Nat} {o : StringOp}
    (hline : code[pc]? = some (.instr (.rep o))) (hR : AddsUp R)
    (hexec : ∀ s, s.es = s.ds → s.df = false → R o.size s (o.exec base s)) {s : Cpu}
    (hes : s.es = s.ds) (hdf : s.df = false) :
    ∃ t, Reaches (step base code) ⟨pc, s⟩ ⟨pc + 1, t⟩ ∧ R (o.size * (s.reg .ecx).toNat) s t ∧
      t.reg .edx = s.reg .edx := by
  generalize hn : (s.reg .ecx).toNat = n
  -- `k` iterations are left, `n - k` are done
  let I : Nat → Cpu → Prop := fun k t => (t.reg .ecx).toNat = k ∧ k ≤ n ∧ R (o.size * (n - k)) s t ∧
    t.es = t.ds ∧ t.df = false ∧ t.reg .edx = s.reg .edx
  have hstep : ∀ k t, I (k + 1) t → I k (o.iterate base t) := by
    rintro k t ⟨hcount, hle, hmoved, hes, hdf, hedx⟩
    have hidle : Idle (o.exec base t) (o.iterate base t) := ⟨rfl, rfl, rfl, rfl, rfl⟩
    have hmore := hR.trans hmoved (hR.between (Idle.refl t) (hexec t hes hdf) hidle)
    have hdone : o.size * (n - (k + 1)) + o.size = o.size * (n - k) := by
      rw [← Nat.mul_succ]
      congr 1
      omega
    rw [hdone] at hmore
    exact ⟨toNat_sub_one hcount, by omega, hmore, hes, hdf, hedx⟩
  have hstart : I n s := by
    refine ⟨hn, Nat.le_refl n, ?_, hes, hdf, rfl⟩
    rw [Nat.sub_self, Nat.mul_zero]
    exact hR.idle (Idle.refl s)
  obtain ⟨t, hrun, -, -, hmoved, -, -, hedx⟩ := reaches_rep hline (fun k t h => h.1) hstep hstart
  exact ⟨t, hrun, hmoved, hedx⟩

/-- The instructions in front of `rep`. -/
theorem dwords_ready (base : BitVec 16 → Word) (s : Cpu) :
    let t := execAll base [.movwFromDs .edx, .movwToEs .edx, .movl .ecx .edx, .shrl 2 .ecx,
      .andl 3 .edx, .cld] s
    Idle s t ∧ t.es = t.ds ∧ t.df = false ∧ (t.reg .ecx).toNat = (s.reg .ecx).toNat / 4 ∧
      (t.reg .edx).toNat = (s.reg .ecx).toNat % 4 := by
  refine ⟨⟨rfl, rfl, rfl, rfl, rfl⟩, es_movw base s .edx, rfl, ?_, ?_⟩
  · show (s.reg .ecx >>> 2).toNat = _
    rw [BitVec.toNat_ushiftRight, Nat.shiftRight_eq_div_pow]
  · show (s.reg .ecx &&& 3).toNat = _
    rw [BitVec.toNat_and]
    exact Nat.and_two_pow_sub_one_eq_mod _ 2

/-- **By dwords**: four bytes in each iteration, and then what is left. -/
theorem reaches_aligned (hR : Moves base byte dwords R) (s : Cpu) :
    ∃ t, Reaches (step base (byDwords byte dwords))
      ⟨target (byDwords byte dwords) .aligned, s⟩ ⟨(byDwords byte dwords).length, t⟩ ∧
        R (s.reg .ecx).toNat s t := by
  obtain ⟨_, hpart, _, _, _⟩ := parts_byDwords byte dwords
  obtain ⟨_, haligned, hbottom, _⟩ := targets_byDwords byte dwords
  rw [← haligned] at hpart hbottom
  obtain ⟨hhead, hrep⟩ := hasLines_append.mp hpart
  obtain ⟨hlabel, hready⟩ := hasLines_cons.mp hhead
  obtain ⟨hidle, hes, hdf, hecx, hedx⟩ := dwords_ready base s
  have hrow := (reaches_label base hlabel s).trans (reaches_ops base hready s)
  obtain ⟨t, hdwords, hmoved, hkept⟩ :=
    reaches_repMoves (hasLines_cons.mp hrep).1 hR.toAddsUp hR.four hes hdf
  obtain ⟨u, hrest, hleft⟩ := reaches_bottom hR t
  rw [hbottom] at hrest
  refine ⟨u, (hrow.trans hdwords).trans hrest, ?_⟩
  rw [hR.size, hecx] at hmoved
  rw [hkept, hedx] at hleft
  rw [← Nat.div_add_mod (s.reg .ecx).toNat 4]
  exact hR.trans (hR.between hidle hmoved (Idle.refl t)) hleft

/-- **The whole code** moves as many bytes as `ecx` says. -/
theorem reaches_byDwords (hR : Moves base byte dwords R) (s : Cpu) :
    ∃ t, EndsIn base (byDwords byte dwords) s t ∧ R (s.reg .ecx).toNat s t := by
  obtain ⟨hpart, _, _, _, _⟩ := parts_byDwords byte dwords
  obtain ⟨htop, _, _, _⟩ := targets_byDwords byte dwords
  suffices hruns : ∃ t, Reaches (step base (byDwords byte dwords)) ⟨0, s⟩
      ⟨(byDwords byte dwords).length, t⟩ ∧ R (s.reg .ecx).toNat s t by
    obtain ⟨t, hrun, hmoved⟩ := hruns
    exact ⟨t, endsIn_of_reaches hrun, hmoved⟩
  rw [alignLoop, List.append_assoc] at hpart
  obtain ⟨hhead, hround⟩ := hasLines_append.mp hpart
  obtain ⟨_, htests⟩ := hasLines_cons.mp hhead
  obtain ⟨_, hjz⟩ := hasLines_cons.mp htests
  obtain ⟨_, htest⟩ := hasLines_cons.mp hjz
  generalize hn : (s.reg .ecx).toNat = n
  induction n generalizing s with
  | zero =>
    have hrun := reaches_loopHead base hhead s
    rw [if_pos hn] at hrun
    exact ⟨_, hrun.trans (reaches_done _), hR.idle (idle_testl base _ _ s)⟩
  | succ n ih =>
    have hrun := reaches_loopHead base hhead s
    rw [if_neg (by omega)] at hrun
    -- neither test moves anything
    let tested := (Op.testl (.imm 3) .edi).exec base ((Op.testl (.reg .ecx) .ecx).exec base s)
    have hidle : Idle s tested := ⟨rfl, rfl, rfl, rfl, rfl⟩
    have hcount : (tested.reg .ecx).toNat = n + 1 := hn
    have hedi : ((Op.testl (.reg .ecx) .ecx).exec base s).reg .edi = s.reg .edi := rfl
    have hrun' := hrun.trans (reaches_testJz base htest _)
    rw [Operand.value, hedi] at hrun'
    by_cases haligned : s.reg .edi &&& 3 = 0
    · have hdwords : Reaches (step base (byDwords byte dwords)) ⟨0, s⟩
          ⟨target (byDwords byte dwords) .aligned, tested⟩ := by
        rwa [if_pos haligned] at hrun'
      obtain ⟨t, hrest, hmoved⟩ := reaches_aligned hR tested
      rw [hcount] at hmoved
      exact ⟨t, hdwords.trans hrest, hR.between hidle hmoved (Idle.refl t)⟩
    · have hbyte : Reaches (step base (byDwords byte dwords)) ⟨0, s⟩ ⟨5, tested⟩ := by
        rwa [if_neg haligned] at hrun'
      obtain ⟨t, hround, hmoved, hleft⟩ := reaches_round hR (Or.inl rfl) hround hcount
      rw [htop] at hround
      obtain ⟨u, hrest, hu⟩ := ih t hleft
      exact ⟨u, (hbyte.trans hround).trans hrest, hR.succ hidle hmoved hu⟩

end Moving

end LinuxLikeOS
