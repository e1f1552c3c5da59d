import Mathlib.Data.BitVec

/-! # Segments, gates, and how an interrupt is entered

The descriptors of a 32-bit x86 in their 64 bits, and what the processor does with an interrupt: it
looks up the gate of the vector and the code segment that the gate names.  A program may use a
gate itself (`int`) only if the gate's level is at least its own.  If the code segment is of
an inner level the processor takes the stack that the TSS has for that level.  An interrupt gate
clears the interrupt flag, a trap gate does not.

Task gates, 16-bit gates, conforming segments, local descriptors and limits are left out.
-/
namespace SystemDescriptors

/-! ## Descriptors -/

/-- A segment descriptor. -/
structure Segment where
  base : BitVec 32
  limit : BitVec 20
  type : BitVec 4
  /-- code or data, not a system segment -/
  ordinary : Bool
  dpl : BitVec 2
  present : Bool
  /-- offsets are of 32 bits -/
  wide : Bool
  /-- the limit counts pages -/
  pages : Bool
  deriving DecidableEq

/-- The descriptor in 64 bits. -/
def Segment.ofBits (b : BitVec 64) : Segment where
  base := b.extractLsb' 56 8 ++ b.extractLsb' 32 8 ++ b.extractLsb' 16 16
  limit := b.extractLsb' 48 4 ++ b.extractLsb' 0 16
  type := b.extractLsb' 40 4
  ordinary := b.extractLsb' 44 1 == 1
  dpl := b.extractLsb' 45 2
  present := b.extractLsb' 47 1 == 1
  wide := b.extractLsb' 54 1 == 1
  pages := b.extractLsb' 55 1 == 1

/-- The fields of a packed word: what is below ends it, -/
theorem extract_low {v w : Nat} (x : BitVec v) (y : BitVec w) : (x ++ y).extractLsb' 0 w = y :=
  (BitVec.extractLsb'_append_eq_of_add_le (Nat.zero_add w).le).trans BitVec.extractLsb'_eq_self

/-- and what is above is found behind it. -/
theorem extract_high {v w : Nat} (x : BitVec v) (y : BitVec w) (start len : Nat) :
    (x ++ y).extractLsb' (start + w) len = x.extractLsb' start len := by
  rw [BitVec.extractLsb'_append_eq_of_le (Nat.le_add_left w start), Nat.add_sub_cancel]

/-- A descriptor of code. -/
def Segment.isCode (s : Segment) : Bool := s.ordinary && s.type.getLsbD 3

/-- A gate of an interrupt. -/
structure Gate where
  offset : BitVec 32
  selector : BitVec 16
  /-- a trap gate, which leaves the interrupt flag as it is -/
  trap : Bool
  dpl : BitVec 2
  present : Bool
  deriving DecidableEq

/-- The gate in 64 bits, if they are a 32-bit interrupt or trap gate. -/
def Gate.ofBits (b : BitVec 64) : Option Gate :=
  if b.extractLsb' 41 4 = 7 then
    some ⟨b.extractLsb' 48 16 ++ b.extractLsb' 0 16, b.extractLsb' 16 16, b.extractLsb' 40 1 == 1,
      b.extractLsb' 45 2, b.extractLsb' 47 1 == 1⟩
  else none

/-! ## Entering -/

/-- What makes the processor enter a gate. -/
inductive Cause
  /-- a device -/
  | device
  /-- a fault of the program -/
  | exception
  /-- the instruction `int` -/
  | software
  deriving DecidableEq

/-- Why a gate is not entered. -/
inductive Refusal
  | generalProtection
  | notPresent
  deriving DecidableEq

/-- Where the processor is after an interrupt. -/
structure Arrival where
  selector : BitVec 16
  address : BitVec 32
  level : BitVec 2
  /-- the stack of the inner level, if the level has changed -/
  stack : Option (BitVec 16 × BitVec 32)
  interruptFlag : Bool
  deriving DecidableEq

/-- The tables that the processor has been told of, and the stacks in the TSS. -/
structure Tables where
  gdt : BitVec 13 → BitVec 64
  idt : BitVec 8 → BitVec 64
  innerStack : BitVec 2 → BitVec 16 × BitVec 32

/-- The processor enters the gate of vector `v`, out of a program at this level. -/
def Tables.enter (t : Tables) (cause : Cause) (level : BitVec 2) (interruptFlag : Bool)
    (v : BitVec 8) : Except Refusal Arrival :=
  match Gate.ofBits (t.idt v) with
  | none => .error .generalProtection
  | some g =>
    let code := Segment.ofBits (t.gdt (g.selector.extractLsb' 3 13))
    if cause = .software ∧ g.dpl < level then .error .generalProtection
    else if g.present = false then .error .notPresent
    else if g.selector.extractLsb' 2 14 = 0 ∨ code.isCode = false ∨ level < code.dpl then
      .error .generalProtection
    else if code.present = false then .error .notPresent
    else
      .ok ⟨g.selector, code.base + g.offset, code.dpl,
        if code.dpl < level then some (t.innerStack code.dpl) else none, interruptFlag && g.trap⟩

end SystemDescriptors
