import LinuxLikeOS.InterruptController
import LinuxLikeOS.KernelState
import LinuxLikeOS.Transition

/-! # The interrupt controllers of the kernel

`i8259.c` programs two controllers, the second on line 2 of the first.  It keeps the masks in
variables, and ends an interrupt by its number, on both controllers if it has come through the
second.

From the first `enable_irq` for the second controller on, the masks are what the variables say,
and the controllers behave as one desk with the interrupts 0 to 15 (`pics_desk`).  Before it,
the second controller's mask is 0: `i8259_init` masks it first, but the first initialisation
word clears the mask (`i8259Init_slave`).  That call is the last one of `inti_RTC`, which has set
the interrupt flag just before it; the runs here begin behind it.
-/
namespace LinuxLikeOS
open Transition InterruptController

/-! ## The source -/

/-- The masks that the kernel keeps, and the controllers. -/
structure Pics where
  masterMask : Byte
  slaveMask : Byte
  pair : Pair

/-- `outb` at the ports of the controllers. -/
def outb (b : Byte) (port : BitVec 16) (p : Pair) : Pair :=
  if port = 0x20 then { p with master := p.master.writeCommand b }
  else if port = 0x21 then { p with master := p.master.writeData b }
  else if port = 0xA0 then { p with slave := p.slave.writeCommand b }
  else if port = 0xA1 then { p with slave := p.slave.writeData b }
  else p

/-- `enable_irq`. -/
def enableIrq (s : Pics) (irqNum : Word) : Pics :=
  if 7 < irqNum then
    let subPointer : Byte := 1 <<< (irqNum - 8).toNat
    let mask := s.slaveMask &&& ~~~subPointer
    { s with slaveMask := mask, pair := outb mask 0xA1 s.pair }
  else
    let subPointer : Byte := 1 <<< irqNum.toNat
    let mask := s.masterMask &&& ~~~subPointer
    { s with masterMask := mask, pair := outb mask 0x21 s.pair }

/-- `disable_irq`. -/
def disableIrq (s : Pics) (irqNum : Word) : Pics :=
  if 7 < irqNum then
    let subPointer : Byte := 1 <<< (irqNum - 8).toNat
    let mask := s.slaveMask ||| subPointer
    { s with slaveMask := mask, pair := outb mask 0xA1 s.pair }
  else
    let subPointer : Byte := 1 <<< irqNum.toNat
    let mask := s.masterMask ||| subPointer
    { s with masterMask := mask, pair := outb mask 0x21 s.pair }

/-- `send_eoi`. -/
def sendEoi (s : Pics) (irqNum : Word) : Pics :=
  if 7 < irqNum then
    let mask := irqNum - 8
    { s with pair := outb (0x60 ||| 0x02) 0x20 (outb (0x60 ||| mask.setWidth 8) 0xA0 s.pair) }
  else { s with pair := outb (0x60 ||| irqNum.setWidth 8) 0x20 s.pair }

/-- `i8259_init`. -/
def i8259Init (s : Pics) : Pics :=
  let masked := outb 0xFF 0xA1 (outb 0xFF 0x21 s.pair)
  let master := outb 0x01 0x21 (outb 0x04 0x21 (outb 0x20 0x21 (outb 0x11 0x20 masked)))
  let slave := outb 0x01 0xA1 (outb 0x02 0xA1 (outb 0x28 0xA1 (outb 0x11 0xA0 master)))
  enableIrq { s with pair := slave } 2

/-- The controllers behind the `enable_irq(8)` of `inti_RTC`, whatever was in them before
`i8259_init`. -/
def bootedPics (pair : Pair) : Pics := enableIrq (i8259Init ⟨0xFF, 0xFF, pair⟩) 8

/-! ## Runs -/

/-- The line of an interrupt. -/
def lineOf (irq : Fin 16) : Line :=
  if irq < 8 then .master (Fin.ofNat 8 irq) else .slave (Fin.ofNat 8 (irq - 8))

/-- The vector of a line: interrupts begin at 32. -/
def lineVector : Line → Byte
  | .master i => 0x20 + BitVec.ofNat 8 i
  | .slave j => 0x28 + BitVec.ofNat 8 j

/-- What happens to the controllers. -/
inductive PicEvent
  | request (l : Line)
  /-- the processor takes an interrupt, if there is one -/
  | acknowledge
  | eoi (irq : Fin 16)
  | enable (irq : Fin 16)
  | disable (irq : Fin 16)

/-- The controllers, and the vectors that the processor has been given, the last one first. -/
def picMachine : Machine (Pics × List Byte) PicEvent where
  step c
    | .request l => ({ c.1 with pair := c.1.pair.request l }, c.2)
    | .acknowledge =>
      match c.1.pair.acknowledge 2 with
      | none => c
      | some (v, pair) => ({ c.1 with pair := pair }, v :: c.2)
    | .eoi irq => (sendEoi c.1 (BitVec.ofNat 32 irq), c.2)
    | .enable irq => (enableIrq c.1 (BitVec.ofNat 32 irq), c.2)
    | .disable irq => (disableIrq c.1 (BitVec.ofNat 32 irq), c.2)

/-- The desk. -/
def irqDesk : Machine (Desk × List Byte) PicEvent where
  step c
    | .request l => (c.1.request l, c.2)
    | .acknowledge =>
      match c.1.next 2 with
      | none => c
      | some l => (c.1.serve l, lineVector l :: c.2)
    | .eoi irq => (c.1.finish (lineOf irq), c.2)
    | .enable irq => (c.1.enable (lineOf irq) true, c.2)
    | .disable irq => (c.1.enable (lineOf irq) false, c.2)

/-- What there is of the desk. -/
def atDesk (c : Pics × List Byte) : Desk × List Byte := (c.1.pair.desk 2, c.2)

/-- No device is on line 2, and a handler ends the interrupt it serves. -/
def Orderly (c : Pics × List Byte) : PicEvent → Prop
  | .request l => l ≠ .master 2
  | .eoi irq => (c.1.pair.desk 2).serving (lineOf irq) = true
  | _ => True

instance (c : Pics × List Byte) : (e : PicEvent) → Decidable (Orderly c e)
  | .request l => inferInstanceAs (Decidable (l ≠ .master 2))
  | .eoi irq => inferInstanceAs (Decidable ((c.1.pair.desk 2).serving (lineOf irq) = true))
  | .acknowledge | .enable _ | .disable _ => isTrue trivial

/-- The desk at that point: the clock is enabled, and the line of the second controller. -/
def startedDesk : Desk where
  requested := fun _ => false
  enabled l := decide (l = .master 2 ∨ l = .slave 0)
  serving := fun _ => false

/-! ## What the functions do -/

/-- The controllers are programmed as `i8259_init` does it, and masked as the variables say. -/
structure Programmed (s : Pics) : Prop where
  setup : s.pair.setup = ((s.masterMask, 0x20, 0x04, []), (s.slaveMask, 0x28, 0x02, []))
  coherent : s.pair.Coherent 2

section Functions
variable {s : Pics}

/-- **After `i8259_init`** the second controller is not masked, though `slave_mask` says so. -/
theorem i8259Init_slave (s : Pics) :
    (i8259Init s).pair.slave.imr = 0 ∧ (i8259Init s).slaveMask = s.slaveMask := ⟨rfl, rfl⟩

theorem programmed_booted (pair : Pair) : Programmed (bootedPics pair) where
  setup := rfl
  coherent := ⟨iff_of_false Bool.false_ne_true fun ⟨_, hj⟩ => Bool.false_ne_true hj,
    fun _ _ hj => absurd hj Bool.false_ne_true⟩

theorem desk_booted (pair : Pair) : (bootedPics pair).pair.desk 2 = startedDesk := by
  have hmaster : (bootedPics pair).pair.master.imr = 0xFB := by
    show (0xFF &&& ~~~(1 <<< (2 : Word).toNat : Byte) : Byte) = 0xFB
    decide
  have hslave : (bootedPics pair).pair.slave.imr = 0xFE := by
    show (0xFF &&& ~~~(1 <<< (8 - 8 : Word).toNat : Byte) : Byte) = 0xFE
    decide
  refine Desk.ext ?_ ?_ ?_
  · funext l
    cases l with
    | master i => exact Bool.and_false _
    | slave j => rfl
  · funext l
    cases l with
    | master i =>
      show (!(bootedPics pair).pair.master.imr.getLsbD i) = _
      rw [hmaster]
      revert i
      decide
    | slave j =>
      show (!(bootedPics pair).pair.slave.imr.getLsbD j) = _
      rw [hslave]
      revert j
      decide
  · funext l
    cases l with
    | master i => exact Bool.and_false _
    | slave j => rfl

/-- `EOI` with a number is the end of that interrupt. -/
theorem writeCommand_eoi (c : Chip) (i : Fin 8) :
    c.writeCommand (0x60 ||| BitVec.ofNat 8 i) = c.finish i := by
  have hbits : ∀ i : Fin 8, (0x60 ||| BitVec.ofNat 8 i : Byte).getLsbD 4 = false ∧
      (0x60 ||| BitVec.ofNat 8 i : Byte).getLsbD 3 = false ∧
      (0x60 ||| BitVec.ofNat 8 i : Byte).extractLsb' 5 3 = 3 ∧
      Fin.ofNat 8 (0x60 ||| BitVec.ofNat 8 i : Byte).toNat = i := by decide
  obtain ⟨hicw, hocw, heoi, hline⟩ := hbits i
  rw [Chip.writeCommand, hicw, hocw, heoi, hline]
  rfl

/-- A byte at the odd port of a controller that waits for no word is its mask. -/
theorem writeData_mask {c : Chip} (h : c.awaits = []) (b : Byte) :
    c.writeData b = { c with imr := b } := by
  rw [Chip.writeData, h]

/-- Numbers and lines. -/
theorem irq_cases (irq : Fin 16) :
    (∃ i : Fin 8, lineOf irq = .master i ∧ ¬(7 : Word) < BitVec.ofNat 32 irq ∧
      (BitVec.ofNat 32 irq : Word).toNat = i ∧ (BitVec.ofNat 32 irq : Word).setWidth 8 =
        BitVec.ofNat 8 i) ∨
    ∃ j : Fin 8, lineOf irq = .slave j ∧ (7 : Word) < BitVec.ofNat 32 irq ∧
      (BitVec.ofNat 32 irq - 8 : Word).toNat = j ∧
      (BitVec.ofNat 32 irq - 8 : Word).setWidth 8 = BitVec.ofNat 8 j := by
  revert irq
  decide

/-- **`send_eoi`** ends the interrupt with this number, on both controllers if need be. -/
theorem sendEoi_eq (s : Pics) (irq : Fin 16) :
    sendEoi s (BitVec.ofNat 32 irq) = { s with pair := s.pair.finish 2 (lineOf irq) } := by
  unfold sendEoi
  rcases irq_cases irq with ⟨i, hline, hirq, -, hbyte⟩ | ⟨j, hline, hirq, -, hbyte⟩
  · rw [if_neg hirq, hbyte, hline]
    show ({ s with pair := { s.pair with master := s.pair.master.writeCommand _ } } : Pics) = _
    rw [writeCommand_eoi]
    rfl
  · rw [if_pos hirq, hline]
    dsimp only
    rw [hbyte]
    show ({ s with pair := ⟨s.pair.master.writeCommand (0x60 ||| BitVec.ofNat 8 (2 : Fin 8)),
      s.pair.slave.writeCommand (0x60 ||| BitVec.ofNat 8 j)⟩ } : Pics) = _
    rw [writeCommand_eoi, writeCommand_eoi]
    rfl

/-- One bit of a mask. -/
theorem getLsbD_bit (i k : Fin 8) : (1 <<< (i : Nat) : Byte).getLsbD k = decide (k = i) := by
  revert i k
  decide

theorem getLsbD_clear (m : Byte) (i k : Fin 8) :
    (m &&& ~~~(1 <<< (i : Nat) : Byte)).getLsbD k = if k = i then false else m.getLsbD k := by
  rw [BitVec.getLsbD_and, BitVec.getLsbD_not, getLsbD_bit, decide_eq_true k.isLt, Bool.true_and]
  by_cases h : k = i
  · rw [if_pos h, decide_eq_true h]
    exact Bool.and_false _
  · rw [if_neg h, decide_eq_false h]
    exact Bool.and_true _

theorem getLsbD_set (m : Byte) (i k : Fin 8) :
    (m ||| (1 <<< (i : Nat) : Byte)).getLsbD k = if k = i then true else m.getLsbD k := by
  rw [BitVec.getLsbD_or, getLsbD_bit]
  by_cases h : k = i
  · rw [if_pos h, decide_eq_true h, Bool.or_true]
  · rw [if_neg h, decide_eq_false h, Bool.or_false]

namespace Programmed
variable (h : Programmed s)
include h

theorem connected : s.pair.Connected 2 := by
  have hmaster : s.pair.master.cascade = 0x04 := congrArg (fun q => q.1.2.2.1) h.setup
  have hslave : s.pair.slave.cascade = 0x02 := congrArg (fun q => q.2.2.2.1) h.setup
  refine ⟨?_, by rw [hslave]; rfl⟩
  rw [hmaster]
  decide

/-- Interrupt `n` has vector `32 + n`. -/
theorem vectorOf_eq (l : Line) : s.pair.vectorOf l = lineVector l := by
  have hmaster : s.pair.master.vector = 0x20 := congrArg (fun q => q.1.2.1) h.setup
  have hslave : s.pair.slave.vector = 0x28 := congrArg (fun q => q.2.2.1) h.setup
  cases l with
  | master i =>
    show s.pair.master.vector.extractLsb' 3 5 ++ BitVec.ofNat 3 i = _
    rw [hmaster]
    revert i
    decide
  | slave j =>
    show s.pair.slave.vector.extractLsb' 3 5 ++ BitVec.ofNat 3 j = _
    rw [hslave]
    revert j
    decide

/-- A mask is written, and kept. -/
theorem write_master (m : Byte) :
    Programmed { s with masterMask := m, pair := outb m 0x21 s.pair } ∧
      outb m 0x21 s.pair = { s.pair with master := { s.pair.master with imr := m } } := by
  have hready : s.pair.master.awaits = [] := congrArg (fun q => q.1.2.2.2) h.setup
  have hwrite : outb m 0x21 s.pair = { s.pair with master := { s.pair.master with imr := m } } := by
    show ({ s.pair with master := s.pair.master.writeData m } : Pair) = _
    rw [writeData_mask hready]
  refine ⟨⟨?_, ?_⟩, hwrite⟩
  · have hsetup := Prod.mk.inj h.setup
    have hregisters := Prod.mk.inj hsetup.1
    rw [hwrite]
    exact Prod.ext (Prod.ext rfl hregisters.2) hsetup.2
  · rw [hwrite]
    exact ⟨h.coherent.through, h.coherent.one⟩

theorem write_slave (m : Byte) :
    Programmed { s with slaveMask := m, pair := outb m 0xA1 s.pair } ∧
      outb m 0xA1 s.pair = { s.pair with slave := { s.pair.slave with imr := m } } := by
  have hready : s.pair.slave.awaits = [] := congrArg (fun q => q.2.2.2.2) h.setup
  have hwrite : outb m 0xA1 s.pair = { s.pair with slave := { s.pair.slave with imr := m } } := by
    show ({ s.pair with slave := s.pair.slave.writeData m } : Pair) = _
    rw [writeData_mask hready]
  refine ⟨⟨?_, ?_⟩, hwrite⟩
  · have hsetup := Prod.mk.inj h.setup
    have hregisters := Prod.mk.inj hsetup.2
    rw [hwrite]
    exact Prod.ext hsetup.1 (Prod.ext rfl hregisters.2)
  · rw [hwrite]
    exact ⟨h.coherent.through, h.coherent.one⟩

/-- **`enable_irq`** enables this interrupt, and no other. -/
theorem enable (irq : Fin 16) :
    Programmed (enableIrq s (BitVec.ofNat 32 irq)) ∧
      (enableIrq s (BitVec.ofNat 32 irq)).pair.desk 2 =
        (s.pair.desk 2).enable (lineOf irq) true := by
  have hmaster : s.pair.master.imr = s.masterMask := congrArg (fun q => q.1.1) h.setup
  have hslave : s.pair.slave.imr = s.slaveMask := congrArg (fun q => q.2.1) h.setup
  unfold enableIrq
  rcases irq_cases irq with ⟨i, hline, hirq, hnumber, -⟩ | ⟨j, hline, hirq, hnumber, -⟩
  · rw [if_neg hirq, hline, hnumber]
    obtain ⟨hprogrammed, hwrite⟩ := h.write_master (s.masterMask &&& ~~~(1 <<< (i : Nat) : Byte))
    refine ⟨hprogrammed, ?_⟩
    dsimp only
    rw [hwrite]
    refine desk_mask_master fun k => ?_
    rw [getLsbD_clear, hmaster]
    rfl
  · rw [if_pos hirq, hline, hnumber]
    obtain ⟨hprogrammed, hwrite⟩ := h.write_slave (s.slaveMask &&& ~~~(1 <<< (j : Nat) : Byte))
    refine ⟨hprogrammed, ?_⟩
    dsimp only
    rw [hwrite]
    refine desk_mask_slave fun k => ?_
    rw [getLsbD_clear, hslave]
    rfl

/-- **`disable_irq`** disables it. -/
theorem disable (irq : Fin 16) :
    Programmed (disableIrq s (BitVec.ofNat 32 irq)) ∧
      (disableIrq s (BitVec.ofNat 32 irq)).pair.desk 2 =
        (s.pair.desk 2).enable (lineOf irq) false := by
  have hmaster : s.pair.master.imr = s.masterMask := congrArg (fun q => q.1.1) h.setup
  have hslave : s.pair.slave.imr = s.slaveMask := congrArg (fun q => q.2.1) h.setup
  unfold disableIrq
  rcases irq_cases irq with ⟨i, hline, hirq, hnumber, -⟩ | ⟨j, hline, hirq, hnumber, -⟩
  · rw [if_neg hirq, hline, hnumber]
    obtain ⟨hprogrammed, hwrite⟩ := h.write_master (s.masterMask ||| (1 <<< (i : Nat) : Byte))
    refine ⟨hprogrammed, ?_⟩
    dsimp only
    rw [hwrite]
    refine desk_mask_master fun k => ?_
    rw [getLsbD_set, hmaster]
    rfl
  · rw [if_pos hirq, hline, hnumber]
    obtain ⟨hprogrammed, hwrite⟩ := h.write_slave (s.slaveMask ||| (1 <<< (j : Nat) : Byte))
    refine ⟨hprogrammed, ?_⟩
    dsimp only
    rw [hwrite]
    refine desk_mask_slave fun k => ?_
    rw [getLsbD_set, hslave]
    rfl

end Programmed

end Functions

/-! ## Over whole runs -/

section Runs
variable {c : Pics × List Byte} {e : PicEvent}

/-- The line between the controllers is not in service at the desk. -/
theorem serving_ne_wire {p : Pair} {l : Line} (h : (p.desk 2).serving l = true) :
    l ≠ .master 2 := by
  rintro rfl
  cases h

/-- An interrupt is taken at the desk. -/
theorem Programmed.acknowledge {s : Pics} (h : Programmed s) :
    s.pair.acknowledge 2 =
      ((s.pair.desk 2).next 2).map fun l => (lineVector l, s.pair.serve 2 l) := by
  rw [acknowledge_desk h.connected h.coherent]
  simp only [h.vectorOf_eq]

theorem programmed_step (h : Programmed c.1) (he : Orderly c e) :
    Programmed (picMachine.step c e).1 := by
  cases e with
  | request l => exact ⟨(setup_request c.1.pair l).trans h.setup, h.coherent.request l⟩
  | acknowledge =>
    have hack := h.acknowledge
    dsimp only [picMachine]
    cases hnext : (c.1.pair.desk 2).next 2 with
    | none =>
      rw [hnext] at hack
      rw [hack]
      exact h
    | some l =>
      obtain ⟨hl, hready⟩ := Desk.next_eq_some hnext
      rw [hnext] at hack
      rw [hack]
      exact ⟨(setup_serve 2 c.1.pair l).trans h.setup, h.coherent.serve hl hready⟩
  | eoi irq =>
    show Programmed (sendEoi c.1 (BitVec.ofNat 32 irq))
    rw [sendEoi_eq]
    exact ⟨(setup_finish 2 c.1.pair _).trans h.setup, h.coherent.finish (serving_ne_wire he) he⟩
  | enable irq => exact (h.enable irq).1
  | disable irq => exact (h.disable irq).1

/-- **One step** of the controllers is one of the desk. -/
theorem atDesk_step (h : Programmed c.1) (he : Orderly c e) :
    atDesk (picMachine.step c e) = irqDesk.step (atDesk c) e := by
  cases e with
  | request l => exact Prod.ext (desk_request he) rfl
  | acknowledge =>
    have hack := h.acknowledge
    dsimp only [picMachine, irqDesk, atDesk]
    cases hnext : (c.1.pair.desk 2).next 2 with
    | none =>
      rw [hnext] at hack
      rw [hack]
      rfl
    | some l =>
      rw [hnext] at hack
      rw [hack]
      exact Prod.ext (desk_serve (Desk.next_eq_some hnext).1) rfl
  | eoi irq =>
    refine Prod.ext ?_ rfl
    show (sendEoi c.1 (BitVec.ofNat 32 irq)).pair.desk 2 = _
    rw [sendEoi_eq]
    exact desk_finish (serving_ne_wire he)
  | enable irq => exact Prod.ext (h.enable irq).2 rfl
  | disable irq => exact Prod.ext (h.disable irq).2 rfl

theorem run_atDesk (pair : Pair) (es : List PicEvent)
    (hes : picMachine.Guarded Orderly (bootedPics pair, []) es) :
    atDesk (picMachine.run (bootedPics pair, []) es) = irqDesk.run (startedDesk, []) es := by
  have hdesk : atDesk (picMachine.run (bootedPics pair, []) es) =
      irqDesk.run (atDesk (bootedPics pair, [])) es :=
    Machine.run_commutes (fun _ _ => programmed_step) (fun _ _ => atDesk_step)
      (programmed_booted pair) hes
  rw [hdesk, atDesk, desk_booted]

/-- **The controllers are one desk.**  Behind the `enable_irq(8)` of `inti_RTC`, whatever is
requested, acknowledged, enabled and disabled in whatever order, if handlers end the interrupts
they serve: the two controllers take the interrupts that the desk takes, in its order, with the
vectors 32 to 47, and their masks are those that the kernel has noted. -/
theorem pics_desk (pair : Pair) (es : List PicEvent)
    (hes : picMachine.Guarded Orderly (bootedPics pair, []) es) :
    atDesk (picMachine.run (bootedPics pair, []) es) = irqDesk.run (startedDesk, []) es ∧
      (picMachine.run (bootedPics pair, []) es).1.pair.master.imr =
        (picMachine.run (bootedPics pair, []) es).1.masterMask ∧
      (picMachine.run (bootedPics pair, []) es).1.pair.slave.imr =
        (picMachine.run (bootedPics pair, []) es).1.slaveMask := by
  have hstep : ∀ (c : Pics × List Byte) e, Programmed c.1 → Orderly c e →
      Programmed (picMachine.step c e).1 := fun _ _ => programmed_step
  have hlast := (Machine.always_of_step (s := (bootedPics pair, [])) hstep
    (programmed_booted pair) hes).last
  exact ⟨run_atDesk pair es hes, congrArg (fun q => q.1.1) hlast.setup,
    congrArg (fun q => q.2.1) hlast.setup⟩

/-- The keyboard and the timer are enabled; the clock, the keyboard and the timer ask; the timer
interrupts the handler of the keyboard. -/
def busyPics : List PicEvent :=
  [.enable 1, .enable 0, .request (.slave 0), .request (.master 1), .acknowledge,
    .request (.master 0), .acknowledge, .eoi 0, .acknowledge, .eoi 1, .acknowledge, .eoi 8]

/-- Controllers as they may be when the machine is switched on. -/
def idlePics : Pair :=
  ⟨⟨fun _ => true, fun _ => true, 0, 0, 0, [.icw3]⟩, ⟨fun _ => true, fun _ => true, 0, 0, 0, []⟩⟩

theorem pics_desk_busyPics :
    atDesk (picMachine.run (bootedPics idlePics, []) busyPics) =
        irqDesk.run (startedDesk, []) busyPics ∧
      (picMachine.run (bootedPics idlePics, []) busyPics).1.pair.master.imr =
        (picMachine.run (bootedPics idlePics, []) busyPics).1.masterMask ∧
      (picMachine.run (bootedPics idlePics, []) busyPics).1.pair.slave.imr =
        (picMachine.run (bootedPics idlePics, []) busyPics).1.slaveMask :=
  pics_desk idlePics busyPics (by decide +kernel)

/-- The timer was taken before the keyboard's handler ended, the clock after. -/
example : (irqDesk.run (startedDesk, []) busyPics).2 = [0x28, 0x20, 0x21] := by decide +kernel

end Runs

end LinuxLikeOS
