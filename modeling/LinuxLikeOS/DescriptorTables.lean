import LinuxLikeOS.SystemDescriptors
import LinuxLikeOS.Interrupts
import LinuxLikeOS.KernelRun

/-! # The interrupt descriptor table

`Initilize_IDT_Table` makes 256 gates of the kernel's code segment, all of them present, and
writes the addresses of 24 handlers into them.  A program may enter one, that of vector 128;
devices and faults enter the others.
-/
namespace LinuxLikeOS
open Transition SystemDescriptors InterruptController

/-! ## The source -/

/-- `idt_desc_t`. -/
structure IdtDesc where
  offset1500 : BitVec 16
  segSelector : BitVec 16
  reserved4 : BitVec 8
  reserved3 : BitVec 1
  reserved2 : BitVec 1
  reserved1 : BitVec 1
  size : BitVec 1
  reserved0 : BitVec 1
  dpl : BitVec 2
  present : BitVec 1
  offset3116 : BitVec 16
  deriving DecidableEq

/-- The union's `val`, as one word of 64 bits. -/
def IdtDesc.val (d : IdtDesc) : BitVec 64 :=
  d.offset3116 ++ d.present ++ d.dpl ++ (d.reserved0 ++ d.size ++ d.reserved1 ++ d.reserved2) ++
    d.reserved3 ++ d.reserved4 ++ d.segSelector ++ d.offset1500

/-- What `x86_desc.S` has in the table. -/
def IdtDesc.zero : IdtDesc := ⟨0, 0, 0, 0, 0, 0, 0, 0, 0, 0, 0⟩

/-- The handlers whose addresses are in the table. -/
inductive Handler
  | divideError | reserved | nmiInterrupt | breakpoint | overflow | boundRangeExceeded
  | invalidOpcode | deviceNotAvailable | doubleFault | coprocessorSegmentOverrun | invalidTss
  | segmentNotPresent | stackSegmentFault | generalProtection | pageFault | intelReserved
  | mathFault | alignmentCheck | machineCheck | simdFloatingPoint
  | pitLinkage | keyboardLinkage | rtcLinkage | systemCallHandler
  deriving DecidableEq

/-- `KERNEL_CS`. -/
def kernelCs : BitVec 16 := 0x10

/-- The loop of `Initilize_IDT_Table`, at entry `i`. -/
def initilizeEntry (d : IdtDesc) (i : Byte) : IdtDesc :=
  let d := { d with
    segSelector := kernelCs
    reserved4 := 0
    reserved3 := 1
    reserved2 := 1
    reserved1 := 1
    size := 1
    reserved0 := 0
    dpl := 0
    present := 1 }
  let d := if i = 2 ∨ 32 ≤ i then { d with reserved3 := 0 } else d
  if i = 128 then { d with reserved3 := 1, dpl := 3 } else d

/-- `SET_IDT_ENTRY`. -/
def setIdtEntry (d : IdtDesc) (handler : Word) : IdtDesc :=
  { d with
    offset3116 := ((handler &&& 0xFFFF0000) >>> 16).setWidth 16
    offset1500 := (handler &&& 0xFFFF).setWidth 16 }

/-- The calls of `SET_IDT_ENTRY`. -/
def idtEntries : List (Byte × Handler) :=
  [(0, .divideError), (1, .reserved), (2, .nmiInterrupt), (3, .breakpoint), (4, .overflow),
    (5, .boundRangeExceeded), (6, .invalidOpcode), (7, .deviceNotAvailable), (8, .doubleFault),
    (9, .coprocessorSegmentOverrun), (10, .invalidTss), (11, .segmentNotPresent),
    (12, .stackSegmentFault), (13, .generalProtection), (14, .pageFault), (15, .intelReserved),
    (16, .mathFault), (17, .alignmentCheck), (18, .machineCheck), (19, .simdFloatingPoint),
    (32, .pitLinkage), (33, .keyboardLinkage), (40, .rtcLinkage), (128, .systemCallHandler)]

/-- `Initilize_IDT_Table`, with the handlers at these addresses. -/
def initilizeIdtTable (address : Handler → Word) : Byte → IdtDesc :=
  idtEntries.foldl (fun idt e => Function.update idt e.1 (setIdtEntry (idt e.1) (address e.2)))
    (initilizeEntry .zero)

/-- The table at `gdt`, with the descriptors that `entry` puts there. -/
def gdt (tss ldt : BitVec 64) (i : BitVec 13) : BitVec 64 :=
  match i.toNat with
  | 2 => 0x00CF9A000000FFFF
  | 3 => 0x00CF92000000FFFF
  | 4 => 0x00CFFA000000FFFF
  | 5 => 0x00CFF2000000FFFF
  | 6 => tss
  | 7 => ldt
  | _ => 0

/-! ## Fields -/

section Fields
variable (d : IdtDesc)

theorem val_offset1500 : d.val.extractLsb' 0 16 = d.offset1500 := extract_low _ _

theorem val_segSelector : d.val.extractLsb' 16 16 = d.segSelector :=
  (extract_high _ _ 0 16).trans (extract_low _ _)

/-- Behind `seg_selector` and `offset_15_00`. -/
theorem val_above (start len : Nat) : d.val.extractLsb' (start + 8 + 16 + 16) len =
    (d.offset3116 ++ d.present ++ d.dpl ++ (d.reserved0 ++ d.size ++ d.reserved1 ++ d.reserved2) ++
      d.reserved3).extractLsb' start len :=
  (extract_high _ _ _ len).trans ((extract_high _ _ _ len).trans (extract_high _ _ start len))

theorem val_reserved3 : d.val.extractLsb' 40 1 = d.reserved3 :=
  (val_above d 0 1).trans (extract_low _ _)

theorem val_type :
    d.val.extractLsb' 41 4 = (d.reserved0 ++ d.size ++ d.reserved1 ++ d.reserved2 : BitVec 4) :=
  (val_above d 1 4).trans ((extract_high _ _ 0 4).trans (extract_low _ _))

theorem val_dpl : d.val.extractLsb' 45 2 = d.dpl :=
  (val_above d 5 2).trans ((extract_high _ _ 4 2).trans ((extract_high _ _ 0 2).trans
    (extract_low _ _)))

theorem val_present : d.val.extractLsb' 47 1 = d.present :=
  (val_above d 7 1).trans ((extract_high _ _ 6 1).trans ((extract_high _ _ 2 1).trans
    ((extract_high _ _ 0 1).trans (extract_low _ _))))

theorem val_offset3116 : d.val.extractLsb' 48 16 = d.offset3116 :=
  (val_above d 8 16).trans ((extract_high _ _ 7 16).trans ((extract_high _ _ 3 16).trans
    ((extract_high _ _ 1 16).trans ((extract_high _ _ 0 16).trans BitVec.extractLsb'_eq_self))))

/-- **A gate in its bits.** -/
theorem ofBits_val :
    Gate.ofBits d.val =
      if (d.reserved0 ++ d.size ++ d.reserved1 ++ d.reserved2 : BitVec 4) = 7 then
        some ⟨d.offset3116 ++ d.offset1500, d.segSelector, d.reserved3 == 1, d.dpl, d.present == 1⟩
      else none := by
  rw [Gate.ofBits, val_offset1500, val_segSelector, val_type, val_reserved3, val_dpl, val_present,
    val_offset3116]

/-- The two halves of an address. -/
theorem setIdtEntry_offset (handler : Word) :
    (setIdtEntry d handler).offset3116 ++ (setIdtEntry d handler).offset1500 = handler := by
  have hhigh : (setIdtEntry d handler).offset3116 = (handler >>> 16).setWidth 16 := by
    show ((handler &&& 0xFFFF0000) >>> 16).setWidth 16 = _
    rw [BitVec.ushiftRight_and_distrib, BitVec.setWidth_and]
    exact BitVec.and_allOnes
  have hlow : (setIdtEntry d handler).offset1500 = handler.setWidth 16 := by
    show (handler &&& 0xFFFF).setWidth 16 = _
    rw [BitVec.setWidth_and]
    exact BitVec.and_allOnes
  rw [hhigh, hlow]
  apply BitVec.eq_of_getLsbD_eq
  intro i hi
  rw [BitVec.getLsbD_append]
  by_cases hlt : i < 16
  · simp [hlt]
  · have hback : 16 + (i - 16) = i := by omega
    have hin : i - 16 < 16 := by omega
    simp [hlt, hback, hin]

end Fields

/-! ## The table -/

/-- The handler whose address is in entry `v`. -/
def handlerAt (v : Byte) : Option Handler := idtEntries.lookup v

/-- Distinct entries are set. -/
theorem foldl_set (address : Handler → Word) {entries : List (Byte × Handler)}
    (hnodup : (entries.map Prod.fst).Nodup) (idt : Byte → IdtDesc) (v : Byte) :
    entries.foldl
        (fun idt e => Function.update idt e.1 (setIdtEntry (idt e.1) (address e.2))) idt v =
      match entries.lookup v with
      | some h => setIdtEntry (idt v) (address h)
      | none => idt v := by
  induction entries generalizing idt with
  | nil => rfl
  | cons e entries ih =>
    obtain ⟨hnew, hrest⟩ := List.nodup_cons.mp hnodup
    rw [List.foldl_cons, ih hrest, List.lookup_cons]
    by_cases hv : v = e.1
    · have hnone : entries.lookup v = none := by
        rw [List.lookup_eq_none_iff]
        intro e' he'
        rw [bne_iff_ne]
        intro heq
        exact hnew (List.mem_map.mpr ⟨e', he', by rw [← heq, hv]⟩)
      rw [hnone, hv, beq_self_eq_true]
      simp
    · rw [Function.update_of_ne hv, beq_eq_false_iff_ne.mpr hv]

/-- Entry `v`. -/
theorem initilizeIdtTable_apply (address : Handler → Word) (v : Byte) :
    initilizeIdtTable address v =
      match handlerAt v with
      | some h => setIdtEntry (initilizeEntry .zero v) (address h)
      | none => initilizeEntry .zero v :=
  foldl_set address (by decide) _ v

/-- The gate of vector `v`, with the address of its handler, or 0. -/
def gateOf (address : Handler → Word) (v : Byte) : Gate where
  offset := ((handlerAt v).map address).getD 0
  selector := kernelCs
  trap := decide (v = 128 ∨ v < 32 ∧ v ≠ 2)
  dpl := if v = 128 then 3 else 0
  present := true

/-- Entry `v` with this offset. -/
def entryFor (v : Byte) (low high : BitVec 16) : IdtDesc where
  offset1500 := low
  segSelector := kernelCs
  reserved4 := 0
  reserved3 := if v = 128 ∨ v < 32 ∧ v ≠ 2 then 1 else 0
  reserved2 := 1
  reserved1 := 1
  size := 1
  reserved0 := 0
  dpl := if v = 128 then 3 else 0
  present := 1
  offset3116 := high

/-- The loop sets all fields but the offset. -/
theorem initilizeEntry_eq (d : IdtDesc) (v : Byte) :
    initilizeEntry d v = entryFor v d.offset1500 d.offset3116 := by
  by_cases hcall : v = 128
  · subst hcall
    rfl
  unfold initilizeEntry
  dsimp only
  by_cases hdevice : v = 2 ∨ 32 ≤ v
  · have htrap : ¬(v = 128 ∨ v < 32 ∧ v ≠ 2) := by
      rintro (h | ⟨hlow, hnmi⟩)
      · exact hcall h
      · exact hdevice.elim hnmi (BitVec.not_le.mpr hlow)
    rw [if_neg hcall, if_pos hdevice, entryFor, if_neg htrap, if_neg hcall]
  · obtain ⟨hnmi, hlow⟩ := not_or.mp hdevice
    have htrap : v = 128 ∨ v < 32 ∧ v ≠ 2 := Or.inr ⟨BitVec.not_le.mp hlow, hnmi⟩
    rw [if_neg hcall, if_neg hdevice, entryFor, if_pos htrap, if_neg hcall]

theorem ofBits_entryFor (v : Byte) (low high : BitVec 16) :
    Gate.ofBits (entryFor v low high).val =
      some ⟨high ++ low, kernelCs, decide (v = 128 ∨ v < 32 ∧ v ≠ 2),
        if v = 128 then 3 else 0, true⟩ := by
  have htype : ((entryFor v low high).reserved0 ++ (entryFor v low high).size ++
      (entryFor v low high).reserved1 ++ (entryFor v low high).reserved2 : BitVec 4) = 7 := by
    show (0 ++ 1 ++ 1 ++ 1 : BitVec 4) = 7
    decide
  have htrap : ((entryFor v low high).reserved3 == 1) = decide (v = 128 ∨ v < 32 ∧ v ≠ 2) := by
    show ((if v = 128 ∨ v < 32 ∧ v ≠ 2 then 1 else 0 : BitVec 1) == 1) = _
    by_cases h : v = 128 ∨ v < 32 ∧ v ≠ 2
    · rw [if_pos h, decide_eq_true h]
      rfl
    · rw [if_neg h, decide_eq_false h]
      rfl
  rw [ofBits_val, if_pos htype, htrap]
  rfl

/-- **The gates** that the processor finds. -/
theorem ofBits_idt (address : Handler → Word) (v : Byte) :
    Gate.ofBits (initilizeIdtTable address v).val = some (gateOf address v) := by
  have hset : ∀ w, setIdtEntry (initilizeEntry .zero v) w =
      entryFor v (setIdtEntry (initilizeEntry .zero v) w).offset1500
        (setIdtEntry (initilizeEntry .zero v) w).offset3116 := by
    intro w
    rw [initilizeEntry_eq]
    rfl
  rw [initilizeIdtTable_apply, gateOf]
  cases handlerAt v with
  | some h =>
    dsimp only [Option.map_some, Option.getD_some]
    rw [hset, ofBits_entryFor, setIdtEntry_offset]
  | none =>
    dsimp only [Option.map_none, Option.getD_none]
    rw [initilizeEntry_eq, ofBits_entryFor]
    rfl

/-! ## Interrupts -/

section Entering
variable (address : Handler → Word) (tss ldt : BitVec 64) (k : Kernel)

/-- The tables of the kernel: the processor takes the stack of level 0 from the TSS. -/
def kernelTables : Tables where
  gdt := gdt tss ldt
  idt v := (initilizeIdtTable address v).val
  innerStack _ := (k.tss.ss0.setWidth 16, k.tss.esp0)

/-- Where an interrupt with vector `v` arrives. -/
def arrivalAt (level : BitVec 2) (interruptFlag : Bool) (v : Byte) : Arrival where
  selector := kernelCs
  address := ((handlerAt v).map address).getD 0
  level := 0
  stack := if level = 0 then none else some (k.tss.ss0.setWidth 16, k.tss.esp0)
  interruptFlag := interruptFlag && decide (v = 128 ∨ v < 32 ∧ v ≠ 2)

theorem ofBits_kernelCs : Segment.ofBits (gdt tss ldt (kernelCs.extractLsb' 3 13)) =
    ⟨0, 0xFFFFF, 0xA, true, 0, true, true, true⟩ := by
  have hindex : kernelCs.extractLsb' 3 13 = 2 := by decide
  rw [hindex]
  show Segment.ofBits 0x00CF9A000000FFFF = _
  decide

/-- **Every interrupt** arrives in the kernel's code, at its handler, on the stack of the TSS if
a program has been interrupted, except that a program's own `int` is refused unless it is that of
a system call. -/
theorem enter_kernel (cause : Cause) (level : BitVec 2) (interruptFlag : Bool) (v : Byte) :
    (kernelTables address tss ldt k).enter cause level interruptFlag v =
      if cause = .software ∧ (if v = 128 then 3 else 0) < level then .error .generalProtection
      else .ok (arrivalAt address k level interruptFlag v) := by
  have hcode := ofBits_kernelCs tss ldt
  have hgate := ofBits_idt address v
  have hidt : (kernelTables address tss ldt k).idt v = (initilizeIdtTable address v).val := rfl
  rw [Tables.enter, hidt, hgate]
  dsimp only [gateOf, kernelTables]
  rw [hcode]
  by_cases hrefused : cause = .software ∧ (if v = 128 then 3 else 0 : BitVec 2) < level
  · rw [if_pos hrefused, if_pos hrefused]
  · have hselector : ¬(kernelCs.extractLsb' 2 14 = 0 ∨
        Segment.isCode ⟨0, 0xFFFFF, 0xA, true, 0, true, true, true⟩ = false ∨ level < 0) := by
      rintro (h | h | h)
      · exact absurd h (by decide)
      · exact absurd h (by decide)
      · exact BitVec.not_lt_zero h
    have hpresent : ¬true = false := by decide
    have hflat : ∀ x : Word, 0 + x = x := BitVec.zero_add
    rw [if_neg hrefused, if_neg hrefused, if_neg hpresent, if_neg hselector, if_neg hpresent]
    show Except.ok (⟨kernelCs, 0 + _, 0, if 0 < level then _ else _, _⟩ : Arrival) = _
    rw [hflat]
    by_cases hlevel : level = 0
    · rw [arrivalAt, if_pos hlevel, if_neg (by rw [hlevel]; decide)]
    · have hinner : (0 : BitVec 2) < level := (BitVec.pos_iff_ne_zero level).mpr hlevel
      rw [arrivalAt, if_neg hlevel, if_pos hinner]

end Entering

/-! ## Devices -/

/-- The devices that the kernel enables. -/
def deviceLines : List Line := [.master 0, .master 1, .slave 0]

/-- The handler that the line is for: `PIT_linkage`, `keyboard_linkage` or `rtc_linkage`. -/
def deviceHandler : Line → Option Handler
  | .master 0 => some .pitLinkage
  | .master 1 => some .keyboardLinkage
  | .slave 0 => some .rtcLinkage
  | _ => none

/-- The kernel enables the lines of its devices: `init_PIT`, `init_keyboard` and `inti_RTC`. -/
def EnablesDevices : PicEvent → Prop
  | .enable irq => lineOf irq ∈ deviceLines
  | _ => True

instance : (e : PicEvent) → Decidable (EnablesDevices e)
  | .enable irq => inferInstanceAs (Decidable (lineOf irq ∈ deviceLines))
  | .request _ | .acknowledge | .eoi _ | .disable _ => isTrue trivial

/-- The lines that are enabled are those of the devices, and that of the second controller; and
the vectors that have been taken are those of the devices. -/
structure OnlyDevices (c : Desk × List Byte) : Prop where
  enabled : ∀ l, c.1.enabled l = true → l = .master 2 ∨ l ∈ deviceLines
  taken : ∀ v ∈ c.2, ∃ l ∈ deviceLines, v = lineVector l

theorem OnlyDevices.step {c : Desk × List Byte} (h : OnlyDevices c) {e : PicEvent}
    (he : EnablesDevices e) : OnlyDevices (irqDesk.step c e) := by
  have henable : ∀ (l : Line) (on : Bool), (on = true → l ∈ deviceLines) →
      OnlyDevices (c.1.enable l on, c.2) := by
    intro l on hl
    refine ⟨fun l' hl' => ?_, h.taken⟩
    have hupdated : Function.update c.1.enabled l on l' = true := hl'
    by_cases heq : l' = l
    · subst heq
      rw [Function.update_self] at hupdated
      exact Or.inr (hl hupdated)
    · rw [Function.update_of_ne heq] at hupdated
      exact h.enabled l' hupdated
  cases e with
  | request l => exact ⟨h.enabled, h.taken⟩
  | acknowledge =>
    dsimp only [irqDesk]
    cases hnext : c.1.next 2 with
    | none => exact h
    | some l =>
      obtain ⟨hwire, hready⟩ := Desk.next_eq_some hnext
      have henabled : c.1.enabled l = true := by
        simp only [Desk.ready, Bool.and_eq_true] at hready
        exact hready.1.1.2
      refine ⟨h.enabled, fun v hv => ?_⟩
      rcases List.mem_cons.mp hv with rfl | hv
      · exact ⟨l, (h.enabled l henabled).resolve_left hwire, rfl⟩
      · exact h.taken v hv
  | eoi irq => exact ⟨h.enabled, h.taken⟩
  | enable irq => exact henable _ true fun _ => he
  | disable irq => exact henable _ false fun hfalse => by cases hfalse

theorem onlyDevices_started : OnlyDevices (startedDesk, []) where
  enabled l hl := by
    rcases of_decide_eq_true hl with rfl | rfl
    · exact Or.inl rfl
    · exact Or.inr (by decide)
  taken v hv := absurd hv List.not_mem_nil

/-- The vector of a device has the device's handler, and an interrupt gate. -/
theorem arrival_device (address : Handler → Word) (k : Kernel) (level : BitVec 2)
    (interruptFlag : Bool) {l : Line} (hl : l ∈ deviceLines) :
    ∃ h, deviceHandler l = some h ∧ arrivalAt address k level interruptFlag (lineVector l) =
      ⟨kernelCs, address h, 0, if level = 0 then none else some (k.tss.ss0.setWidth 16, k.tss.esp0),
        false⟩ := by
  have hentry : ∀ l ∈ deviceLines, ∃ h, deviceHandler l = some h ∧
      handlerAt (lineVector l) = some h ∧
      ¬(lineVector l = 128 ∨ lineVector l < 32 ∧ lineVector l ≠ 2) := by
    simp only [deviceLines, List.forall_mem_cons, List.not_mem_nil, false_implies, implies_true,
      and_true]
    exact ⟨⟨.pitLinkage, by decide⟩, ⟨.keyboardLinkage, by decide⟩, ⟨.rtcLinkage, by decide⟩⟩
  obtain ⟨h, hdevice, hhandler, hgate⟩ := hentry l hl
  refine ⟨h, hdevice, ?_⟩
  rw [arrivalAt, hhandler, decide_eq_false hgate, Bool.and_false]
  rfl

/-- **Devices reach their handlers.**  Whatever is requested, enabled and disabled behind the
`enable_irq(8)` of `inti_RTC`, every interrupt that the processor is given is one of the timer, of
the keyboard or of the clock; it arrives at the linkage of that device, in the kernel's code, on
the stack of the process that was interrupted, if one was, and with interrupts off. -/
theorem devices_arrive (address : Handler → Word) (tss ldt : BitVec 64) (pair : Pair)
    (es : List PicEvent) (hes : picMachine.Guarded Orderly (bootedPics pair, []) es)
    (hdevices : ∀ e ∈ es, EnablesDevices e) (v : Byte)
    (hv : v ∈ (picMachine.run (bootedPics pair, []) es).2) (k : Kernel) (level : BitVec 2)
    (interruptFlag : Bool) :
    ∃ l h, v = lineVector l ∧ deviceHandler l = some h ∧
      (kernelTables address tss ldt k).enter .device level interruptFlag v =
        .ok ⟨kernelCs, address h, 0,
          if level = 0 then none else some (k.tss.ss0.setWidth 16, k.tss.esp0), false⟩ := by
  have hdesk := run_atDesk pair es hes
  have honly : OnlyDevices (irqDesk.run (startedDesk, []) es) :=
    (Machine.always_of_step (I := OnlyDevices) (G := fun _ e => EnablesDevices e)
      (fun _ _ h he => h.step he) onlyDevices_started
      (Machine.guarded_of_forall fun e he _ => hdevices e he)).last
  rw [← hdesk] at honly
  obtain ⟨l, hl, rfl⟩ := honly.taken v hv
  obtain ⟨h, hdevice, harrival⟩ := arrival_device address k level interruptFlag hl
  refine ⟨l, h, rfl, hdevice, ?_⟩
  rw [enter_kernel, if_neg fun hsoftware => Cause.noConfusion hsoftware.1, harrival]

/-- The linker puts the handlers one behind the other. -/
def someAddress (h : Handler) : Word := 0x400000 + 0x20 * BitVec.ofNat 32 h.ctorIdx

theorem devices_arrive_busyPics :
    ∃ l h, (0x20 : Byte) = lineVector l ∧ deviceHandler l = some h ∧
      (kernelTables someAddress 0 0 (booted shellImage zeroHardware noJunk
          ⟨0x7FFF00, 0x7FFF40⟩)).enter .device 3 true 0x20 =
        .ok ⟨kernelCs, someAddress h, 0, if (3 : BitVec 2) = 0 then none else some
          ((booted shellImage zeroHardware noJunk ⟨0x7FFF00, 0x7FFF40⟩).tss.ss0.setWidth 16,
            (booted shellImage zeroHardware noJunk ⟨0x7FFF00, 0x7FFF40⟩).tss.esp0), false⟩ :=
  devices_arrive someAddress 0 0 idlePics busyPics (by decide +kernel) (by decide) 0x20
    (by decide +kernel) _ 3 true

end LinuxLikeOS
