import LinuxLikeOS.SlotOwnership

/-! # Parent links lead to the bottom shell

`halt` asks whether the process that halts is its terminal's `base_pid`.  That test
is right as long as `base_pid` is the bottom of the terminal's stack, and then the
parent links of the control blocks lead there through allocated slots (`Rooted`).

`base_pid` is written when a terminal is opened.  A bottom shell that halts is
renewed by `execute`, in the first free slot, and `base_pid` is not written again:
the two still agree if no slot below the old one is free (`RenewsInPlace`).  That
condition is exact: the first halt that fails it leaves a terminal whose `base_pid`
is a free slot.
-/
namespace LinuxLikeOS
open StackFamily Transition

/-! ## The invariant -/

/-- One step up: the `parent_id` in the control block of process `p`. -/
def parentPid (k : Kernel) (p : Int) : Int := (k.getPcb p).parentId.toInt

/-- From the program of terminal `t`, parent links reach its `base_pid` through
allocated slots. -/
def ReachesBase (k : Kernel) (t : Fin 3) : Prop :=
  ∃ n, (parentPid k)^[n] (k.multiTerminal t).programPid = (k.multiTerminal t).basePid ∧
    ∀ m, m ≤ n → SlotInUse k ((parentPid k)^[m] (k.multiTerminal t).programPid)

/-- Every active terminal has an allocated `base_pid` that its program descends
from. -/
def Rooted (k : Kernel) : Prop :=
  ∀ t, (k.multiTerminal t).active = true →
    SlotInUse k (k.multiTerminal t).basePid ∧ ReachesBase k t

/-- When a process that `halt` takes for a bottom shell halts, no slot below it is
free. -/
def RenewsInPlace (k : Kernel) : Event → Prop
  | .halt .. => k.executing.programPid = k.executing.basePid →
      ∀ i : Fin 6, (i : Int) < k.executing.basePid → k.process i = true
  | _ => True

instance (k : Kernel) : (e : Event) → Decidable (RenewsInPlace k e)
  | .halt .. =>
    inferInstanceAs (Decidable (k.executing.programPid = k.executing.basePid →
      ∀ i : Fin 6, (i : Int) < k.executing.basePid → k.process i = true))
  | .pitTick _ | .switchTo .. | .execute .. | .raiseException | .key _ | .ctrlL | .read ..
  | .lineServed | .write .. | .open _ | .close _ | .getargs .. | .vidmap _ => isTrue trivial

/-- A bottom shell that halts is renewed; any other process leaves its terminal to
a parent whose slot is allocated. -/
def HaltLaw (fs : FileSystem) (c : Kernel × Shells) : Event → Prop
  | .halt status junk junkFd regs =>
    (RunsBottomShell c.1 c.2 → ∃ f eip image,
      (halt fs c.1 status junk junkFd regs).2 = .launched f eip image) ∧
    (¬RunsBottomShell c.1 c.2 → ∃ parent : Fin 6,
      (halt fs c.1 status junk junkFd regs).1.executing.programPid = parent ∧
      c.1.process parent = true ∧
      (halt fs c.1 status junk junkFd regs).1.process parent = true)
  | _ => True

/-! ## Stacks whose bottoms are the base processes -/

section Based
variable {fs : FileSystem} {k : Kernel} {S S' : Processes} {shells : Shells} {e : Event}

theorem Represents.rooted (h : Represents k.view S) (hbase : Based k.view S) : Rooted k := by
  intro t ht
  obtain ⟨p, rest, hstack⟩ := List.exists_cons_of_ne_nil ((h.active_iff t).mp ht)
  obtain ⟨b, hb⟩ : ∃ b, (S.stack t).getLast? = some b :=
    ⟨_, List.getLast?_eq_some_getLast ((h.active_iff t).mp ht)⟩
  have hused : ∀ i, i ∈ S.stack t → SlotInUse k i := fun i hi =>
    ⟨i, rfl, (h.allocated i).mpr ⟨t, hi⟩⟩
  have hbasePid : (k.multiTerminal t).basePid = b := hbase t b hb
  refine ⟨by rw [hbasePid]; exact hused b (List.mem_of_getLast? hb), ?_⟩
  have hprogram : (k.multiTerminal t).programPid = p := h.top t p (by rw [hstack]; rfl)
  have hlinked := h.linked t
  rw [hstack] at hlinked hb
  -- the links of the control blocks, between slot numbers as the kernel stores them
  have hchain : List.IsChain (fun x y => parentPid k x = y)
      ((p :: rest).map fun i : Fin 6 => (i : Int)) := by
    rw [List.isChain_map]
    refine hlinked.imp fun i j hij => ?_
    have hword : (k.getPcb i).parentId = BitVec.ofNat 32 j := hij
    rw [parentPid, hword, toInt_slot]
  obtain ⟨n, hn, hall⟩ := iterate_of_isChain (b := (b : Int)) hchain (by
    rw [← List.map_cons (f := fun i : Fin 6 => (i : Int)), List.getLast?_map, hb]
    rfl)
  refine ⟨n, by rw [hprogram, hbasePid]; exact hn, ?_⟩
  intro m hm
  have hmem : (parentPid k)^[m] p ∈ (p :: rest).map fun i : Fin 6 => (i : Int) := hall m hm
  obtain ⟨i, hi, heq⟩ := List.mem_map.mp hmem
  rw [hprogram, ← heq]
  exact hused i (by rwa [hstack])

/-- With `base_pid` the bottom, the test of `halt` is right. -/
theorem takesItsBranch_of_based (h : Represents k.view S) (hbase : Based k.view S) :
    TakesItsBranch k S e := by
  cases e with
  | halt =>
    obtain ⟨p, b, hb, htop, halone⟩ := h.alone_iff
    have hprogram : k.executing.programPid = p := htop
    have hbasePid : k.executing.basePid = b := hbase _ b hb
    rw [TakesItsBranch, hprogram, hbasePid, natCast_inj_slot]
    exact halone
  | _ => exact trivial

/-- A shell renewed in place keeps its slot. -/
theorem renewed_slot (h : Represents k.view S) (hbase : Based k.view S) {b f : Fin 6}
    (hstack : S.stack k.view.executing = [b]) (hslot : k.halting.retire.firstFree = some f)
    (hplace : ∀ i : Fin 6, (i : Int) < k.executing.basePid → k.process i = true) : f = b := by
  have htop : k.executing.programPid = b := h.top k.view.executing b (by rw [hstack]; rfl)
  have hbasePid : k.executing.basePid = b := hbase k.view.executing b (by rw [hstack]; rfl)
  have hprocess : ∀ i : Fin 6, k.halting.retire.process i =
      if (i : Int) = k.executing.programPid then false else k.process i := fun i => rfl
  obtain ⟨hfree, hlow⟩ := firstFree_eq_some.mp hslot
  rcases lt_trichotomy f b with hlt | heq | hgt
  · -- a slot below the shell's was free already
    have hne : ¬((f : Nat) : Int) = k.executing.programPid := by
      rw [htop, natCast_inj_slot]
      exact ne_of_lt hlt
    rw [hprocess, if_neg hne, hplace f (by rw [hbasePid]; exact_mod_cast hlt)] at hfree
    cases hfree
  · exact heq
  · -- the shell's own slot is free, and `execute` takes the first one
    have := hlow b hgt
    rw [hprocess, if_pos htop.symm] at this
    cases this

theorem based_effect {v' : View} {new : Option (Fin 3 × Fin 6)} (h : Represents k.view S)
    (hbase : Based k.view S) (heff : Effect k S e v' new S') (hplace : RenewsInPlace k e) :
    Based v' S' := by
  intro t p hp
  rw [heff.getLast? h t] at hp
  cases heff with
  | call | tick | same | show_ | refused | launched | popped => exact hbase t p hp
  | @opened s =>
    by_cases hs : t = s
    · subst hs
      simp only [bottomAfter, if_true, Option.some.injEq] at hp
      simp [View.launch, View.open_, hp]
    · simp only [bottomAfter, hs, if_false] at hp
      simp [View.launch, View.open_, hs, hbase t p hp]
  | @renewed _ _ _ _ b f hstack hslot =>
    by_cases hs : t = k.view.executing
    · subst hs
      have hbranch := (takesItsBranch_of_based (e := .halt 0 noJunk 0 ⟨0, 0⟩) h hbase).mpr
        ⟨b, hstack⟩
      have hf := renewed_slot h hbase hstack hslot (hplace hbranch)
      simp only [bottomAfter, if_true, Option.some.injEq] at hp
      rw [← hp, hf]
      exact hbase _ b (by rw [hstack]; rfl)
    · simp only [bottomAfter, hs, if_false] at hp
      exact hbase t p hp

/-- A halt that renews a bottom shell elsewhere leaves its `base_pid` unallocated. -/
theorem renewsInPlace_of_rooted (hshell : fs.Executable shell) (h : Represents k.view S)
    (hbase : Based k.view S) (hrooted : Rooted (kernelStep fs k e)) : RenewsInPlace k e := by
  cases e with
  | halt status junk junkFd regs =>
    intro heq
    obtain ⟨b, hstack⟩ :=
      (takesItsBranch_of_based (e := .halt status junk junkFd regs) h hbase).mp heq
    have hbasePid : k.executing.basePid = b := hbase k.view.executing b (by
      rw [show S.stack k.view.executing = [b] from hstack]; rfl)
    obtain ⟨f, eip, image, hslot, _, hview⟩ :=
      halt_renews hshell h hstack heq status junk junkFd regs
    obtain ⟨_, hlow⟩ := firstFree_eq_some.mp hslot
    have hprocess : ∀ i : Fin 6, k.halting.retire.process i =
        if (i : Int) = k.executing.programPid then false else k.process i := fun i => rfl
    -- the slot `b` is allocated after the halt, so the new shell has it
    have hf : f = b := by
      have hactive := congrFun (congrArg View.active hview) k.currTerminalExecuting
      have hkept := congrFun (congrArg View.basePid hview) k.currTerminalExecuting
      have hafter := congrArg View.process hview
      obtain ⟨i, hi, hused⟩ := (hrooted k.currTerminalExecuting (by
        rw [kernelStep]
        refine hactive.trans ?_
        exact Function.update_self ..)).1
      have hib : i = b := by
        rw [← natCast_inj_slot, ← hbasePid, ← hi]
        exact hkept
      by_contra hne
      have hlost : (k.view.retire.launch f regs).process i = true := by
        rw [← hafter]
        exact hused
      rw [hib] at hlost
      have hgone : k.view.retire.process b = false := by
        rw [(h.freed_process hstack).1, Function.update_self]
      simp [View.launch, Ne.symm hne, hgone] at hlost
    intro i hi
    rw [hbasePid] at hi
    have hused := hlow i (by rw [hf]; exact_mod_cast hi)
    rw [hprocess, heq, hbasePid, if_neg (by omega)] at hused
    exact hused
  | _ => exact trivial

/-! ## Over whole runs -/

/-- The stacks of a kernel have its base processes as bottoms, and the record
agrees. -/
def WellBased (c : Kernel × Shells) : Prop :=
  ∃ S, Represents c.1.view S ∧ Based c.1.view S ∧ Recorded c.2 S

theorem wellBased_step (hshell : fs.Executable shell) (c : Kernel × Shells) (e : Event)
    (hs : WellBased c) (hopens : OpensUnjammed c.1 e) (hplace : RenewsInPlace c.1 e) :
    WellBased ((shellMachine fs).step c e) := by
  obtain ⟨S, hrep, hbase, hrec⟩ := hs
  obtain ⟨S', heff, hrep'⟩ := step_effect hshell hrep hopens (takesItsBranch_of_based hrep hbase)
  exact ⟨S', hrep', based_effect hrep hbase heff hplace, recorded_effect hrep hrec heff⟩

theorem wellBased_booted (hshell : fs.Executable shell) (h : Hardware) (junk : Nat → Byte)
    (regs : Regs) : WellBased (bootedShells fs h junk regs) := by
  obtain ⟨hrep, hbase⟩ := represents_booted hshell h junk regs
  exact ⟨bootProcesses, hrep, hbase, recorded_boot⟩

theorem haltLaw_of_wellBased (hshell : fs.Executable shell) (c : Kernel × Shells) (e : Event)
    (hs : WellBased c) : HaltLaw fs c e := by
  obtain ⟨S, hrep, hbase, hrec⟩ := hs
  cases e with
  | halt status junk junkFd regs =>
    have hbranch := takesItsBranch_of_based (e := .halt status junk junkFd regs) hrep hbase
    have hruns := runsBottomShell_iff hrep hrec
    constructor
    · intro hbottom
      obtain ⟨b, hstack⟩ := hruns.mp hbottom
      obtain ⟨f, eip, image, _, hcontrol, _⟩ :=
        halt_renews hshell hrep hstack (hbranch.mpr ⟨b, hstack⟩) status junk junkFd regs
      exact ⟨f, eip, image, hcontrol⟩
    · intro hnot
      have hne : c.1.executing.programPid ≠ c.1.executing.basePid := fun heq =>
        hnot (hruns.mpr (hbranch.mp heq))
      obtain ⟨_, hview⟩ := halt_gives_back fs hne status junk junkFd regs
      obtain ⟨p, rest, hstack, htop⟩ := hrep.executing_stack
      cases rest with
      | nil => exact absurd (hruns.mpr ⟨p, hstack⟩) hnot
      | cons q rest =>
        have hcurrent : c.1.view.current = View.slotOf p := by
          rw [View.current, htop]
          rfl
        rw [hcurrent] at hview
        have hrep' := hrep.giveBack hstack
        rw [← hview] at hrep'
        have hexec : (halt fs c.1 status junk junkFd regs).1.currTerminalExecuting =
            c.1.view.executing := congrArg View.executing hview
        have hq : ((S.pop c.1.view.executing).stack c.1.view.executing).head? = some q := by
          rw [pop_stack_self, hstack]
          rfl
        refine ⟨q, ?_, (hrep.allocated q).mpr ⟨_, by rw [hstack]; simp⟩,
          (hrep'.allocated q).mpr ⟨_, List.mem_of_head? hq⟩⟩
        have := hrep'.top _ q hq
        rw [← hexec] at this
        exact this
  | _ => exact trivial

/-- **Parent chains.**  In a run in which every opening launches its shell, the
parent links of every terminal lead to its base process in every state, and every
halt renews a bottom shell or resumes a live parent, exactly if no bottom shell is
renewed in a slot below its own. -/
theorem rooted_iff (hshell : fs.Executable shell) (h : Hardware) (junk : Nat → Byte)
    (regs : Regs) (es : List Event)
    (hopens : (kernelMachine fs).Guarded OpensUnjammed (booted fs h junk regs) es) :
    ((kernelMachine fs).Always Rooted (booted fs h junk regs) es ∧
      (shellMachine fs).Guarded (HaltLaw fs) (bootedShells fs h junk regs) es) ↔
    (kernelMachine fs).Guarded RenewsInPlace (booted fs h junk regs) es := by
  have hopens' : (shellMachine fs).Guarded (fun c e => OpensUnjammed c.1 e)
      (bootedShells fs h junk regs) es := Machine.withHistory_guarded.mpr hopens
  have hexact := Machine.always_iff_guarded (M := shellMachine fs) (P := fun c => Rooted c.1)
    (G := fun c e => RenewsInPlace c.1 e) (fun _ ⟨_, hrep, hbase, _⟩ => hrep.rooted hbase)
    (wellBased_step hshell)
    (fun c e ⟨_, hrep, hbase, _⟩ _ hrooted => renewsInPlace_of_rooted hshell hrep hbase hrooted)
    (wellBased_booted hshell h junk regs) hopens'
  have hrooted : (shellMachine fs).Always (fun c => Rooted c.1) (bootedShells fs h junk regs) es ↔
      (kernelMachine fs).Always Rooted (booted fs h junk regs) es := Machine.withHistory_always
  have hplace : (shellMachine fs).Guarded (fun c e => RenewsInPlace c.1 e)
      (bootedShells fs h junk regs) es ↔
        (kernelMachine fs).Guarded RenewsInPlace (booted fs h junk regs) es :=
    Machine.withHistory_guarded
  constructor
  · rintro ⟨halways, _⟩
    exact hplace.mp (hexact.mp (hrooted.mpr halways))
  · intro hg
    have hg' := hplace.mpr hg
    refine ⟨hrooted.mp (hexact.mpr hg'), ?_⟩
    exact Machine.guarded_of_step
      (fun c e hs hge => wellBased_step hshell c e hs hge.1 hge.2)
      (fun c e hs _ => haltLaw_of_wellBased hshell c e hs)
      (wellBased_booted hshell h junk regs) (Machine.guarded_and.mpr ⟨hopens', hg'⟩)

end Based

theorem rooted_twoTerminals :
    ((kernelMachine shellImage).Always Rooted
        (booted shellImage zeroHardware noJunk ⟨0x7FFF00, 0x7FFF40⟩) twoTerminals ∧
      (shellMachine shellImage).Guarded (HaltLaw shellImage)
        (bootedShells shellImage zeroHardware noJunk ⟨0x7FFF00, 0x7FFF40⟩) twoTerminals) ↔
    (kernelMachine shellImage).Guarded RenewsInPlace
      (booted shellImage zeroHardware noJunk ⟨0x7FFF00, 0x7FFF40⟩) twoTerminals :=
  rooted_iff shellImage_executable zeroHardware noJunk ⟨0x7FFF00, 0x7FFF40⟩ twoTerminals
    (by decide +kernel)

/-- After `twoTerminals` slot 1 is free and the second terminal's shell has slot 2;
it is scheduled and halts. -/
def renewedBelow : List Event :=
  twoTerminals ++ [.pitTick ⟨0x7FFE00, 0x7FFE40⟩, .halt 0 noJunk 7 ⟨0x7FBF00, 0x7FBF40⟩]

/-- The second terminal's shell is renewed in slot 1, and its `base_pid` stays 2. -/
theorem rooted_renewedBelow :
    ¬∀ (fs : FileSystem) (h : Hardware) (junk : Nat → Byte) (regs : Regs) (es : List Event),
      fs.Executable shell →
      (kernelMachine fs).Guarded OpensUnjammed (booted fs h junk regs) es →
        (kernelMachine fs).Always Rooted (booted fs h junk regs) es ∧
          (shellMachine fs).Guarded (HaltLaw fs) (bootedShells fs h junk regs) es := by
  intro hall
  have hrooted := (hall shellImage zeroHardware noJunk ⟨0x7FFF00, 0x7FFF40⟩ renewedBelow
    shellImage_executable (by decide +kernel)).1.last
  obtain ⟨⟨i, hi, hused⟩, _⟩ := hrooted 1 (by decide +kernel)
  revert i
  decide +kernel

end LinuxLikeOS
