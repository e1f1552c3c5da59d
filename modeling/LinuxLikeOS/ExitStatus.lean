import LinuxLikeOS.Frames

/-! # The status a parent gets

An exception handler calls `raise_exception` and then `halt(0)`; `halt` passes 256 to
the parent if `exception_flag` is set, and the byte it was given otherwise.  The flag is
one global variable, and the exception gates do not mask interrupts: a tick between the
two calls lets another process halt, and that process takes the flag.

The history of a run is the list of processes that have raised an exception and not yet
halted (`Faulted`), by their process number.  As long as no process halts while another
one is in that list, the flag says whether the list is empty, and the statuses are right.
-/
namespace LinuxLikeOS
open Transition

/-- The processes between their `raise_exception` and their `halt`. -/
abbrev Faulted := List Int

/-- The faulted processes after an event. -/
def recordFault (k : Kernel) (e : Event) (faulted : Faulted) : Faulted :=
  match e with
  | .raiseException => k.executing.programPid :: faulted
  | .halt .. => faulted.filter (· ≠ k.executing.programPid)
  | _ => faulted

/-- The kernel with the record of faulted processes. -/
def faultMachine (fs : FileSystem) : Machine (Kernel × Faulted) Event :=
  (kernelMachine fs).withHistory recordFault

/-- The kernel after booting; no process has faulted. -/
def bootedFaults (fs : FileSystem) (h : Hardware) (junk : Nat → Byte) (regs : Regs) :
    Kernel × Faulted :=
  (booted fs h junk regs, [])

/-- What a parent that `halt` resumes gets from `execute` is 256 if and only if the
process that halts has faulted, and otherwise the byte it passed. -/
def StatusDelivered (fs : FileSystem) (c : Kernel × Faulted) : Event → Prop
  | .halt status junk junkFd regs =>
    ∀ value r, (halt fs c.1 status junk junkFd regs).2 = .resumed value r →
      (value = 256 ↔ c.1.executing.programPid ∈ c.2) ∧
        (c.1.executing.programPid ∉ c.2 → value = status.setWidth 32)
  | _ => True

/-- While a process halts, no other one is between its exception and its `halt`. -/
def HaltsAlone (c : Kernel × Faulted) : Event → Prop
  | .halt .. => ∀ p ∈ c.2, p = c.1.executing.programPid
  | _ => True

instance (c : Kernel × Faulted) (e : Event) : Decidable (HaltsAlone c e) :=
  match e with
  | .halt .. => inferInstanceAs (Decidable (∀ p ∈ c.2, p = c.1.executing.programPid))
  | .pitTick _ | .switchTo .. | .execute .. | .raiseException | .key _ | .ctrlL | .read .. |
    .lineServed | .write .. | .open .. | .close .. | .getargs .. | .vidmap _ => isTrue trivial

/-- The flag is set while some process has faulted. -/
def FlagTells (c : Kernel × Faulted) : Prop :=
  c.1.exceptionFlag = true ↔ ∃ p, p ∈ c.2

section Steps
variable {fs : FileSystem} {c : Kernel × Faulted} {e : Event}

/-- `halt` resumes a parent with the status it has taken. -/
theorem halt_resumed {k : Kernel} {status : Byte} {junk : Nat → Byte} {junkFd value : Word}
    {regs r : Regs} (h : (halt fs k status junk junkFd regs).2 = .resumed value r) :
    value = exitStatus k status := by
  have hresume : ∀ (k' : Kernel) (v : Word),
      (resumeParent k' k.executing.programPid v junkFd).2 = .resumed value r → value = v := by
    intro k' v hv
    rcases resumeParent_cases k' k.executing.programPid v junkFd with ⟨_, heq⟩ | ⟨_, heq⟩ <;>
      rw [heq] at hv
    · cases hv
    · simp only [Control.resumed.injEq] at hv
      exact hv.1.symm
  rcases halt_cases fs k status junk junkFd regs with
    ⟨_, pid, arg, eip, image, _, heq⟩ | ⟨_, k', v, _, heq⟩ | ⟨_, heq⟩ <;> rw [heq] at h
  · cases h
  · exact hresume _ _ h
  · exact hresume _ _ h

/-- A status byte is not 256. -/
theorem setWidth_ne_256 (status : Byte) : status.setWidth 32 ≠ (256 : Word) := by
  intro heq
  have hnat := congrArg BitVec.toNat heq
  have hlt := status.isLt
  simp at hnat
  omega

theorem statusDelivered_of_alone (hflag : FlagTells c) (halone : HaltsAlone c e) :
    StatusDelivered fs c e := by
  cases e with
  | halt status junk junkFd regs =>
    intro value r hres
    rw [halt_resumed hres]
    -- the flag is set exactly if the process that halts has faulted
    have hown : c.1.exceptionFlag = true ↔ c.1.executing.programPid ∈ c.2 :=
      ⟨fun hset => by
        obtain ⟨p, hp⟩ := hflag.mp hset
        rwa [← halone p hp], fun hp => hflag.mpr ⟨_, hp⟩⟩
    cases hset : c.1.exceptionFlag with
    | true => simp [exitStatus, hset, ← hown]
    | false =>
      have hnot : c.1.executing.programPid ∉ c.2 := by
        rw [← hown, hset]
        decide
      simp only [exitStatus, hset, hnot]
      exact ⟨⟨fun h => absurd h (setWidth_ne_256 status), nofun⟩, fun _ => rfl⟩
  | _ => exact trivial

/-- Only `raise_exception` and `halt` write the flag. -/
theorem exceptionFlag_kept (fs : FileSystem) (k : Kernel) (hraise : e ≠ .raiseException)
    (hhalt : ∀ status junk junkFd regs, e ≠ .halt status junk junkFd regs) :
    (kernelStep fs k e).exceptionFlag = k.exceptionFlag := by
  have hshared : (kernelStep fs k e).shared = k.shared →
      (kernelStep fs k e).exceptionFlag = k.exceptionFlag := congrArg Shared.exceptionFlag
  cases e with
  | raiseException => exact absurd rfl hraise
  | halt status junk junkFd regs => exact absurd rfl (hhalt status junk junkFd regs)
  | pitTick regs => exact hshared (shared_pitHandler regs)
  | switchTo t junk entry frame => exact hshared (shared_switchTerminal fs t junk frame)
  | execute command junk regs => exact hshared (shared_execute fs command junk regs)
  | vidmap screenStart =>
    by_cases haccepts : VidmapAccepts k screenStart
    · rw [kernelStep, vidmap_accepted haccepts]
    · rw [kernelStep, vidmap_refused_kernel haccepts]
  | key | ctrlL | read | lineServed | write | «open» | close | getargs =>
    exact hshared (shared_of_core (core_call rfl hraise (by simp)))

theorem flagTells_step (hflag : FlagTells c) (halone : HaltsAlone c e) :
    FlagTells ((faultMachine fs).step c e) := by
  have hother : recordFault c.1 e c.2 = c.2 → e ≠ .raiseException →
      (∀ status junk junkFd regs, e ≠ .halt status junk junkFd regs) →
      FlagTells ((faultMachine fs).step c e) := by
    intro hrecord hraise hhalt
    show (kernelStep fs c.1 e).exceptionFlag = true ↔ ∃ p, p ∈ recordFault c.1 e c.2
    rw [hrecord, exceptionFlag_kept fs c.1 hraise hhalt]
    exact hflag
  cases e with
  | raiseException => exact ⟨fun _ => ⟨_, List.mem_cons_self ..⟩, fun _ => rfl⟩
  | halt status junk junkFd regs =>
    have hcleared : (halt fs c.1 status junk junkFd regs).1.exceptionFlag = false :=
      congrArg Shared.exceptionFlag (shared_halt fs status junk junkFd regs)
    show (halt fs c.1 status junk junkFd regs).1.exceptionFlag = true ↔
      ∃ p, p ∈ c.2.filter (· ≠ c.1.executing.programPid)
    rw [hcleared]
    refine ⟨nofun, ?_⟩
    -- whoever is still in the list would have been another one
    rintro ⟨p, hp⟩
    obtain ⟨hin, hne⟩ := List.mem_filter.mp hp
    exact absurd (halone p hin) (of_decide_eq_true hne)
  | _ => exact hother rfl (by simp) (by simp)

end Steps

/-- **Exit statuses.**  In every run from boot in which no process halts while another
one is between its exception and its `halt`, every resumed parent gets 256 exactly from
a child that took an exception, and the status byte from any other. -/
theorem statusDelivered_run (fs : FileSystem) (h : Hardware) (junk : Nat → Byte) (regs : Regs)
    (es : List Event)
    (halone : (faultMachine fs).Guarded HaltsAlone (bootedFaults fs h junk regs) es) :
    (faultMachine fs).Guarded (StatusDelivered fs) (bootedFaults fs h junk regs) es := by
  have hboot : FlagTells (bootedFaults fs h junk regs) := by
    have hflag : (booted fs h junk regs).exceptionFlag = false :=
      congrArg Shared.exceptionFlag (shared_execute fs (some shell) junk regs)
    show (booted fs h junk regs).exceptionFlag = true ↔ _
    rw [hflag]
    exact ⟨nofun, fun ⟨_, hp⟩ => nomatch hp⟩
  exact Machine.guarded_of_step (fun _ _ hflag hg => flagTells_step hflag hg)
    (fun _ _ hflag hg => statusDelivered_of_alone hflag hg) hboot halone

/-- A program that takes an exception, and one that ends normally. -/
def twoChildren : List Event :=
  [.execute (some shell) noJunk ⟨0x7FFE00, 0x7FFE40⟩, .raiseException,
    .halt 0 noJunk 7 ⟨0x7FDE00, 0x7FDE40⟩,
    .execute (some shell) noJunk ⟨0x7FFE00, 0x7FFE40⟩, .halt 5 noJunk 7 ⟨0x7FDE00, 0x7FDE40⟩]

theorem statusDelivered_twoChildren :
    (faultMachine shellImage).Guarded (StatusDelivered shellImage)
      (bootedFaults shellImage zeroHardware noJunk ⟨0x7FFF00, 0x7FFF40⟩) twoChildren :=
  statusDelivered_run shellImage zeroHardware noJunk ⟨0x7FFF00, 0x7FFF40⟩ twoChildren
    (by decide +kernel)

/-- Terminals 0 and 1 each run a child of their shell; a tick has come before the second terminal
is opened.  Terminal 0's child takes an exception; before its handler calls `halt`, a tick lets
terminal 1's child run. -/
def flagTaken : List Event :=
  [.execute (some shell) noJunk ⟨0x7FFE00, 0x7FFE40⟩, .pitTick ⟨0x7FDF00, 0x7FDF40⟩,
    .switchTo 1 noJunk ⟨0x7FDE00, 0x7FDE40⟩ ⟨0x7FDD00, 0x7FDD40⟩,
    .execute (some shell) noJunk ⟨0x7FBF00, 0x7FBF40⟩,
    .pitTick ⟨0x7F9F00, 0x7F9F40⟩, .pitTick ⟨0x7F9F00, 0x7F9F40⟩,
    .raiseException, .pitTick ⟨0x7FDE00, 0x7FDE40⟩]

/-- Terminal 1's child ends with status 5 and its parent is given 256. -/
theorem statusDelivered_flagTaken :
    ¬∀ (fs : FileSystem) (h : Hardware) (junk : Nat → Byte) (regs : Regs) (es : List Event)
      (e : Event), StatusDelivered fs
        ((faultMachine fs).run (bootedFaults fs h junk regs) es) e := by
  intro hall
  have hgiven := (hall shellImage zeroHardware noJunk ⟨0x7FFF00, 0x7FFF40⟩ flagTaken
    (.halt 5 noJunk 7 ⟨0x7F9F00, 0x7F9F40⟩) 256 ⟨0x7FBF00, 0x7FBF40⟩ (by decide +kernel)).1
  exact absurd (hgiven.mp rfl) (by decide +kernel)

end LinuxLikeOS
