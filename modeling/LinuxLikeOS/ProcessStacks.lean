import LinuxLikeOS.ProcessView
import LinuxLikeOS.StackFamily

/-! # The processes of a terminal are a stack

What the process table is for: each terminal has a stack of processes, its shell
at the bottom and the program that runs on top, and no slot is used twice.  An
`execute` pushes, a `halt` pops.

The kernel has no such stacks.  `Represents` says when its arrays, terminal
records and parent links stand for a family of stacks: `program_pid` is the top,
`base_pid` the bottom, `parent_id` the element below, `process[]` the slots in
use.  It also keeps what the arrays need to go on doing so: the executing and the
visible terminal are active, the first terminal's shell sits in slot 0 (so that
`get_current_pid() + 1` is the first free slot), and there is a slot left for the
shell of every terminal not yet open (`room`).
-/
namespace LinuxLikeOS
open StackFamily

/-- The stacks of processes of the terminals. -/
abbrev Processes := StackFamily (Fin 3) (Fin 6)

/-- How many terminals are active. -/
def openTerminals (active : Fin 3 → Bool) : Nat := ∑ t, (active t).toNat

/-- The arrays of `v` store the stacks `S`. -/
structure Links (v : View) (S : Processes) : Prop where
  active_iff : ∀ t, v.active t = true ↔ S.stack t ≠ []
  top : ∀ t p, (S.stack t).head? = some p → v.programPid t = p
  allocated : ∀ p, v.process p = true ↔ S.Owns p
  linked : ∀ t, (S.stack t).IsChain fun p q => v.parentId (View.slotOf p) = BitVec.ofNat 32 q
  numbered : ∀ p, S.Owns p → v.pid (View.slotOf p) = BitVec.ofNat 32 p

/-- The view `v` stands for the stacks `S`, and the kernel can go on from it. -/
structure Represents (v : View) (S : Processes) : Prop extends Links v S where
  executing : v.active v.executing = true
  visible : v.active v.visible = true
  first : (S.stack 0).getLast? = some 0
  room : usedSlots v.process ≤ 3 + openTerminals v.active

/-- `base_pid` is the bottom of each stack. -/
def Based (v : View) (S : Processes) : Prop :=
  ∀ t p, (S.stack t).getLast? = some p → v.basePid t = p

/-! ## Slot numbers in the kernel's types -/

section Numbers

theorem slotOf_inj {p q : Fin 6} : View.slotOf p = View.slotOf q ↔ p = q := by
  revert p q
  decide

/-- A stored parent number leads to the parent's control block. -/
theorem setWidth_slot (q : Fin 6) : (BitVec.ofNat 32 q).setWidth 8 = View.slotOf q := by
  revert q
  decide

theorem toInt_slot (q : Fin 6) : (BitVec.ofNat 32 q).toInt = q := by
  revert q
  decide

theorem natCast_inj_slot {p q : Fin 6} : ((p : Nat) : Int) = ((q : Nat) : Int) ↔ p = q := by
  rw [Int.natCast_inj, Fin.ext_iff]

end Numbers

namespace Links
variable {v v' : View} {S : Processes}

theorem unowned (h : Links v S) {p : Fin 6} (hfree : v.process p = false) : ¬S.Owns p := by
  intro howns
  rw [(h.allocated p).mpr howns] at hfree
  cases hfree

theorem stack_eq_nil (h : Links v S) {t : Fin 3} (hinactive : v.active t = false) :
    S.stack t = [] := by
  by_contra hne
  rw [(h.active_iff t).mpr hne] at hinactive
  cases hinactive

/-- **A push**: a process is started in the free slot `pid` on terminal `t`. -/
theorem push (h : Links v S) {t : Fin 3} {pid : Fin 6} (hfree : ¬S.Owns pid)
    (hprocess : v'.process = Function.update v.process pid true)
    (hactive : v'.active = Function.update v.active t true)
    (hprogram : v'.programPid = Function.update v.programPid t pid)
    (hpid : v'.pid = Function.update v.pid (View.slotOf pid) (BitVec.ofNat 32 pid))
    (hparent : ∀ b, b ≠ View.slotOf pid → v'.parentId b = v.parentId b)
    (hlink : ∀ q, (S.stack t).head? = some q →
      v'.parentId (View.slotOf pid) = BitVec.ofNat 32 q) :
    Links v' (S.push t pid hfree) where
  active_iff := by
    intro s
    by_cases hs : s = t
    · subst hs; simp [hactive]
    · simp [hactive, hs, h.active_iff]
  top := by
    intro s p hp
    by_cases hs : s = t
    · subst hs
      simp only [push_stack_self, List.head?_cons, Option.some.injEq] at hp
      simp [hprogram, hp]
    · rw [push_stack_of_ne pid hfree hs] at hp
      simp [hprogram, hs, h.top s p hp]
  allocated := by
    intro p
    rw [owns_push, hprocess]
    by_cases hp : p = pid
    · subst hp; simp
    · simp [hp, h.allocated]
  linked := by
    intro s
    -- the links of the other processes are in control blocks that are not written
    have hold : ∀ p, S.Owns p → v'.parentId (View.slotOf p) = v.parentId (View.slotOf p) := by
      intro p hp
      refine hparent _ fun heq => hfree ?_
      rwa [slotOf_inj.mp heq] at hp
    have hrest : ∀ s, (S.stack s).IsChain
        fun p q => v'.parentId (View.slotOf p) = BitVec.ofNat 32 q := by
      intro s
      refine (h.linked s).imp_of_mem_imp fun p q hp _ hpq => ?_
      rw [hold p ⟨s, hp⟩, hpq]
    by_cases hs : s = t
    · subst hs
      rw [push_stack_self]
      cases hstack : S.stack s with
      | nil => exact List.isChain_singleton pid
      | cons q rest =>
        refine List.isChain_cons_cons.mpr ⟨hlink q (by rw [hstack]; rfl), ?_⟩
        rw [← hstack]
        exact hrest s
    · rw [push_stack_of_ne pid hfree hs]
      exact hrest s
  numbered := by
    intro p hp
    rw [owns_push] at hp
    by_cases hpp : p = pid
    · subst hpp; simp [hpid]
    · have hne : View.slotOf p ≠ View.slotOf pid := fun heq => hpp (slotOf_inj.mp heq)
      simp [hpid, hne, h.numbered p (hp.resolve_left hpp)]

/-- **A pop**: terminal `t` gives up its top process `p`, and with its last one
becomes inactive. -/
theorem pop (h : Links v S) {t : Fin 3} {p : Fin 6} {rest : List (Fin 6)}
    (hstack : S.stack t = p :: rest)
    (hprocess : v'.process = Function.update v.process p false)
    (hactive : ∀ s, v'.active s = true ↔ (S.pop t).stack s ≠ [])
    (hprogram : ∀ s q, ((S.pop t).stack s).head? = some q → v'.programPid s = q)
    (hpid : v'.pid = v.pid) (hparent : v'.parentId = v.parentId) :
    Links v' (S.pop t) where
  active_iff := hactive
  top := hprogram
  allocated := by
    intro r
    rw [owns_pop hstack, hprocess]
    by_cases hr : r = p
    · subst hr; simp
    · simp [hr, h.allocated]
  linked := by
    intro s
    rw [hparent]
    by_cases hs : s = t
    · subst hs
      rw [pop_stack_self, hstack]
      have := h.linked s
      rw [hstack] at this
      exact this.tail
    · rw [pop_stack_of_ne hs]
      exact h.linked s
  numbered := by
    intro r hr
    rw [hpid]
    exact h.numbered r ((owns_pop hstack).mp hr).1

/-- The executing terminal's process is the top of its stack. -/
theorem top_executing (h : Links v S) {p : Fin 6} {rest : List (Fin 6)}
    (hstack : S.stack v.executing = p :: rest) : v.programPid v.executing = p :=
  h.top _ p (by rw [hstack]; rfl)

/-- `halt` frees the slot on top of the executing terminal's stack, whether it renews
the shell or goes back to the parent. -/
theorem freed_process (h : Links v S) {p : Fin 6} {rest : List (Fin 6)}
    (hstack : S.stack v.executing = p :: rest) :
    v.retire.process = Function.update v.process p false ∧
      ∀ slot, (v.giveBack slot).process = Function.update v.process p false := by
  have hfreed : (fun i : Fin 6 => if (i : Int) = v.programPid v.executing then false
      else v.process i) = Function.update v.process p false := by
    funext i
    simp only [h.top_executing hstack, natCast_inj_slot, Function.update_apply]
  exact ⟨hfreed, fun _ => hfreed⟩

/-- A retiring bottom shell empties its terminal's stack. -/
theorem retire (h : Links v S) {b : Fin 6} (hstack : S.stack v.executing = [b]) :
    Links v.retire (S.pop v.executing) := by
  refine h.pop hstack (h.freed_process hstack).1 ?_ ?_ rfl rfl
  · intro s
    by_cases hs : s = v.executing
    · subst hs; simp [View.retire, hstack]
    · simp [View.retire, hs, h.active_iff]
  · intro s q hq
    by_cases hs : s = v.executing
    · subst hs
      rw [pop_stack_self, hstack] at hq
      cases hq
    · rw [pop_stack_of_ne hs] at hq
      exact h.top s q hq

/-- A launch pushes on the executing terminal, whether it was active or not. -/
theorem launch (h : Links v S) {pid : Fin 6} (hfree : ¬S.Owns pid) (regs : Regs) :
    Links (v.launch pid regs) (S.push v.executing pid hfree) := by
  refine h.push hfree rfl rfl rfl rfl ?_ ?_
  · intro b hb
    simp [View.launch, hb]
  · intro q hq
    simp [View.launch, h.top _ q hq]

/-- Opening a terminal and launching its shell pushes on that terminal. -/
theorem opened (h : Links v S) {t : Fin 3} {pid : Fin 6} (hfree : ¬S.Owns pid)
    (hinactive : v.active t = false) (regs : Regs) :
    Links ((v.open_ t pid).launch pid regs) (S.push t pid hfree) := by
  refine h.push hfree rfl ?_ ?_ rfl ?_ ?_
  · simp [View.launch, View.open_]
  · simp [View.launch, View.open_]
  · intro b hb
    simp [View.launch, View.open_, hb]
  · intro q hq
    rw [h.stack_eq_nil hinactive] at hq
    cases hq

/-- `halt` of anything but a bottom shell pops, and goes back to the process
below. -/
theorem giveBack (h : Links v S) {p q : Fin 6} {rest : List (Fin 6)}
    (hstack : S.stack v.executing = p :: q :: rest) :
    Links (v.giveBack (View.slotOf p)) (S.pop v.executing) := by
  have hq : S.Owns q := ⟨v.executing, by simp [hstack]⟩
  have hlink : v.parentId (View.slotOf p) = BitVec.ofNat 32 q := by
    have := h.linked v.executing
    rw [hstack] at this
    exact (List.isChain_cons_cons.mp this).1
  refine h.pop hstack ((h.freed_process hstack).2 _) ?_ ?_ rfl rfl
  · intro s
    by_cases hs : s = v.executing
    · subst hs
      rw [pop_stack_self, hstack]
      simp [View.giveBack, h.active_iff, hstack]
    · rw [pop_stack_of_ne hs]
      exact h.active_iff s
  · intro s r hr
    by_cases hs : s = v.executing
    · subst hs
      rw [pop_stack_self, hstack, List.tail_cons, List.head?_cons, Option.some.injEq] at hr
      rw [← hr]
      simp only [View.giveBack, Function.update_self, hlink, setWidth_slot, h.numbered q hq,
        toInt_slot]
    · rw [pop_stack_of_ne hs] at hr
      simp [View.giveBack, hs, h.top s r hr]

end Links

namespace Represents
variable {v : View} {S : Processes}

/-- The executing terminal's stack, with its top. -/
theorem executing_stack (h : Represents v S) :
    ∃ p rest, S.stack v.executing = p :: rest ∧ v.programPid v.executing = p := by
  have hne := (h.active_iff v.executing).mp h.executing
  obtain ⟨p, rest, hs⟩ := List.exists_cons_of_ne_nil hne
  exact ⟨p, rest, hs, h.top_executing hs⟩

/-- The executing process is the bottom of its stack if it is alone there. -/
theorem alone_iff (h : Represents v S) :
    ∃ p b : Fin 6, (S.stack v.executing).getLast? = some b ∧ v.programPid v.executing = p ∧
      (p = b ↔ ∃ q, S.stack v.executing = [q]) := by
  obtain ⟨p, rest, hstack, htop⟩ := h.executing_stack
  have hne : S.stack v.executing ≠ [] := by simp [hstack]
  obtain ⟨b, hb⟩ : ∃ b, (S.stack v.executing).getLast? = some b :=
    ⟨_, List.getLast?_eq_some_getLast hne⟩
  refine ⟨p, b, hb, htop, ?_⟩
  constructor
  · intro hp
    rw [← hp] at hb
    exact ⟨p, by rw [hstack, (getLast?_eq_head_iff hstack).mp hb]⟩
  · rintro ⟨q, hq⟩
    have hpq : p :: rest = [q] := hstack.symm.trans hq
    rw [hq, List.getLast?_singleton, Option.some.injEq] at hb
    exact (List.cons.inj hpq).1.trans hb

theorem slot_zero (h : Represents v S) : v.process 0 = true :=
  (h.allocated 0).mpr ⟨0, List.mem_of_getLast? h.first⟩

theorem active_executing (h : Represents v S) :
    Function.update v.active v.executing true = v.active := by
  rw [← h.executing]
  exact Function.update_eq_self v.executing v.active

/-- `execute` pushes on the executing terminal. -/
theorem launch (h : Represents v S) {pid : Fin 6} (hfree : v.process pid = false) (regs : Regs)
    (hroom : usedSlots v.process + 1 ≤ 3 + openTerminals v.active) :
    Represents (v.launch pid regs) (S.push v.executing pid (h.unowned hfree)) where
  toLinks := h.toLinks.launch (h.unowned hfree) regs
  executing := by simp [View.launch]
  visible := by simp [View.launch, h.active_executing, h.visible]
  first := by
    by_cases hs : (0 : Fin 3) = v.executing
    · obtain ⟨p, rest, hp, _⟩ := h.executing_stack
      have hfirst := h.first
      rw [hs, hp] at hfirst
      rw [hs, push_stack_self, hp, List.getLast?_cons_cons, hfirst]
    · rw [push_stack_of_ne pid _ hs]
      exact h.first
  room := by
    -- `hroom` is the check of `execute`: the slots reserved for other shells stay free
    have hused := usedSlots_update v.process pid true
    simp only [View.launch, h.active_executing]
    simp [hfree] at hused
    omega

/-- Opening an inactive terminal and launching its shell pushes on that terminal. -/
theorem opened (h : Represents v S) {t : Fin 3} {pid : Fin 6} (hfree : v.process pid = false)
    (hinactive : v.active t = false) (regs : Regs) :
    Represents ((v.open_ t pid).launch pid regs) (S.push t pid (h.unowned hfree)) where
  toLinks := h.toLinks.opened (h.unowned hfree) hinactive regs
  executing := by simp [View.launch, View.open_]
  visible := by simp [View.launch, View.open_]
  first := by
    have hs : (0 : Fin 3) ≠ t := by
      rintro rfl
      have hfirst := h.first
      rw [h.stack_eq_nil hinactive] at hfirst
      cases hfirst
    rw [push_stack_of_ne pid _ hs]
    exact h.first
  room := by
    -- the slot that is taken is the one that was reserved for this terminal
    have hopen := sum_toNat_update v.active t true
    have hused := usedSlots_update v.process pid true
    have hroom := h.room
    simp only [View.launch, View.open_, Function.update_idem]
    simp [hinactive] at hopen
    simp [hfree] at hused
    unfold openTerminals at hroom ⊢
    omega

/-- Renewing a bottom shell exchanges the only process of the executing terminal
for the one in the first free slot. -/
theorem respawn (h : Represents v S) {b f : Fin 6} (hstack : S.stack v.executing = [b])
    (hfree : v.retire.process f = false) (hfirst : ∀ i, i < f → v.retire.process i = true)
    (regs : Regs) :
    Represents (v.retire.launch f regs)
      ((S.pop v.executing).push v.executing f ((h.toLinks.retire hstack).unowned hfree)) where
  toLinks := (h.toLinks.retire hstack).launch _ regs
  executing := by simp [View.launch, View.retire]
  visible := by
    by_cases hs : v.visible = v.executing
    · simp [View.launch, View.retire, hs]
    · simp [View.launch, View.retire, hs, h.visible]
  first := by
    by_cases hs : (0 : Fin 3) = v.executing
    · have hzero : b = 0 := by
        have := h.first
        rw [hs, hstack] at this
        simpa using this
      have hf : f = 0 := by
        -- slot 0 is free again, so `execute` takes it
        by_contra hne
        have hlow := hfirst 0 (Fin.pos_iff_ne_zero.mpr hne)
        simp [(h.freed_process hstack).1, hzero] at hlow
      rw [hs, push_stack_self, pop_stack_self, hstack, hf]
      rfl
    · rw [push_stack_of_ne f _ hs, pop_stack_of_ne hs]
      exact h.first
  room := by
    -- one slot is given up and one is taken, and the terminal is active again
    have hprocess := (h.freed_process hstack).1
    have hb : v.process b = true := (h.allocated b).mpr ⟨v.executing, by simp [hstack]⟩
    have hgone := usedSlots_update v.process b false
    have hback := usedSlots_update v.retire.process f true
    have hactive : Function.update v.retire.active v.executing true = v.active := by
      rw [View.retire, Function.update_idem, h.active_executing]
    have hroom := h.room
    simp [hb] at hgone
    simp [hfree, hprocess] at hback
    simp only [View.launch, hprocess]
    rw [show v.retire.executing = v.executing from rfl, hactive]
    omega

/-- `halt` of anything but a bottom shell pops. -/
theorem giveBack (h : Represents v S) {p q : Fin 6} {rest : List (Fin 6)}
    (hstack : S.stack v.executing = p :: q :: rest) :
    Represents (v.giveBack (View.slotOf p)) (S.pop v.executing) where
  toLinks := h.toLinks.giveBack hstack
  executing := h.executing
  visible := h.visible
  first := by
    by_cases hs : (0 : Fin 3) = v.executing
    · have hfirst := h.first
      rw [hs, hstack, List.getLast?_cons_cons] at hfirst
      rw [hs, pop_stack_self, hstack, List.tail_cons, hfirst]
    · rw [pop_stack_of_ne hs]
      exact h.first
  room := by
    have hprocess := (h.freed_process hstack).2 (View.slotOf p)
    have hp : v.process p = true := (h.allocated p).mpr ⟨v.executing, by simp [hstack]⟩
    have hused := usedSlots_update v.process p false
    have hroom := h.room
    rw [hprocess]
    simp only [View.giveBack]
    simp [hp] at hused
    omega

theorem tick (h : Represents v S) {t : Fin 3} (hactive : v.active t = true) (regs : Regs) :
    Represents (v.tick t regs) S :=
  ⟨⟨h.active_iff, h.top, h.allocated, h.linked, h.numbered⟩, hactive, h.visible, h.first, h.room⟩

theorem show_ (h : Represents v S) {t : Fin 3} (hactive : v.active t = true) :
    Represents (v.show_ t) S :=
  ⟨⟨h.active_iff, h.top, h.allocated, h.linked, h.numbered⟩, h.executing, hactive, h.first, h.room⟩

end Represents

end LinuxLikeOS
