import LinuxLikeOS.MemoryPrimitives
import LinuxLikeOS.ScreenPages

/-! # What `memset`, `memcpy` and `memmove` leave in memory

The destination holds the fill byte or what was in the source, and nothing else has changed:
memory is as if the bytes had been stored one by one.  `memset` does this for every
range (`runs_memset`), `memcpy` if the source is nowhere overwritten before it is read
(`runs_memcpy`), and `memmove` chooses the direction in which it is not
(`runs_memmove`).

Memory is seen through `ds`.  The string instructions store through `es`, which the code
sets to `ds` before.  `switch_terminal` copies pages with `memcpy`: run as assembly, its copies
do what they are modelled to do (`runs_showTerminal`).
-/
namespace LinuxLikeOS
open MemoryRanges StateTransition StringMachine

/-- What code should leave in memory: `value` in the `n` bytes at `dest`, as if they were
stored byte by byte. -/
structure Leaves (base : BitVec 16 → Word) (s t : Cpu) (dest : Word) (value : Nat → Byte)
    (n : Nat) : Prop where
  segment : t.ds = s.ds
  byteByByte : t.data base = store (s.data base) dest value n
  stored : Stored (s.data base) (t.data base) dest value n

/-! ## Filling -/

/-- `n` bytes have been filled with `c`, if `eax` consists of it. -/
structure Filled (base : BitVec 16 → Word) (c : Byte) (n : Nat) (s t : Cpu) : Prop where
  ds : t.ds = s.ds
  eax : t.reg .eax = s.reg .eax
  edi : t.reg .edi = s.reg .edi + BitVec.ofNat 32 n
  data : (∀ i < 4, (s.reg .eax).extractLsb' (8 * i) 8 = c) →
    t.data base = fill (s.data base) (s.reg .edi) c n

section Filling
variable {base : BitVec 16 → Word} {s t : Cpu}

theorem getLsbD_lowByte (c : Word) (j : Nat) :
    (c &&& 0xFF).getLsbD j = (decide (j < 8) && c.getLsbD j) := by
  have hmask : (0xFF : Word) = BitVec.setWidth 32 (BitVec.allOnes 8) := by decide
  rw [hmask, BitVec.getLsbD_and, BitVec.getLsbD_setWidth, BitVec.getLsbD_allOnes, Bool.and_comm]
  by_cases hj : j < 8
  · simp [hj]
    omega
  · simp [hj]

/-- A byte that is moved `k` bytes up. -/
theorem getLsbD_movedByte (c : Word) {i j : Nat} (hi : i < 4) (hj : j < 8) (k : Nat) :
    ((c &&& 0xFF) <<< (8 * k)).getLsbD (8 * i + j) = (decide (i = k) && c.getLsbD j) := by
  rw [BitVec.getLsbD_shiftLeft, getLsbD_lowByte]
  by_cases hk : i = k
  · subst hk
    simp [hj]
    omega
  · have hout : 8 * i + j < 8 * k ∨ ¬8 * i + j - 8 * k < 8 := by omega
    rcases hout with hout | hout <;> simp [hk, hout]

/-- The dword of four times the lowest byte of `c`. -/
theorem replicated (c : Word) : ∀ i < 4, ((c &&& 0xFF) <<< 24 ||| (c &&& 0xFF) <<< 16 |||
    (c &&& 0xFF) <<< 8 ||| (c &&& 0xFF)).extractLsb' (8 * i) 8 = c.setWidth 8 := by
  intro i hi
  ext j hj
  have hlow : (c &&& 0xFF).getLsbD (8 * i + j) = (decide (i = 0) && c.getLsbD j) := by
    have hmoved := getLsbD_movedByte c hi hj 0
    rwa [Nat.mul_zero, BitVec.shiftLeft_zero] at hmoved
  rw [BitVec.getElem_extractLsb', BitVec.getLsbD_or, BitVec.getLsbD_or, BitVec.getLsbD_or,
    getLsbD_movedByte c hi hj 3, getLsbD_movedByte c hi hj 2, getLsbD_movedByte c hi hj 1, hlow,
    BitVec.getElem_setWidth]
  obtain rfl | rfl | rfl | rfl : i = 0 ∨ i = 1 ∨ i = 2 ∨ i = 3 := by omega
  all_goals simp

theorem data_idle (h : Idle s t) : t.data base = s.data base := by
  funext a
  rw [Cpu.data, Cpu.data, h.mem, h.ds]

theorem addsUp_filled (base : BitVec 16 → Word) (c : Byte) : AddsUp (Filled base c) where
  idle h := ⟨h.ds, h.eax, by rw [h.edi, BitVec.add_zero], fun _ => data_idle h⟩
  trans h h' := by
    refine ⟨h'.ds.trans h.ds, h'.eax.trans h.eax, ?_, fun heax => ?_⟩
    · rw [h'.edi, h.edi, add_ofNat_add]
    · rw [h'.data (by rwa [h.eax]), h.data heax, h.edi, fill_add]

theorem moves_memset (base : BitVec 16 → Word) (c : Byte) :
    Moves base [.storeb .edi, .addl 1 .edi] .stosl (Filled base c) where
  toAddsUp := addsUp_filled base c
  one s := by
    refine ⟨rfl, rfl, rfl, fun heax => ?_⟩
    have hal : s.al = c := heax 0 (by decide)
    have hstore := data_storeb base s .edi
    rw [hal] at hstore
    exact hstore
  counters s r hr := by
    rcases hr with rfl | rfl <;> rfl
  size := rfl
  four s hes hdf := by
    refine ⟨rfl, rfl, if_neg (by simp [hdf]), fun heax => ?_⟩
    rw [data_exec hes]
    exact store_congr heax

end Filling

/-! ## Copying -/

/-- `n` bytes have been copied, if none of the source was overwritten before. -/
structure Copied (base : BitVec 16 → Word) (n : Nat) (s t : Cpu) : Prop where
  ds : t.ds = s.ds
  esi : t.reg .esi = s.reg .esi + BitVec.ofNat 32 n
  edi : t.reg .edi = s.reg .edi + BitVec.ofNat 32 n
  data : Ahead (s.reg .edi) (s.reg .esi) n →
    t.data base = copy (s.data base) (s.reg .edi) (s.reg .esi) n

section Copying
variable {base : BitVec 16 → Word} {s t : Cpu}

theorem addsUp_copied (base : BitVec 16 → Word) : AddsUp (Copied base) where
  idle h := ⟨h.ds, by rw [h.esi, BitVec.add_zero], by rw [h.edi, BitVec.add_zero],
    fun _ => data_idle h⟩
  trans h h' := by
    refine ⟨h'.ds.trans h.ds, ?_, ?_, fun hahead => ?_⟩
    · rw [h'.esi, h.esi, add_ofNat_add]
    · rw [h'.edi, h.edi, add_ofNat_add]
    · have hrest := hahead.right
      rw [← h.edi, ← h.esi] at hrest
      rw [h'.data hrest, h.data hahead.left, h.edi, h.esi, copy_add hahead]

/-- A string instruction that copies, with the direction flag clear. -/
theorem copied_exec {o : StringOp} (ho : o ≠ .stosl) (hes : s.es = s.ds) (hdf : s.df = false) :
    Copied base o.size s (o.exec base s) := by
  have hnext : ∀ a, s.next o.size a = a + BitVec.ofNat 32 o.size := fun a => if_neg (by simp [hdf])
  refine ⟨rfl, (if_neg ho).trans (hnext _), hnext _, fun _ => ?_⟩
  rw [data_exec hes]
  cases o with
  | stosl => exact absurd rfl ho
  | movsb | movsl => rfl

theorem moves_memcpy (base : BitVec 16 → Word) :
    Moves base [.loadb .esi, .storeb .edi, .addl 1 .edi, .addl 1 .esi] .movsl (Copied base) where
  toAddsUp := addsUp_copied base
  one s := by
    refine ⟨rfl, rfl, rfl, fun _ => ?_⟩
    have hal : ((Op.loadb .esi).exec base s).al = s.data base (s.reg .esi) :=
      BitVec.setWidth_append_eq_right
    have hstore := data_storeb base ((Op.loadb .esi).exec base s) .edi
    rw [hal] at hstore
    refine hstore.trans (store_congr fun i hi => ?_)
    rw [Nat.lt_one_iff.mp hi, BitVec.add_zero]
  counters s r hr := by
    rcases hr with rfl | rfl <;> rfl
  size := rfl
  four s hes hdf := copied_exec (by decide) hes hdf

/-- **Copying from the back**: the registers point to the last of the bytes that are left. -/
theorem reaches_repBackward {code : List (Line MemoryLabel)} {pc : Nat}
    (hline : code[pc]? = some (.instr (.rep .movsb))) {dest src : Word} {n : Nat}
    (hes : s.es = s.ds) (hdf : s.df = true) (hecx : (s.reg .ecx).toNat = n)
    (hedi : s.reg .edi = dest + BitVec.ofNat 32 n - 1)
    (hesi : s.reg .esi = src + BitVec.ofNat 32 n - 1) (hbehind : Behind dest src n) :
    ∃ t, Reaches (step base code) ⟨pc, s⟩ ⟨pc + 1, t⟩ ∧ t.ds = s.ds ∧
      t.data base = copy (s.data base) dest src n := by
  -- copying the `k` bytes that are left gives the copy of all
  let I : Nat → Cpu → Prop := fun k t => (t.reg .ecx).toNat = k ∧ (t.ds = s.ds ∧ t.es = t.ds) ∧
    t.df = true ∧ t.reg .edi = dest + BitVec.ofNat 32 k - 1 ∧
    t.reg .esi = src + BitVec.ofNat 32 k - 1 ∧ Behind dest src k ∧
    copy (t.data base) dest src k = copy (s.data base) dest src n
  have hstep : ∀ k t, I (k + 1) t → I k (StringOp.movsb.iterate base t) := by
    rintro k t ⟨hecx, ⟨hds, hes⟩, hdf, hedi, hesi, hbehind, hcopy⟩
    have hlt := (t.reg .ecx).isLt
    rw [add_ofNat_succ_sub_one] at hedi hesi
    have hnext : ∀ a, t.next 1 a = a - 1 := fun a => if_pos hdf
    have hstored : (StringOp.movsb.iterate base t).data base =
        Function.update (t.data base) (dest + BitVec.ofNat 32 k)
          (t.data base (src + BitVec.ofNat 32 k)) := by
      rw [← hedi, ← hesi]
      have hread : StringOp.movsb.value base t 0 = t.data base (t.reg .esi) :=
        congrArg (t.data base) (BitVec.add_zero _)
      rw [← hread]
      exact data_exec hes .movsb
    refine ⟨toNat_sub_one hecx, ⟨hds, hes⟩, hdf, ?_, ?_, hbehind.pred, ?_⟩
    · rw [← hedi]
      exact hnext _
    · rw [← hesi]
      exact hnext _
    · rw [hstored, copy_succ_behind (by omega) hbehind, hcopy]
  have hstart : I n s := ⟨hecx, ⟨rfl, hes⟩, hdf, hedi, hesi, hbehind, rfl⟩
  obtain ⟨t, hrun, -, ⟨hds, -⟩, -, -, -, -, hcopy⟩ :=
    reaches_rep hline (fun k t h => h.1) hstep hstart
  exact ⟨t, hrun, hds, hcopy⟩

end Copying

/-! ## The direction of `memmove` -/

section Directions
variable (base : BitVec 16 → Word) (s : Cpu)

/-- `memmove` up to the jump that chooses the direction. -/
theorem reaches_jae :
    ∃ t, Reaches (step base Assembly.memmove) ⟨0, s⟩
      ⟨if s.reg .esi < s.reg .edi then 5 else 8, t⟩ ∧
        Idle s t ∧ t.reg .ecx = s.reg .ecx ∧ t.es = t.ds ∧ t.df = false := by
  let row : List Op := [.movwFromDs .edx, .movwToEs .edx, .cld, .cmp .edi .esi]
  have hrow : HasLines Assembly.memmove 0 (ops row) := by decide
  have hjae : Assembly.memmove[4]? = some (.instr (.jae .go)) := rfl
  have hgo : target Assembly.memmove .go = 8 := by decide
  have hcf : (execAll base row s).cf = BitVec.ult (s.reg .esi) (s.reg .edi) := rfl
  have hrun := (reaches_ops base hrow s).trans (reaches_instr base hjae (execAll base row s))
  simp only [Instr.step, hcf, hgo, BitVec.ult_iff_lt] at hrun
  exact ⟨_, hrun, ⟨rfl, rfl, rfl, rfl, rfl⟩, rfl, es_movw base s .edx, rfl⟩

/-- Not below the destination: from the front. -/
theorem memmove_forward (hlt : ¬s.reg .esi < s.reg .edi)
    (hahead : Ahead (s.reg .edi) (s.reg .esi) (s.reg .ecx).toNat) :
    ∃ t, EndsIn base Assembly.memmove s t ∧ t.ds = s.ds ∧
      t.data base = copy (s.data base) (s.reg .edi) (s.reg .esi) (s.reg .ecx).toNat := by
  have hlabel : Assembly.memmove[8]? = some (.label .go) := rfl
  have hrep : Assembly.memmove[9]? = some (.instr (.rep .movsb)) := rfl
  obtain ⟨t, hjae, hidle, hecx, hes, hdf⟩ := reaches_jae base s
  rw [if_neg hlt] at hjae
  have hgo := hjae.trans (reaches_label base hlabel t)
  obtain ⟨u, hmoves, hcopied, -⟩ := reaches_repMoves hrep (addsUp_copied base)
    (fun s hes hdf => copied_exec (by decide) hes hdf) hes hdf
  rw [hecx, StringOp.size, Nat.one_mul] at hcopied
  have hall := (addsUp_copied base).between hidle hcopied (Idle.refl u)
  exact ⟨u, endsIn_of_reaches (hgo.trans hmoves), hall.ds, hall.data hahead⟩

/-- The instructions that put the registers at the last bytes. -/
theorem backward_ready :
    let t := execAll base [.leal (-1) .esi .ecx .esi, .leal (-1) .edi .ecx .edi, .std] s
    t.data base = s.data base ∧ (t.ds = s.ds ∧ t.es = s.es) ∧ t.df = true ∧
      t.reg .ecx = s.reg .ecx ∧
      t.reg .edi = s.reg .edi + BitVec.ofNat 32 (s.reg .ecx).toNat - 1 ∧
      t.reg .esi = s.reg .esi + BitVec.ofNat 32 (s.reg .ecx).toNat - 1 := by
  rw [BitVec.ofNat_toNat, BitVec.setWidth_eq]
  refine ⟨rfl, ⟨rfl, rfl⟩, rfl, rfl, ?_, ?_⟩
  · exact (sub_eq_add_neg (s.reg .edi + s.reg .ecx) 1).symm
  · exact (sub_eq_add_neg (s.reg .esi + s.reg .ecx) 1).symm

/-- Below the destination: from the back. -/
theorem memmove_backward (hlt : s.reg .esi < s.reg .edi)
    (hbehind : Behind (s.reg .edi) (s.reg .esi) (s.reg .ecx).toNat) :
    ∃ t, EndsIn base Assembly.memmove s t ∧ t.ds = s.ds ∧
      t.data base = copy (s.data base) (s.reg .edi) (s.reg .esi) (s.reg .ecx).toNat := by
  have hrow : HasLines Assembly.memmove 5
      (ops [.leal (-1) .esi .ecx .esi, .leal (-1) .edi .ecx .edi, .std]) := by decide
  have hlabel : Assembly.memmove[8]? = some (.label .go) := rfl
  have hrep : Assembly.memmove[9]? = some (.instr (.rep .movsb)) := rfl
  obtain ⟨t, hjae, hidle, hecx, hes, -⟩ := reaches_jae base s
  rw [if_pos hlt] at hjae
  obtain ⟨hdata, ⟨hds, hes'⟩, hdf, hcount, hedi, hesi⟩ := backward_ready base t
  rw [hecx, hidle.edi] at hedi
  rw [hecx, hidle.esi] at hesi
  have hgo := (hjae.trans (reaches_ops base hrow t)).trans (reaches_label base hlabel _)
  obtain ⟨u, hmoves, hkept, hcopy⟩ := reaches_repBackward hrep (hes'.trans (hes.trans hds.symm)) hdf
    (congrArg BitVec.toNat (hcount.trans hecx)) hedi hesi hbehind
  rw [hdata, data_idle hidle] at hcopy
  exact ⟨u, endsIn_of_reaches (hgo.trans hmoves), hkept.trans (hds.trans hidle.ds), hcopy⟩

end Directions

/-! ## The three functions -/

section Functions
variable (base : BitVec 16 → Word) (s : Cpu) (dest src n : Word)

theorem Leaves.of_store {s t : Cpu} {value : Nat → Byte} (hds : t.ds = s.ds)
    (h : t.data base = store (s.data base) dest value n.toNat) :
    Leaves base s t dest value n.toNat :=
  ⟨hds, h, (stored_iff n.isLt.le).mpr h⟩

/-- **`memset`**, for every range. -/
theorem runs_memset (c : Word) :
    ∃ t, EndsIn base Assembly.memset (memsetInputs s dest c n) t ∧
      Leaves base s t dest (fun _ => c.setWidth 8) n.toNat := by
  obtain ⟨t, hrun, hfilled⟩ :=
    reaches_byDwords (moves_memset base (c.setWidth 8)) (memsetInputs s dest c n)
  exact ⟨t, hrun, .of_store base dest n hfilled.ds (hfilled.data (replicated c))⟩

/-- **`memcpy`**, from the front. -/
theorem runs_memcpy (hahead : Ahead dest src n.toNat) :
    ∃ t, EndsIn base Assembly.memcpy (copyInputs s dest src n) t ∧
      Leaves base s t dest (fun i => s.data base (src + BitVec.ofNat 32 i)) n.toNat := by
  obtain ⟨t, hrun, hcopied⟩ := reaches_byDwords (moves_memcpy base) (copyInputs s dest src n)
  exact ⟨t, hrun, .of_store base dest n hcopied.ds (hcopied.data hahead)⟩

/-- **`memmove`**, whichever way the ranges overlap. -/
theorem runs_memmove (hdest : dest.toNat + n.toNat ≤ 2 ^ 32) (hsrc : src.toNat + n.toNat ≤ 2 ^ 32) :
    ∃ t, EndsIn base Assembly.memmove (copyInputs s dest src n) t ∧
      Leaves base s t dest (fun i => s.data base (src + BitVec.ofNat 32 i)) n.toNat := by
  by_cases hlt : src < dest
  · have hbehind : Behind dest src n.toNat := behind_of_lt hdest hlt
    obtain ⟨t, hrun, hds, hcopy⟩ := memmove_backward base (copyInputs s dest src n) hlt hbehind
    exact ⟨t, hrun, .of_store base dest n hds hcopy⟩
  · have hahead : Ahead dest src n.toNat := ahead_of_le hsrc (BitVec.not_lt.mp hlt)
    obtain ⟨t, hrun, hds, hcopy⟩ := memmove_forward base (copyInputs s dest src n) hlt hahead
    exact ⟨t, hrun, .of_store base dest n hds hcopy⟩

/-- **The three functions** leave in memory what the definitions byte by byte leave there. -/
theorem blocks_moved :
    (∀ c, ∃ t, EndsIn base Assembly.memset (memsetInputs s dest c n) t ∧
      Leaves base s t dest (fun _ => c.setWidth 8) n.toNat) ∧
    (∀ src, Apart dest src n.toNat →
      ∃ t, EndsIn base Assembly.memcpy (copyInputs s dest src n) t ∧
        Leaves base s t dest (fun i => s.data base (src + BitVec.ofNat 32 i)) n.toNat) ∧
    ∀ src, dest.toNat + n.toNat ≤ 2 ^ 32 → src.toNat + n.toNat ≤ 2 ^ 32 →
      ∃ t, EndsIn base Assembly.memmove (copyInputs s dest src n) t ∧
        Leaves base s t dest (fun i => s.data base (src + BitVec.ofNat 32 i)) n.toNat :=
  ⟨runs_memset base s dest n, fun src hapart => runs_memcpy base s dest src n hapart.ahead,
    fun src hdest hsrc => runs_memmove base s dest src n hdest hsrc⟩

/-- Ten bytes, from the next ten and from one address below. -/
theorem blocks_moved_ten :
    let s : Cpu := ⟨fun _ => 0, 0x18, 0, false, false, true, fun a => a.setWidth 8⟩
    let base : BitVec 16 → Word := fun _ => 0
    (∃ t, EndsIn base Assembly.memcpy (copyInputs s 0x1003 0x100D 10) t ∧
      Leaves base s t 0x1003 (fun i => s.data base (0x100D + BitVec.ofNat 32 i)) 10) ∧
    ∃ t, EndsIn base Assembly.memmove (copyInputs s 0x1003 0x1002 10) t ∧
      Leaves base s t 0x1003 (fun i => s.data base (0x1002 + BitVec.ofNat 32 i)) 10 := by
  intro s base
  obtain ⟨_, hmemcpy, hmemmove⟩ := blocks_moved base s 0x1003 10
  have hapart : Apart (0x1003 : Word) 0x100D 10 := by decide
  exact ⟨hmemcpy 0x100D hapart, hmemmove 0x1002 (by decide) (by decide)⟩

end Functions

/-! ## The copies of `switch_terminal` -/

section Pages
variable {base : BitVec 16 → Word} {s : Cpu}

theorem memcpy_eq_copy (mem : Word → Byte) (dest src : Word) {n : Nat} (hn : n ≤ 2 ^ 32) :
    memcpy mem dest src n = copy mem dest src n := by
  funext a
  rw [memcpy, copy_apply hn]

theorem ahead_pageBase (i j : Fin 4) : Ahead (pageBase i) (pageBase j) 4096 := by
  intro a ha b hb heq
  have hsame := (pageBase_add_eq ha (by omega)).mp heq
  omega

/-- A page is copied as `memcpy` is modelled. -/
theorem runs_memcpy_page (base : BitVec 16 → Word) (s : Cpu) (i j : Fin 4) :
    ∃ t, EndsIn base Assembly.memcpy (copyInputs s (pageBase i) (pageBase j) 4096) t ∧
      t.data base = memcpy (s.data base) (pageBase i) (pageBase j) 4096 := by
  obtain ⟨t, hrun, hleaves⟩ :=
    runs_memcpy base s (pageBase i) (pageBase j) 4096 (ahead_pageBase i j)
  refine ⟨t, hrun, hleaves.byteByByte.trans ?_⟩
  rw [memcpy_eq_copy _ _ _ (by decide)]
  rfl

/-- **`switch_terminal`'s two copies**, run one after the other, show terminal `t`. -/
theorem runs_showTerminal {k : Kernel} (hvideo : s.data base = k.video)
    (hmem : ∀ u, (k.multiTerminal u).terminalVidMem = backingPage u) (t : Fin 3) :
    ∃ u, EndsIn base Assembly.memcpy
        (copyInputs s k.visible.terminalVidMem videoBase 4096) u ∧
      ∃ v, EndsIn base Assembly.memcpy
          (copyInputs u videoBase (k.multiTerminal t).terminalVidMem 4096) v ∧
        v.data base = (k.showTerminal t).video := by
  have hkept : k.visible.terminalVidMem = pageBase k.currTerminalVisible.succ :=
    (hmem k.currTerminalVisible).trans (backingPage_eq _)
  have hshown : (k.multiTerminal t).terminalVidMem = pageBase t.succ :=
    (hmem t).trans (backingPage_eq t)
  rw [Kernel.showTerminal, hkept, hshown, videoBase_eq, ← hvideo]
  obtain ⟨u, hrun, hu⟩ := runs_memcpy_page base s k.currTerminalVisible.succ 0
  obtain ⟨v, hrun', hv⟩ := runs_memcpy_page base u 0 t.succ
  rw [hu] at hv
  exact ⟨u, hrun, v, hrun', hv⟩

end Pages

end LinuxLikeOS
