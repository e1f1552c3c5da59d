import LinuxLikeOS.CursorColumns
import LinuxLikeOS.LineEditing
import LinuxLikeOS.SwitchedScreens

/-! # Keys and hidden terminals

A key belongs to the visible terminal.  `keyboard_handler` draws it with `putc` and collects
it with `getChar`, and both work on the visible terminal; but Ctrl and L calls `clear`, which
homes the cursor of the terminal that is executing.

So a key leaves the other terminals' lines, cursors and pages alone, and Ctrl and L homes the
visible terminal's cursor, exactly if Ctrl and L is pressed while the visible terminal is
executing, or both cursors are home anyway (`keysStayVisible_run`).
-/
namespace LinuxLikeOS
open Transition

/-! ## The backing pages -/

/-- A byte of a backing page. -/
def OnBacking (a : Word) : Prop :=
  ∃ (t : Fin 3) (o : Nat), o < 4096 ∧ a = pageBase t.succ + BitVec.ofNat 32 o

/-- The offset of the cell to the left of the cursor is an `int`. -/
def Place.Addressable (p : Place) : Prop := -(2 ^ 31) < p.offset

instance (p : Place) : Decidable p.Addressable := inferInstanceAs (Decidable (_ < _))

section Stores
variable {p : Place} {a : Word}

/-- A cell of the VGA page, or in front of it. -/
theorem not_onBacking_cell (hlow : -(2 ^ 31) ≤ p.offset) (hhigh : p.offset < 4000) :
    ∀ a ∈ cellStores (pageBase 0) p, ¬OnBacking a := by
  have hne : ∀ (o : Int) (t : Fin 3) (o' : Nat), -(2 ^ 31) ≤ o → o ≤ 4000 → o' < 4096 →
      pageBase 0 + BitVec.ofInt 32 o ≠ pageBase t.succ + BitVec.ofNat 32 o' := by
    intro o t o' hlow hhigh ho' heq
    have hnat := congrArg BitVec.toNat heq
    have ht := t.isLt
    rw [BitVec.toNat_add, BitVec.toNat_add, toNat_pageBase, toNat_pageBase, BitVec.toNat_ofNat,
      BitVec.toNat_ofInt, Fin.val_succ, Fin.val_zero] at hnat
    omega
  intro a ha ⟨t, o', ho', heq⟩
  rcases List.mem_pair.mp ha with rfl | rfl
  · exact hne p.offset t o' hlow (by omega) ho' heq
  · refine hne (p.offset + 1) t o' (by omega) (by omega) ho' ?_
    rw [← heq, cellAddress, BitVec.ofInt_add, ← BitVec.add_assoc]
    rfl

theorem not_onBacking_scroll : ∀ a ∈ scrollStores (pageBase 0), ¬OnBacking a := by
  intro a ha
  simp only [scrollStores, List.mem_flatMap, List.mem_range] at ha
  obtain ⟨y, hy, x, hx, ha⟩ := ha
  obtain ⟨hlow, hhigh⟩ := offset_bounds (p := ⟨x, y⟩) (onScreen_mk (by omega) (by omega))
  exact not_onBacking_cell (by omega) (by omega) a ha

theorem not_onBacking_clear : ∀ a ∈ clearStores, ¬OnBacking a := by
  intro a ha ⟨t, o, ho, heq⟩
  simp only [clearStores, List.mem_flatMap, List.mem_range] at ha
  obtain ⟨i, hi, ha⟩ := ha
  have hne : ∀ o' : Nat, o' < 4096 →
      pageBase 0 + BitVec.ofNat 32 o' ≠ pageBase t.succ + BitVec.ofNat 32 o :=
    fun o' ho' heq => Fin.succ_ne_zero t ((pageBase_add_eq ho' ho).mp heq).1.symm
  rcases List.mem_pair.mp ha with rfl | rfl
  · exact hne _ (by omega) heq
  · exact hne _ (by omega) heq

/-- **A character on the VGA page** is on no backing page. -/
theorem not_onBacking_char (hcol : p.InColumns) (hfit : p.Addressable) (c : Byte) :
    ∀ a ∈ charStores 0 0 p c, ¬OnBacking a := by
  obtain ⟨⟨hx, hx'⟩, hy⟩ := hcol
  unfold Place.Addressable Place.offset at hfit
  have hscroll : ∀ (last : Prop) [Decidable last],
      ∀ a ∈ (if last then scrollStores (pageBase 0) else []), ¬OnBacking a := by
    intro last _ a ha
    split at ha
    · exact not_onBacking_scroll a ha
    · cases ha
  intro a ha
  unfold charStores at ha
  by_cases hback : c = 0x08
  · rw [if_pos hback] at ha
    refine not_onBacking_cell ?_ ?_ a ha <;> unfold Place.offset Place.back <;> dsimp only <;>
      split <;> omega
  rw [if_neg hback] at ha
  by_cases hline : c = 0x0A ∨ c = 0x0D
  · rw [if_pos hline] at ha
    exact hscroll _ a ha
  · rw [if_neg hline] at ha
    rcases List.mem_append.mp ha with ha | ha
    · refine not_onBacking_cell ?_ ?_ a ha <;> unfold Place.offset <;> omega
    · exact hscroll _ a ha

/-- The remainder of a row in front of the page is nearer to it. -/
theorem le_tmod_row (y : Int) : y ≤ y.tmod 25 ∨ 0 ≤ y.tmod 25 := by
  rcases Int.lt_or_le y 0 with hneg | hpos
  · have hrow := Int.tmod_eq_emod_of_nonneg (a := -y) (b := 25) (by omega)
    rw [Int.neg_tmod] at hrow
    exact Or.inl (by omega)
  · exact Or.inr (Int.tmod_nonneg 25 hpos)

/-- Only a backspace takes a cursor back in front of the page. -/
theorem addressable_next (hcol : p.InColumns) (hfit : p.Addressable) {c : Byte} (hc : c ≠ 0x08) :
    (p.next c).Addressable := by
  obtain ⟨⟨hx, hx'⟩, hy⟩ := hcol
  unfold Place.Addressable Place.offset at hfit ⊢
  unfold Place.next
  rw [if_neg hc]
  by_cases hline : c = 0x0A ∨ c = 0x0D
  · rw [if_pos hline]
    have hrow := le_tmod_row (p.y + 1)
    split <;> dsimp only <;> omega
  rw [if_neg hline]
  by_cases hcolumn : p.x = 79
  · rw [if_pos hcolumn]
    split <;> dsimp only <;> omega
  · rw [if_neg hcolumn, Int.tmod_eq_of_lt (by omega) (by omega),
      Int.tdiv_eq_zero_of_lt (by omega) (by omega), Int.add_zero]
    have hrow := le_tmod_row p.y
    dsimp only
    omega

/-- **A text on the VGA page** without a backspace is on no backing page. -/
theorem not_onBacking_text {text : List Byte} (hcol : p.InColumns) (hfit : p.Addressable)
    (hplain : NoBackspace text) : ∀ a ∈ textStores 0 0 p text, ¬OnBacking a := by
  induction text generalizing p with
  | nil => exact fun a ha => nomatch ha
  | cons c text ih =>
    obtain ⟨hc, htext⟩ : (0x08 : Byte) ≠ c ∧ (0x08 : Byte) ∉ text := by
      simpa [NoBackspace] using hplain
    intro a ha
    rcases List.mem_append.mp ha with ha | ha
    · exact not_onBacking_char hcol hfit c a ha
    · exact ih (inColumns_next hcol c) (addressable_next hcol hfit hc.symm) htext a ha

end Stores

/-! ## Keys -/

/-- What is hidden in `k` has the same lines, cursors and backing pages in `k'`. -/
structure KeepsHidden (k k' : Kernel) : Prop where
  lines : ∀ t ≠ k.currTerminalVisible, k'.keyLines t = k.keyLines t
  places : ∀ t ≠ k.currTerminalVisible, k'.place t = k.place t
  pages : ∀ t ≠ k.currTerminalVisible, k'.page t.succ = k.page t.succ

/-- A key that is not Alt and a function key keeps what is hidden, and Ctrl and L homes the
visible cursor. -/
def StaysVisible (fs : FileSystem) (beyond : Nat → Byte) (c : Console) : SystemEvent → Prop
  | .scancode code junk frame =>
    let k' := (systemStep fs beyond c (.scancode code junk frame)).kernel
    (∀ t, c.keyboard.pressed beyond code ≠ .switchTo t) →
      KeepsHidden c.kernel k' ∧
        (c.keyboard.pressed beyond code = .clearScreen →
          k'.place c.kernel.currTerminalVisible = Place.origin)
  | .kernel _ => True

/-- Ctrl and L is pressed while the visible terminal is executing, or both cursors are home. -/
def ClearsOwn (beyond : Nat → Byte) (c : Console) : SystemEvent → Prop
  | .scancode code _ _ =>
    c.keyboard.pressed beyond code = .clearScreen →
      c.kernel.currTerminalExecuting = c.kernel.currTerminalVisible ∨
        c.kernel.place c.kernel.currTerminalExecuting = Place.origin ∧
          c.kernel.place c.kernel.currTerminalVisible = Place.origin
  | .kernel _ => True

/-- A key that is drawn finds the cursor where `putc` can compute its cell. -/
def CursorFits (beyond : Nat → Byte) (c : Console) : SystemEvent → Prop
  | .scancode code _ _ =>
    match c.keyboard.pressed beyond code with
    | .tab | .char _ => (c.kernel.place c.kernel.currTerminalVisible).Addressable
    | .modifier | .switchTo _ | .clearScreen => True
  | .kernel _ => True

section Keys
variable {fs : FileSystem} {beyond : Nat → Byte} {c : Console} {k k' : Kernel}

/-- Pages that are not stored on. -/
theorem page_of_stores {stores : List Word} (hstored : ∀ a ∉ stores, k'.video a = k.video a)
    (hbacking : ∀ a ∈ stores, ¬OnBacking a) (t : Fin 3) : k'.page t.succ = k.page t.succ := by
  funext o
  exact hstored _ fun ha => hbacking _ ha ⟨t, o, o.isLt, rfl⟩

/-- What is drawn and typed for the visible terminal. -/
theorem keepsHidden_of_drew {text : List Byte} {v : KeyLine}
    (hdrew : Drew k.currTerminalVisible 0 0 text k k')
    (hlines : k'.keyLines = Function.update k.keyLines k.currTerminalVisible v)
    (hbacking : ∀ a ∈ textStores 0 0 (k.place k.currTerminalVisible) text, ¬OnBacking a) :
    KeepsHidden k k' := by
  refine ⟨fun t ht => ?_, fun t ht => ?_, fun t _ => page_of_stores hdrew.stored hbacking t⟩
  · rw [hlines, Function.update_of_ne ht]
  · rw [hdrew.place, Function.update_of_ne ht]

theorem KeepsHidden.refl (k : Kernel) : KeepsHidden k k :=
  ⟨fun _ _ => rfl, fun _ _ => rfl, fun _ _ => rfl⟩

theorem keepsHidden_keyPressed (hcol : k.InColumns)
    (hfit : (k.place k.currTerminalVisible).Addressable) (input : Byte) :
    KeepsHidden k (keyPressed k input) := by
  refine keepsHidden_of_drew (drew_keyPressed k input) (keyLines_keyPressed k input) ?_
  unfold expandTab
  split
  · exact not_onBacking_text (hcol _) hfit (by decide)
  · intro a ha
    rw [textStores, textStores, List.append_nil] at ha
    exact not_onBacking_char (hcol _) hfit input a ha

theorem keepsHidden_tabPressed (hcol : k.InColumns)
    (hfit : (k.place k.currTerminalVisible).Addressable) : KeepsHidden k (tabPressed k) :=
  keepsHidden_of_drew (drew_tabPressed k) (keyLines_tabPressed k)
    (not_onBacking_text (hcol _) hfit (by decide))

/-- Ctrl and L homes the executing terminal's cursor, and nothing else that is hidden. -/
theorem place_ctrlLPressed (k : Kernel) :
    (ctrlLPressed k).place =
      Function.update k.place k.currTerminalExecuting Place.origin :=
  (drawn_ctrlLPressed k).1

theorem keepsHidden_ctrlLPressed
    (hplaces : ∀ t ≠ k.currTerminalVisible, (ctrlLPressed k).place t = k.place t) :
    KeepsHidden k (ctrlLPressed k) := by
  refine ⟨fun t ht => ?_, hplaces,
    fun t _ => page_of_stores (drawn_ctrlLPressed k).2 not_onBacking_clear t⟩
  rw [keyLines_ctrlLPressed, Function.update_of_ne ht]

/-- **Ctrl and L** keeps what is hidden and homes the visible cursor exactly if it clears its
own. -/
theorem ctrlLPressed_iff :
    KeepsHidden k (ctrlLPressed k) ∧ (ctrlLPressed k).place k.currTerminalVisible = Place.origin ↔
      k.currTerminalExecuting = k.currTerminalVisible ∨
        k.place k.currTerminalExecuting = Place.origin ∧
          k.place k.currTerminalVisible = Place.origin := by
  constructor
  · rintro ⟨hkeeps, hhome⟩
    by_cases hexec : k.currTerminalExecuting = k.currTerminalVisible
    · exact Or.inl hexec
    · -- the executing terminal is hidden, and has been homed
      have hkept := hkeeps.places _ hexec
      rw [place_ctrlLPressed, Function.update_self] at hkept
      rw [place_ctrlLPressed, Function.update_of_ne (Ne.symm hexec)] at hhome
      exact Or.inr ⟨hkept.symm, hhome⟩
  · intro hown
    refine ⟨keepsHidden_ctrlLPressed fun t ht => ?_, ?_⟩
    · rw [place_ctrlLPressed]
      by_cases hexec : t = k.currTerminalExecuting
      · subst hexec
        rcases hown with hsame | ⟨hhome, _⟩
        · exact absurd hsame ht
        · rw [Function.update_self, hhome]
      · exact Function.update_of_ne hexec _ _
    · rw [place_ctrlLPressed]
      by_cases hexec : k.currTerminalVisible = k.currTerminalExecuting
      · rw [hexec, Function.update_self]
      · rw [Function.update_of_ne hexec]
        rcases hown with hsame | ⟨_, hhome⟩
        · exact absurd hsame.symm hexec
        · exact hhome

/-- A scan code, in terms of what it asks for. -/
theorem staysVisible_scancode (code : Byte) (junk : Nat → Byte) (frame : Regs) :
    StaysVisible fs beyond c (.scancode code junk frame) ↔
      let action := c.keyboard.pressed beyond code
      let k' := action.perform fs c.kernel c.keyboard.sum junk frame
      (∀ t, action ≠ .switchTo t) → KeepsHidden c.kernel k' ∧
        (action = .clearScreen → k'.place c.kernel.currTerminalVisible = Place.origin) := by
  have hkernel : (systemStep fs beyond c (.scancode code junk frame)).kernel =
      (c.keyboard.pressed beyond code).perform fs c.kernel c.keyboard.sum junk frame :=
    keyboardHandler_kernel ..
  dsimp only [StaysVisible]
  rw [hkernel]

/-- **One key**, with its cursor where it can be drawn. -/
theorem staysVisible_of_clearsOwn (hcol : c.kernel.InColumns) {e : SystemEvent}
    (hown : ClearsOwn beyond c e) (hfit : CursorFits beyond c e) : StaysVisible fs beyond c e := by
  cases e with
  | kernel e => trivial
  | scancode code junk frame =>
    dsimp only [ClearsOwn, CursorFits] at hown hfit
    rw [staysVisible_scancode]
    dsimp only
    generalize c.keyboard.pressed beyond code = action at hown hfit ⊢
    cases action with
    | modifier => exact fun _ => ⟨.refl c.kernel, nofun⟩
    | switchTo t => exact fun hswitch => absurd rfl (hswitch t)
    | clearScreen =>
      intro _
      obtain ⟨hkeeps, hhome⟩ := ctrlLPressed_iff.mpr (hown rfl)
      exact ⟨hkeeps, fun _ => hhome⟩
    | tab => exact fun _ => ⟨keepsHidden_tabPressed hcol hfit, nofun⟩
    | char input =>
      refine fun _ => ⟨?_, nofun⟩
      show KeepsHidden c.kernel (if input = 0x08 ∧ c.keyboard.sum = 0 then c.kernel
        else keyPressed c.kernel input)
      split
      · exact .refl c.kernel
      · exact keepsHidden_keyPressed hcol hfit input

/-- And Ctrl and L must clear its own. -/
theorem clearsOwn_of_staysVisible {e : SystemEvent} (h : StaysVisible fs beyond c e) :
    ClearsOwn beyond c e := by
  cases e with
  | kernel e => trivial
  | scancode code junk frame =>
    intro hclear
    rw [staysVisible_scancode, hclear] at h
    obtain ⟨hkeeps, hhome⟩ := h fun t => nofun
    exact ctrlLPressed_iff.mp ⟨hkeeps, hhome rfl⟩

theorem inColumns_systemStep (h : c.kernel.InColumns) (e : SystemEvent) :
    (systemStep fs beyond c e).kernel.InColumns := by
  cases e with
  | kernel e => exact inColumns_step fs h e
  | scancode code junk frame =>
    have hdrawing : (drawingKernel beyond c (.scancode code junk frame)).InColumns :=
      h.of_place (place_drawingKernel beyond c _)
    exact hdrawing.drawn (consoleStep_drawn fs beyond c (.scancode code junk frame))

end Keys

/-- **Keys stay visible.**  In every run from booting: if Ctrl and L is pressed only while the
visible terminal is executing, or both cursors are home, and no cursor is so far in front of
its page that its offset is no `int`, no key but Alt and a function key changes what is
hidden, and Ctrl and L homes the visible cursor.  If that is so, Ctrl and L is only pressed
then. -/
theorem keysStayVisible_run (fs : FileSystem) (beyond : Nat → Byte) (h : Hardware)
    (junk : Nat → Byte) (regs : Regs) (es : List SystemEvent) :
    ((systemMachine fs beyond).Guarded
        (fun c e => ClearsOwn beyond c e ∧ CursorFits beyond c e)
        (bootedConsole fs h junk regs) es →
      (systemMachine fs beyond).Guarded (StaysVisible fs beyond)
        (bootedConsole fs h junk regs) es) ∧
    ((systemMachine fs beyond).Guarded (StaysVisible fs beyond) (bootedConsole fs h junk regs) es →
      (systemMachine fs beyond).Guarded (ClearsOwn beyond) (bootedConsole fs h junk regs) es) := by
  have hbooted : (bootedConsole fs h junk regs).kernel.InColumns := inColumns_booted fs h junk regs
  constructor
  · exact Machine.guarded_of_step (I := fun c => c.kernel.InColumns)
      (fun _ e hcol _ => inColumns_systemStep hcol e)
      (fun _ _ hcol hg => staysVisible_of_clearsOwn hcol hg.1 hg.2) hbooted
  · exact Machine.guarded_of_step (I := fun _ => True) (fun _ _ _ _ => trivial)
      (fun _ _ _ hstays => clearsOwn_of_staysVisible hstays) trivial

/-- A second terminal is opened and left, `a` is typed, and then Ctrl and L is pressed. -/
def clearedInBackground : List SystemEvent :=
  [.scancode 0x38 noJunk ⟨0x7FFD00, 0x7FFD40⟩, .scancode 0x3C noJunk ⟨0x7FFD00, 0x7FFD40⟩,
    .scancode 0x3B noJunk ⟨0x7FFD00, 0x7FFD40⟩, .scancode 0xB8 noJunk ⟨0x7FFD00, 0x7FFD40⟩,
    .scancode 0x1E noJunk ⟨0x7FFD00, 0x7FFD40⟩, .scancode 0x1D noJunk ⟨0x7FFD00, 0x7FFD40⟩]

/-- The second terminal is still executing: its cursor is homed, the visible one is not. -/
theorem staysVisible_clearedInBackground :
    ¬∀ (fs : FileSystem) (beyond : Nat → Byte) (h : Hardware) (junk : Nat → Byte) (regs : Regs)
      (es : List SystemEvent),
      (systemMachine fs beyond).Guarded (StaysVisible fs beyond) (bootedConsole fs h junk regs)
        es := by
  intro hall
  have hlast := (Machine.guarded_append.mp (hall shellImage noJunk zeroHardware noJunk
    ⟨0x7FFF00, 0x7FFF40⟩
    (clearedInBackground ++ [.scancode 0x26 noJunk ⟨0x7FFD00, 0x7FFD40⟩]))).2.1
  obtain ⟨_, hhome⟩ := hlast (by decide +kernel)
  exact absurd (hhome (by decide +kernel)) (by decide +kernel)

end LinuxLikeOS
