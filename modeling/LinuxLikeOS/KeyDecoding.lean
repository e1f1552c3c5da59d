import LinuxLikeOS.LineEditing

/-! # Decoding keys

What should the keys give?  The reference here (`Decoder`) knows which key each make and
break code belongs to, and which keys are held: a letter is a capital if Caps Lock is on or a
shift key is held, and not both; another printing key gives its upper symbol while a shift key
is held; Caps Lock changes when it is pressed, not when it repeats; the keys without a
character give none.  Ctrl and L is a command, and a backspace needs something to erase.

`keyboard_handler` differs from it in two ways.  It has one flag for the two shift keys, so
releasing one ends Shift while the other is held.  And every make code that nothing else
catches goes through `lookupcodes`: Esc, the function keys, the other locks, codes of no key,
and Caps Lock when it repeats.  There are no others (`keysDecoded_iff`).
-/
namespace LinuxLikeOS
open Transition

/-! ## The keys -/

/-- A key. -/
inductive Keycap
  /-- a letter, by its small form -/
  | letter (c : Byte)
  /-- another printing key, by what it gives without and with Shift -/
  | symbol (plain shifted : Byte)
  | tab
  | enter
  | backspace
  | leftShift
  | rightShift
  | control
  | alternate
  | capsLock
  /-- Esc, a function key, another lock, or no key -/
  | silent
  deriving DecidableEq

/-- Letter keys. -/
def letterCaps (small : String) : List Keycap := (ascii small.toList).map .letter

/-- Printing keys. -/
def symbolCaps (plain shifted : String) : List Keycap :=
  List.zipWith .symbol (ascii plain.toList) (ascii shifted.toList)

/-- The keys by their make codes.  Those of the number pad are the printing keys of their
symbols. -/
def keyboardLayout : List Keycap :=
  [[.silent, .silent], symbolCaps "1234567890-=" "!@#$%^&*()_+", [.backspace, .tab],
    letterCaps "qwertyuiop", symbolCaps "[]" "\x7b\x7d", [.enter, .control],
    letterCaps "asdfghjkl", symbolCaps ";'`" ":\"~", [.leftShift], symbolCaps "\\" "|",
    letterCaps "zxcvbnm", symbolCaps ",./" "<>?", [.rightShift], symbolCaps "*" "*",
    [.alternate], symbolCaps " " " ", [.capsLock],
    -- F1 to F10, Num Lock and Scroll Lock
    List.replicate 12 .silent, symbolCaps "789-456+1230." "&*(_$%^+!@#)>"].flatten

/-- The key with this make code. -/
def keycap (code : Byte) : Keycap := keyboardLayout.getD code.toNat .silent

/-- The key that is pressed, or repeats. -/
def makeOf (code : Byte) : Option Keycap := if code < 0x80 then some (keycap code) else none

/-- The key that is released. -/
def breakOf (code : Byte) : Option Keycap :=
  if code < 0x80 then none else some (keycap (code - 0x80))

/-! ## The reference -/

/-- Which keys are held, whether Caps Lock is on, and how much a backspace can erase. -/
structure Decoder where
  leftShift : Bool
  rightShift : Bool
  control : Bool
  capsHeld : Bool
  capsLock : Bool
  erasable : Int

/-- Whether a key is held after a code: from its make code to its break code. -/
def heldAfter (key : Keycap) (code : Byte) (before : Bool) : Bool :=
  if makeOf code = some key then true else if breakOf code = some key then false else before

namespace Decoder
variable (s : Decoder)

/-- No key is held. -/
def initial : Decoder := ⟨false, false, false, false, false, 0⟩

/-- Some shift key is held. -/
def shifted : Bool := s.leftShift || s.rightShift

/-- The characters that a key gives. -/
def keyChars : Keycap → List Byte
  -- Ctrl and L is a command
  | .letter c =>
    if s.control ∧ c = 0x6C then [] else [if s.capsLock ^^ s.shifted then c - 32 else c]
  | .symbol plain upper => [if s.shifted then upper else plain]
  | .tab => [0x09]
  | .enter => [0x0A]
  | .backspace => if s.erasable = 0 then [] else [0x08]
  | .leftShift | .rightShift | .control | .alternate | .capsLock | .silent => []

/-- What can be erased after a key; a tab is shown as four spaces. -/
def keyErasable : Keycap → Int
  | .letter c => if s.control ∧ c = 0x6C then 0 else s.erasable + 1
  | .symbol .. => s.erasable + 1
  | .tab => s.erasable + 4
  | .enter => 0
  | .backspace => if s.erasable = 0 then 0 else s.erasable - 1
  | .leftShift | .rightShift | .control | .alternate | .capsLock | .silent => s.erasable

/-- The characters that a code gives. -/
def chars (code : Byte) : List Byte := (makeOf code).elim [] s.keyChars

/-- The state after a code. -/
def after (code : Byte) : Decoder where
  leftShift := heldAfter .leftShift code s.leftShift
  rightShift := heldAfter .rightShift code s.rightShift
  control := heldAfter .control code s.control
  capsHeld := heldAfter .capsLock code s.capsHeld
  capsLock := if makeOf code = some .capsLock ∧ s.capsHeld = false then !s.capsLock else s.capsLock
  erasable := (makeOf code).elim s.erasable s.keyErasable

end Decoder

/-! ## The driver -/

namespace Keyboard
variable (kb : Keyboard)

/-- The characters that `keyboard_handler` hands to `getChar`. -/
def handed (beyond : Nat → Byte) (code : Byte) : List Byte :=
  match kb.pressed beyond code with
  | .tab => [lookup beyond code]
  | .char c => if c = 0x08 ∧ kb.sum = 0 then [] else [c]
  | .modifier | .switchTo _ | .clearScreen => []

/-- `keyboard_handler` reads `lookupcodes[code]`. -/
def ReadsTable (beyond : Nat → Byte) (code : Byte) : Prop :=
  match kb.pressed beyond code with
  | .tab | .char _ => True
  | .modifier | .switchTo _ | .clearScreen => False

end Keyboard

/-- The driver gives what the reference gives, and stays in its table. -/
structure KeyDecoded (beyond : Nat → Byte) (kb : Keyboard) (s : Decoder) (code : Byte) : Prop where
  chars : kb.handed beyond code = s.chars code
  inTable : kb.ReadsTable beyond code → code.toNat < lookupcodes.length

/-- Where Shift makes a difference the driver's flag is up exactly while some shift key is
held; Caps Lock does not repeat; and a key without a character switches terminals. -/
def Keycap.Decodable (kb : Keyboard) (s : Decoder) (code : Byte) : Keycap → Prop
  | .letter c => s.control = true ∧ c = 0x6C ∨ kb.shift = s.shifted
  | .symbol plain upper => plain = upper ∨ kb.shift = s.shifted
  | .capsLock => s.capsHeld = false
  | .silent => kb.alt = true ∧ (code = 0x3B ∨ code = 0x3C ∨ code = 0x3D)
  | _ => True

/-- The code is a break code, or the make code of such a key. -/
def KeyDecodable (kb : Keyboard) (s : Decoder) (code : Byte) : Prop :=
  ∀ key, makeOf code = some key → key.Decodable kb s code

/-- The driver and the reference agree about Ctrl and Caps Lock. -/
structure Tracks (kb : Keyboard) (s : Decoder) : Prop where
  control : kb.ctrl = s.control
  capsHeld : kb.capReady = !s.capsHeld
  capsLock : kb.cap = s.capsLock

/-! ## The driver's tables -/

/-- What the driver makes of a key that has a character or is a modifier. -/
def Keycap.action (kb : Keyboard) : Keycap → KeyAction
  | .letter c =>
    if kb.ctrl ∧ c = 0x6C then .clearScreen else .char (if kb.cap = kb.shift then c else c - 32)
  | .symbol plain upper => .char (if kb.shift then upper else plain)
  | .tab => .tab
  | .enter => .char 0x0A
  | .backspace => .char 0x08
  | .leftShift | .rightShift | .control | .alternate | .silent => .modifier
  | .capsLock => if kb.capReady then .modifier else .char 0x3A

/-- The driver's branches and tables have the key where the keyboard has it. -/
def Keycap.InTables (code : Byte) : Keycap → Prop
  | .letter c => isLetterCode code = true ∧ lookupcodes[code.toNat]? = some c ∧
      (c = 0x6C ↔ code = 0x26)
  | .symbol plain upper => isLetterCode code = false ∧
      code ∉ ([0x1D, 0x38, 0x0F, 0x3A, 0x2A, 0x36, 0x3B, 0x3C, 0x3D] : List Byte) ∧
      lookupcodes[code.toNat]? = some plain ∧ shifthelper plain = upper
  | .tab => code = 0x0F
  | .enter => code = 0x1C
  | .backspace => code = 0x0E
  | .leftShift => code = 0x2A
  | .rightShift => code = 0x36
  | .control => code = 0x1D
  | .alternate => code = 0x38
  | .capsLock => code = 0x3A
  | .silent => isLetterCode code = false ∧
      code ∉ ([0x1D, 0x38, 0x0F, 0x3A, 0x2A, 0x36] : List Byte) ∧
      lookupcodes[code.toNat]? ≠ some 0x08

instance (code : Byte) : (key : Keycap) → Decidable (key.InTables code)
  | .letter _ | .symbol .. | .silent => inferInstanceAs (Decidable (_ ∧ _))
  | .tab | .enter | .backspace | .leftShift | .rightShift | .control | .alternate | .capsLock =>
    inferInstanceAs (Decidable (_ = _))

/-- **The tables are right**, as far as they go. -/
theorem keycap_inTables : ∀ code : Byte, code < 0x80 → (keycap code).InTables code := by
  decide +kernel

theorem keycap_lt (code : Byte) (h : keycap code ≠ .silent) :
    code.toNat < lookupcodes.length := by
  by_contra hlt
  have hlength : keyboardLayout.length ≤ lookupcodes.length := by decide +kernel
  rw [keycap, List.getD_eq_getElem?_getD, List.getElem?_eq_none (by omega)] at h
  exact h rfl

/-- A printing key gives neither a backspace nor a new line. -/
def Keycap.Prints : Keycap → Prop
  | .letter c => (c ≠ 0x08 ∧ c ≠ 0x0A) ∧ c - 32 ≠ 0x08 ∧ c - 32 ≠ 0x0A
  | .symbol plain upper => (plain ≠ 0x08 ∧ plain ≠ 0x0A) ∧ upper ≠ 0x08 ∧ upper ≠ 0x0A
  | _ => True

instance : (key : Keycap) → Decidable key.Prints
  | .letter _ | .symbol .. => inferInstanceAs (Decidable (_ ∧ _))
  | .tab | .enter | .backspace | .leftShift | .rightShift | .control | .alternate | .capsLock
  | .silent => isTrue trivial

theorem keycap_prints (code : Byte) : (keycap code).Prints := by
  have hall : ∀ key ∈ keyboardLayout, key.Prints := by decide +kernel
  rw [keycap, List.getD_eq_getElem?_getD]
  cases hkey : keyboardLayout[code.toNat]? with
  | none => trivial
  | some key => exact hall key (List.mem_of_getElem? hkey)

section Tables
variable {kb : Keyboard} {s : Decoder} {beyond : Nat → Byte} {code : Byte}

theorem lookup_of_get {c : Byte} (h : lookupcodes[code.toNat]? = some c) :
    lookup beyond code = c := by
  rw [lookup, List.getD_eq_getElem?_getD, h, Option.getD_some]

/-- A letter goes through the table, unless it is Ctrl and L. -/
theorem pressed_letter (kb : Keyboard) (beyond : Nat → Byte) (h : isLetterCode code = true) :
    kb.pressed beyond code =
      if kb.ctrl ∧ code = 0x26 then .clearScreen
      else .char (if kb.cap = kb.shift then lookup beyond code else lookup beyond code - 32) := by
  have hcodes : ∀ code : Byte, isLetterCode code = true → code < 0x80 ∧
      code ∉ ([0x1D, 0x38, 0x0F, 0x3A, 0x2A, 0x36, 0x3B, 0x3C, 0x3D] : List Byte) := by
    decide +kernel
  obtain ⟨hlt, hcaught⟩ := hcodes code h
  simp only [List.mem_cons, List.not_mem_nil, or_false, not_or] at hcaught
  obtain ⟨hctrl, halt, htab, hcaps, hleft, hright, hf1, hf2, hf3⟩ := hcaught
  simp only [Keyboard.pressed, hlt, hctrl, halt, htab, hcaps, hleft, hright, hf1, hf2, hf3, h,
    false_and, and_false, or_self, if_true, if_false]

/-- And so does whatever nothing else catches. -/
theorem pressed_other (kb : Keyboard) (beyond : Nat → Byte) (hlt : code < 0x80)
    (hletter : isLetterCode code = false)
    (hcaught : code ∉ ([0x1D, 0x38, 0x0F, 0x3A, 0x2A, 0x36] : List Byte))
    (hswitch : ¬(kb.alt = true ∧ (code = 0x3B ∨ code = 0x3C ∨ code = 0x3D))) :
    kb.pressed beyond code =
      .char (if kb.shift then shifthelper (lookup beyond code) else lookup beyond code) := by
  have hl : code ≠ 0x26 := by
    rintro rfl
    exact absurd hletter (by decide)
  simp only [List.mem_cons, List.not_mem_nil, or_false, not_or] at hcaught
  obtain ⟨hctrl, halt, htab, hcaps, hleft, hright⟩ := hcaught
  simp only [and_or_left, not_or] at hswitch
  obtain ⟨hf1, hf2, hf3⟩ := hswitch
  simp only [Keyboard.pressed, hlt, hctrl, halt, htab, hcaps, hleft, hright, hf1, hf2, hf3, hl,
    hletter, Bool.false_eq_true, false_and, and_false, or_self, if_true, if_false]

/-- A function key, with Alt. -/
theorem pressed_switch (beyond : Nat → Byte) (halt : kb.alt = true)
    (hcode : code = 0x3B ∨ code = 0x3C ∨ code = 0x3D) :
    ∃ t, kb.pressed beyond code = .switchTo t := by
  rcases hcode with rfl | rfl | rfl
  · exact ⟨0, by simp [Keyboard.pressed, halt]⟩
  · exact ⟨1, by simp [Keyboard.pressed, halt]⟩
  · exact ⟨2, by simp [Keyboard.pressed, halt]⟩

/-- Caps Lock goes through the table when it repeats. -/
theorem pressed_capsLock (kb : Keyboard) (beyond : Nat → Byte) :
    kb.pressed beyond 0x3A = if kb.capReady then .modifier else .char 0x3A := by
  have hlookup : lookup beyond 0x3A = 0x3A := rfl
  have hshifted : shifthelper 0x3A = 0x3A := by decide
  have hctrl : ¬(kb.ctrl = true ∧ (0x3A : Byte) = 0x26) := fun h => absurd h.2 (by decide)
  have hswitch : ∀ c : Byte, 0x3A ≠ c → ¬(kb.alt = true ∧ 0x3A = c) := fun _ hc h => hc h.2
  unfold Keyboard.pressed
  rw [if_pos (by decide), if_neg (by decide), if_neg (by decide), if_neg hctrl,
    if_neg (by decide), if_neg (by decide : ¬((0x3A : Byte) = 0x2A ∨ (0x3A : Byte) = 0x36)),
    if_neg (hswitch 0x3B (by decide)), if_neg (hswitch 0x3C (by decide)),
    if_neg (hswitch 0x3D (by decide)), if_neg (by decide : ¬isLetterCode 0x3A = true), hlookup,
    hshifted, ite_self]
  simp only [true_and]

/-- A key that Shift does not change. -/
theorem pressed_fixed (kb : Keyboard) (beyond : Nat → Byte) {c : Byte} (hlt : code < 0x80)
    (hletter : isLetterCode code = false)
    (hcaught : code ∉ ([0x1D, 0x38, 0x0F, 0x3A, 0x2A, 0x36, 0x3B, 0x3C, 0x3D] : List Byte))
    (hlookup : lookup beyond code = c) (hfixed : shifthelper c = c) :
    kb.pressed beyond code = .char c := by
  have hswitch : ¬(kb.alt = true ∧ (code = 0x3B ∨ code = 0x3C ∨ code = 0x3D)) := by
    rintro ⟨_, rfl | rfl | rfl⟩ <;> exact hcaught (by decide)
  rw [pressed_other kb beyond hlt hletter
    (fun hmem => hcaught (List.mem_append_left [0x3B, 0x3C, 0x3D] hmem)) hswitch, hlookup, hfixed,
    ite_self]

/-- **What the driver makes of a key**, if the key has a character or is a modifier. -/
theorem pressed_make (kb : Keyboard) (beyond : Nat → Byte) (hlt : code < 0x80) {key : Keycap}
    (hkey : keycap code = key) (hsilent : key ≠ .silent) :
    kb.pressed beyond code = key.action kb := by
  have hcap := keycap_inTables code hlt
  rw [hkey] at hcap
  cases key with
  | letter c =>
    obtain ⟨hletter, hget, hl⟩ := hcap
    rw [pressed_letter kb beyond hletter, lookup_of_get hget]
    exact if_congr (and_congr_right fun _ => hl.symm) rfl rfl
  | symbol plain upper =>
    obtain ⟨hletter, hcaught, hget, hupper⟩ := hcap
    have hswitch : ¬(kb.alt = true ∧ (code = 0x3B ∨ code = 0x3C ∨ code = 0x3D)) := by
      rintro ⟨_, rfl | rfl | rfl⟩ <;> exact hcaught (by decide)
    rw [pressed_other kb beyond hlt hletter
      (fun hmem => hcaught (List.mem_append_left [0x3B, 0x3C, 0x3D] hmem)) hswitch,
      lookup_of_get hget, hupper, Keycap.action]
  | tab =>
    obtain rfl : code = 0x0F := hcap
    simp [Keyboard.pressed, Keycap.action]
  | enter =>
    obtain rfl : code = 0x1C := hcap
    exact pressed_fixed kb beyond (by decide) (by decide) (by decide) rfl (by decide)
  | backspace =>
    obtain rfl : code = 0x0E := hcap
    exact pressed_fixed kb beyond (by decide) (by decide) (by decide) rfl (by decide)
  | leftShift =>
    obtain rfl : code = 0x2A := hcap
    simp [Keyboard.pressed, Keycap.action]
  | rightShift =>
    obtain rfl : code = 0x36 := hcap
    simp [Keyboard.pressed, Keycap.action]
  | control =>
    obtain rfl : code = 0x1D := hcap
    simp [Keyboard.pressed, Keycap.action]
  | alternate =>
    obtain rfl : code = 0x38 := hcap
    simp [Keyboard.pressed, Keycap.action]
  | capsLock =>
    obtain rfl : code = 0x3A := hcap
    exact pressed_capsLock kb beyond
  | silent => exact absurd rfl hsilent

/-! ## One code -/

theorem handed_char {c : Byte} (hpressed : kb.pressed beyond code = .char c) (hc : c ≠ 0x08) :
    kb.handed beyond code = [c] := by
  rw [Keyboard.handed, hpressed]
  exact if_neg fun h => hc h.1

/-- A code gives what its key gives. -/
theorem keyDecoded_make {key : Keycap} (hlt : code < 0x80) (hkey : keycap code = key)
    (hsilent : key ≠ .silent) :
    KeyDecoded beyond kb s code ↔ kb.handed beyond code = s.keyChars key := by
  have hmake : makeOf code = some key := (if_pos hlt).trans (congrArg some hkey)
  have hchars : s.chars code = s.keyChars key := by
    rw [Decoder.chars, hmake, Option.elim_some]
  rw [← hchars]
  exact ⟨fun h => h.chars, fun h => ⟨h, fun _ => keycap_lt code (hkey ▸ hsilent)⟩⟩

/-- A letter is a capital in the driver as in the reference, if the shift flag is right. -/
theorem keyDecoded_letter (h : Tracks kb s) {c : Byte} (hlt : code < 0x80)
    (hkey : keycap code = .letter c) :
    KeyDecoded beyond kb s code ↔ s.control = true ∧ c = 0x6C ∨ kb.shift = s.shifted := by
  have hpressed := pressed_make kb beyond hlt hkey nofun
  have hprints := keycap_prints code
  rw [hkey] at hprints
  obtain ⟨⟨hback, _⟩, hback', _⟩ := hprints
  rw [Keycap.action, h.control, h.capsLock] at hpressed
  rw [keyDecoded_make hlt hkey nofun, Decoder.keyChars]
  by_cases hclear : s.control = true ∧ c = 0x6C
  · rw [if_pos hclear] at hpressed
    rw [if_pos hclear, Keyboard.handed, hpressed]
    exact iff_of_true rfl (Or.inl hclear)
  · rw [if_neg hclear] at hpressed
    rw [handed_char hpressed (by split; exact hback; exact hback'), if_neg hclear,
      or_iff_right hclear, List.singleton_inj]
    have hne : ∀ c : Byte, c - 32 ≠ c := by decide +kernel
    have hcapital := hne c
    generalize c - 32 = capital at hcapital
    cases s.capsLock <;> cases kb.shift <;> cases s.shifted <;> simp [hcapital, hcapital.symm]

/-- Another printing key gives the right symbol, if the shift flag is right or it has one. -/
theorem keyDecoded_symbol {plain upper : Byte} (hlt : code < 0x80)
    (hkey : keycap code = .symbol plain upper) :
    KeyDecoded beyond kb s code ↔ plain = upper ∨ kb.shift = s.shifted := by
  have hpressed := pressed_make kb beyond hlt hkey nofun
  have hprints := keycap_prints code
  rw [hkey] at hprints
  obtain ⟨⟨hback, _⟩, hback', _⟩ := hprints
  rw [Keycap.action] at hpressed
  rw [keyDecoded_make hlt hkey nofun, Decoder.keyChars,
    handed_char hpressed (by split; exact hback'; exact hback), List.singleton_inj]
  cases kb.shift <;> cases s.shifted <;> simp [eq_comm]

/-- Caps Lock gives no character, if it does not repeat. -/
theorem keyDecoded_capsLock (h : Tracks kb s) (hlt : code < 0x80) (hkey : keycap code = .capsLock) :
    KeyDecoded beyond kb s code ↔ s.capsHeld = false := by
  have hpressed := pressed_make kb beyond hlt hkey (by decide)
  rw [Keycap.action, h.capsHeld] at hpressed
  rw [keyDecoded_make hlt hkey (by decide), Decoder.keyChars]
  cases hheld : s.capsHeld with
  | false =>
    rw [hheld] at hpressed
    rw [Keyboard.handed, hpressed]
    exact iff_of_true rfl rfl
  | true =>
    rw [hheld] at hpressed
    rw [handed_char hpressed (by decide)]
    exact iff_of_false (by decide) (by decide)

/-- A key without a character goes through the table, unless it switches terminals. -/
theorem keyDecoded_silent (hlt : code < 0x80) (hkey : keycap code = .silent) :
    KeyDecoded beyond kb s code ↔
      kb.alt = true ∧ (code = 0x3B ∨ code = 0x3C ∨ code = 0x3D) := by
  have hcap := keycap_inTables code hlt
  rw [hkey] at hcap
  obtain ⟨hletter, hcaught, hback⟩ := hcap
  have hchars : s.chars code = [] := by
    rw [Decoder.chars, makeOf, if_pos hlt, hkey]
    rfl
  by_cases hswitch : kb.alt = true ∧ (code = 0x3B ∨ code = 0x3C ∨ code = 0x3D)
  · obtain ⟨t, hpressed⟩ := pressed_switch beyond hswitch.1 hswitch.2
    refine iff_of_true ⟨?_, fun hreads => ?_⟩ hswitch
    · rw [Keyboard.handed, hpressed, hchars]
    · rw [Keyboard.ReadsTable, hpressed] at hreads
      exact hreads.elim
  · refine iff_of_false (fun hdecoded => ?_) hswitch
    have hpressed := pressed_other kb beyond hlt hletter hcaught hswitch
    have hin := hdecoded.inTable (by rw [Keyboard.ReadsTable, hpressed]; trivial)
    -- what is in the table is no backspace, so a character is handed over
    have hget : lookupcodes[code.toNat]? = some lookupcodes[code.toNat] :=
      List.getElem?_eq_getElem hin
    rw [lookup_of_get hget] at hpressed
    have hne : lookupcodes[code.toNat] ≠ 0x08 := fun heq => hback (heq ▸ hget)
    have hhanded := handed_char hpressed (by
      split
      · exact fun heq => hne (shifthelper_eq_backspace.mp heq)
      · exact hne)
    rw [hdecoded.chars, hchars] at hhanded
    cases hhanded

theorem keyDecodable_make {key : Keycap} (hlt : code < 0x80) (hkey : keycap code = key) :
    KeyDecodable kb s code ↔ key.Decodable kb s code := by
  have hmake : makeOf code = some key := (if_pos hlt).trans (congrArg some hkey)
  unfold KeyDecodable
  rw [hmake]
  exact ⟨fun h => h key rfl, fun h _ heq => Option.some_inj.mp heq ▸ h⟩

/-- **One code.** -/
theorem keyDecoded_iff_decodable (h : Tracks kb s) (hsum : kb.sum = s.erasable) (code : Byte) :
    KeyDecoded beyond kb s code ↔ KeyDecodable kb s code := by
  by_cases hlt : code < 0x80
  · rw [keyDecodable_make hlt rfl]
    have hquiet : ∀ key : Keycap, keycap code = key → key ≠ .silent → key.action kb = .modifier →
        s.keyChars key = [] → KeyDecoded beyond kb s code := by
      intro key hkey hsilent haction hchars
      rw [keyDecoded_make hlt hkey hsilent, Keyboard.handed,
        pressed_make kb beyond hlt hkey hsilent, haction, hchars]
    cases hkey : keycap code with
    | letter c => exact keyDecoded_letter h hlt hkey
    | symbol plain upper => exact keyDecoded_symbol hlt hkey
    | capsLock => exact keyDecoded_capsLock h hlt hkey
    | silent => exact keyDecoded_silent hlt hkey
    | leftShift | rightShift | control | alternate =>
      exact iff_of_true (hquiet _ hkey (by decide) rfl rfl) trivial
    | tab =>
      refine iff_of_true ?_ trivial
      have hcode := keycap_inTables code hlt
      rw [hkey] at hcode
      obtain rfl : code = 0x0F := hcode
      rw [keyDecoded_make hlt hkey (by decide), Keyboard.handed,
        pressed_make kb beyond hlt hkey (by decide)]
      rfl
    | enter =>
      refine iff_of_true ?_ trivial
      rw [keyDecoded_make hlt hkey (by decide)]
      exact handed_char (pressed_make kb beyond hlt hkey (by decide)) (by decide)
    | backspace =>
      refine iff_of_true ?_ trivial
      rw [keyDecoded_make hlt hkey (by decide), Keyboard.handed,
        pressed_make kb beyond hlt hkey (by decide), Decoder.keyChars, Keycap.action, hsum]
      simp only [true_and]
  · have hmake : makeOf code = none := if_neg hlt
    have hpressed : kb.pressed beyond code = .modifier := if_neg hlt
    refine iff_of_true ⟨?_, fun hreads => ?_⟩ fun key hkey => ?_
    · rw [Keyboard.handed, hpressed, Decoder.chars, hmake]
      rfl
    · rw [Keyboard.ReadsTable, hpressed] at hreads
      exact hreads.elim
    · rw [hmake] at hkey
      cases hkey

end Tables

/-! ## The driver's flags -/

/-- What is counted in `sum` for a scan code. -/
def KeyAction.count (sum : Int) : KeyAction → Int
  | .modifier | .switchTo _ => sum
  | .clearScreen => 0
  | .tab => sum + 4
  | .char c =>
    if c = 0x08 then if sum ≠ 0 then sum - 1 else sum else if c = 0x0A then 0 else sum + 1

section Flags
variable {fs : FileSystem} {beyond : Nat → Byte} {kb : Keyboard} {s : Decoder} {k : Kernel}
  {junk : Nat → Byte} {frame : Regs}

/-- **What the handler counts.** -/
theorem keyboardHandler_sum (code : Byte) :
    (keyboardHandler fs beyond kb k code junk frame).1.sum =
      (kb.pressed beyond code).count kb.sum := by
  have hline : ∀ c : Byte, shifthelper c = 0x0A ↔ c = 0x0A :=
    fun _ => shifthelper_eq_iff (by decide +kernel)
  unfold keyboardHandler Keyboard.pressed
  simp only [apply_ite Prod.fst, apply_ite Keyboard.sum, apply_ite (KeyAction.count kb.sum)]
  refine if_congr Iff.rfl (if_congr Iff.rfl rfl (if_congr Iff.rfl rfl (if_congr Iff.rfl rfl
    (if_congr Iff.rfl rfl (if_congr Iff.rfl rfl (if_congr Iff.rfl rfl (if_congr Iff.rfl rfl
      (if_congr Iff.rfl rfl (if_congr Iff.rfl rfl ?_))))))))) rfl
  by_cases hcode : isLetterCode code = true
  · obtain ⟨hback, hline'⟩ := letter_lookup beyond hcode
    rw [if_pos hcode, if_pos hcode]
    by_cases hsmall : kb.cap = kb.shift
    · rw [if_pos hsmall]
      exact ((if_neg hback.1).trans (if_neg hline'.1)).symm
    · rw [if_neg hsmall]
      exact ((if_neg hback.2).trans (if_neg hline'.2)).symm
  · rw [if_neg hcode, if_neg hcode]
    by_cases hshift : kb.shift = true
    · simp only [KeyAction.count, if_pos hshift, shifthelper_eq_backspace, hline]
    · simp only [KeyAction.count, if_neg hshift]

theorem keyboardHandler_ctrl (code : Byte) :
    (keyboardHandler fs beyond kb k code junk frame).1.ctrl =
      if code = 0x1D then true else if code = 0x9D then false else kb.ctrl := by
  unfold keyboardHandler
  simp only [apply_ite Prod.fst, apply_ite Keyboard.ctrl, ite_self]
  by_cases hlt : code < 0x80
  · have hbreak : code ≠ 0x9D := by
      rintro rfl
      exact absurd hlt (by decide)
    rw [if_pos hlt, if_neg hbreak]
  · have hmake : code ≠ 0x1D := by
      rintro rfl
      exact hlt (by decide)
    rw [if_neg hlt, if_neg hmake]
    by_cases hbreak : code = 0x9D
    · rw [if_pos hbreak, decide_eq_true hbreak, Bool.not_true, Bool.and_false]
    · rw [if_neg hbreak, decide_eq_false hbreak, Bool.not_false, Bool.and_true]

theorem keyboardHandler_cap (code : Byte) :
    (keyboardHandler fs beyond kb k code junk frame).1.cap =
      if code = 0x3A ∧ kb.capReady then !kb.cap else kb.cap := by
  unfold keyboardHandler
  simp only [apply_ite Prod.fst, apply_ite Keyboard.cap, ite_self]
  by_cases hcode : code = 0x3A
  · subst hcode
    simp
  · simp only [hcode, false_and, if_false, ite_self]

theorem keyboardHandler_capReady (code : Byte) :
    (keyboardHandler fs beyond kb k code junk frame).1.capReady =
      if code = 0x3A then false else if code = 0xBA then true else kb.capReady := by
  unfold keyboardHandler
  simp only [apply_ite Prod.fst, apply_ite Keyboard.capReady, ite_self]
  by_cases hcode : code = 0x3A
  · subst hcode
    cases kb.capReady <;> simp
  simp only [hcode, false_and, if_false, ite_self]
  by_cases hlt : code < 0x80
  · have hbreak : code ≠ 0xBA := by
      rintro rfl
      exact absurd hlt (by decide)
    rw [if_pos hlt, if_neg hbreak]
  · rw [if_neg hlt]
    by_cases hbreak : code = 0xBA
    · rw [if_pos hbreak, decide_eq_true hbreak, Bool.or_true]
    · rw [if_neg hbreak, decide_eq_false hbreak, Bool.or_false]

/-- The make code of a key that has one. -/
theorem makeOf_iff {key : Keycap} {make : Byte} (hmake : makeOf make = some key)
    (honly : ∀ code, key.InTables code → code = make) (code : Byte) :
    makeOf code = some key ↔ code = make := by
  refine ⟨fun h => ?_, fun h => h ▸ hmake⟩
  unfold makeOf at h
  split at h
  · rename_i hlt
    exact honly code (Option.some_inj.mp h ▸ keycap_inTables code hlt)
  · cases h

/-- Its break code. -/
theorem breakOf_iff {key : Keycap} {make : Byte} (hlt : make < 0x80)
    (hkey : ∀ code, makeOf code = some key ↔ code = make) (code : Byte) :
    breakOf code = some key ↔ code = make + 0x80 := by
  have hcode : ¬code < 0x80 → breakOf code = makeOf (code - 0x80) := by
    intro hbreak
    rw [breakOf, if_neg hbreak, makeOf, if_pos (by bv_omega)]
  by_cases hbreak : code < 0x80
  · rw [breakOf, if_pos hbreak]
    refine iff_of_false nofun ?_
    rintro rfl
    bv_omega
  · rw [hcode hbreak, hkey]
    constructor
    · rintro rfl
      bv_omega
    · rintro rfl
      bv_omega

theorem makeOf_control (code : Byte) : makeOf code = some .control ↔ code = 0x1D := by
  have honly : ∀ code, Keycap.control.InTables code → code = 0x1D := fun _ h => h
  exact makeOf_iff (by decide) honly code

theorem makeOf_capsLock (code : Byte) : makeOf code = some .capsLock ↔ code = 0x3A := by
  have honly : ∀ code, Keycap.capsLock.InTables code → code = 0x3A := fun _ h => h
  exact makeOf_iff (by decide) honly code

/-- A key is held from its make code to its break code. -/
theorem heldAfter_eq {key : Keycap} {make : Byte} (hlt : make < 0x80)
    (hkey : ∀ code, makeOf code = some key ↔ code = make) (code : Byte) (before : Bool) :
    heldAfter key code before =
      if code = make then true else if code = make + 0x80 then false else before :=
  if_congr (hkey code) rfl (if_congr (breakOf_iff hlt hkey code) rfl rfl)

/-- **Ctrl and Caps Lock** are tracked, whatever the codes. -/
theorem Tracks.after (h : Tracks kb s) (code : Byte) :
    Tracks (keyboardHandler fs beyond kb k code junk frame).1 (s.after code) where
  control := by
    rw [keyboardHandler_ctrl, Decoder.after, heldAfter_eq (by decide) makeOf_control, h.control]
    rfl
  capsHeld := by
    rw [keyboardHandler_capReady, Decoder.after, heldAfter_eq (by decide) makeOf_capsLock,
      h.capsHeld]
    simp only [apply_ite Bool.not]
    rfl
  capsLock := by
    rw [keyboardHandler_cap, h.capsLock, h.capsHeld]
    exact if_congr (and_congr (makeOf_capsLock code).symm (by simp)) rfl rfl

theorem count_plain {c : Byte} (hback : c ≠ 0x08) (hline : c ≠ 0x0A) (sum : Int) :
    (KeyAction.char c).count sum = sum + 1 :=
  (if_neg hback).trans (if_neg hline)

/-- What is counted for a key. -/
theorem count_action (h : Tracks kb s) (hsum : kb.sum = s.erasable) {key : Keycap}
    (hprints : key.Prints) (hcaps : key = .capsLock → s.capsHeld = false) :
    (key.action kb).count kb.sum = s.keyErasable key := by
  rw [hsum]
  cases key with
  | letter c =>
    obtain ⟨⟨hback, hline⟩, hback', hline'⟩ := hprints
    rw [Keycap.action, Decoder.keyErasable, h.control]
    by_cases hclear : s.control = true ∧ c = 0x6C
    · rw [if_pos hclear, if_pos hclear]
      rfl
    · rw [if_neg hclear, if_neg hclear]
      split
      · exact count_plain hback hline _
      · exact count_plain hback' hline' _
  | symbol plain upper =>
    obtain ⟨⟨hback, hline⟩, hback', hline'⟩ := hprints
    rw [Keycap.action]
    split
    · exact count_plain hback' hline' _
    · exact count_plain hback hline _
  | backspace =>
    show (if s.erasable ≠ 0 then s.erasable - 1 else s.erasable) =
      if s.erasable = 0 then 0 else s.erasable - 1
    by_cases hzero : s.erasable = 0
    · rw [if_neg (not_not.mpr hzero), if_pos hzero, hzero]
    · rw [if_pos hzero, if_neg hzero]
  | capsLock =>
    rw [Keycap.action, h.capsHeld, hcaps rfl]
    rfl
  | tab | enter | leftShift | rightShift | control | alternate | silent => rfl

/-- **The count** is tracked by codes that can be decoded. -/
theorem sum_after (h : Tracks kb s) (hsum : kb.sum = s.erasable) {code : Byte}
    (hdec : KeyDecodable kb s code) :
    (keyboardHandler fs beyond kb k code junk frame).1.sum = (s.after code).erasable := by
  rw [keyboardHandler_sum]
  by_cases hlt : code < 0x80
  · have hmake : makeOf code = some (keycap code) := if_pos hlt
    have hafter : (s.after code).erasable = s.keyErasable (keycap code) := by
      rw [Decoder.after, hmake, Option.elim_some]
    have hkey := hdec _ hmake
    rw [hafter]
    by_cases hsilent : keycap code = .silent
    · rw [hsilent] at hkey ⊢
      obtain ⟨t, hpressed⟩ := pressed_switch beyond hkey.1 hkey.2
      rw [hpressed]
      exact hsum
    · rw [pressed_make kb beyond hlt rfl hsilent]
      refine count_action h hsum (keycap_prints code) fun hcaps => ?_
      rw [hcaps] at hkey
      exact hkey
  · have hpressed : kb.pressed beyond code = .modifier := if_neg hlt
    have hmake : makeOf code = none := if_neg hlt
    rw [hpressed, Decoder.after, hmake]
    exact hsum

end Flags

/-! ## Runs -/

/-- **What is handed over** is typed in the visible terminal's line, which Ctrl and L drops. -/
theorem keyLines_keyboardHandler (fs : FileSystem) (beyond : Nat → Byte) (kb : Keyboard)
    (k : Kernel) (code : Byte) (junk : Nat → Byte) (frame : Regs) :
    (keyboardHandler fs beyond kb k code junk frame).2.keyLines =
      Function.update k.keyLines k.currTerminalVisible
        ((kb.handed beyond code).foldl KeyLine.typed
          (if kb.pressed beyond code = .clearScreen then k.visible.keyLine.blanked
            else k.visible.keyLine)) := by
  have htab : kb.pressed beyond code = .tab → lookup beyond code = 0x09 := by
    intro hpressed
    by_cases hcode : code = 0x0F
    · rw [hcode]
      rfl
    · simp only [Keyboard.pressed, apply_ite (fun action => action = KeyAction.tab), if_neg hcode,
        reduceCtorEq, ite_self] at hpressed
  rw [keyboardHandler_kernel, Keyboard.handed]
  generalize kb.pressed beyond code = action at htab ⊢
  have hsame : Function.update k.keyLines k.currTerminalVisible k.visible.keyLine = k.keyLines :=
    Function.update_eq_self ..
  cases action with
  | modifier => exact hsame.symm
  | switchTo t => exact (keyLines_switchTerminal fs t junk frame).trans hsame.symm
  | clearScreen => exact keyLines_ctrlLPressed k
  | tab =>
    rw [htab rfl]
    exact keyLines_tabPressed k
  | char c =>
    by_cases hignored : c = 0x08 ∧ kb.sum = 0
    · simp only [KeyAction.perform, if_pos hignored]
      exact hsame.symm
    · simp only [KeyAction.perform, if_neg hignored]
      exact keyLines_keyPressed k c

/-- The reference hears every scan code. -/
def recordDecoder (_ : Console) (e : SystemEvent) (s : Decoder) : Decoder :=
  match e with
  | .scancode code _ _ => s.after code
  | .kernel _ => s

/-- The system and the reference. -/
def decodingMachine (fs : FileSystem) (beyond : Nat → Byte) :
    Machine (Console × Decoder) SystemEvent :=
  (systemMachine fs beyond).withHistory recordDecoder

/-- A scan code is decoded. -/
def EventDecoded (beyond : Nat → Byte) (c : Console × Decoder) : SystemEvent → Prop
  | .scancode code _ _ => KeyDecoded beyond c.1.keyboard c.2 code
  | .kernel _ => True

/-- A scan code can be decoded. -/
def EventDecodable (c : Console × Decoder) : SystemEvent → Prop
  | .scancode code _ _ => KeyDecodable c.1.keyboard c.2 code
  | .kernel _ => True

section Steps
variable {fs : FileSystem} {beyond : Nat → Byte} {c : Console × Decoder}

theorem tracks_step (h : Tracks c.1.keyboard c.2) (e : SystemEvent) :
    Tracks ((decodingMachine fs beyond).step c e).1.keyboard
      ((decodingMachine fs beyond).step c e).2 := by
  cases e with
  | scancode code junk frame => exact h.after code
  | kernel e => exact h

theorem sum_step (h : Tracks c.1.keyboard c.2) (hsum : c.1.keyboard.sum = c.2.erasable)
    {e : SystemEvent} (he : EventDecodable c e) :
    ((decodingMachine fs beyond).step c e).1.keyboard.sum =
      ((decodingMachine fs beyond).step c e).2.erasable := by
  cases e with
  | scancode code junk frame => exact sum_after h hsum he
  | kernel e => exact hsum

theorem eventDecoded_iff (h : Tracks c.1.keyboard c.2) (hsum : c.1.keyboard.sum = c.2.erasable)
    (e : SystemEvent) : EventDecoded beyond c e ↔ EventDecodable c e := by
  cases e with
  | scancode code junk frame => exact keyDecoded_iff_decodable h hsum code
  | kernel e => exact Iff.rfl

end Steps

/-- **Keys are decoded** as the reference decodes them, and Caps Lock changes with each press,
exactly in the runs in which the shift flag is right where it makes a difference, Caps Lock
does not repeat, and no key without a character is pressed but to switch terminals. -/
theorem keysDecoded_iff (fs : FileSystem) (beyond : Nat → Byte) (h : Hardware) (junk : Nat → Byte)
    (regs : Regs) (es : List SystemEvent) :
    (decodingMachine fs beyond).Always (fun c => c.1.keyboard.cap = c.2.capsLock)
          (bootedConsole fs h junk regs, Decoder.initial) es ∧
        (decodingMachine fs beyond).Guarded (EventDecoded beyond)
          (bootedConsole fs h junk regs, Decoder.initial) es ↔
      (decodingMachine fs beyond).Guarded EventDecodable
        (bootedConsole fs h junk regs, Decoder.initial) es := by
  have hbooted : Tracks (bootedConsole fs h junk regs).keyboard Decoder.initial := ⟨rfl, rfl, rfl⟩
  have hcaps : (decodingMachine fs beyond).Always (fun c => c.1.keyboard.cap = c.2.capsLock)
      (bootedConsole fs h junk regs, Decoder.initial) es :=
    (Machine.always_of_step (I := fun c => Tracks c.1.keyboard c.2)
      (fun _ e htracks _ => tracks_step htracks e) hbooted (Machine.guarded_true ..)).mono
      fun _ htracks => htracks.capsLock
  rw [and_iff_right hcaps]
  exact Machine.guarded_iff_of_step
    (I := fun c => Tracks c.1.keyboard c.2 ∧ c.1.keyboard.sum = c.2.erasable)
    (fun _ e hc => eventDecoded_iff hc.1 hc.2 e)
    (fun _ e hc he => ⟨tracks_step hc.1 e, sum_step hc.1 hc.2 he⟩) ⟨hbooted, rfl⟩

/-- Both shift keys are pressed and one is released. -/
def oneShiftReleased : List SystemEvent :=
  [.scancode 0x2A noJunk ⟨0, 0⟩, .scancode 0x36 noJunk ⟨0, 0⟩, .scancode 0xAA noJunk ⟨0, 0⟩]

/-- The key of `1` gives `1`, and not `!`. -/
theorem keysDecoded_oneShiftReleased :
    ¬∀ (fs : FileSystem) (beyond : Nat → Byte) (h : Hardware) (junk : Nat → Byte) (regs : Regs)
      (es : List SystemEvent),
      (decodingMachine fs beyond).Guarded (EventDecoded beyond)
        (bootedConsole fs h junk regs, Decoder.initial) es := by
  intro hall
  have hlast := (Machine.guarded_append.mp (hall shellImage noJunk zeroHardware noJunk
    ⟨0x7FFF00, 0x7FFF40⟩ (oneShiftReleased ++ [.scancode 0x02 noJunk ⟨0, 0⟩]))).2.1
  exact absurd hlast.chars (by decide +kernel)

end LinuxLikeOS
