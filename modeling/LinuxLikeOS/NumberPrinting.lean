import LinuxLikeOS.FormatScan

/-! # Numbers that are printed

What `itoa` stores and what `printf` draws of a number is its numeral: read back, it is the
number.  This is so of `itoa` for every base for which there are digits, and of `printf`
wherever in a format the directive is.
-/
namespace LinuxLikeOS
open Numerals

/-- `itoa` stores `v` as a canonical numeral with its NUL, in at most 33 bytes. -/
def StoresNumeral (v radix : Word) (buf : Nat → Byte) : Prop :=
  ∃ text, CanonicalNumeral radix.toNat v.toNat text ∧ text.length + 1 ≤ 33 ∧
    itoa v buf radix = some (overlay (text ++ [0]) buf)

/-- The directive is at `buf`, in the text of the format. -/
def PrintfCall.At (call : PrintfCall) (s : PrintfState) (directive : List Byte) : Prop :=
  s.mode = .text ∧ ∀ i (h : i < directive.length), call.format (s.buf + i) = directive[i]

/-- `printf` goes through the directive, takes one argument and draws a text that is as
`Good` says. -/
def PrintfCall.Prints (call : PrintfCall) (s : PrintfState) (directive : List Byte)
    (Good : List Byte → Prop) : Prop :=
  ∃ text, Good text ∧ call.step^[directive.length] s =
    ⟨puts s.kernel text, s.buf + directive.length, s.esp + 1, .text⟩

section Printing
variable {call : PrintfCall} {s : PrintfState}

theorem storesNumeral {radix : Word} (hlow : 2 ≤ radix.toNat) (hhigh : radix.toNat ≤ 36) (v : Word)
    (buf : Nat → Byte) : StoresNumeral v radix buf :=
  ⟨numeralText radix.toNat v.toNat, canonical_numeralText hlow hhigh v.toNat,
    Nat.succ_le_succ (length_numeralText_le hlow v.isLt), itoa_eq hlow hhigh v buf⟩

/-- The `%` of a directive. -/
theorem step_percent {k : Kernel} {buf : Nat} (hpercent : call.format buf = 0x25) (esp : Nat) :
    call.step ⟨k, buf, esp, .text⟩ = ⟨k, buf + 1, esp, .directive false⟩ := by
  rw [PrintfCall.step, hpercent]
  rfl

/-- `"%#x"`. -/
theorem prints_alternate (hat : call.At s [0x25, 0x23, 0x78]) :
    call.Prints s [0x25, 0x23, 0x78] fun text =>
      text.length = 8 ∧ readNumeral 16 text = some (call.arg s.esp).toNat := by
  obtain ⟨k, buf, esp, mode⟩ := s
  obtain ⟨hmode, hbytes⟩ := hat
  obtain rfl : mode = .text := hmode
  have hpercent : call.format buf = 0x25 := hbytes 0 (by decide)
  have hflag : call.format (buf + 1) = 0x23 := hbytes 1 (by decide)
  have hx : call.format (buf + 2) = 0x78 := hbytes 2 (by decide)
  have hlen := length_hexNumeral_le (call.arg esp)
  have hfirst := step_percent (k := k) hpercent esp
  have hsecond : call.step ⟨k, buf + 1, esp, .directive false⟩ =
      ⟨k, buf + 2, esp, .directive true⟩ := by
    rw [PrintfCall.step, hflag]
    rfl
  have hthird : call.step ⟨k, buf + 2, esp, .directive true⟩ =
      (⟨k, buf + 2, esp, .directive true⟩ : PrintfState).print
        (alternateText (call.convBuf esp) (call.arg esp)) := by
    rw [PrintfCall.step, hx]
    rfl
  refine ⟨_, ⟨?_, readNumeral_padded (by decide) (by decide)
    (8 - (numeralText 16 (call.arg esp).toNat).length) _⟩, ?_⟩
  · rw [List.length_append, List.length_replicate]
    exact Nat.sub_add_cancel hlen
  · show call.step (call.step (call.step _)) = _
    rw [hfirst, hsecond, hthird, alternateText_eq]
    rfl

/-- `"%d"`. -/
theorem prints_signed (hat : call.At s [0x25, 0x64]) :
    call.Prints s [0x25, 0x64] fun text => readSigned text = some (call.arg s.esp).toInt := by
  obtain ⟨k, buf, esp, mode⟩ := s
  obtain ⟨hmode, hbytes⟩ := hat
  obtain rfl : mode = .text := hmode
  have hpercent : call.format buf = 0x25 := hbytes 0 (by decide)
  have hd : call.format (buf + 1) = 0x64 := hbytes 1 (by decide)
  have hfirst := step_percent (k := k) hpercent esp
  have hsecond : call.step ⟨k, buf + 1, esp, .directive false⟩ =
      (⟨k, buf + 1, esp, .directive false⟩ : PrintfState).print
        (signedText (call.convBuf esp) (call.arg esp)) := by
    rw [PrintfCall.step, hd]
    rfl
  refine ⟨_, readSigned_signed (call.arg esp), ?_⟩
  show call.step (call.step _) = _
  rw [hfirst, hsecond, signedText_eq]
  rfl

end Printing

/-- **Number printing.**  `itoa` stores every number to every base from 2 to 36 as its
canonical numeral; `%#x` draws eight hexadecimal digits, and `%d` the signed number. -/
theorem numbers_printed :
    (∀ v radix buf, 2 ≤ radix.toNat → radix.toNat ≤ 36 → StoresNumeral v radix buf) ∧
    (∀ (call : PrintfCall) (s : PrintfState), call.At s [0x25, 0x23, 0x78] →
      call.Prints s [0x25, 0x23, 0x78] fun text =>
        text.length = 8 ∧ readNumeral 16 text = some (call.arg s.esp).toNat) ∧
    ∀ (call : PrintfCall) (s : PrintfState), call.At s [0x25, 0x64] →
      call.Prints s [0x25, 0x64] fun text => readSigned text = some (call.arg s.esp).toInt :=
  ⟨fun v _ buf hlow hhigh => storesNumeral hlow hhigh v buf, fun _ _ => prints_alternate,
    fun _ _ => prints_signed⟩

theorem at_printfCall (k : Kernel) (directive : List Byte) (v : Word) :
    (printfCall directive v).At ⟨k, 0, 0, .text⟩ directive := by
  refine ⟨rfl, fun i hi => ?_⟩
  rw [Nat.zero_add]
  exact List.getD_eq_getElem _ _ hi

/-- 2026 to the base 16, and with `"%#x"`; and the least `int32_t` with `"%d"`. -/
theorem numbers_printed_2026 :
    StoresNumeral 2026 16 (fun _ => 0) ∧
    (printfCall [0x25, 0x23, 0x78] 2026).Prints ⟨powerOn zeroHardware, 0, 0, .text⟩
      [0x25, 0x23, 0x78] (fun text => text.length = 8 ∧ readNumeral 16 text = some 2026) ∧
    (printfCall [0x25, 0x64] 0x80000000).Prints ⟨powerOn zeroHardware, 0, 0, .text⟩ [0x25, 0x64]
      fun text => readSigned text = some (-2147483648) :=
  ⟨numbers_printed.1 2026 16 _ (by decide) (by decide),
    numbers_printed.2.1 _ _ (at_printfCall _ [0x25, 0x23, 0x78] 2026),
    numbers_printed.2.2 _ _ (at_printfCall _ [0x25, 0x64] 0x80000000)⟩

end LinuxLikeOS
