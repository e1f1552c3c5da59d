import LinuxLikeOS.NumberText
import Mathlib.Logic.Function.Iterate

/-! # The format of `printf`

`printf` goes through its format one byte at a time.  It is in the text, or inside a
directive, behind a `%` and any number of `#`s; there it takes an argument for each
conversion that it knows, and none for what it does not know.

A NUL ends the format in the text only.  Inside a directive it is one more character that
`printf` does not know: it goes on behind it.  So it reads no further than the NUL, and
returns the length of the format, exactly if the format does not end inside a directive
(`scansFormat_iff`).
-/
namespace LinuxLikeOS
open Numerals TerminatedText

/-! ## `printf` -/

/-- What a call of `printf` finds: the memory from `format` on, the words behind that on the
stack, the memory in which its strings are, and `conv_buf`, when so many words have been
taken. -/
structure PrintfCall where
  format : Nat → Byte
  arg : Nat → Word
  mem : Word → Byte
  convBuf : Nat → Nat → Byte

/-- Where `printf` is. -/
inductive PrintfMode
  /-- at the head of the `while` -/
  | text
  /-- at `format_char_switch` -/
  | directive (alternate : Bool)
  | returned (value : Word)

/-- A running call: `buf` is an index in the format, `esp` one of an argument. -/
structure PrintfState where
  kernel : Kernel
  buf : Nat
  esp : Nat
  mode : PrintfMode

/-- An argument has been converted and is drawn; if the conversion does not end, nor does
`printf`. -/
def PrintfState.print (s : PrintfState) : Option (List Byte) → PrintfState
  | some drawn => ⟨puts s.kernel drawn, s.buf + 1, s.esp + 1, .text⟩
  | none => s

/-- What `printf` does with the byte that it reads at `buf`. -/
def PrintfCall.scan (call : PrintfCall) (s : PrintfState) (c : Byte) : PrintfState :=
  let convBuf := call.convBuf s.esp
  let arg := call.arg s.esp
  match s.mode with
  | .text =>
    if c = 0 then { s with mode := .returned (BitVec.ofNat 32 s.buf) }
    else if c = 0x25 then { s with buf := s.buf + 1, mode := .directive false }
    else { s with kernel := putc s.kernel c, buf := s.buf + 1 }
  | .directive alternate =>
    if c = 0x25 then { s with kernel := putc s.kernel 0x25, buf := s.buf + 1, mode := .text }
    else if c = 0x23 then { s with buf := s.buf + 1, mode := .directive true }
    else if c = 0x78 then
      s.print (if alternate then alternateText convBuf arg else hexText convBuf arg)
    else if c = 0x75 then s.print (unsignedText convBuf arg)
    else if c = 0x64 then s.print (signedText convBuf arg)
    else if c = 0x63 then s.print (some [arg.setWidth 8])
    else if c = 0x73 then s.print (some (textAt fun i => call.mem (arg + BitVec.ofNat 32 i)))
    -- anything else, and the NUL
    else { s with buf := s.buf + 1, mode := .text }
  | .returned _ => s

/-- One step of `printf`: it reads `*buf`. -/
def PrintfCall.step (call : PrintfCall) (s : PrintfState) : PrintfState :=
  call.scan s (call.format s.buf)

/-- The call after `n` steps. -/
def PrintfCall.after (call : PrintfCall) (k : Kernel) (n : Nat) : PrintfState :=
  call.step^[n] ⟨k, 0, 0, .text⟩

/-! ## Formats -/

/-- Whether the next byte is inside a directive: behind a `%` in the text, and behind a `#`
inside. -/
def insideNext (inside : Bool) (c : Byte) : Bool := if inside then c == 0x23 else c == 0x25

/-- The format ends inside a directive. -/
def endsInside (format : List Byte) : Bool := format.foldl insideNext false

/-- `x`, `u`, `d`, `c` and `s`. -/
def isConversion (c : Byte) : Bool := [0x78, 0x75, 0x64, 0x63, 0x73].contains c

/-- How many conversions there are; flags belong to the conversion that they precede. -/
def conversions : Bool → List Byte → Nat
  | _, [] => 0
  | inside, c :: format =>
    (inside && isConversion c).toNat + conversions (insideNext inside c) format

/-- Memory holds the format and its NUL. -/
def PrintfCall.Holds (call : PrintfCall) (format : CString) : Prop :=
  ∀ i ≤ format.strlen, call.format i = format.get i

/-- As long as it has not returned, `printf` reads no byte behind the NUL; and it returns the
length of the format, with one argument taken for each conversion. -/
structure PrintfCall.ScansFormat (call : PrintfCall) (k : Kernel) (format : CString) : Prop where
  reads : ∀ n, (∀ v, (call.after k n).mode ≠ .returned v) → (call.after k n).buf ≤ format.strlen
  returns : ∃ n, (call.after k n).mode = .returned (BitVec.ofNat 32 format.strlen) ∧
    (call.after k n).esp = conversions false format.bytes

section Scanning
variable {call : PrintfCall} {k : Kernel} {format : CString}

/-- The call is running, inside a directive or not. -/
def PrintfMode.inside : PrintfMode → Option Bool
  | .text => some false
  | .directive _ => some true
  | .returned _ => none

/-- **A conversion** takes one argument: every number has a text. -/
theorem scan_conversion (call : PrintfCall) (k : Kernel) (buf esp : Nat) (alternate : Bool)
    {c : Byte} (hc : isConversion c = true) :
    ∃ drawn, call.scan ⟨k, buf, esp, .directive alternate⟩ c =
      ⟨puts k drawn, buf + 1, esp + 1, .text⟩ := by
  let s : PrintfState := ⟨k, buf, esp, .directive alternate⟩
  have hprint : ∀ drawn, s.print (some drawn) = ⟨puts k drawn, buf + 1, esp + 1, .text⟩ :=
    fun _ => rfl
  simp only [isConversion, List.contains_eq_mem, List.mem_cons, List.not_mem_nil, or_false,
    decide_eq_true_eq] at hc
  rcases hc with rfl | rfl | rfl | rfl | rfl
  · have hscan : call.scan s 0x78 = s.print (if alternate then
        alternateText (call.convBuf esp) (call.arg esp)
      else hexText (call.convBuf esp) (call.arg esp)) := rfl
    cases alternate with
    | true =>
      rw [if_pos rfl, alternateText_eq] at hscan
      exact ⟨_, hscan.trans (hprint _)⟩
    | false =>
      rw [if_neg Bool.false_ne_true, hexText, textAt_itoa (by decide) (by decide)] at hscan
      exact ⟨_, hscan.trans (hprint _)⟩
  · have hscan : call.scan s 0x75 = s.print (unsignedText (call.convBuf esp) (call.arg esp)) := rfl
    rw [unsignedText, textAt_itoa (by decide) (by decide)] at hscan
    exact ⟨_, hscan.trans (hprint _)⟩
  · have hscan : call.scan s 0x64 = s.print (signedText (call.convBuf esp) (call.arg esp)) := rfl
    rw [signedText_eq] at hscan
    exact ⟨_, hscan.trans (hprint _)⟩
  · exact ⟨_, hprint _⟩
  · exact ⟨_, hprint _⟩

/-- What is not known inside a directive is passed over, the NUL too. -/
theorem scan_unknown (call : PrintfCall) (k : Kernel) (buf esp : Nat) (alternate : Bool) {c : Byte}
    (hc : isConversion c = false) (hpercent : c ≠ 0x25) (hflag : c ≠ 0x23) :
    call.scan ⟨k, buf, esp, .directive alternate⟩ c = ⟨k, buf + 1, esp, .text⟩ := by
  simp only [isConversion, List.contains_eq_mem, List.mem_cons, List.not_mem_nil, or_false,
    decide_eq_false_iff_not, not_or] at hc
  obtain ⟨hx, hu, hd, hchar, hs⟩ := hc
  simp only [PrintfCall.scan, if_neg hpercent, if_neg hflag, if_neg hx, if_neg hu, if_neg hd,
    if_neg hchar, if_neg hs]

/-- **One byte** of the format that is not its NUL. -/
theorem scan_byte (call : PrintfCall) (s : PrintfState) {inside : Bool}
    (hs : s.mode.inside = some inside) {c : Byte} (hc : c ≠ 0) :
    (call.scan s c).buf = s.buf + 1 ∧ (call.scan s c).mode.inside = some (insideNext inside c) ∧
      (call.scan s c).esp = s.esp + (inside && isConversion c).toNat := by
  obtain ⟨k, buf, esp, mode⟩ := s
  cases mode with
  | returned v => cases hs
  | text =>
    obtain rfl : inside = false := (Option.some.inj hs).symm
    by_cases hpercent : c = 0x25
    · subst hpercent
      exact ⟨rfl, rfl, rfl⟩
    · have hscan : call.scan ⟨k, buf, esp, .text⟩ c = ⟨putc k c, buf + 1, esp, .text⟩ := by
        simp only [PrintfCall.scan, if_neg hc, if_neg hpercent]
      have hnext : insideNext false c = false := by simpa [insideNext] using hpercent
      rw [hscan, hnext]
      exact ⟨rfl, rfl, rfl⟩
  | directive alternate =>
    obtain rfl : inside = true := (Option.some.inj hs).symm
    by_cases hflag : c = 0x23
    · subst hflag
      exact ⟨rfl, rfl, rfl⟩
    · have hnext : insideNext true c = false := by simpa [insideNext] using hflag
      rw [hnext, Bool.true_and]
      cases hconversion : isConversion c with
      | true =>
        obtain ⟨drawn, hscan⟩ := scan_conversion call k buf esp alternate hconversion
        rw [hscan]
        exact ⟨rfl, rfl, rfl⟩
      | false =>
        by_cases hpercent : c = 0x25
        · subst hpercent
          exact ⟨rfl, rfl, rfl⟩
        · rw [scan_unknown call k buf esp alternate hconversion hpercent hflag]
          exact ⟨rfl, rfl, rfl⟩

/-- **The NUL** ends the text, and is passed over inside a directive. -/
theorem scan_nul (call : PrintfCall) (s : PrintfState) {inside : Bool}
    (hs : s.mode.inside = some inside) :
    call.scan s 0 = if inside then { s with buf := s.buf + 1, mode := .text }
      else { s with mode := .returned (BitVec.ofNat 32 s.buf) } := by
  obtain ⟨k, buf, esp, mode⟩ := s
  cases mode with
  | returned v => cases hs
  | text =>
    obtain rfl : inside = false := (Option.some.inj hs).symm
    rfl
  | directive alternate =>
    obtain rfl : inside = true := (Option.some.inj hs).symm
    exact scan_unknown call k buf esp alternate (by decide) (by decide) (by decide)

theorem after_succ (call : PrintfCall) (k : Kernel) (n : Nat) :
    call.after k (n + 1) = call.scan (call.after k n) (call.format (call.after k n).buf) := by
  rw [PrintfCall.after, Function.iterate_succ_apply']
  rfl

theorem conversions_append (inside : Bool) (l l' : List Byte) :
    conversions inside (l ++ l') =
      conversions inside l + conversions (l.foldl insideNext inside) l' := by
  induction l generalizing inside with
  | nil => rw [List.nil_append, conversions, Nat.zero_add, List.foldl_nil]
  | cons c l ih =>
    rw [List.cons_append, conversions, conversions, ih, List.foldl_cons, Nat.add_assoc]

/-- **After `n` bytes** of the format. -/
theorem after_bytes (hcall : call.Holds format) (k : Kernel) {n : Nat} (hn : n ≤ format.strlen) :
    (call.after k n).buf = n ∧
      (call.after k n).mode.inside = some (endsInside (format.bytes.take n)) ∧
      (call.after k n).esp = conversions false (format.bytes.take n) := by
  induction n with
  | zero => exact ⟨rfl, rfl, rfl⟩
  | succ n ih =>
    obtain ⟨hbuf, hmode, hesp⟩ := ih (by omega)
    have hlt : n < format.bytes.length := hn
    have hread : call.format n = format.bytes[n] :=
      (hcall n (by omega)).trans (List.getD_eq_getElem _ _ hlt)
    have hnext : call.after k (n + 1) = call.scan (call.after k n) format.bytes[n] := by
      rw [after_succ, hbuf, hread]
    have hne : format.bytes[n] ≠ 0 := fun hzero => format.noNul (hzero ▸ List.getElem_mem hlt)
    obtain ⟨hbuf', hmode', hesp'⟩ := scan_byte call (call.after k n) hmode hne
    have htake : format.bytes.take (n + 1) = format.bytes.take n ++ [format.bytes[n]] :=
      List.take_succ_eq_append_getElem hlt
    rw [hnext, htake]
    refine ⟨by rw [hbuf', hbuf], ?_, ?_⟩
    · rw [hmode', endsInside, endsInside, List.foldl_append]
      rfl
    · rw [hesp', hesp, conversions_append]
      rfl

/-- The step after the last byte of the format. -/
theorem after_end (hcall : call.Holds format) (k : Kernel) :
    call.after k (format.strlen + 1) =
      if endsInside format.bytes then
        { call.after k format.strlen with buf := format.strlen + 1, mode := .text }
      else
        { call.after k format.strlen with
          buf := format.strlen, mode := .returned (BitVec.ofNat 32 format.strlen) } := by
  obtain ⟨hbuf, hmode, -⟩ := after_bytes hcall k (Nat.le_refl format.strlen)
  have hall : format.bytes.take format.strlen = format.bytes := List.take_length
  have hnul : call.format format.strlen = 0 :=
    (hcall _ (Nat.le_refl _)).trans (List.getD_eq_default _ _ (Nat.le_refl _))
  rw [hall] at hmode
  rw [after_succ, hbuf, hnul, scan_nul call _ hmode, hbuf]

/-- Once it has returned, nothing happens. -/
theorem after_returned {n : Nat} {v : Word} (h : (call.after k n).mode = .returned v) (m : Nat) :
    call.after k (n + m) = call.after k n := by
  induction m with
  | zero => rfl
  | succ m ih =>
    rw [← Nat.add_assoc, after_succ, ih, PrintfCall.scan, h]

end Scanning

/-- **Format scanning**: whatever is behind the format in memory, `printf` scans it well exactly
if it does not end inside a directive. -/
theorem scansFormat_iff {call : PrintfCall} {format : CString} (hcall : call.Holds format)
    (k : Kernel) : call.ScansFormat k format ↔ endsInside format.bytes = false := by
  obtain ⟨hbuf, -, hesp⟩ := after_bytes hcall k (Nat.le_refl format.strlen)
  have hall : format.bytes.take format.strlen = format.bytes := List.take_length
  have hend := after_end hcall k
  rw [hall] at hesp
  constructor
  · intro h
    by_contra hinside
    -- it goes on in the text, one byte behind the NUL
    rw [if_pos (by simpa using hinside)] at hend
    have hread := h.reads (format.strlen + 1) fun v hv => by
      rw [hend] at hv
      cases hv
    rw [hend] at hread
    exact absurd hread (Nat.not_succ_le_self _)
  · intro htext
    rw [if_neg (by simp [htext])] at hend
    have hmode : (call.after k (format.strlen + 1)).mode =
        .returned (BitVec.ofNat 32 format.strlen) := by
      rw [hend]
    refine ⟨fun n hrunning => ?_, format.strlen + 1, hmode, by rw [hend]; exact hesp⟩
    rcases Nat.lt_or_ge format.strlen n with hbehind | hn
    · obtain ⟨m, rfl⟩ := Nat.exists_eq_add_of_le hbehind
      rw [after_returned hmode] at hrunning
      exact absurd hmode (hrunning _)
    · exact (after_bytes hcall k hn).1.le.trans hn

/-- A call of `printf` for the number `v`, with nothing but NULs behind its format. -/
def printfCall (format : List Byte) (v : Word) : PrintfCall where
  format i := format.getD i 0
  arg _ := v
  mem _ := 0
  convBuf _ _ := 0

/-- `"%d%%"`. -/
theorem scansFormat_percent :
    (printfCall [0x25, 0x64, 0x25, 0x25] 0).ScansFormat (powerOn zeroHardware)
        ⟨[0x25, 0x64, 0x25, 0x25], by decide⟩ ↔
      endsInside [0x25, 0x64, 0x25, 0x25] = false :=
  scansFormat_iff (fun _ _ => rfl) (powerOn zeroHardware)

/-- Of `"%"`, the byte behind the NUL is read. -/
theorem overread_percent :
    ¬∀ (call : PrintfCall) (k : Kernel) (format : CString), call.Holds format →
      call.ScansFormat k format := by
  intro hall
  have hread := (hall (printfCall [0x25] 0) (powerOn zeroHardware) ⟨[0x25], by decide⟩
    fun _ _ => rfl).reads 2 fun v hv => nomatch hv
  exact absurd hread (by decide)

end LinuxLikeOS
