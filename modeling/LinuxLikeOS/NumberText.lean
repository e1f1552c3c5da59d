import LinuxLikeOS.DirectoryReads
import LinuxLikeOS.Execute
import LinuxLikeOS.Numerals

/-! # Numbers as text

`itoa` divides, stores the digits as they come, and has `strrev` reverse them in place.
`printf` has it write to an array of its own: for `%d` behind a minus sign, and for `%#x`
at index 8, where zeros are then put in front of the digits.

Memory from a pointer on is a function of the index.  `itoa_eq` says what is in it
afterwards: the numeral, a NUL, and behind that what was there before.
-/
namespace LinuxLikeOS
open CountedLoop Numerals TerminatedText

/-! ## `itoa` -/

/-- `lookup`, a static array of `itoa`. -/
def itoaLookup : List Byte := ascii "0123456789ABCDEFGHIJKLMNOPQRSTUVWXYZ".toList

/-- `strlen` of the string at the start of `s`, if it ends in the address space. -/
def strlen (s : Nat → Byte) : Option Nat := strlenWithin s (2 ^ 32)

/-- What `puts` draws of the string at the start of `s`. -/
def textAt (s : Nat → Byte) : List Byte := text 0 s (2 ^ 32) 0

/-- `strrev`. -/
def strrev (s : Nat → Byte) : Option (Nat → Byte) :=
  (strlen s).bind fun length => reverseLoop (length + 1) s 0 (length - 1)

/-- The loop of `itoa`, with `fuel` tests left and `newbuf` at index `n`.  `radix` is converted
to unsigned, as `newval` is. -/
def itoaLoop (radix : Word) : Nat → Word → (Nat → Byte) → Nat → Option ((Nat → Byte) × Nat)
  | 0, _, _, _ => none
  | fuel + 1, newval, buf, n =>
    if 0 < newval then
      itoaLoop radix fuel (newval / radix)
        (Function.update buf n (itoaLookup.getD (newval % radix).toNat 0)) (n + 1)
    else some (buf, n)

/-- `itoa`; an `unsigned` has at most 32 digits, so 33 tests end the loop if it ends. -/
def itoa (value : Word) (buf : Nat → Byte) (radix : Word) : Option (Nat → Byte) :=
  if value = 0 then some (Function.update (Function.update buf 0 0x30) 1 0)
  else (itoaLoop radix 33 value buf 0).bind fun (buf, n) => strrev (Function.update buf n 0)

/-! ## The number conversions of `printf` -/

/-- `%x`, without `#`: `itoa(v, conv_buf, 16)`. -/
def hexText (convBuf : Nat → Byte) (v : Word) : Option (List Byte) :=
  (itoa v convBuf 16).map textAt

/-- `while (i < 8) conv_buf[i++] = '0'`. -/
def padZeros (convBuf : Nat → Byte) (start : Nat) : Nat → Byte :=
  (List.range' start (8 - start)).foldl (fun mem i => Function.update mem i 0x30) convBuf

/-- `%#x`: the digits are at index 8, and what is drawn begins at the index that is their
number. -/
def alternateText (convBuf : Nat → Byte) (v : Word) : Option (List Byte) := do
  let digits ← itoa v (fun i => convBuf (8 + i)) 16
  let startingIndex ← strlen digits
  let convBuf := padZeros (fun i => if i < 8 then convBuf i else digits (i - 8)) startingIndex
  some (textAt fun i => convBuf (startingIndex + i))

/-- `%u`. -/
def unsignedText (convBuf : Nat → Byte) (v : Word) : Option (List Byte) :=
  (itoa v convBuf 10).map textAt

/-- `%d`; the negation wraps. -/
def signedText (convBuf : Nat → Byte) (v : Word) : Option (List Byte) :=
  if v.slt 0 then
    let convBuf := Function.update convBuf 0 0x2D
    (itoa (-v) (fun i => convBuf (1 + i)) 10).map fun digits =>
      textAt fun i => if i < 1 then convBuf i else digits (i - 1)
  else (itoa v convBuf 10).map textAt

/-! ## Strings in memory -/

section Strings
variable {l : List Byte} {s : Nat → Byte}

theorem overlay_of_lt {i : Nat} (hi : i < l.length) (s : Nat → Byte) : overlay l s i = l[i] :=
  List.getD_eq_getElem _ _ hi

theorem overlay_append_of_lt {i : Nat} (hi : i < l.length) (l' : List Byte) (s : Nat → Byte) :
    overlay (l ++ l') s i = l[i] := by
  rw [overlay, List.getD_append _ _ _ _ hi, List.getD_eq_getElem _ _ hi]

theorem overlay_append (l l' : List Byte) (s : Nat → Byte) (i : Nat) :
    overlay (l ++ l') s (l.length + i) = overlay l' (fun i => s (l.length + i)) i := by
  rw [overlay, List.getD_append_right _ _ _ _ (Nat.le_add_right _ _), Nat.add_sub_cancel_left]
  rfl

/-- Storing behind what is there. -/
theorem update_overlay (l : List Byte) (s : Nat → Byte) (c : Byte) :
    Function.update (overlay l s) l.length c = overlay (l ++ [c]) s := by
  funext i
  rw [Function.update_apply]
  by_cases hi : i = l.length
  · subst hi
    rw [if_pos rfl]
    exact ((overlay_append l [c] s 0).trans rfl).symm
  · rw [if_neg hi]
    by_cases hlt : i < l.length
    · rw [overlay_append_of_lt hlt, overlay_of_lt hlt]
    · have hover : (l ++ [c]).length ≤ i := by
        rw [List.length_append, List.length_singleton]
        omega
      rw [overlay, overlay, List.getD_eq_default _ _ (by omega), List.getD_eq_default _ _ hover]

/-- A string that is stored ends at its NUL. -/
theorem strlen_overlay (hnul : 0 ∉ l) (hlen : l.length < 2 ^ 32) (s : Nat → Byte) :
    strlen (overlay (l ++ [0]) s) = some l.length := by
  have hcount : leading (fun j => overlay (l ++ [0]) s j != 0) (2 ^ 32) 0 = l.length := by
    refine leading_eq_iff.mpr ⟨hlen.le, fun j hj => ?_, fun _ => ?_⟩
    · have hentry : overlay (l ++ [0]) s (0 + j) = l[j] := by
        rw [Nat.zero_add, overlay_append_of_lt hj]
      rw [hentry]
      simpa using fun hzero : l[j] = 0 => hnul (hzero ▸ List.getElem_mem hj)
    · have hend := overlay_append l [0] s 0
      rw [Nat.add_zero] at hend
      rw [Nat.zero_add, hend]
      rfl
  rw [strlen, strlenWithin, hcount, if_pos hlen]

theorem textAt_overlay (hnul : 0 ∉ l) (hlen : l.length < 2 ^ 32) (s : Nat → Byte) :
    textAt (overlay (l ++ [0]) s) = l := by
  have hlist : text 0 (fun j => l.getD j 0) (2 ^ 32) 0 = l := text_getD hnul hlen.le
  have hsame : text 0 (fun j => l.getD j 0) (2 ^ 32) 0 = textAt (overlay (l ++ [0]) s) := by
    refine text_congr_upTo fun j _ hj => ?_
    rw [hlist] at hj
    rw [Nat.zero_add]
    rcases Nat.lt_or_eq_of_le hj with hlt | rfl
    · rw [overlay_append_of_lt hlt, List.getD_eq_getElem _ _ hlt]
    · rw [List.getD_eq_default _ _ (Nat.le_refl _)]
      exact (overlay_append l [0] s 0).symm
  exact hsame.symm.trans hlist

/-- `strrev` of a string that is stored. -/
theorem strrev_overlay (hnul : 0 ∉ l) (hlen : l.length < 2 ^ 32) (s : Nat → Byte) :
    strrev (overlay (l ++ [0]) s) = some (overlay (l.reverse ++ [0]) s) := by
  rw [strrev, strlen_overlay hnul hlen, Option.bind_some]
  exact reverseLoop_list l [0] (by omega) s

end Strings

/-! ## What is stored -/

/-- The character of a digit. -/
def digit (d : Nat) : Byte := itoaLookup.getD d 0

/-- The numeral of `v`, in characters. -/
def numeralText (radix v : Nat) : List Byte := (numeral radix v).map digit

section Digits
variable {radix v : Nat}

/-- Each digit has a character of its own. -/
theorem idxOf_digit {d : Nat} (hd : d < 36) : itoaLookup.idxOf? (digit d) = some d := by
  have hall : ∀ d < 36, itoaLookup.idxOf? (digit d) = some d := by decide
  exact hall d hd

theorem digit_ne_of_notMem {c : Byte} (hc : c ∉ itoaLookup) {d : Nat} (hd : d < 36) :
    digit d ≠ c := by
  rintro rfl
  have hlength : itoaLookup.length = 36 := rfl
  refine hc ?_
  rw [digit, List.getD_eq_getElem _ _ (by omega)]
  exact List.getElem_mem _

theorem nul_notMem_digits {l : List Nat} (hl : ∀ d ∈ l, d < 36) : 0 ∉ l.map digit := by
  intro hmem
  obtain ⟨d, hd, hzero⟩ := List.mem_map.mp hmem
  exact digit_ne_of_notMem (by decide) (hl d hd) hzero

theorem nul_notMem_numeralText (hlow : 2 ≤ radix) (hhigh : radix ≤ 36) :
    0 ∉ numeralText radix v :=
  nul_notMem_digits fun _ hd => Nat.lt_of_lt_of_le (lt_of_mem_numeral hlow hd) hhigh

/-- A 32-bit number has at most 32 digits. -/
theorem length_numeralText_le (hlow : 2 ≤ radix) (hv : v < 2 ^ 32) :
    (numeralText radix v).length ≤ 32 := by
  rw [numeralText, List.length_map]
  exact length_numeral_le hlow (by decide) (hv.trans_le (Nat.pow_le_pow_left hlow 32))

/-- To the base 16 it has at most 8. -/
theorem length_hexNumeral_le (v : Word) : (numeralText 16 v.toNat).length ≤ 8 := by
  rw [numeralText, List.length_map]
  exact length_numeral_le (by decide) (by decide) v.isLt

/-- **The division loop** stores the digits, the least significant first. -/
theorem itoaLoop_eq {radix : Word} (hlow : 2 ≤ radix.toNat) {fuel : Nat} (newval : Word)
    (hfuel : (radix.toNat.digits newval.toNat).length < fuel) (l : List Byte) (s : Nat → Byte) :
    itoaLoop radix fuel newval (overlay l s) l.length =
      some (overlay (l ++ (radix.toNat.digits newval.toNat).map digit) s,
        (l ++ (radix.toNat.digits newval.toNat).map digit).length) := by
  induction fuel generalizing newval l with
  | zero => exact absurd hfuel (Nat.not_lt_zero _)
  | succ fuel ih =>
    rw [itoaLoop]
    by_cases hpos : 0 < newval
    · have hnat : 0 < newval.toNat := by simpa [BitVec.lt_def] using hpos
      have hdigits : radix.toNat.digits newval.toNat =
          (newval % radix).toNat :: radix.toNat.digits (newval / radix).toNat := by
        rw [BitVec.toNat_umod, BitVec.toNat_udiv]
        exact Nat.digits_def' hlow hnat
      rw [hdigits, List.length_cons] at hfuel
      have hnext := ih (newval / radix) (by omega) (l ++ [digit (newval % radix).toNat])
      rw [List.length_append, List.length_singleton] at hnext
      rw [if_pos hpos, hdigits, List.map_cons]
      refine (congrArg (itoaLoop radix fuel (newval / radix) · _) (update_overlay l s _)).trans ?_
      refine hnext.trans ?_
      rw [List.append_assoc]
      rfl
    · have hzero : newval = 0 := by
        rw [BitVec.lt_def] at hpos
        exact BitVec.eq_of_toNat_eq (Nat.eq_zero_of_not_pos hpos)
      rw [if_neg hpos, hzero]
      simp

/-- **`itoa`** stores the numeral and a NUL, and nothing behind that. -/
theorem itoa_eq {radix : Word} (hlow : 2 ≤ radix.toNat) (hhigh : radix.toNat ≤ 36) (value : Word)
    (buf : Nat → Byte) :
    itoa value buf radix = some (overlay (numeralText radix.toNat value.toNat ++ [0]) buf) := by
  have hlt := value.isLt
  unfold itoa numeralText numeral
  by_cases hzero : value = 0
  · rw [if_pos hzero, hzero]
    refine congrArg some ?_
    have hempty : overlay [] buf = buf := rfl
    have hfirst := update_overlay [] buf 0x30
    have hsecond := update_overlay [0x30] buf 0
    rw [List.nil_append, hempty] at hfirst
    rw [← hfirst] at hsecond
    exact hsecond
  · have hnat : value.toNat ≠ 0 := fun h => hzero (BitVec.eq_of_toNat_eq h)
    have hlen : (radix.toNat.digits value.toNat).length ≤ 32 :=
      (Nat.digits_length_le_iff hlow _).mpr (hlt.trans_le (Nat.pow_le_pow_left hlow 32))
    have hloop := itoaLoop_eq hlow value (Nat.lt_succ_of_le hlen) [] buf
    have hnul : 0 ∉ (radix.toNat.digits value.toNat).map digit :=
      nul_notMem_digits fun _ hd => Nat.lt_of_lt_of_le (Nat.digits_lt_base hlow hd) hhigh
    rw [List.nil_append] at hloop
    have hempty : overlay [] buf = buf := rfl
    rw [hempty, List.length_nil] at hloop
    rw [if_neg hzero, if_neg hnat, hloop, Option.bind_some]
    dsimp only
    rw [update_overlay, strrev_overlay hnul (by rw [List.length_map]; omega), List.map_reverse]

end Digits

/-! ## Reading it back -/

/-- The digit to the base `radix` that a character is. -/
def digitValue (radix : Nat) (c : Byte) : Option Nat :=
  (itoaLookup.idxOf? c).filter fun d => d < radix

/-- The number that a text is to the base `radix`. -/
def readNumeral (radix : Nat) (text : List Byte) : Option Nat :=
  if text = [] then none
  else text.foldl (fun acc c => acc.bind fun v => (digitValue radix c).map fun d => radix * v + d)
    (some 0)

/-- The number that a text is to the base 10, with a minus sign or without. -/
def readSigned (text : List Byte) : Option Int :=
  if text.head? = some 0x2D then (readNumeral 10 text.tail).map fun n : Nat => -(n : Int)
  else (readNumeral 10 text).map fun n : Nat => (n : Int)

/-- The text is a number to the base `radix`, with no zero in front. -/
structure CanonicalNumeral (radix v : Nat) (text : List Byte) : Prop where
  reads : readNumeral radix text = some v
  noLeadingZero : text = [0x30] ∨ text.head? ≠ some 0x30

section Reading
variable {radix v : Nat}

theorem digitValue_digit (hhigh : radix ≤ 36) {d : Nat} (hd : d < radix) :
    digitValue radix (digit d) = some d := by
  rw [digitValue, idxOf_digit (by omega), Option.filter_some, if_pos (by simpa using hd)]

theorem readNumeral_digits (hhigh : radix ≤ 36) {l : List Nat} (hne : l ≠ [])
    (hl : ∀ d ∈ l, d < radix) : readNumeral radix (l.map digit) = some (value radix l) := by
  have hfold : ∀ (l : List Nat) (v : Nat), (∀ d ∈ l, d < radix) →
      (l.map digit).foldl (fun acc c => acc.bind fun v =>
        (digitValue radix c).map fun d => radix * v + d) (some v) =
      some (l.foldl (fun v d => radix * v + d) v) := by
    intro l
    induction l with
    | nil => exact fun _ _ => rfl
    | cons d l ih =>
      intro v hl
      rw [List.map_cons, List.foldl_cons, Option.bind_some,
        digitValue_digit hhigh (hl d List.mem_cons_self), Option.map_some]
      exact ih _ fun d' hd' => hl d' (List.mem_cons_of_mem d hd')
  rw [readNumeral, if_neg (by simpa using hne)]
  exact hfold l 0 hl

/-- A numeral is canonical. -/
theorem canonical_numeralText (hlow : 2 ≤ radix) (hhigh : radix ≤ 36) (v : Nat) :
    CanonicalNumeral radix v (numeralText radix v) where
  reads := by
    rw [numeralText, readNumeral_digits hhigh (numeral_ne_nil radix v)
      fun d hd => lt_of_mem_numeral hlow hd, value_numeral]
  noLeadingZero := by
    rcases head_numeral radix v with hone | hhead
    · rw [numeralText, hone]
      exact Or.inl rfl
    · refine Or.inr fun h => hhead ?_
      rw [numeralText, List.head?_map] at h
      obtain ⟨d, hd, hdigit⟩ := Option.map_eq_some_iff.mp h
      have hlt := lt_of_mem_numeral hlow (List.mem_of_mem_head? hd)
      have hindex := idxOf_digit (show d < 36 by omega)
      rw [hdigit] at hindex
      rw [hd, ← hindex]
      rfl

/-- Zeros in front make no difference to the number. -/
theorem readNumeral_padded (hlow : 2 ≤ radix) (hhigh : radix ≤ 36) (n v : Nat) :
    readNumeral radix (List.replicate n 0x30 ++ numeralText radix v) = some v := by
  have hzeros : ∀ n, value radix (List.replicate n 0 ++ numeral radix v) = v := by
    intro n
    induction n with
    | zero => exact value_numeral radix v
    | succ n ih => exact ih
  have htext : List.replicate n 0x30 ++ numeralText radix v =
      (List.replicate n 0 ++ numeral radix v).map digit := by
    rw [List.map_append, List.map_replicate]
    rfl
  rw [htext, readNumeral_digits hhigh, hzeros]
  · exact List.append_ne_nil_of_right_ne_nil _ (numeral_ne_nil radix v)
  · intro d hd
    rcases List.mem_append.mp hd with hd | hd
    · rw [List.eq_of_mem_replicate hd]
      omega
    · exact lt_of_mem_numeral hlow hd

/-- `%x` and `%u`. -/
theorem textAt_itoa {radix : Word} (hlow : 2 ≤ radix.toNat) (hhigh : radix.toNat ≤ 36) (v : Word)
    (convBuf : Nat → Byte) :
    (itoa v convBuf radix).map textAt = some (numeralText radix.toNat v.toNat) := by
  have hlen := length_numeralText_le hlow v.isLt
  rw [itoa_eq hlow hhigh, Option.map_some,
    textAt_overlay (nul_notMem_numeralText hlow hhigh) (by omega)]

theorem padZeros_apply (convBuf : Nat → Byte) {start : Nat} (i : Nat) :
    padZeros convBuf start i = if start ≤ i ∧ i < 8 then 0x30 else convBuf i := by
  have hfold : ∀ (n start : Nat) (mem : Nat → Byte),
      (List.range' start n).foldl (fun mem i => Function.update mem i 0x30) mem i =
        if start ≤ i ∧ i < start + n then 0x30 else mem i := by
    intro n
    induction n with
    | zero => exact fun start mem => (if_neg (by omega)).symm
    | succ n ih =>
      intro start mem
      rw [List.range'_succ, List.foldl_cons, ih, Function.update_apply]
      by_cases hi : i = start
      · rw [if_neg (by omega), if_pos hi, if_pos (by omega)]
      · rw [if_neg hi]
        have hin : start + 1 ≤ i ∧ i < start + 1 + n ↔ start ≤ i ∧ i < start + (n + 1) := by omega
        simp only [hin]
  rw [padZeros, hfold]
  have hin : start ≤ i ∧ i < start + (8 - start) ↔ start ≤ i ∧ i < 8 := by omega
  simp only [hin]

/-- The zeros meet the digits at index 8. -/
theorem padZeros_overlay (convBuf : Nat → Byte) {l : List Byte} (hlen : l.length ≤ 8) :
    (fun i => padZeros (fun i => if i < 8 then convBuf i
        else overlay (l ++ [0]) (fun i => convBuf (8 + i)) (i - 8)) l.length (l.length + i)) =
      overlay (List.replicate (8 - l.length) 0x30 ++ l ++ [0]) fun i => convBuf (l.length + i) := by
  funext i
  rw [padZeros_apply]
  by_cases hzero : i < 8 - l.length
  · have hin : i < (List.replicate (8 - l.length) (0x30 : Byte)).length := by
      rwa [List.length_replicate]
    rw [if_pos (by omega), List.append_assoc, overlay_append_of_lt hin, List.getElem_replicate]
  · obtain ⟨j, rfl⟩ : ∃ j, i = 8 - l.length + j := ⟨i - (8 - l.length), by omega⟩
    have hover := overlay_append (List.replicate (8 - l.length) 0x30) (l ++ [0])
      (fun i => convBuf (l.length + i)) j
    rw [List.length_replicate] at hover
    have hindex : l.length + (8 - l.length + j) - 8 = j := by omega
    have hbehind : ∀ i, l.length + (8 - l.length + i) = 8 + i := fun i => by omega
    rw [List.append_assoc, hover, if_neg (by omega), if_neg (by omega), hindex]
    simp only [hbehind]

/-- **`%#x`**: zeros and the numeral, eight characters. -/
theorem alternateText_eq (convBuf : Nat → Byte) (v : Word) :
    alternateText convBuf v = some (List.replicate (8 - (numeralText 16 v.toNat).length) 0x30 ++
      numeralText 16 v.toNat) := by
  have hlen := length_hexNumeral_le v
  have hnul : 0 ∉ numeralText 16 v.toNat := nul_notMem_numeralText (by decide) (by decide)
  have hitoa : itoa v (fun i => convBuf (8 + i)) 16 =
      some (overlay (numeralText 16 v.toNat ++ [0]) fun i => convBuf (8 + i)) :=
    itoa_eq (by decide) (by decide) v _
  have hpadded : 0 ∉ List.replicate (8 - (numeralText 16 v.toNat).length) 0x30 ++
      numeralText 16 v.toNat := by
    rw [List.mem_append, not_or]
    exact ⟨fun h => absurd (List.eq_of_mem_replicate h) (by decide), hnul⟩
  simp only [alternateText, hitoa, strlen_overlay hnul (show _ < 2 ^ 32 by omega),
    Option.bind_eq_bind, Option.bind_some]
  rw [padZeros_overlay convBuf hlen, textAt_overlay hpadded]
  rw [List.length_append, List.length_replicate]
  omega

/-- **`%d`**: a minus sign and the numeral of the negation, or the numeral. -/
theorem signedText_eq (convBuf : Nat → Byte) (v : Word) :
    signedText convBuf v =
      some (if v.toInt < 0 then 0x2D :: numeralText 10 (-v).toNat else numeralText 10 v.toNat) := by
  have hslt : v.slt 0 = decide (v.toInt < 0) := rfl
  unfold signedText
  by_cases hneg : v.toInt < 0
  · have hlen : (numeralText 10 (-v).toNat).length ≤ 32 :=
      length_numeralText_le (by decide) (-v).isLt
    have hnul : 0 ∉ 0x2D :: numeralText 10 (-v).toNat := by
      rw [List.mem_cons, not_or]
      exact ⟨by decide, nul_notMem_numeralText (by decide) (by decide)⟩
    have hitoa : itoa (-v) (fun i => Function.update convBuf 0 0x2D (1 + i)) 10 =
        some (overlay (numeralText 10 (-v).toNat ++ [0])
          fun i => Function.update convBuf 0 0x2D (1 + i)) :=
      itoa_eq (by decide) (by decide) (-v) _
    have hmem : (fun i => if i < 1 then Function.update convBuf 0 0x2D i
          else overlay (numeralText 10 (-v).toNat ++ [0])
            (fun i => Function.update convBuf 0 0x2D (1 + i)) (i - 1)) =
        overlay ((0x2D :: numeralText 10 (-v).toNat) ++ [0]) convBuf := by
      funext i
      cases i with
      | zero => rfl
      | succ i =>
        rw [if_neg (by omega), Nat.add_sub_cancel, overlay, overlay, List.cons_append,
          List.getD_cons_succ, Function.update_of_ne (by omega), Nat.add_comm 1 i]
    rw [hslt, if_pos (decide_eq_true hneg), if_pos hneg]
    dsimp only
    rw [hitoa, Option.map_some, hmem, textAt_overlay hnul]
    rw [List.length_cons]
    omega
  · rw [hslt, if_neg (by simpa using hneg), if_neg hneg]
    exact textAt_itoa (by decide) (by decide) v convBuf

/-- What `%d` prints is the signed number, also for the least one. -/
theorem readSigned_signed (v : Word) :
    readSigned (if v.toInt < 0 then 0x2D :: numeralText 10 (-v).toNat
      else numeralText 10 v.toNat) = some v.toInt := by
  have hcond := BitVec.toInt_eq_toNat_cond v
  have hlt := v.isLt
  have hcanonical : ∀ n, readNumeral 10 (numeralText 10 n) = some n :=
    fun n => (canonical_numeralText (by decide) (by decide) n).reads
  by_cases hneg : v.toInt < 0
  · have hnat : (-v).toNat = -v.toInt := by
      rw [BitVec.toNat_neg]
      split at hcond <;> omega
    rw [if_pos hneg, readSigned, List.head?_cons, if_pos rfl, List.tail_cons, hcanonical,
      Option.map_some, hnat, Int.neg_neg]
  · have hhead : (numeralText 10 v.toNat).head? ≠ some 0x2D := by
      intro h
      rw [numeralText, List.head?_map] at h
      obtain ⟨d, hd, hdigit⟩ := Option.map_eq_some_iff.mp h
      have hlt := lt_of_mem_numeral (by decide) (List.mem_of_mem_head? hd)
      exact digit_ne_of_notMem (by decide) (by omega) hdigit
    rw [if_neg hneg, readSigned, if_neg hhead, hcanonical, Option.map_some]
    congr 1
    split at hcond <;> omega

end Reading

end LinuxLikeOS
