import LinuxLikeOS.KernelRun

/-! # The frequency of the clock

A program hands `RTC_write` a frequency in a buffer of four bytes.  The clock knows rates: rate
`r` gives `32768 >> (r - 1)` interrupts a second, so the frequencies that can be had are powers
of two, and `RTC_write` finds the rate by halving (`halvings_eq_some_iff`).

It reads the frequency through an `int16_t*`.  A number that needs more than 16 bits is cut off
before it is checked, and may then look like a frequency (`frequencySet_iff`).
-/
namespace LinuxLikeOS

/-- A frequency the clock can be set to: a power of two between 2 and 1024. -/
def IsFrequency (n : Nat) : Prop := (2 ≤ n ∧ n ≤ 1024) ∧ ∃ e, n = 2 ^ e

/-- What a call of `RTC_write` for the frequency `f` should do. -/
structure FrequencySet (k : Kernel) (f : Word) (r : CallResult) : Prop where
  accepted : r.ret = some 0 ↔ IsFrequency f.toNat
  rate : IsFrequency f.toNat → ∃ n, (1 ≤ n ∧ n ≤ 15) ∧ 32768 >>> (n - 1) = f.toNat ∧
    r.kernel = { k with rtcRegA := k.rtcRegA.extractLsb' 4 4 ++ BitVec.ofNat 4 n }
  refused : ¬IsFrequency f.toNat → r.ret = some minusOne ∧ r.kernel = k

/-! ## Halving -/

section Halving

/-- **The loop counts the exponent** of a power of two, and gives up on any other number. -/
theorem halvings_eq_some_iff {fuel n c m : Nat} (hpos : 0 < n) (hfuel : n < 2 ^ fuel) :
    halvings fuel n c = some m ↔ ∃ e, n = 2 ^ e ∧ m = c + e := by
  induction fuel generalizing n c with
  | zero => omega
  | succ fuel ih =>
    rw [halvings]
    by_cases hone : n < 2
    · obtain rfl : n = 1 := by omega
      rw [if_pos hone, Option.some.injEq]
      constructor
      · rintro rfl
        exact ⟨0, rfl, rfl⟩
      · rintro ⟨e, he, rfl⟩
        rw [Nat.pow_eq_one.mp he.symm |>.resolve_left (by decide), Nat.add_zero]
    rw [if_neg hone]
    -- the exponent of a power that is not 1 is a successor
    have hexponent : ∀ e, n = 2 ^ e → ∃ e', e = e' + 1 := by
      rintro (_ | e) he
      · exact absurd he (by omega)
      · exact ⟨e, rfl⟩
    by_cases hodd : n % 2 = 1
    · rw [if_pos hodd]
      refine iff_of_false (by simp) ?_
      rintro ⟨e, he, _⟩
      obtain ⟨e, rfl⟩ := hexponent e he
      rw [Nat.pow_succ] at he
      omega
    · rw [if_neg hodd, ih (by omega) (by rw [Nat.pow_succ] at hfuel; omega)]
      constructor
      · rintro ⟨e, he, rfl⟩
        exact ⟨e + 1, by rw [Nat.pow_succ]; omega, by omega⟩
      · rintro ⟨e, he, rfl⟩
        obtain ⟨e, rfl⟩ := hexponent e he
        rw [Nat.pow_succ] at he
        exact ⟨e, by omega, by omega⟩

/-- The rate of a frequency. -/
theorem rate_frequency {e : Nat} (he : 1 ≤ e ∧ e ≤ 10) : 32768 >>> (16 - e - 1) = 2 ^ e := by
  have hsplit : 15 - (15 - e) = e := by omega
  calc 32768 >>> (16 - e - 1)
      = 2 ^ 15 / 2 ^ (15 - e) := by rw [Nat.shiftRight_eq_div_pow]; congr 2; omega
    _ = 2 ^ e := by rw [Nat.pow_div (by omega) (by decide), hsplit]

theorem exponent_le {e : Nat} (h : 2 ≤ 2 ^ e ∧ 2 ^ e ≤ 1024) : 1 ≤ e ∧ e ≤ 10 := by
  have hlow : 2 ^ 1 ≤ 2 ^ e := h.1
  have hhigh : 2 ^ e ≤ 2 ^ 10 := h.2
  exact ⟨(Nat.pow_le_pow_iff_right (by decide)).mp hlow,
    (Nat.pow_le_pow_iff_right (by decide)).mp hhigh⟩

/-- The masks of `RTC_write` replace the low half of the register. -/
theorem low_half (a : Byte) (n : Fin 16) :
    (a &&& 0xF0) ||| BitVec.ofNat 8 n = a.extractLsb' 4 4 ++ BitVec.ofNat 4 n := by
  revert a n
  decide +kernel

end Halving

/-! ## The frequency that is read -/

section Reading
variable {k : Kernel} {f : Word} {behind : Nat → Byte}

/-- The range check, on the lower half of the number. -/
theorem inRange_iff (frequency : BitVec 16) :
    (frequency.slt 2 || (1024 : BitVec 16).slt frequency) = false ↔
      2 ≤ frequency.toNat ∧ frequency.toNat ≤ 1024 := by
  have hcond := BitVec.toInt_eq_toNat_cond frequency
  have hlt := frequency.isLt
  have htwo : (2 : BitVec 16).toInt = 2 := rfl
  have hmax : (1024 : BitVec 16).toInt = 1024 := rfl
  rw [Bool.or_eq_false_iff, BitVec.slt_eq_decide, BitVec.slt_eq_decide, decide_eq_false_iff_not,
    decide_eq_false_iff_not, htwo, hmax]
  split at hcond <;> omega

/-- `RTC_write` reads two of the four bytes. -/
theorem toNat_frequency (f : Word) (behind : Nat → Byte) :
    (overlay (wordBytes f) behind 1 ++ overlay (wordBytes f) behind 0 : BitVec 16).toNat =
      f.toNat % 65536 := by
  have hlow : (overlay (wordBytes f) behind 1 ++ overlay (wordBytes f) behind 0 : BitVec 16) =
      f.setWidth 16 := by
    show (f.extractLsb' 8 8 ++ f.extractLsb' 0 8 : BitVec 16) = f.setWidth 16
    ext i hi
    simp
    grind
  rw [hlow, BitVec.toNat_setWidth]

/-- **What `RTC_write` does** with a frequency in four bytes. -/
theorem rtcWrite_word (k : Kernel) (f : Word) (behind : Nat → Byte) :
    (∃ e, (1 ≤ e ∧ e ≤ 10) ∧ f.toNat % 65536 = 2 ^ e ∧
      rtcWrite k (overlay (wordBytes f) behind) 4 =
        some { k with rtcRegA := k.rtcRegA.extractLsb' 4 4 ++ BitVec.ofNat 4 (16 - e) }) ∨
    (¬IsFrequency (f.toNat % 65536) ∧ rtcWrite k (overlay (wordBytes f) behind) 4 = none) := by
  have hread := toNat_frequency f behind
  have hnbytes : ((4 : Word).slt 4 || (4 : Word).slt 1) = false := by decide
  unfold rtcWrite
  rw [if_neg (by rw [hnbytes]; exact Bool.false_ne_true)]
  dsimp only
  generalize (overlay (wordBytes f) behind 1 ++ overlay (wordBytes f) behind 0 : BitVec 16) =
    frequency at hread ⊢
  have hrange := inRange_iff frequency
  rw [hread] at hrange ⊢
  generalize (frequency.slt 2 || (1024 : BitVec 16).slt frequency) = outside at hrange ⊢
  cases outside with
  | true => exact Or.inr ⟨fun h => Bool.noConfusion (hrange.mpr h.1), rfl⟩
  | false =>
    obtain ⟨hlow, hhigh⟩ := hrange.mp rfl
    have hloop : ∀ m, halvings 32 (f.toNat % 65536) 0 = some m ↔ _ := fun m =>
      halvings_eq_some_iff (by omega) (by omega)
    rw [if_neg Bool.false_ne_true]
    cases hcount : halvings 32 (f.toNat % 65536) 0 with
    | none =>
      refine Or.inr ⟨?_, rfl⟩
      rintro ⟨_, e, he⟩
      rw [(hloop e).mpr ⟨e, he, (Nat.zero_add e).symm⟩] at hcount
      cases hcount
    | some m =>
      obtain ⟨e, he, rfl⟩ := (hloop m).mp hcount
      rw [he] at hlow hhigh
      have hbounds := exponent_le ⟨hlow, hhigh⟩
      refine Or.inl ⟨e, hbounds, he, ?_⟩
      rw [Option.map_some, Nat.zero_add, ← low_half k.rtcRegA ⟨16 - e, by omega⟩]

/-- `RTC_write` through the jump table. -/
theorem runWrite_rtc (k : Kernel) (buf : Nat → Byte) (nbytes : Word) :
    runWrite k .rtc buf nbytes =
      match rtcWrite k buf nbytes with
      | some k' => .returns k' 0 []
      | none => .returns k minusOne [] := rfl

end Reading

/-- **The clock's frequency.**  `RTC_write` sets the clock to the frequencies that it can be set
to and refuses the others, except that a number of more than 16 bits must not look like one in
its lower half. -/
theorem frequencySet_iff (k : Kernel) (f : Word) (behind : Nat → Byte) :
    FrequencySet k f (runWrite k .rtc (overlay (wordBytes f) behind) 4) ↔
      f.toNat < 65536 ∨ ¬IsFrequency (f.toNat % 65536) := by
  have hlarge : 65536 ≤ f.toNat → ¬IsFrequency f.toNat := fun h hf => by
    have := hf.1.2
    omega
  rw [runWrite_rtc]
  rcases rtcWrite_word k f behind with ⟨e, hbounds, he, heq⟩ | ⟨hnot, heq⟩ <;> rw [heq]
  · have hpow : 2 ^ 1 ≤ 2 ^ e ∧ 2 ^ e ≤ 2 ^ 10 :=
      ⟨Nat.pow_le_pow_right (by decide) hbounds.1, Nat.pow_le_pow_right (by decide) hbounds.2⟩
    have hlow : IsFrequency (f.toNat % 65536) := ⟨by rw [he]; exact hpow, e, he⟩
    constructor
    · intro h
      refine Or.inl (not_le.mp fun hbig => hlarge hbig (h.accepted.mp rfl))
    · intro h
      have hsmall : f.toNat % 65536 = f.toNat :=
        Nat.mod_eq_of_lt (h.resolve_right (not_not.mpr hlow))
      rw [hsmall] at he hlow
      exact ⟨iff_of_true rfl hlow,
        fun _ => ⟨16 - e, by omega, (rate_frequency hbounds).trans he.symm, rfl⟩,
        fun h => absurd hlow h⟩
  · refine iff_of_true ?_ (Or.inr hnot)
    have hnone : ¬IsFrequency f.toNat := by
      intro hf
      have hsmall : f.toNat % 65536 = f.toNat := Nat.mod_eq_of_lt (by have := hf.1.2; omega)
      exact hnot (hsmall.symm ▸ hf)
    have hrefused : ¬some minusOne = some (0 : Word) := by decide
    exact ⟨iff_of_false hrefused hnone, fun h => absurd h hnone, fun _ => ⟨rfl, rfl⟩⟩

/-- 65540 is taken for 4. -/
theorem accepted_cutOff :
    ¬∀ (k : Kernel) (f : Word) (behind : Nat → Byte),
      FrequencySet k f (runWrite k .rtc (overlay (wordBytes f) behind) 4) := by
  intro hall
  have hset := hall (booted shellImage zeroHardware noJunk ⟨0x7FFF00, 0x7FFF40⟩) 65540 noJunk
  have hfrequency := hset.accepted.mp (by decide +kernel)
  exact absurd hfrequency.1.2 (by decide)

end LinuxLikeOS
