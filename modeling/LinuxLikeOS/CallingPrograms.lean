import Mathlib.Logic.Basic

/-! # Programs that make calls

A `Program` computes, makes calls and goes on by their answers.  It is a tree, so a loop is
one of a given number of rounds (`loop`); a program whose rounds are used up has `stopped`.
What calls do is not its matter: a `System` answers a call and goes from one state to the
next, or does not answer.

`Yields` says that a run of a program comes to its end with a value and a state as asked for.
There is a rule for each way to put programs together; the one of a loop asks for an invariant and
for a bound on the rounds that are left, and tells how many rounds suffice (`yields_loop`).

A system can stand for another: a program that yields something over the other one does so
over it (`Simulates.yields`), also if something else happens between the calls
(`Simulates.interrupted`).  A system stands for itself with fewer answers (`restricted`), and a
program whose calls are all good ones (`Calls`) gets all its answers there (`run_restricted`).
-/
namespace CallingPrograms

/-- A program that makes calls `C`, goes on by answers `A`, and ends with a value. -/
inductive Program (C A α : Type)
  | done (value : α)
  | call (c : C) (next : A → Program C A α)
  | stopped

variable {C A S T σ α β : Type}

namespace Program

/-- One program behind another. -/
def bind : Program C A α → (α → Program C A β) → Program C A β
  | .done a, f => f a
  | .call c next, f => .call c fun r => (next r).bind f
  | .stopped, _ => .stopped

instance : Monad (Program C A) where
  pure := .done
  bind := bind

/-- One call. -/
def make (c : C) : Program C A A := .call c .done

/-- `rounds` rounds of a loop from `x` on: a round goes on with a new state, or it leaves the loop
with a value. -/
def loop (body : σ → Program C A (σ ⊕ α)) : Nat → σ → Program C A α
  | 0, _ => .stopped
  | rounds + 1, x => (body x).bind fun
    | .inl y => loop body rounds y
    | .inr a => .done a

end Program

/-- What calls do: the answer and the next state, if there is an answer. -/
abbrev System (C A S : Type) := C → S → Option (A × S)

/-- A run: the value and the state it ends with, if it does. -/
def Program.run (sys : System C A S) : Program C A α → S → Option (α × S)
  | .done a, s => some (a, s)
  | .call c next, s => (sys c s).bind fun r => (next r.1).run sys r.2
  | .stopped, _ => none

/-- The program runs to its end, with a value and a state that `Q` allows. -/
def Yields (sys : System C A S) (p : Program C A α) (s : S) (Q : α → S → Prop) : Prop :=
  ∃ a s', p.run sys s = some (a, s') ∧ Q a s'

/-! ## The rules -/

section Rules
variable {sys : System C A S} {s : S} {Q : α → S → Prop}

theorem run_bind (p : Program C A α) (f : α → Program C A β) (s : S) :
    (p.bind f).run sys s = (p.run sys s).bind fun r => (f r.1).run sys r.2 := by
  induction p generalizing s with
  | done a => rfl
  | stopped => rfl
  | call c next ih =>
    show (sys c s).bind _ = ((sys c s).bind _).bind _
    cases sys c s with
    | none => rfl
    | some r => exact ih r.1 r.2

theorem yields_done {a : α} (h : Q a s) : Yields sys (.done a) s Q := ⟨a, s, rfl, h⟩

theorem Yields.mono {Q' : α → S → Prop} {p : Program C A α} (h : Yields sys p s Q)
    (hQ : ∀ a s', Q a s' → Q' a s') : Yields sys p s Q' := by
  obtain ⟨a, s', hrun, hq⟩ := h
  exact ⟨a, s', hrun, hQ a s' hq⟩

/-- One program and then the other. -/
theorem Yields.bind {R : β → S → Prop} {p : Program C A α} {f : α → Program C A β}
    (h : Yields sys p s Q) (hf : ∀ a s', Q a s' → Yields sys (f a) s' R) :
    Yields sys (p.bind f) s R := by
  obtain ⟨a, s', hrun, hq⟩ := h
  obtain ⟨b, s'', hrun', hr⟩ := hf a s' hq
  refine ⟨b, s'', ?_, hr⟩
  rw [run_bind, hrun]
  exact hrun'

/-- What a program yields without a choice is its run. -/
theorem Yields.run_eq {p : Program C A α} {a : α} {s' : S}
    (h : Yields sys p s fun b t => b = a ∧ t = s') : p.run sys s = some (a, s') := by
  obtain ⟨_, _, hrun, rfl, rfl⟩ := h
  exact hrun

/-- A call that is answered. -/
theorem yields_call {c : C} {next : A → Program C A α} {r : A} {s' : S}
    (hcall : sys c s = some (r, s')) (h : Yields sys (next r) s' Q) :
    Yields sys (.call c next) s Q := by
  obtain ⟨a, s'', hrun, hq⟩ := h
  refine ⟨a, s'', ?_, hq⟩
  show (sys c s).bind _ = _
  rw [hcall]
  exact hrun

/-- The same for a call in front of a program. -/
theorem yields_make {c : C} {f : A → Program C A α} {r : A} {s' : S}
    (hcall : sys c s = some (r, s')) (h : Yields sys (f r) s' Q) :
    Yields sys (.make c >>= f) s Q :=
  yields_call hcall h

/-- A program with one end in front of another. -/
theorem yields_seq {p : Program C A β} {f : β → Program C A α} {b : β} {s' : S}
    (hrun : p.run sys s = some (b, s')) (h : Yields sys (f b) s' Q) : Yields sys (p >>= f) s Q :=
  Yields.bind (Q := fun b₁ s₁ => b₁ = b ∧ s₁ = s') ⟨b, s', hrun, rfl, rfl⟩ fun _ _ hend => by
    obtain ⟨rfl, rfl⟩ := hend
    exact h

/-- What a round of a loop is to do from `x` and `s` on: keep the invariant `I` with less left
to do, or leave the loop as asked for. -/
def Round (I : σ → S → Prop) (left : σ → S → Nat) (Q : α → S → Prop) (x : σ) (s : S) :
    σ ⊕ α → S → Prop
  | .inl y, s' => I y s' ∧ left y s' < left x s
  | .inr a, s' => Q a s'

/-- **Loops**: if each round does what it is to do, so many rounds as there was left to do
suffice. -/
theorem yields_loop {body : σ → Program C A (σ ⊕ α)} {I : σ → S → Prop} {left : σ → S → Nat}
    (hround : ∀ x s, I x s → Yields sys (body x) s (Round I left Q x s))
    {rounds : Nat} {x : σ} (hx : I x s) (hleft : left x s < rounds) :
    Yields sys (.loop body rounds x) s Q := by
  -- on the rounds there are
  induction rounds generalizing x s with
  | zero => exact absurd hleft (Nat.not_lt_zero _)
  | succ rounds ih =>
    refine (hround x s hx).bind fun r s' hr => ?_
    cases r with
    | inl y => exact ih hr.1 (Nat.lt_of_lt_of_le hr.2 (Nat.le_of_lt_succ hleft))
    | inr a => exact yields_done hr

end Rules

/-! ## A system that stands for another -/

/-- What `sys'` answers in a state, `sys` answers in the states that stand for it. -/
def Simulates (sys : System C A S) (sys' : System C A T) (R : S → T → Prop) : Prop :=
  ∀ c s t a t', R s t → sys' c t = some (a, t') → ∃ s', sys c s = some (a, s') ∧ R s' t'

/-- Something else happens before each call, the `n`th time `between n`. -/
def interrupted (between : Nat → S → S) (sys : System C A S) : System C A (S × Nat) :=
  fun c s => (sys c (between s.2 s.1)).map fun r => (r.1, r.2, s.2 + 1)

section Simulation
variable {sys : System C A S} {sys' : System C A T} {R : S → T → Prop}

theorem Simulates.run (h : Simulates sys sys' R) {p : Program C A α} {s : S} {t t' : T} {a : α}
    (hR : R s t) (hrun : p.run sys' t = some (a, t')) :
    ∃ s', p.run sys s = some (a, s') ∧ R s' t' := by
  induction p generalizing s t with
  | done b =>
    obtain ⟨rfl, rfl⟩ := Prod.mk.inj (Option.some.inj hrun)
    exact ⟨s, rfl, hR⟩
  | stopped => cases hrun
  | call c next ih =>
    obtain ⟨⟨r, u⟩, hcall, hrest⟩ := Option.bind_eq_some_iff.mp hrun
    obtain ⟨s', hcall', hR'⟩ := h c s t r u hR hcall
    obtain ⟨s'', hrun', hR''⟩ := ih r hR' hrest
    refine ⟨s'', ?_, hR''⟩
    show (sys c s).bind _ = _
    rw [hcall']
    exact hrun'

/-- **What a program yields over the one system it yields over the other.** -/
theorem Simulates.yields (h : Simulates sys sys' R) {p : Program C A α} {s : S} {t : T}
    {Q : α → T → Prop} (hR : R s t) (hyields : Yields sys' p t Q) :
    Yields sys p s fun a s' => ∃ t', R s' t' ∧ Q a t' := by
  obtain ⟨a, t', hrun, hq⟩ := hyields
  obtain ⟨s', hrun', hR'⟩ := h.run hR hrun
  exact ⟨a, s', hrun', t', hR', hq⟩

/-- What happens between the calls does not matter if it keeps the relation. -/
theorem Simulates.interrupted (h : Simulates sys sys' R) {between : Nat → S → S}
    (hbetween : ∀ n s t, R s t → R (between n s) t) :
    Simulates (interrupted between sys) sys' fun s t => R s.1 t := by
  rintro c ⟨s, n⟩ t a t' hR hcall
  obtain ⟨s', hcall', hR'⟩ := h c (between n s) t a t' (hbetween n s t hR) hcall
  refine ⟨(s', n + 1), ?_, hR'⟩
  show (sys c (between n s)).map _ = _
  rw [hcall']
  rfl

end Simulation

/-! ## A system that does not answer everything -/

/-- The system, but an answer that is not `ok` is none. -/
def restricted (ok : C → A → Prop) [∀ c a, Decidable (ok c a)] (sys : System C A S) :
    System C A S :=
  fun c s => (sys c s).filter fun r => decide (ok c r.1)

/-- Every call that the program may make is good, whatever it is answered before. -/
def Program.Calls (good : C → Prop) : Program C A α → Prop
  | .done _ => True
  | .call c next => good c ∧ ∀ r, (next r).Calls good
  | .stopped => True

section Restricted
variable {sys : System C A S} {ok : C → A → Prop} [∀ c a, Decidable (ok c a)] {good : C → Prop}

/-- What is answered is what the system answers. -/
theorem simulates_restricted : Simulates sys (restricted ok sys) Eq := by
  rintro c s _ a t' rfl hcall
  exact ⟨t', (Option.filter_eq_some_iff.mp hcall).1, rfl⟩

theorem Simulates.restricted {sys' : System C A T} {R : S → T → Prop} (h : Simulates sys sys' R) :
    Simulates (restricted ok sys) (restricted ok sys') R := by
  intro c s t a t' hR hcall
  obtain ⟨hanswer, hok⟩ := Option.filter_eq_some_iff.mp hcall
  obtain ⟨s', hanswer', hR'⟩ := h c s t a t' hR hanswer
  exact ⟨s', Option.filter_eq_some_iff.mpr ⟨hanswer', hok⟩, hR'⟩

theorem calls_make {c : C} {f : A → Program C A α} (hc : good c) (hf : ∀ r, (f r).Calls good) :
    (Program.make c >>= f).Calls good :=
  ⟨hc, hf⟩

theorem calls_bind {p : Program C A β} {f : β → Program C A α} (hp : p.Calls good)
    (hf : ∀ b, (f b).Calls good) : (p >>= f).Calls good := by
  induction p with
  | done b => exact hf b
  | call c next ih => exact ⟨hp.1, fun r => ih r (hp.2 r)⟩
  | stopped => trivial

theorem calls_loop {body : σ → Program C A (σ ⊕ α)} (hbody : ∀ x, (body x).Calls good)
    (rounds : Nat) (x : σ) : (Program.loop body rounds x).Calls good := by
  induction rounds generalizing x with
  | zero => trivial
  | succ rounds ih =>
    refine calls_bind (hbody x) fun r => ?_
    cases r with
    | inl y => exact ih y
    | inr a => trivial

/-- **Good calls**: if the answers to them are `ok`, a program that makes no others runs as it does
over the system. -/
theorem run_restricted (hok : ∀ c s a s', good c → sys c s = some (a, s') → ok c a)
    {p : Program C A α} (hp : p.Calls good) (s : S) :
    p.run (restricted ok sys) s = p.run sys s := by
  induction p generalizing s with
  | done a => rfl
  | stopped => rfl
  | call c next ih =>
    show ((sys c s).filter _).bind _ = (sys c s).bind _
    cases hcall : sys c s with
    | none => rfl
    | some r =>
      rw [Option.filter_some, if_pos (decide_eq_true (hok c s r.1 r.2 hp.1 hcall))]
      exact ih r.1 (hp.2 r.1) r.2

theorem Yields.restricted (hok : ∀ c s a s', good c → sys c s = some (a, s') → ok c a)
    {p : Program C A α} (hp : p.Calls good) {s : S} {Q : α → S → Prop} (h : Yields sys p s Q) :
    Yields (restricted ok sys) p s Q := by
  obtain ⟨a, s', hrun, hq⟩ := h
  exact ⟨a, s', (run_restricted hok hp s).trans hrun, hq⟩

end Restricted

end CallingPrograms
