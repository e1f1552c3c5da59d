import Mathlib.Logic.Relation

/-! # Runs of a deterministic machine

A `Machine` has states, events and a total step.  A **run** is the list of its
events; every interleaving of the parties of a system is one such list.

Three things are said about runs.  `Always P` says that `P` holds in every state
the run visits, the first one included.  `Guarded G` says that each event meets
`G` in the state in which it happens; it is the hypothesis under which an
invariant may hold that some events would break.  A **history**
(`withHistory`) records what a run did, next to its state, without influencing
it: it is where statements about the past ("when it last stopped") live.

The rules: what one step preserves, a run preserves (`always_of_step`); what an
invariant gives for one event, it gives for each event of a run
(`guarded_of_step`); if an event that fails its guard breaks `P` at once, a run
keeps `P` exactly when it is guarded (`always_iff_guarded`); and a machine whose
steps follow an abstract transition relation has runs that do
(`simulates_run`).
-/
namespace Transition

/-- A machine: one total step for each event. -/
structure Machine (σ ε : Type) where
  step : σ → ε → σ

namespace Machine
variable {σ ε η α : Type} (M : Machine σ ε)

/-- The state after the events `es`. -/
def run (s : σ) (es : List ε) : σ := es.foldl M.step s

/-- `P` holds in every state of the run, the first included. -/
def Always (P : σ → Prop) : σ → List ε → Prop
  | s, [] => P s
  | s, e :: es => P s ∧ Always P (M.step s e) es

/-- Every event of the run meets `G` in the state in which it happens. -/
def Guarded (G : σ → ε → Prop) : σ → List ε → Prop
  | _, [] => True
  | s, e :: es => G s e ∧ Guarded G (M.step s e) es

instance decidableGuarded {G : σ → ε → Prop} [∀ s e, Decidable (G s e)] :
    (s : σ) → (es : List ε) → Decidable (M.Guarded G s es)
  | _, [] => isTrue trivial
  | s, e :: es => @instDecidableAnd _ _ _ (decidableGuarded (M.step s e) es)

variable {M} {P Q I : σ → Prop} {G H : σ → ε → Prop}

theorem Always.head {s : σ} {es : List ε} (h : M.Always P s es) : P s := by
  cases es with
  | nil => exact h
  | cons e es => exact h.1

theorem Always.last {s : σ} {es : List ε} (h : M.Always P s es) : P (M.run s es) := by
  induction es generalizing s with
  | nil => exact h
  | cons e es ih => exact ih h.2

/-- The states that a run visits, the first included. -/
def states (M : Machine σ ε) : σ → List ε → List σ
  | s, [] => [s]
  | s, e :: es => s :: states M (M.step s e) es

theorem always_iff_forall_states {s : σ} {es : List ε} :
    M.Always P s es ↔ ∀ s' ∈ M.states s es, P s' := by
  induction es generalizing s with
  | nil => simp [Always, states]
  | cons e es ih => simp [Always, states, ih]

theorem run_append (s : σ) (es es' : List ε) : M.run s (es ++ es') = M.run (M.run s es) es' :=
  List.foldl_append

theorem Always.mono (himp : ∀ s, P s → Q s) {s : σ} {es : List ε}
    (h : M.Always P s es) : M.Always Q s es := by
  induction es generalizing s with
  | nil => exact himp s h
  | cons e es ih => exact ⟨himp s h.1, ih h.2⟩

/-- **The invariant rule**: what every guarded step preserves holds in every
state of a guarded run. -/
theorem always_of_step (hstep : ∀ s e, I s → G s e → I (M.step s e)) {s : σ}
    {es : List ε} (hs : I s) (hg : M.Guarded G s es) : M.Always I s es := by
  induction es generalizing s with
  | nil => exact hs
  | cons e es ih => exact ⟨hs, ih (hstep s e hs hg.1) hg.2⟩

/-- What an invariant gives for a guarded event, it gives for every event of a
guarded run. -/
theorem guarded_of_step (hstep : ∀ s e, I s → G s e → I (M.step s e))
    (hev : ∀ s e, I s → G s e → H s e) {s : σ} {es : List ε} (hs : I s)
    (hg : M.Guarded G s es) : M.Guarded H s es := by
  induction es generalizing s with
  | nil => trivial
  | cons e es ih => exact ⟨hev s e hs hg.1, ih (hstep s e hs hg.1) hg.2⟩

theorem guarded_true (s : σ) (es : List ε) : M.Guarded (fun _ _ => True) s es := by
  induction es generalizing s with
  | nil => trivial
  | cons e es ih => exact ⟨trivial, ih _⟩

/-- A guard that every event of the run meets in every state. -/
theorem guarded_of_forall {s : σ} {es : List ε} (h : ∀ e ∈ es, ∀ s, G s e) : M.Guarded G s es := by
  induction es generalizing s with
  | nil => trivial
  | cons e es ih =>
    exact ⟨h e List.mem_cons_self s, ih fun e' he' => h e' (List.mem_cons_of_mem e he')⟩

theorem guarded_append {s : σ} {es es' : List ε} :
    M.Guarded G s (es ++ es') ↔ M.Guarded G s es ∧ M.Guarded G (M.run s es) es' := by
  induction es generalizing s with
  | nil => exact ⟨fun h => ⟨trivial, h⟩, fun h => h.2⟩
  | cons e es ih => exact (and_congr_right fun _ => ih).trans and_assoc.symm

theorem guarded_congr {s : σ} {es : List ε} (h : M.Guarded (fun s e => G s e ↔ H s e) s es) :
    M.Guarded G s es ↔ M.Guarded H s es := by
  induction es generalizing s with
  | nil => exact Iff.rfl
  | cons e es ih => exact and_congr h.1 (ih h.2)

/-- Where two guards agree in good states, and a step that meets the second stays good, a run
meets the one exactly if it meets the other. -/
theorem guarded_iff_of_step (hiff : ∀ s e, I s → (G s e ↔ H s e))
    (hstep : ∀ s e, I s → H s e → I (M.step s e)) {s : σ} {es : List ε} (hs : I s) :
    M.Guarded G s es ↔ M.Guarded H s es := by
  induction es generalizing s with
  | nil => exact Iff.rfl
  | cons e es ih =>
    have hhead := hiff s e hs
    constructor
    · rintro ⟨hg, htail⟩
      exact ⟨hhead.mp hg, (ih (hstep s e hs (hhead.mp hg))).mp htail⟩
    · rintro ⟨hg, htail⟩
      exact ⟨hhead.mpr hg, (ih (hstep s e hs hg)).mpr htail⟩

/-- **Exact guards**: where a step from a good state stays good if its event meets
the guard, and must meet it for `P` to hold afterwards, a run keeps `P` exactly when
it is guarded.  `E` is what the events are known to meet anyway. -/
theorem always_iff_guarded {E : σ → ε → Prop} (hP : ∀ s, I s → P s)
    (hstep : ∀ s e, I s → E s e → G s e → I (M.step s e))
    (hneeded : ∀ s e, I s → E s e → P (M.step s e) → G s e) {s : σ} {es : List ε}
    (hs : I s) (henv : M.Guarded E s es) : M.Always P s es ↔ M.Guarded G s es := by
  induction es generalizing s with
  | nil => exact ⟨fun _ => trivial, fun _ => hP s hs⟩
  | cons e es ih =>
    constructor
    · rintro ⟨_, htail⟩
      -- `P` holds after this event, so the event has met its guard
      have hg : G s e := hneeded s e hs henv.1 htail.head
      exact ⟨hg, (ih (hstep s e hs henv.1 hg) henv.2).mp htail⟩
    · rintro ⟨hg, htail⟩
      exact ⟨hP s hs, (ih (hstep s e hs henv.1 hg) henv.2).mpr htail⟩

theorem guarded_and {s : σ} {es : List ε} :
    M.Guarded (fun s e => G s e ∧ H s e) s es ↔ M.Guarded G s es ∧ M.Guarded H s es := by
  induction es generalizing s with
  | nil => exact ⟨fun _ => ⟨trivial, trivial⟩, fun _ => trivial⟩
  | cons e es ih =>
    simp only [Guarded, ih]
    exact and_and_and_comm

/-! ## Histories -/

/-- The machine with a history beside it: `record s e h` is the history after the
event `e` in the state `s`. -/
def withHistory (M : Machine σ ε) (record : σ → ε → η → η) : Machine (σ × η) ε where
  step c e := (M.step c.1 e, record c.1 e c.2)

variable {record : σ → ε → η → η}

/-- A history does not influence the run it records. -/
theorem withHistory_run (c : σ × η) (es : List ε) :
    ((M.withHistory record).run c es).1 = M.run c.1 es := by
  induction es generalizing c with
  | nil => rfl
  | cons e es ih => exact ih _

theorem withHistory_always {c : σ × η} {es : List ε} :
    (M.withHistory record).Always (fun c => P c.1) c es ↔ M.Always P c.1 es := by
  induction es generalizing c with
  | nil => exact Iff.rfl
  | cons e es ih => exact and_congr_right fun _ => ih

theorem withHistory_guarded {c : σ × η} {es : List ε} :
    (M.withHistory record).Guarded (fun c e => G c.1 e) c es ↔ M.Guarded G c.1 es := by
  induction es generalizing c with
  | nil => exact Iff.rfl
  | cons e es ih => exact and_congr_right fun _ => ih

/-! ## Simulation -/

/-- **The simulation rule**: if every guarded step follows zero or more steps of
an abstract relation, so does every guarded run. -/
theorem simulates_run {Step : α → α → Prop} {R : σ → α → Prop}
    (hstep : ∀ s e a, R s a → G s e → ∃ a', Relation.ReflTransGen Step a a' ∧ R (M.step s e) a')
    {s : σ} {es : List ε} {a : α} (hs : R s a) (hg : M.Guarded G s es) :
    ∃ a', Relation.ReflTransGen Step a a' ∧ R (M.run s es) a' := by
  induction es generalizing s a with
  | nil => exact ⟨a, .refl, hs⟩
  | cons e es ih =>
    obtain ⟨b, hab, hb⟩ := hstep s e a hs hg.1
    obtain ⟨c, hbc, hc⟩ := ih hb hg.2
    exact ⟨c, hab.trans hbc, hc⟩

/-- **Two levels of one machine**: if what is seen of a guarded step is the step of another
machine, then what is seen of a guarded run is the run of that machine. -/
theorem run_commutes {N : Machine α ε} {see : σ → α}
    (hstep : ∀ s e, I s → G s e → I (M.step s e))
    (hsee : ∀ s e, I s → G s e → see (M.step s e) = N.step (see s) e) {s : σ} {es : List ε}
    (hs : I s) (hg : M.Guarded G s es) : see (M.run s es) = N.run (see s) es := by
  induction es generalizing s with
  | nil => rfl
  | cons e es ih =>
    show see (M.run (M.step s e) es) = N.run (N.step (see s) e) es
    rw [ih (hstep s e hs hg.1) hg.2, hsee s e hs hg.1]

end Machine
end Transition
