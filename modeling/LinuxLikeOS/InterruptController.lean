import Mathlib.Data.List.FinRange
import Mathlib.Logic.Function.Basic

/-! # Interrupt controllers

The 8259A takes requests on eight lines, and passes the most urgent one on, unless its line is
masked or one as urgent is in service.  Line 0 is the most urgent.  A second controller may hang
on a line of the first; to the first it is one more device.

It is programmed by bytes at two ports: initialisation words, a mask, and the end of an
interrupt.  Rotation of priorities, polling and the automatic end of interrupts are left out.  A
request is taken to stay until it is acknowledged.

Two controllers with one on a line of the other behave as one `Desk` of fifteen lines
(`acknowledge_desk`).
-/
namespace InterruptController

abbrev Byte := BitVec 8

/-- The initialisation words behind the first. -/
inductive InitWord
  | icw2 | icw3 | icw4
  deriving DecidableEq

/-- The registers of a controller: requests, lines in service, the mask, where its vectors begin,
how it is connected, and which words it still waits for. -/
structure Chip where
  irr : Fin 8 → Bool
  isr : Fin 8 → Bool
  imr : Byte
  vector : Byte
  cascade : Byte
  awaits : List InitWord

namespace Chip
variable (c : Chip)

/-- The most urgent line of which this holds. -/
def first (p : Fin 8 → Bool) : Option (Fin 8) := (List.finRange 8).find? p

/-- The line is not in service any more. -/
def finish (i : Fin 8) : Chip := { c with isr := Function.update c.isr i false }

/-- A byte at the even port: ICW1, OCW3 or OCW2. -/
def writeCommand (b : Byte) : Chip :=
  if b.getLsbD 4 then
    { c with
      irr := fun _ => false
      isr := fun _ => false
      imr := 0
      awaits := .icw2 :: ((if b.getLsbD 1 then [] else [.icw3]) ++
        if b.getLsbD 0 then [.icw4] else []) }
  else if b.getLsbD 3 then c
  else if b.extractLsb' 5 3 = 3 then
    -- the end of the interrupt that the byte names
    c.finish (Fin.ofNat 8 b.toNat)
  else if b.extractLsb' 5 3 = 1 then
    match first c.isr with
    | some i => c.finish i
    | none => c
  else c

/-- A byte at the odd port: the word it waits for, or the mask. -/
def writeData (b : Byte) : Chip :=
  match c.awaits with
  | [] => { c with imr := b }
  | .icw2 :: rest => { c with vector := b, awaits := rest }
  | .icw3 :: rest => { c with cascade := b, awaits := rest }
  | .icw4 :: rest => { c with awaits := rest }

def request (i : Fin 8) : Chip := { c with irr := Function.update c.irr i true }

/-- A line as urgent is not in service. -/
def free (i : Fin 8) : Bool := decide (∀ j ≤ i, c.isr j = false)

/-- The request it passes on, of these. -/
def offered (requests : Fin 8 → Bool) : Option (Fin 8) :=
  first fun i => requests i && !c.imr.getLsbD i && c.free i

/-- The request is acknowledged. -/
def serve (i : Fin 8) : Chip :=
  { c with irr := Function.update c.irr i false, isr := Function.update c.isr i true }

/-- The vector of a line: five bits are programmed. -/
def vectorOf (i : Fin 8) : Byte := c.vector.extractLsb' 3 5 ++ BitVec.ofNat 3 i

end Chip

/-- A controller, and one on a line of it. -/
structure Pair where
  master : Chip
  slave : Chip

/-- A line of either. -/
inductive Line
  | master (i : Fin 8)
  | slave (j : Fin 8)
  deriving DecidableEq

/-! ## Two controllers -/

namespace Pair
variable (wire : Fin 8) (p : Pair)

/-- The requests that the first controller sees, with the second on line `wire`. -/
def asked (i : Fin 8) : Bool :=
  if i = wire then (p.slave.offered p.slave.irr).isSome else p.master.irr i

def request : Line → Pair
  | .master i => { p with master := p.master.request i }
  | .slave j => { p with slave := p.slave.request j }

/-- The processor acknowledges an interrupt, and is given its vector: by the second controller if
the first is told that it is on this line, and it is itself.  It gives its last vector if it
has no request. -/
def acknowledge : Option (Byte × Pair) :=
  match p.master.offered (p.asked wire) with
  | none => none
  | some i =>
    if p.master.cascade.getLsbD i ∧ p.slave.cascade.toNat % 8 = i then
      match p.slave.offered p.slave.irr with
      | some j => some (p.slave.vectorOf j, ⟨p.master.serve i, p.slave.serve j⟩)
      | none => some (p.slave.vectorOf 7, ⟨p.master.serve i, p.slave⟩)
    else some (p.master.vectorOf i, ⟨p.master.serve i, p.slave⟩)

/-- The two are told how they are connected. -/
structure Connected : Prop where
  master : ∀ i : Fin 8, p.master.cascade.getLsbD i = true ↔ i = wire
  slave : p.slave.cascade.toNat % 8 = wire

/-- The first has the second in service when the second has a line in service, and then one. -/
structure Coherent : Prop where
  through : p.master.isr wire = true ↔ ∃ j, p.slave.isr j = true
  one : ∀ j j', p.slave.isr j = true → p.slave.isr j' = true → j = j'

end Pair

/-! ## One desk -/

/-- Fifteen lines, some requested, some enabled and some in service. -/
@[ext]
structure Desk where
  requested : Line → Bool
  enabled : Line → Bool
  serving : Line → Bool

namespace Desk
variable (wire : Fin 8) (d : Desk)

/-- How urgent a line is. -/
def level : Line → Fin 8
  | .master i => i
  | .slave _ => wire

/-- No line as urgent is in service. -/
def free (i : Fin 8) : Prop :=
  (∀ j, d.serving (.master j) = true → i < j) ∧ ∀ j, d.serving (.slave j) = true → i < wire

instance (i : Fin 8) : Decidable (d.free wire i) := instDecidableAnd

/-- A request can be acknowledged. -/
def ready (l : Line) : Bool :=
  d.requested l && d.enabled l && d.enabled (.master (level wire l)) &&
    decide (d.free wire (level wire l))

/-- The lines, the most urgent first. -/
def byUrgency : List Line :=
  (List.finRange 8).flatMap fun i =>
    if i = wire then (List.finRange 8).map .slave else [.master i]

/-- The request that is acknowledged next. -/
def next : Option Line := (byUrgency wire).find? (d.ready wire)

def request (l : Line) : Desk := { d with requested := Function.update d.requested l true }

def serve (l : Line) : Desk where
  requested := Function.update d.requested l false
  enabled := d.enabled
  serving := Function.update d.serving l true

def finish (l : Line) : Desk := { d with serving := Function.update d.serving l false }

def enable (l : Line) (on : Bool) : Desk := { d with enabled := Function.update d.enabled l on }

end Desk

/-- What is said of the lines of the first controller and of those of the second. -/
def Line.split (f g : Fin 8 → Bool) : Line → Bool
  | .master i => f i
  | .slave j => g j

/-- What is said of the lines of the first controller, but for that of the second. -/
def except (wire : Fin 8) (f : Fin 8 → Bool) (i : Fin 8) : Bool := decide (i ≠ wire) && f i

/-- The desk that two controllers are. -/
def Pair.desk (wire : Fin 8) (p : Pair) : Desk where
  requested := Line.split (except wire p.master.irr) p.slave.irr
  enabled := Line.split (fun i => !p.master.imr.getLsbD i) fun j => !p.slave.imr.getLsbD j
  serving := Line.split (except wire p.master.isr) p.slave.isr

/-- The vector of a line. -/
def Pair.vectorOf (p : Pair) : Line → Byte
  | .master i => p.master.vectorOf i
  | .slave j => p.slave.vectorOf j

/-- The two, when the request of a line is acknowledged. -/
def Pair.serve (wire : Fin 8) (p : Pair) : Line → Pair
  | .master i => ⟨p.master.serve i, p.slave⟩
  | .slave j => ⟨p.master.serve wire, p.slave.serve j⟩

/-- The two, at the end of the interrupt of a line. -/
def Pair.finish (wire : Fin 8) (p : Pair) : Line → Pair
  | .master i => ⟨p.master.finish i, p.slave⟩
  | .slave j => ⟨p.master.finish wire, p.slave.finish j⟩

/-- What is programmed: the mask, the vectors, the connection, and what is waited for. -/
def Chip.setup (c : Chip) : Byte × Byte × Byte × List InitWord :=
  (c.imr, c.vector, c.cascade, c.awaits)

def Pair.setup (p : Pair) :
    (Byte × Byte × Byte × List InitWord) × (Byte × Byte × Byte × List InitWord) :=
  (p.master.setup, p.slave.setup)

section Setup
variable (wire : Fin 8) (p : Pair) (l : Line)

theorem setup_request : (p.request l).setup = p.setup := by cases l <;> rfl

theorem setup_serve : (p.serve wire l).setup = p.setup := by cases l <;> rfl

theorem setup_finish : (p.finish wire l).setup = p.setup := by cases l <;> rfl

end Setup

/-! ## Searching in two steps -/

theorem find?_bind_eq_findSome? {α β : Type} (g : α → Option β) (l : List α) :
    (l.find? fun a => (g a).isSome).bind g = l.findSome? g := by
  induction l with
  | nil => rfl
  | cons a l ih =>
    rw [List.find?_cons, List.findSome?_cons]
    cases hg : g a with
    | none => exact ih
    | some b => exact hg

/-- The most urgent line is found through the line of the first controller that it is on. -/
theorem find?_byUrgency (wire : Fin 8) (q : Line → Bool) :
    (Desk.byUrgency wire).find? q =
      (Chip.first fun i => if i = wire then (Chip.first fun j => q (.slave j)).isSome
          else q (.master i)).bind
        fun i => if i = wire then (Chip.first fun j => q (.slave j)).map .slave
          else some (.master i) := by
  let g : Fin 8 → Option Line := fun i =>
    if i = wire then (Chip.first fun j => q (.slave j)).map .slave
    else if q (.master i) then some (.master i) else none
  have hpiece : ∀ i, (if i = wire then (List.finRange 8).map Line.slave else [.master i]).find? q =
      g i := by
    intro i
    by_cases hi : i = wire
    · simp only [g, if_pos hi, List.find?_map]
      rfl
    · simp only [g, if_neg hi, List.find?_cons, List.find?_nil]
      cases q (.master i) <;> rfl
  have hsome : (fun i => (g i).isSome) = fun i =>
      if i = wire then (Chip.first fun j => q (.slave j)).isSome else q (.master i) := by
    funext i
    by_cases hi : i = wire
    · simp only [g, if_pos hi, Option.isSome_map]
    · simp only [g, if_neg hi]
      cases q (.master i) <;> rfl
  rw [Desk.byUrgency, List.find?_flatMap]
  simp only [hpiece]
  rw [← find?_bind_eq_findSome? g, hsome]
  show (Chip.first _).bind g = _
  cases hfirst : Chip.first (fun i =>
      if i = wire then (Chip.first fun j => q (.slave j)).isSome else q (.master i)) with
  | none => rfl
  | some i =>
    have hfound := List.find?_some hfirst
    by_cases hi : i = wire
    · simp only [Option.bind_some, g, if_pos hi]
    · rw [if_neg hi] at hfound
      simp only [Option.bind_some, g, if_neg hi, hfound, if_true]

/-! ## Two controllers are one desk -/

section Acknowledging
variable {wire : Fin 8} {p : Pair}

/-- What the first controller has in service, at the desk. -/
theorem Pair.Coherent.free_iff (h : p.Coherent wire) (i : Fin 8) :
    p.master.free i = true ↔ (p.desk wire).free wire i := by
  unfold Chip.free Desk.free
  rw [decide_eq_true_eq]
  constructor
  · intro hfree
    refine ⟨fun j hj => ?_, fun j hj => ?_⟩
    · have hisr : p.master.isr j = true := (Bool.and_eq_true_iff.mp hj).2
      by_contra hlt
      rw [hfree j (not_lt.mp hlt)] at hisr
      cases hisr
    · have hisr : p.master.isr wire = true := h.through.mpr ⟨j, hj⟩
      by_contra hlt
      rw [hfree wire (not_lt.mp hlt)] at hisr
      cases hisr
  · rintro ⟨hmaster, hslave⟩ j hj
    by_contra hisr
    rw [Bool.not_eq_false] at hisr
    by_cases hwire : j = wire
    · rw [hwire] at hisr hj
      obtain ⟨j', hj'⟩ := h.through.mp hisr
      exact absurd (hslave j' hj') (not_lt.mpr hj)
    · refine absurd (hmaster j ?_) (not_lt.mpr hj)
      show (decide (j ≠ wire) && p.master.isr j) = true
      rw [hisr, Bool.and_true]
      exact decide_eq_true hwire

/-- While the second controller serves nothing it offers its most urgent request. -/
theorem offered_of_idle {c : Chip} (h : ∀ j, c.isr j = false) (requests : Fin 8 → Bool) :
    c.offered requests = Chip.first fun j => requests j && !c.imr.getLsbD j := by
  have hfree : ∀ i, c.free i = true := fun i => decide_eq_true fun j _ => h j
  unfold Chip.offered
  simp only [hfree, Bool.and_true]

theorem first_and (q : Fin 8 → Bool) (b : Bool) :
    (Chip.first fun j => q j && b) = if b then Chip.first q else none := by
  cases b with
  | true => simp only [Bool.and_true, if_true]
  | false =>
    simp only [Bool.and_false, Bool.false_eq_true, if_false]
    exact List.find?_eq_none.mpr fun _ _ h => Bool.false_ne_true h

/-- What the second controller offers, at the desk. -/
theorem Pair.Coherent.first_slave (h : p.Coherent wire) :
    (Chip.first fun j => (p.desk wire).ready wire (.slave j)) =
      if !p.master.imr.getLsbD wire && p.master.free wire then p.slave.offered p.slave.irr
      else none := by
  have hready : (fun j => (p.desk wire).ready wire (.slave j)) = fun j =>
      (p.slave.irr j && !p.slave.imr.getLsbD j) &&
        (!p.master.imr.getLsbD wire && decide ((p.desk wire).free wire wire)) := by
    funext j
    exact Bool.and_assoc _ _ _
  have hdecide : decide ((p.desk wire).free wire wire) = p.master.free wire := by
    rw [Bool.eq_iff_iff, decide_eq_true_eq]
    exact (h.free_iff wire).symm
  rw [hready, first_and, hdecide]
  by_cases hfree : p.master.free wire = true
  · have hidle : ∀ j, p.slave.isr j = false := by
      intro j
      by_contra hisr
      exact lt_irrefl wire (((h.free_iff wire).mp hfree).2 j (Bool.not_eq_false _ ▸ hisr))
    rw [offered_of_idle hidle]
  · rw [Bool.not_eq_true] at hfree
    rw [hfree, Bool.and_false]
    rfl

/-- **Two controllers are one desk**: they acknowledge the same request. -/
theorem acknowledge_desk (hconnected : p.Connected wire) (hcoherent : p.Coherent wire) :
    p.acknowledge wire =
      ((p.desk wire).next wire).map fun l => (p.vectorOf l, p.serve wire l) := by
  have hslave := hcoherent.first_slave
  -- the first controller looks at the same lines
  have hmaster : p.master.offered (p.asked wire) = Chip.first fun i =>
      if i = wire then (Chip.first fun j => (p.desk wire).ready wire (.slave j)).isSome
      else (p.desk wire).ready wire (.master i) := by
    unfold Chip.offered
    congr 1
    funext i
    have hfree : decide ((p.desk wire).free wire i) = p.master.free i := by
      rw [Bool.eq_iff_iff, decide_eq_true_eq]
      exact (hcoherent.free_iff i).symm
    by_cases hi : i = wire
    · subst hi
      rw [if_pos rfl, hslave, Pair.asked, if_pos rfl, Bool.and_assoc]
      cases !p.master.imr.getLsbD i && p.master.free i with
      | true => exact Bool.and_true _
      | false => exact Bool.and_false _
    · rw [if_neg hi, Pair.asked, if_neg hi]
      show _ = ((decide (i ≠ wire) && p.master.irr i) && !p.master.imr.getLsbD i &&
        !p.master.imr.getLsbD i && decide ((p.desk wire).free wire i))
      rw [hfree, decide_eq_true hi, Bool.true_and, Bool.and_assoc (p.master.irr i) (!_) (!_),
        Bool.and_self]
  rw [Desk.next, find?_byUrgency, ← hmaster, Pair.acknowledge]
  cases hoffered : p.master.offered (p.asked wire) with
  | none => rfl
  | some i =>
    dsimp only
    rw [Option.bind_some]
    by_cases hi : i = wire
    · subst hi
      rw [hmaster] at hoffered
      have hsome := List.find?_some hoffered
      rw [if_pos rfl, hslave] at hsome
      rw [if_pos ⟨(hconnected.master i).mpr rfl, hconnected.slave⟩, if_pos rfl, hslave]
      split at hsome
      · rename_i hgranted
        rw [if_pos hgranted]
        obtain ⟨j, hj⟩ := Option.isSome_iff_exists.mp hsome
        rw [hj]
        rfl
      · cases hsome
    · rw [if_neg fun h => hi ((hconnected.master i).mp h.1), if_neg hi]
      rfl

end Acknowledging

/-! ## The desk after a step -/

section Steps
variable {wire : Fin 8} {p : Pair} {l : Line}

theorem mem_byUrgency : l ∈ Desk.byUrgency wire ↔ l ≠ .master wire := by
  unfold Desk.byUrgency
  rw [List.mem_flatMap]
  constructor
  · rintro ⟨i, -, hl⟩ rfl
    split at hl
    · simp at hl
    · rename_i hi
      exact hi (Line.master.inj (List.mem_singleton.mp hl)).symm
  · intro hl
    cases l with
    | master i =>
      have hi : i ≠ wire := fun h => hl (congrArg Line.master h)
      exact ⟨i, List.mem_finRange i, by simp [hi]⟩
    | slave j => exact ⟨wire, List.mem_finRange wire, by simp⟩

/-- What is acknowledged is ready, and not the line of the second controller. -/
theorem Desk.next_eq_some {d : Desk} (h : d.next wire = some l) :
    l ≠ .master wire ∧ d.ready wire l = true :=
  ⟨mem_byUrgency.mp (List.mem_of_find?_eq_some h), List.find?_some h⟩

theorem split_update_master (f g : Fin 8 → Bool) (i : Fin 8) (b : Bool) :
    Line.split (Function.update f i b) g = Function.update (Line.split f g) (.master i) b := by
  funext l
  cases l with
  | master i' =>
    by_cases h : i' = i
    · rw [h, Function.update_self]
      exact Function.update_self ..
    · rw [Function.update_of_ne fun heq => h (Line.master.inj heq)]
      exact Function.update_of_ne h _ _
  | slave j => exact (Function.update_of_ne Line.noConfusion _ _).symm

theorem split_update_slave (f g : Fin 8 → Bool) (j : Fin 8) (b : Bool) :
    Line.split f (Function.update g j b) = Function.update (Line.split f g) (.slave j) b := by
  funext l
  cases l with
  | master i => exact (Function.update_of_ne Line.noConfusion _ _).symm
  | slave j' =>
    by_cases h : j' = j
    · rw [h, Function.update_self]
      exact Function.update_self ..
    · rw [Function.update_of_ne fun heq => h (Line.slave.inj heq)]
      exact Function.update_of_ne h _ _

theorem except_update (f : Fin 8 → Bool) (i : Fin 8) (b : Bool) :
    except wire (Function.update f i b) =
      if i = wire then except wire f else Function.update (except wire f) i b := by
  funext i'
  unfold except
  by_cases hi : i = wire
  · rw [if_pos hi]
    by_cases h : i' = wire
    · simp [h]
    · rw [Function.update_of_ne (by rwa [hi])]
  · rw [if_neg hi]
    by_cases h : i' = i
    · simp [h, hi]
    · rw [Function.update_of_ne h, Function.update_of_ne h]

theorem desk_request (hl : l ≠ .master wire) :
    (p.request l).desk wire = (p.desk wire).request l := by
  cases l with
  | master i =>
    have hi : i ≠ wire := fun h => hl (congrArg Line.master h)
    refine Desk.ext ?_ rfl rfl
    show Line.split (except wire (Function.update p.master.irr i true)) p.slave.irr = _
    rw [except_update, if_neg hi, split_update_master]
    rfl
  | slave j => exact Desk.ext (split_update_slave _ _ j true) rfl rfl

theorem desk_serve (hl : l ≠ .master wire) :
    (p.serve wire l).desk wire = (p.desk wire).serve l := by
  cases l with
  | master i =>
    have hi : i ≠ wire := fun h => hl (congrArg Line.master h)
    refine Desk.ext ?_ rfl ?_
    · show Line.split (except wire (Function.update p.master.irr i false)) p.slave.irr = _
      rw [except_update, if_neg hi, split_update_master]
      rfl
    · show Line.split (except wire (Function.update p.master.isr i true)) p.slave.isr = _
      rw [except_update, if_neg hi, split_update_master]
      rfl
  | slave j =>
    refine Desk.ext ?_ rfl ?_
    · show Line.split (except wire (Function.update p.master.irr wire false))
        (Function.update p.slave.irr j false) = _
      rw [except_update, if_pos rfl, split_update_slave]
      rfl
    · show Line.split (except wire (Function.update p.master.isr wire true))
        (Function.update p.slave.isr j true) = _
      rw [except_update, if_pos rfl, split_update_slave]
      rfl

theorem desk_finish (hl : l ≠ .master wire) :
    (p.finish wire l).desk wire = (p.desk wire).finish l := by
  cases l with
  | master i =>
    have hi : i ≠ wire := fun h => hl (congrArg Line.master h)
    refine Desk.ext rfl rfl ?_
    show Line.split (except wire (Function.update p.master.isr i false)) p.slave.isr = _
    rw [except_update, if_neg hi, split_update_master]
    rfl
  | slave j =>
    refine Desk.ext rfl rfl ?_
    show Line.split (except wire (Function.update p.master.isr wire false))
      (Function.update p.slave.isr j false) = _
    rw [except_update, if_pos rfl, split_update_slave]
    rfl

/-- A mask in which one bit may be another. -/
theorem desk_mask_master {m : Byte} {i : Fin 8} {on : Bool}
    (hm : ∀ k : Fin 8, m.getLsbD k = if k = i then !on else p.master.imr.getLsbD k) :
    ({ p with master := { p.master with imr := m } } : Pair).desk wire =
      (p.desk wire).enable (.master i) on := by
  refine Desk.ext rfl ?_ rfl
  have hmask : (fun k : Fin 8 => !m.getLsbD k) =
      Function.update (fun k : Fin 8 => !p.master.imr.getLsbD k) i on := by
    funext k
    rw [hm]
    by_cases hk : k = i
    · rw [if_pos hk, hk, Function.update_self, Bool.not_not]
    · rw [if_neg hk, Function.update_of_ne hk]
  show Line.split (fun k : Fin 8 => !m.getLsbD k) _ = _
  rw [hmask, split_update_master]
  rfl

theorem desk_mask_slave {m : Byte} {j : Fin 8} {on : Bool}
    (hm : ∀ k : Fin 8, m.getLsbD k = if k = j then !on else p.slave.imr.getLsbD k) :
    ({ p with slave := { p.slave with imr := m } } : Pair).desk wire =
      (p.desk wire).enable (.slave j) on := by
  refine Desk.ext rfl ?_ rfl
  have hmask : (fun k : Fin 8 => !m.getLsbD k) =
      Function.update (fun k : Fin 8 => !p.slave.imr.getLsbD k) j on := by
    funext k
    rw [hm]
    by_cases hk : k = j
    · rw [if_pos hk, hk, Function.update_self, Bool.not_not]
    · rw [if_neg hk, Function.update_of_ne hk]
  show Line.split _ (fun k : Fin 8 => !m.getLsbD k) = _
  rw [hmask, split_update_slave]
  rfl

theorem Pair.Coherent.request (h : p.Coherent wire) (l : Line) : (p.request l).Coherent wire := by
  cases l <;> exact ⟨h.through, h.one⟩

/-- A request of the second controller is acknowledged while it serves nothing. -/
theorem Pair.Coherent.serve (h : p.Coherent wire) (hl : l ≠ .master wire)
    (hready : (p.desk wire).ready wire l = true) : (p.serve wire l).Coherent wire := by
  cases l with
  | master i =>
    have hi : wire ≠ i := fun h => hl (congrArg Line.master h.symm)
    refine ⟨?_, h.one⟩
    show Function.update p.master.isr i true wire = true ↔ _
    rw [Function.update_of_ne hi]
    exact h.through
  | slave j =>
    have hidle : ∀ j', p.slave.isr j' ≠ true := fun j' hj' =>
      lt_irrefl wire ((of_decide_eq_true (Bool.and_eq_true_iff.mp hready).2).2 j' hj')
    refine ⟨iff_of_true (Function.update_self ..) ⟨j, Function.update_self ..⟩, ?_⟩
    have honly : ∀ j', Function.update p.slave.isr j true j' = true → j' = j := by
      intro j' hj'
      by_contra hne
      rw [Function.update_of_ne hne] at hj'
      exact hidle j' hj'
    exact fun j₁ j₂ h₁ h₂ => (honly j₁ h₁).trans (honly j₂ h₂).symm

/-- The line that ends was the only one of the second controller. -/
theorem Pair.Coherent.finish (h : p.Coherent wire) (hl : l ≠ .master wire)
    (hserving : (p.desk wire).serving l = true) : (p.finish wire l).Coherent wire := by
  cases l with
  | master i =>
    have hi : wire ≠ i := fun h => hl (congrArg Line.master h.symm)
    refine ⟨?_, h.one⟩
    show Function.update p.master.isr i false wire = true ↔ _
    rw [Function.update_of_ne hi]
    exact h.through
  | slave j =>
    have hnone : ∀ j', Function.update p.slave.isr j false j' ≠ true := by
      intro j' hj'
      by_cases hne : j' = j
      · rw [hne, Function.update_self] at hj'
        cases hj'
      · rw [Function.update_of_ne hne] at hj'
        exact hne (h.one j' j hj' hserving)
    refine ⟨iff_of_false ?_ fun ⟨j', hj'⟩ => hnone j' hj', fun j₁ _ h₁ _ => absurd h₁ (hnone j₁)⟩
    show ¬Function.update p.master.isr wire false wire = true
    rw [Function.update_self]
    exact Bool.false_ne_true

end Steps

end InterruptController
