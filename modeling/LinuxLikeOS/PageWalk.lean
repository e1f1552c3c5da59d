import Mathlib.Logic.Function.Basic
import LinuxLikeOS.Transition

/-! # Two levels of pages

Address translation of a 32-bit x86 with pages of 4KB and of 4MB.  A directory has an entry for
each 4MB; the entry is a page itself (`large`), or leads to a table with an entry for each 4KB.
A page may be used as far as both levels allow it.

The processor may walk the tables at any time and remember the pages it finds (`Tlb`), until
its buffer is flushed.  If every change of the tables comes with a flush, what it remembers is
always what the tables say (`current_run`).
-/
namespace PageWalk
open Transition

abbrev Address := BitVec 32

/-- The number of an address in a frame. -/
theorem toNat_frame_append (f : BitVec 20) (o : BitVec 12) :
    (f ++ o : Address).toNat = 4096 * f.toNat + o.toNat := by
  have happend : (f ++ o : Address).toNat = f.toNat <<< 12 ||| o.toNat := BitVec.toNat_append f o
  rw [happend, ← Nat.shiftLeft_add_eq_or_of_lt o.isLt, Nat.shiftLeft_eq, Nat.mul_comm]

/-- The number of the address of a table entry. -/
theorem toNat_entry_append (f : BitVec 20) (i : BitVec 10) :
    (f ++ i ++ 0#2 : Address).toNat = 4096 * f.toNat + 4 * i.toNat := by
  have houter : (f ++ i ++ 0#2 : Address).toNat = (f ++ i : BitVec 30).toNat <<< 2 ||| 0 :=
    BitVec.toNat_append (f ++ i : BitVec 30) 0#2
  have hinner : (f ++ i : BitVec 30).toNat = f.toNat <<< 10 ||| i.toNat := BitVec.toNat_append f i
  rw [houter, hinner, ← Nat.shiftLeft_add_eq_or_of_lt i.isLt, Nat.or_zero, Nat.shiftLeft_eq,
    Nat.shiftLeft_eq]
  omega

theorem toNat_offset (v : Address) : (v.extractLsb' 0 12).toNat = v.toNat % 4096 := by
  rw [BitVec.extractLsb'_toNat, Nat.shiftRight_zero]

theorem toNat_pageNumber (v : Address) : (v.extractLsb' 12 20).toNat = v.toNat / 4096 := by
  rw [BitVec.extractLsb'_toNat, Nat.shiftRight_eq_div_pow]
  have hlt := v.isLt
  omega

/-! ## Entries -/

/-- An entry of a directory or of a table, as far as a walk looks at it. -/
structure Entry where
  present : Bool
  writable : Bool
  user : Bool
  large : Bool
  frame : BitVec 20
  deriving DecidableEq

namespace Entry

/-- The entry in a word. -/
def ofWord (w : BitVec 32) : Entry :=
  ⟨w.getLsbD 0, w.getLsbD 1, w.getLsbD 2, w.getLsbD 7, w.extractLsb' 12 20⟩

/-- The word of an entry, with bits 8 to 11 and 3 to 6, at which a walk does not look. -/
def toWord (e : Entry) (high low : BitVec 4) : BitVec 32 :=
  e.frame.setWidth 32 <<< 12 ||| high.setWidth 32 <<< 8 |||
    (BitVec.ofBool e.large).setWidth 32 <<< 7 |||
    low.setWidth 32 <<< 3 ||| (BitVec.ofBool e.user).setWidth 32 <<< 2 |||
    (BitVec.ofBool e.writable).setWidth 32 <<< 1 ||| (BitVec.ofBool e.present).setWidth 32

theorem ofWord_toWord (e : Entry) (high low : BitVec 4) : ofWord (e.toWord high low) = e := by
  obtain ⟨present, writable, user, large, frame⟩ := e
  unfold ofWord toWord
  congr 1
  · simp
  · simp
  · simp
  · simp
  · apply BitVec.eq_of_getLsbD_eq
    intro i hi
    -- the other fields are below bit 12
    have hhigh : high.getLsbD (12 + i - 8) = false := BitVec.getLsbD_of_ge _ _ (by omega)
    have hlow : low.getLsbD (12 + i - 3) = false := BitVec.getLsbD_of_ge _ _ (by omega)
    have hlarge : ¬12 + i - 7 = 0 := by omega
    have huser : ¬12 + i - 2 = 0 := by omega
    have hinside : 12 + i < 32 ∧ ¬12 + i < 12 ∧ i < 32 := by omega
    simp [hi, hhigh, hlow, hlarge, huser, hinside]

end Entry

/-! ## The walk -/

/-- Who accesses a page, and how. -/
structure Access where
  user : Bool
  write : Bool
  deriving DecidableEq

/-- A page: its frame, and what both levels allow. -/
structure Page where
  frame : BitVec 20
  writable : Bool
  user : Bool
  deriving DecidableEq

/-- The supervisor may do anything: write protection binds the user only, unless CR0.WP is set. -/
def Access.granted (a : Access) (writable user : Bool) : Bool :=
  !a.user || (user && (!a.write || writable))

/-- A directory, and the tables that may be in the frames. -/
structure Tables where
  directory : BitVec 10 → Entry
  table : BitVec 20 → BitVec 10 → Entry

/-- The tables in a memory, with the directory where CR3 says. -/
def Tables.inMemory (load : Address → BitVec 32) (cr3 : Address) : Tables where
  directory i := Entry.ofWord (load (cr3.extractLsb' 12 20 ++ i ++ 0#2))
  table f i := Entry.ofWord (load (f ++ i ++ 0#2))

/-- The page with number `n`. -/
def Tables.page (t : Tables) (n : BitVec 20) : Option Page :=
  let d := t.directory (n.extractLsb' 10 10)
  if d.present then
    if d.large then
      -- the low bits of the frame are reserved, and come from the address
      if d.frame.extractLsb' 0 10 = 0 then
        some ⟨d.frame.extractLsb' 10 10 ++ n.extractLsb' 0 10, d.writable, d.user⟩
      else none
    else
      let e := t.table d.frame (n.extractLsb' 0 10)
      if e.present then some ⟨e.frame, d.writable && e.writable, d.user && e.user⟩ else none
  else none

/-- Where an address leads, if its page is found and allows the access; otherwise there is a page
fault. -/
def translateBy (page : BitVec 20 → Option Page) (a : Access) (v : Address) : Option Address :=
  match page (v.extractLsb' 12 20) with
  | none => none
  | some p => if a.granted p.writable p.user then some (p.frame ++ v.extractLsb' 0 12) else none

/-- Where the tables lead. -/
def Tables.translate (t : Tables) : Access → Address → Option Address := translateBy t.page

section Translation
variable {page : BitVec 20 → Option Page} {a : Access} {v w : Address}

theorem translateBy_eq_some :
    translateBy page a v = some w ↔ ∃ p, page (v.extractLsb' 12 20) = some p ∧
      a.granted p.writable p.user = true ∧ w = p.frame ++ v.extractLsb' 0 12 := by
  unfold translateBy
  cases hpage : page (v.extractLsb' 12 20) with
  | none => exact iff_of_false (by simp) (by simp)
  | some p =>
    by_cases hgranted : a.granted p.writable p.user = true
    · simp only [hgranted, if_true, Option.some.injEq, exists_eq_left', true_and]
      exact eq_comm
    · simp [hgranted]

/-- What the user may do, the supervisor may do. -/
theorem translateBy_supervisor (h : translateBy page a v = some w) (write : Bool) :
    translateBy page ⟨false, write⟩ v = some w := by
  obtain ⟨p, hp, -, hw⟩ := translateBy_eq_some.mp h
  exact translateBy_eq_some.mpr ⟨p, hp, rfl, hw⟩

end Translation

/-- A walk looks at one entry of the directory, and at one of the table it leads to. -/
theorem page_congr {t t' : Tables} {n : BitVec 20}
    (hdirectory : t'.directory (n.extractLsb' 10 10) = t.directory (n.extractLsb' 10 10))
    (htable : (t.directory (n.extractLsb' 10 10)).present = true →
      (t.directory (n.extractLsb' 10 10)).large = false →
        t'.table (t.directory (n.extractLsb' 10 10)).frame (n.extractLsb' 0 10) =
          t.table (t.directory (n.extractLsb' 10 10)).frame (n.extractLsb' 0 10)) :
    t'.page n = t.page n := by
  unfold Tables.page
  rw [hdirectory]
  generalize t.directory (n.extractLsb' 10 10) = d at htable
  dsimp only
  by_cases hpresent : d.present = true
  · by_cases hlarge : d.large = true
    · rw [if_pos hlarge, if_pos hlarge]
    · rw [if_neg hlarge, if_neg hlarge, htable hpresent (Bool.not_eq_true _ ▸ hlarge)]
  · rw [if_neg hpresent, if_neg hpresent]

/-! ## Pages of both sizes -/

namespace Tables
variable (t : Tables) (v : Address)

/-- The entry of the directory for an address. -/
def above : Entry := t.directory ((v.extractLsb' 12 20).extractLsb' 10 10)

/-- The entry of the table below it. -/
def below : Entry := t.table (t.above v).frame ((v.extractLsb' 12 20).extractLsb' 0 10)

end Tables

section Pages
variable {t : Tables} {v : Address}

theorem translate_absent (h : (t.above v).present = false) (a : Access) :
    t.translate a v = none := by
  have hpage : t.page (v.extractLsb' 12 20) = none := by
    show (if (t.above v).present then _ else _) = _
    rw [h]
    rfl
  rw [Tables.translate, translateBy, hpage]

/-- A page of 4KB. -/
theorem translate_small (hpresent : (t.above v).present = true) (hsmall : (t.above v).large = false)
    (a : Access) : t.translate a v =
      if (t.below v).present = true ∧ a.granted ((t.above v).writable && (t.below v).writable)
          ((t.above v).user && (t.below v).user) = true then
        some ((t.below v).frame ++ v.extractLsb' 0 12)
      else none := by
  have hpage : t.page (v.extractLsb' 12 20) =
      if (t.below v).present then
        some ⟨(t.below v).frame, (t.above v).writable && (t.below v).writable,
          (t.above v).user && (t.below v).user⟩
      else none := by
    show (if (t.above v).present then if (t.above v).large then _ else _ else _) = _
    rw [hpresent, hsmall]
    rfl
  rw [Tables.translate, translateBy, hpage]
  by_cases he : (t.below v).present = true
  · simp only [he, if_true, true_and]
  · simp only [he, if_false, false_and, Bool.false_eq_true]

/-- A page of 4MB. -/
theorem translate_large (hpresent : (t.above v).present = true) (hlarge : (t.above v).large = true)
    (haligned : (t.above v).frame.toNat % 1024 = 0) :
    ∃ w : Address, w.toNat = 4096 * (t.above v).frame.toNat + v.toNat % 4194304 ∧
      ∀ a, t.translate a v =
        if a.granted (t.above v).writable (t.above v).user then some w else none := by
  have hreserved : (t.above v).frame.extractLsb' 0 10 = 0 := by
    apply BitVec.eq_of_toNat_eq
    rw [BitVec.extractLsb'_toNat, Nat.shiftRight_zero]
    exact haligned
  let f : BitVec 20 := (t.above v).frame.extractLsb' 10 10 ++ (v.extractLsb' 12 20).extractLsb' 0 10
  have hf : f.toNat = (t.above v).frame.toNat + v.toNat / 4096 % 1024 := by
    have happend : f.toNat = ((t.above v).frame.extractLsb' 10 10).toNat <<< 10 |||
        ((v.extractLsb' 12 20).extractLsb' 0 10).toNat := BitVec.toNat_append _ _
    have hframe := (t.above v).frame.isLt
    rw [happend, ← Nat.shiftLeft_add_eq_or_of_lt (BitVec.isLt _), Nat.shiftLeft_eq,
      BitVec.extractLsb'_toNat, BitVec.extractLsb'_toNat, toNat_pageNumber, Nat.shiftRight_zero,
      Nat.shiftRight_eq_div_pow]
    omega
  have hpage : t.page (v.extractLsb' 12 20) = some ⟨f, (t.above v).writable, (t.above v).user⟩ := by
    show (if (t.above v).present then if (t.above v).large then
      if (t.above v).frame.extractLsb' 0 10 = 0 then _ else _ else _ else _) = _
    rw [hpresent, hlarge, hreserved]
    rfl
  refine ⟨f ++ v.extractLsb' 0 12, ?_, fun a => ?_⟩
  · rw [toNat_frame_append, toNat_offset, hf]
    omega
  · rw [Tables.translate, translateBy, hpage]

end Pages

/-! ## The pages the processor remembers -/

/-- Which pages are there. -/
abbrev Pages := BitVec 20 → Option Page

/-- A translation lookaside buffer: the pages it holds. -/
abbrev Tlb := BitVec 20 → Option Page

namespace Tlb

/-- After CR3 has been written. -/
def flushed : Tlb := fun _ => none

/-- The processor looks a page up, and remembers it. -/
def fill (b : Tlb) (pages : Pages) (n : BitVec 20) : Tlb := Function.update b n (pages n)

/-- The pages it uses: what is remembered goes before the tables. -/
def before (b : Tlb) (pages : Pages) : Pages := fun n =>
  match b n with
  | some p => some p
  | none => pages n

/-- What is remembered is what the tables say. -/
def Current (b : Tlb) (pages : Pages) : Prop := ∀ n p, b n = some p → pages n = some p

variable {b : Tlb} {pages : Pages}

theorem current_flushed (pages : Pages) : flushed.Current pages := by
  intro n p h
  cases h

theorem Current.fill (h : b.Current pages) (n : BitVec 20) : (b.fill pages n).Current pages := by
  intro m p hm
  by_cases hmn : m = n
  · subst hmn
    rwa [Tlb.fill, Function.update_self] at hm
  · rw [Tlb.fill, Function.update_of_ne hmn] at hm
    exact h m p hm

/-- Then it makes no difference. -/
theorem Current.before_eq (h : b.Current pages) : b.before pages = pages := by
  funext n
  unfold Tlb.before
  cases hb : b n with
  | none => rfl
  | some p => exact (h n p hb).symm

end Tlb

section Runs
variable {σ ε : Type}

/-- Something happens, or the processor looks a page up. -/
inductive Moment (ε : Type)
  | event (e : ε)
  | walk (n : BitVec 20)

/-- A machine with page tables, on a processor with a buffer. -/
def withTlb (M : Machine σ ε) (pages : σ → Pages) (flushes : σ → ε → Bool) :
    Machine (σ × Tlb) (Moment ε) where
  step c
    | .event e => (M.step c.1 e, if flushes c.1 e then Tlb.flushed else c.2)
    | .walk n => (c.1, c.2.fill (pages c.1) n)

/-- The events of a run. -/
def events : List (Moment ε) → List ε
  | [] => []
  | .event e :: ms => e :: events ms
  | .walk _ :: ms => events ms

variable {M : Machine σ ε} {pages : σ → Pages} {flushes : σ → ε → Bool}

theorem current_event {s : σ} {b : Tlb} (h : b.Current (pages s)) {e : ε}
    (hflush : flushes s e = false → pages (M.step s e) = pages s) :
    Tlb.Current (if flushes s e then Tlb.flushed else b) (pages (M.step s e)) := by
  by_cases he : flushes s e = true
  · rw [if_pos he]
    exact Tlb.current_flushed _
  · rw [if_neg he, hflush (Bool.not_eq_true _ ▸ he)]
    exact h

/-- **If every change of the tables comes with a flush**, what the processor remembers is what
the tables say, whenever it walks them; and what the events preserve is preserved. -/
theorem current_run {I : σ → Prop} {G : σ → ε → Prop}
    (hstep : ∀ s e, I s → G s e → I (M.step s e))
    (hflush : ∀ s e, I s → G s e → flushes s e = false → pages (M.step s e) = pages s)
    {c : σ × Tlb} (hI : I c.1) (h : c.2.Current (pages c.1)) {ms : List (Moment ε)}
    (hg : M.Guarded G c.1 (events ms)) :
    (withTlb M pages flushes).Always (fun c => I c.1 ∧ c.2.Current (pages c.1)) c ms := by
  induction ms generalizing c with
  | nil => exact ⟨hI, h⟩
  | cons m ms ih =>
    refine ⟨⟨hI, h⟩, ?_⟩
    cases m with
    | walk n => exact ih (c := (withTlb M pages flushes).step c (.walk n)) hI (h.fill n) hg
    | event e =>
      exact ih (c := (withTlb M pages flushes).step c (.event e)) (hstep c.1 e hI hg.1)
        (current_event h (hflush c.1 e hI hg.1)) hg.2

end Runs

end PageWalk
