import LinuxLikeOS.FilePrinting
import LinuxLikeOS.LineBuffer
import LinuxLikeOS.ArraySlices

/-! # What `grep` prints

`do_one_file` reads a file into a buffer of 1024 bytes and works on the lines in it.  The part of
a line that the end of the buffer cuts off is moved to its start by `ece391_strcpy`, and the next
read goes on behind it.  For a text the buffer holds at any time what has been read and is not yet
worked on (`InBuffer`), so in the end every line has been searched once, and whole.

Two things are asked of the file: no NUL, which would end the move early, and no line longer than
the buffer.  One is asked of the memory: `do_one_file` looks at the entry behind a full buffer,
which nothing has written, and takes a newline there for one of the file.

The clock reads as an empty file, and of other files the proofs show only that `grep` gets through
them.
-/
namespace LinuxLikeOS
open CallingPrograms CountedLoop TerminatedText ArraySlices LineBuffer
open CallingPrograms.Program (make loop)
open Ece391

/-! ## What it is to print -/

/-- A line that contains the pattern, behind the name of its file. -/
def grepLine (pattern fname line : List Byte) : List Byte :=
  if pattern <:+: line then fname ++ [0x3A] ++ line ++ [0x0A] else []

/-- The lines of a file that contain the pattern. -/
def grepText (pattern fname contents : List Byte) : List Byte :=
  output 0x0A (grepLine pattern fname) contents

/-- An empty line contains no pattern. -/
theorem grepLine_nil {pattern : List Byte} (h : pattern ≠ []) (fname : List Byte) :
    grepLine pattern fname [] = [] := by
  rw [grepLine, if_neg]
  rwa [List.infix_nil]

/-- A text whose lines fit the buffer. -/
structure IsText (contents : List Byte) : Prop where
  noNul : (0 : Byte) ∉ contents
  fits : Fits 0x0A 1024 contents

theorem isText_nil : IsText [] := ⟨List.not_mem_nil, fits_nil⟩

/-! ## The functions of `ece391support.c` -/

/-- **`ece391_strncmp` compares the texts in the two arrays.** -/
theorem strncmp_iff (s t : Nat → Byte) (n i : Nat) :
    Ece391.strncmp s t n i = 0 ↔ text 0 s n i = text 0 t n i := by
  induction n generalizing i with
  | zero => simp [Ece391.strncmp, text]
  | succ n ih =>
    rw [Ece391.strncmp]
    by_cases hst : s i = t i
    · rw [if_pos hst]
      by_cases hs : s i = 0
      · rw [if_pos hs, text_end hs, text_end (hst.symm.trans hs)]
        exact iff_of_true rfl rfl
      · have ht : t i ≠ 0 := fun ht => hs (hst.trans ht)
        rw [if_neg hs, text_entry hs, text_entry ht, ih, hst, List.cons.injEq]
        exact (and_iff_right rfl).symm
    · rw [if_neg hst, Int.sub_eq_zero, Int.natCast_inj, BitVec.toNat_inj]
      refine iff_of_false hst fun htext => ?_
      by_cases hs : s i = 0
      · have ht : t i ≠ 0 := fun ht => hst (hs.trans ht.symm)
        rw [text_end hs, text_entry ht] at htext
        cases htext
      · by_cases ht : t i = 0
        · rw [text_entry hs, text_end ht] at htext
          cases htext
        · rw [text_entry hs, text_entry ht] at htext
          exact hst (List.cons.inj htext).1

/-- **`ece391_strcpy` down in one array** moves the text and its NUL, and nothing else. -/
theorem strcpy_down {array : Nat → Byte} {dst src length rounds i : Nat} (hdown : dst < src)
    (htext : ∀ j, i ≤ j → j < length → array (src + j) ≠ 0) (hend : array (src + length) = 0)
    (hi : i ≤ length) (hrounds : length - i < rounds) :
    ∃ moved, Ece391.strcpy array dst src rounds i = some moved ∧
      (∀ j, i ≤ j → j ≤ length → moved (dst + j) = array (src + j)) ∧
      ∀ x, x < dst + i ∨ dst + length < x → moved x = array x := by
  -- on the rounds: each copies an entry from above those that are written
  induction rounds generalizing array i with
  | zero => omega
  | succ rounds ih =>
    rw [Ece391.strcpy]
    by_cases hlast : i = length
    · subst hlast
      rw [if_pos hend]
      refine ⟨_, rfl, fun j hlow hhigh => ?_, fun x hx => ?_⟩
      · obtain rfl : j = i := by omega
        exact Function.update_self ..
      · exact Function.update_of_ne (by omega) ..
    · rw [if_neg (htext i (Nat.le_refl i) (by omega))]
      have hsame : ∀ j, i < j → Function.update array (dst + i) (array (src + i)) (src + j) =
          array (src + j) := fun j hj => Function.update_of_ne (by omega) ..
      have htext' : ∀ j, i + 1 ≤ j → j < length →
          Function.update array (dst + i) (array (src + i)) (src + j) ≠ 0 := by
        intro j hlow hhigh
        rw [hsame j hlow]
        exact htext j (by omega) hhigh
      obtain ⟨moved, hmoved, hcopied, hframe⟩ :=
        ih htext' ((hsame length (by omega)).trans hend) (by omega) (by omega)
      refine ⟨moved, hmoved, fun j hlow hhigh => ?_, fun x hx => ?_⟩
      · by_cases hj : j = i
        · rw [hj, hframe (dst + i) (by omega)]
          exact Function.update_self ..
        · rw [hcopied j (by omega) hhigh, hsame j (by omega)]
      · rw [hframe x (by omega)]
        exact Function.update_of_ne (by omega) ..

/-- The end of a buffer moves to its start as far as its first NUL goes, which of a text is the one
behind it; the last entry stays. -/
theorem strcpy_line {array : Nat → Byte} {start stop : Nat} (hstart : 0 < start)
    (hordered : start ≤ stop) (hstop : stop ≤ 1024) (hend : array stop = 0) :
    ∃ moved, Ece391.strcpy array 0 start 1025 0 = some moved ∧ moved 1024 = array 1024 ∧
      ((0 : Byte) ∉ slice array start stop →
        slice moved 0 (stop - start) = slice array start stop) := by
  obtain ⟨hle, hpass, hfirst⟩ :=
    (leading_eq_iff (p := fun j => array (start + j) != 0) (n := stop - start) (i := 0)).mp rfl
  generalize hcount : leading (fun j => array (start + j) != 0) (stop - start) 0 = count
    at hle hpass hfirst
  have htext : ∀ j, 0 ≤ j → j < count → array (start + j) ≠ 0 := by
    intro j _ hj
    have hentry := hpass j hj
    simpa using hentry
  have hnul : array (start + count) = 0 := by
    by_cases hshort : count < stop - start
    · have hentry := hfirst hshort
      simpa using hentry
    · rw [show start + count = stop by omega, hend]
  have hroom : count - 0 < 1025 := by omega
  obtain ⟨moved, hmoved, hcopied, hframe⟩ :=
    strcpy_down hstart htext hnul (Nat.zero_le count) hroom
  refine ⟨moved, hmoved, hframe 1024 (by omega), fun hclean => ?_⟩
  have hall : count = stop - start := by
    by_contra hne
    exact hclean (mem_slice.mpr ⟨start + count, by omega, by omega, hnul⟩)
  refine slice_congr (by omega) fun j hj => ?_
  exact hcopied j (Nat.zero_le j) (by omega)

/-! ## The line at a place of the buffer -/

section Lines
variable {data : Nat → Byte} {last start : Nat}

theorem lineEnd_ge (data : Nat → Byte) (last start : Nat) : start ≤ lineEnd data last start :=
  Nat.le_add_right ..

theorem lineEnd_le (h : start ≤ last) : lineEnd data last start ≤ last := by
  have hle := leading_le (p := fun j => data j != 0x0A) (last - start) start
  unfold lineEnd
  omega

/-- The line holds no newline. -/
theorem notMem_line (data : Nat → Byte) (last start : Nat) :
    (0x0A : Byte) ∉ slice data start (lineEnd data last start) := by
  intro hmem
  obtain ⟨j, hlow, hhigh, hj⟩ := mem_slice.mp hmem
  unfold lineEnd at hhigh
  have hpass := leading_pass (p := fun j => data j != 0x0A) (n := last - start) (i := start)
    (j := j - start) (by omega)
  rw [Nat.add_sub_of_le hlow] at hpass
  simp [hj] at hpass

/-- A line that ends before `last` ends with a newline. -/
theorem newline_at (h : lineEnd data last start < last) :
    data (lineEnd data last start) = 0x0A := by
  have hstop := leading_stop (p := fun j => data j != 0x0A) (n := last - start) (i := start)
    (by unfold lineEnd at h; omega)
  simpa [lineEnd] using hstop

/-- The line, its newline and what follows. -/
theorem slice_line (h : lineEnd data last start < last) :
    slice data start last =
      slice data start (lineEnd data last start) ++
        0x0A :: slice data (lineEnd data last start + 1) last := by
  rw [← slice_append data (lineEnd_ge data last start) (Nat.le_of_lt h), slice_cons data h,
    newline_at h]

/-- The string `s` is the pattern. -/
structure HoldsPattern (s : Nat → Byte) (pattern : List Byte) : Prop where
  nonempty : pattern ≠ []
  short : pattern.length < 1024
  holds : text 0 s 1024 0 = pattern

theorem HoldsPattern.strlen {s : Nat → Byte} {pattern : List Byte} (h : HoldsPattern s pattern) :
    strlenWithin s 1024 = some pattern.length := by
  have hcount : leading (fun j => s j != 0) 1024 0 = pattern.length := by
    rw [← length_text s 1024 0, h.holds]
  unfold strlenWithin
  dsimp only
  rw [hcount, if_pos h.short]

theorem HoldsPattern.entries {s : Nat → Byte} {pattern : List Byte} (h : HoldsPattern s pattern) :
    text 0 s pattern.length 0 = pattern := by
  have hmap := map_range_text (z := 0) s 1024
  have hnul : ∀ c ∈ pattern, decide (c ≠ 0) = true := by
    have htext := h.holds
    rw [text_eq_takeWhile] at htext
    intro c hc
    rw [← htext] at hc
    exact (List.mem_takeWhile_imp hc :)
  rw [h.holds] at hmap
  rw [text_eq_takeWhile, ← List.range_eq_range', hmap, List.takeWhile_eq_self_iff]
  exact hnul

theorem HoldsPattern.head {s : Nat → Byte} {pattern : List Byte} (h : HoldsPattern s pattern) :
    ∃ rest, pattern = s 0 :: rest := by
  have hentries := h.entries
  obtain ⟨n, hn⟩ := Nat.exists_eq_add_one_of_ne_zero (List.length_pos_iff.mpr h.nonempty).ne'
  rw [hn] at hentries
  by_cases hend : s 0 = 0
  · rw [text_end hend] at hentries
    exact absurd hentries.symm h.nonempty
  · rw [text_entry hend] at hentries
    exact ⟨_, hentries.symm⟩

/-- **The search of a line** finds the pattern if the line contains it. -/
theorem foundInLine_iff {s : Nat → Byte} {pattern : List Byte} (hs : HoldsPattern s pattern)
    {stop : Nat} (hstop : start ≤ stop) (hnul : (0 : Byte) ∉ slice data start stop)
    (hend : data stop = 0) :
    foundInLine data s pattern.length start stop = true ↔ pattern <:+: slice data start stop := by
  have hpos := List.length_pos_iff.mpr hs.nonempty
  rw [infix_iff_drop hs.nonempty, length_slice, foundInLine, List.any_eq_true]
  refine exists_congr fun j => ?_
  rw [List.mem_range]
  refine and_congr_right fun hj => ?_
  have hbehind : (0 : Byte) ∉ slice data (start + j) stop := by
    rw [← drop_slice]
    exact fun hmem => hnul (List.mem_of_mem_drop hmem)
  have hcompare := strncmp_iff (fun i => data (start + j + i)) s pattern.length 0
  rw [text_eq_take hbehind hend (by omega), hs.entries] at hcompare
  rw [drop_slice, List.prefix_iff_eq_take, Bool.and_eq_true, beq_iff_eq, beq_iff_eq, hcompare]
  constructor
  · exact fun h => h.2.symm
  · intro hprefix
    refine ⟨?_, hprefix.symm⟩
    -- the first characters agree where all do
    obtain ⟨rest, hhead⟩ := hs.head
    rw [slice_cons data (by omega : start + j < stop), hhead] at hprefix
    exact (List.cons.inj hprefix).1

end Lines

/-! ## An open file as a text -/

/-- Descriptor `fd` reads as a text: `state q printed` is the process when it has read `q` bytes
and printed `printed`. -/
structure ReadsAs (fs : FileSystem) (arg : CString) (fd : Word) (contents : List Byte)
    (state : Nat → List Byte → Process) (left : Process → Nat) : Prop where
  read : ∀ q printed buf old n, q ≤ contents.length → buf ≠ 0 → 0 < n → n ≤ 1024 →
    processSystem fs arg (.read fd buf old (BitVec.ofNat 32 n)) (state q printed) =
      some (⟨BitVec.ofNat 32 ((contents.drop q).take n).length, (contents.drop q).take n⟩,
        state (q + ((contents.drop q).take n).length) printed)
  print : ∀ q printed more, (state q printed).print more = state q (printed ++ more)
  console : ∀ q printed, (state q printed).Console
  left_state : ∀ q printed, q ≤ contents.length →
    left (state q printed) = contents.length - q

section Search
variable {fs : FileSystem} {arg : CString} {fd : Word} {contents : List Byte}
  {state : Nat → List Byte → Process} {left : Process → Nat}

theorem entry_ne_zero {size : Nat} (b : Buffer size) {i : Nat} (hi : i < size) :
    b.entry i ≠ 0 := by
  have hpos : 0 < b.address.toNat := by
    rw [Nat.pos_iff_ne_zero]
    exact fun hzero => b.notNull (BitVec.eq_of_toNat_eq hzero)
  have hfits := b.fits
  intro hzero
  have hnat := congrArg BitVec.toNat hzero
  simp only [Buffer.entry, BitVec.toNat_add, BitVec.toNat_ofNat, BitVec.ofNat_eq_ofNat] at hnat
  omega

/-- **The four outputs of a line**: the third is cut at a NUL. -/
theorem run_printLine {p : Process} (hout : p.Console) (m : GrepMemory) {fname : Nat → Byte}
    {name : CString} (hname : text 0 fname 33 0 = name.bytes) (hlen : name.strlen < 33)
    {data : Nat → Byte} {start stop : Nat} (hstart : start ≤ stop) (hstop : stop ≤ 1024)
    (hend : data stop = 0) :
    ∃ line, (printLine m fname data start).run (processSystem fs arg) p =
        some ((), p.print (name.bytes ++ [0x3A] ++ line ++ [0x0A])) ∧
      ((0 : Byte) ∉ slice data start stop → line = slice data start stop) := by
  have hshort : (text 0 (fun i => data (start + i)) (1025 - start) 0).length < 1025 - start := by
    rw [length_text]
    refine Nat.lt_of_not_le fun hlong => ?_
    have hpass := leading_pass (Nat.lt_of_lt_of_le (by omega : stop - start < 1025 - start) hlong)
    rw [Nat.zero_add, Nat.add_sub_of_le hstart, hend] at hpass
    cases hpass
  refine ⟨text 0 (fun i => data (start + i)) (1025 - start) 0, Yields.run_eq ?_,
    fun hnul => text_eq_slice hnul hend hstart (by omega)⟩
  generalize hline : text 0 (fun i => data (start + i)) (1025 - start) 0 = line at hshort
  have hprint : p.print (name.bytes ++ [0x3A] ++ line ++ [0x0A]) =
      (((p.print name.bytes).print [0x3A]).print line).print [0x0A] := by
    simp [Process.print]
  unfold printLine
  refine yields_seq (run_fdputs hout m.buf.notNull (by decide) (by rw [hname]; exact hlen)) ?_
  rw [hname]
  refine yields_seq (run_putLiteral (hout.print _) m.literals.notNull (by decide)) ?_
  refine yields_seq (run_fdputs ((hout.print _).print _) (entry_ne_zero m.data (by omega))
    (by omega) (by rw [hline]; exact hshort)) ?_
  rw [hline]
  refine ⟨(), _, run_putLiteral (((hout.print _).print _).print _) m.literals.notNull (by decide),
    rfl, ?_⟩
  exact hprint.symm

/-- The bounds of the buffer; and, of a text, what is in it from `start` on, up to `last`, is read
and not yet worked on, and `printed` is what the file has given so far. -/
structure InBuffer (pattern : List Byte) (name : CString) (contents : List Byte) (q : Nat)
    (printed : List Byte) (data : Nat → Byte) (start last : Nat) : Prop where
  lines : IsText contents → Buffered 0x0A 1024 (grepLine pattern name.bytes) contents printed
    (slice data start last) (contents.drop q)
  noNul : IsText contents → (0 : Byte) ∉ slice data start last
  -- the entry behind a full buffer, which nothing reads into
  behind : data 1024 ≠ 0x0A
  ordered : start ≤ last
  inside : last ≤ 1024

variable {pattern : List Byte} {name : CString} {q last : Nat} {cnt : Word}

/-- Where the inner loop is. -/
def Searching (pattern : List Byte) (name : CString) (contents : List Byte)
    (state : Nat → List Byte → Process) (q last : Nat) (x : (Nat → Byte) × Nat) (p : Process) :
    Prop :=
  ∃ printed, p = state q printed ∧ InBuffer pattern name contents q printed x.1 x.2 last

/-- What the inner loop leaves: a part of a line at the start of the buffer. -/
def Searched (pattern : List Byte) (name : CString) (contents : List Byte)
    (state : Nat → List Byte → Process) (q : Nat) (cnt : Word) (x : (Nat → Byte) × Nat)
    (p : Process) : Prop :=
  Searching pattern name contents state q x.2 (x.1, 0) p ∧ x.2 < 1024 ∧ (cnt = 0 → x.2 = 0)

section InBuffer
variable {printed : List Byte} {data moved : Nat → Byte} {start stop : Nat}

/-- What is moved to the start of the buffer is still to be worked on. -/
theorem InBuffer.kept (h : InBuffer pattern name contents q printed data start last)
    (hmoved : IsText contents → slice moved 0 (last - start) = slice data start last)
    (hbehind : moved 1024 ≠ 0x0A) :
    InBuffer pattern name contents q printed moved 0 (last - start) where
  lines htext := by
    rw [hmoved htext]
    exact h.lines htext
  noNul htext := by
    rw [hmoved htext]
    exact h.noNul htext
  behind := hbehind
  ordered := Nat.zero_le _
  inside := Nat.le_trans (Nat.sub_le ..) h.inside

/-- A line in front of a newline is done. -/
theorem InBuffer.line (h : InBuffer pattern name contents q printed data start last)
    (hstop : stop < last) (hline : (0x0A : Byte) ∉ slice data start stop)
    (hsplit : slice data start last = slice data start stop ++ 0x0A :: slice data (stop + 1) last)
    {out : List Byte}
    (hout : IsText contents → out = grepLine pattern name.bytes (slice data start stop))
    (hrest : slice moved (stop + 1) last = slice data (stop + 1) last)
    (hbehind : moved 1024 ≠ 0x0A) :
    InBuffer pattern name contents q (printed ++ out) moved (stop + 1) last where
  lines htext := by
    rw [hrest, hout htext]
    refine Buffered.line hline ?_
    rw [← hsplit]
    exact h.lines htext
  noNul htext := by
    intro hmem
    rw [hrest] at hmem
    refine h.noNul htext ?_
    rw [hsplit]
    exact List.mem_append_right _ (List.mem_cons_of_mem _ hmem)
  behind := hbehind
  ordered := hstop
  inside := h.inside

/-- The whole buffer is done if it is a line without a newline. -/
theorem InBuffer.whole (hpattern : pattern ≠ [])
    (h : InBuffer pattern name contents q printed data start last)
    (hline : (0x0A : Byte) ∉ slice data start last) {out : List Byte}
    (hout : IsText contents → out = grepLine pattern name.bytes (slice data start last))
    (hfull : contents.drop q = [] ∨ last - start = 1024) (hbehind : moved 1024 ≠ 0x0A) :
    InBuffer pattern name contents q (printed ++ out) moved 0 0 where
  lines htext := by
    have hempty := grepLine_nil hpattern name.bytes
    have hlines := h.lines htext
    rw [slice_self, hout htext]
    rcases hfull with hend | hfull
    · rw [hend] at hlines ⊢
      exact hlines.last hempty hline
    · exact hlines.full hempty hline (by rw [length_slice]; exact hfull)
  noNul _ := by
    rw [slice_self]
    exact List.not_mem_nil
  behind := hbehind
  ordered := Nat.le_refl 0
  inside := Nat.zero_le _

/-- Nothing is left of an empty buffer, wherever it is. -/
theorem InBuffer.restart (h : InBuffer pattern name contents q printed data start start) :
    InBuffer pattern name contents q printed data 0 0 where
  lines htext := by
    have hlines := h.lines htext
    rw [slice_self] at hlines ⊢
    exact hlines
  noNul _ := by
    rw [slice_self]
    exact List.not_mem_nil
  behind := h.behind
  ordered := Nat.le_refl 0
  inside := Nat.zero_le _

end InBuffer

/-- The newline that ends a line is overwritten, and the rest is as it was. -/
theorem slice_ended (data : Nat → Byte) {a b stop : Nat} (h : stop < a ∨ b ≤ stop) :
    slice (Function.update data stop 0) a b = slice data a b := by
  refine slice_congr rfl fun j hj => ?_
  exact Function.update_of_ne (by omega) ..

/-- A line is printed if the pattern is found in it. -/
theorem run_searchLine {s fname data : Nat → Byte} (hs : HoldsPattern s pattern) {p : Process}
    (hout : p.Console) (m : GrepMemory) (hname : text 0 fname 33 0 = name.bytes)
    (hlen : name.strlen < 33) {start stop : Nat} (hstart : start ≤ stop) (hstop : stop ≤ 1024)
    (hend : data stop = 0) :
    ∃ out, (searchLine m s fname data pattern.length start stop).run (processSystem fs arg) p =
        some ((), p.print out) ∧
      ((0 : Byte) ∉ slice data start stop →
        out = grepLine pattern name.bytes (slice data start stop)) := by
  unfold searchLine
  by_cases hfound : foundInLine data s pattern.length start stop = true
  · obtain ⟨line, hrun, hline⟩ := run_printLine hout m hname hlen hstart hstop hend
    rw [if_pos hfound]
    refine ⟨_, hrun, fun hnul => ?_⟩
    rw [hline hnul, grepLine, if_pos ((foundInLine_iff hs hstart hnul hend).mp hfound)]
  · rw [if_neg hfound]
    refine ⟨[], ?_, fun hnul => ?_⟩
    · show some ((), p) = _
      simp [Process.print]
    · rw [grepLine, if_neg fun h => hfound ((foundInLine_iff hs hstart hnul hend).mpr h)]

/-- **A round of the inner loop**: a line is worked on, or what is left of the buffer is moved to
its start. -/
theorem yields_searchRound (hreads : ReadsAs fs arg fd contents state left) {s fname : Nat → Byte}
    (hs : HoldsPattern s pattern) (m : GrepMemory) (hname : text 0 fname 33 0 = name.bytes)
    (hlen : name.strlen < 33) (hread : last = 1024 ∨ contents.drop q = [])
    (hnone : cnt = 0 → contents.drop q = []) (x : (Nat → Byte) × Nat) {p : Process}
    (h : Searching pattern name contents state q last x p) :
    Yields (processSystem fs arg) (searchRound m s fname pattern.length cnt last x) p
      (Round (Searching pattern name contents state q last) (fun x _ => last - x.2)
        (Searched pattern name contents state q cnt) x p) := by
  obtain ⟨data, start⟩ := x
  obtain ⟨printed, rfl, hbuf⟩ := h
  have hordered : start ≤ last := hbuf.ordered
  have hinside := hbuf.inside
  have hge := lineEnd_ge data last start
  have hle : lineEnd data last start ≤ last := lineEnd_le hordered
  have hnoNewline := notMem_line data last start
  have hnewline : lineEnd data last start < last → data (lineEnd data last start) = 0x0A :=
    newline_at
  have hsplit : lineEnd data last start < last → slice data start last = _ := slice_line
  unfold searchRound
  dsimp only
  generalize lineEnd data last start = stop at hge hle hnoNewline hnewline hsplit ⊢
  have hline : slice (Function.update data stop 0) start stop = slice data start stop :=
    slice_ended data (Or.inr (Nat.le_refl _))
  have hnul : IsText contents → (0 : Byte) ∉ slice data start stop := by
    intro htext hmem
    obtain ⟨j, hlow, hhigh, hj⟩ := mem_slice.mp hmem
    exact hbuf.noNul htext (mem_slice.mpr ⟨j, hlow, by omega, hj⟩)
  have hended : Function.update data stop 0 stop = (0 : Byte) := Function.update_self ..
  have hbehind : Function.update data stop 0 1024 ≠ (0x0A : Byte) := by
    by_cases hstop : stop = 1024
    · rw [hstop, Function.update_self]
      decide
    · rw [Function.update_of_ne (fun heq => hstop heq.symm)]
      exact hbuf.behind
  by_cases hmove : data stop ≠ 0x0A ∧ cnt ≠ 0 ∧ start ≠ 0
  · rw [if_pos hmove]
    obtain rfl : stop = last := by
      by_contra hne
      exact hmove.1 (hnewline (by omega))
    obtain ⟨moved, hmoved, hlast, hkept⟩ :=
      strcpy_line (Nat.pos_of_ne_zero hmove.2.2) hge hinside hended
    rw [hmoved]
    rw [hline] at hkept
    refine yields_done ⟨⟨printed, rfl, hbuf.kept (fun htext => hkept (hnul htext))
      fun heq => hbehind (hlast ▸ heq)⟩, ?_, fun hcnt => absurd hcnt hmove.2.1⟩
    have hpositive := Nat.pos_of_ne_zero hmove.2.2
    dsimp only
    omega
  · rw [if_neg hmove]
    obtain ⟨out, hrun, hout⟩ :=
      run_searchLine hs (hreads.console q printed) m hname hlen hge (by omega) hended
    rw [hline] at hout
    refine yields_seq hrun ?_
    rw [hreads.print]
    by_cases hstop : stop < last
    · have hdone := hbuf.line hstop hnoNewline (hsplit hstop)
        (fun htext => hout (hnul htext)) (slice_ended data (Or.inl (Nat.lt_succ_self stop))) hbehind
      by_cases hmore : stop + 1 ≥ last
      · rw [if_pos hmore]
        obtain rfl : stop + 1 = last := by omega
        exact yields_done ⟨⟨_, rfl, hdone.restart⟩, (by decide : 0 < 1024), fun _ => rfl⟩
      · rw [if_neg hmore]
        refine yields_done ⟨⟨_, rfl, hdone⟩, ?_⟩
        dsimp only
        omega
    · obtain rfl : stop = last := by omega
      rw [if_pos (Nat.le_succ stop)]
      -- a last line, or one that fills the buffer
      have hfull : contents.drop q = [] ∨ stop - start = 1024 := by
        rcases hread with hlast | hend
        · by_cases hcnt : cnt = 0
          · exact Or.inl (hnone hcnt)
          · have hnot : data stop ≠ 0x0A := hlast ▸ hbuf.behind
            have hstart : start = 0 := by
              by_contra hne
              exact hmove ⟨hnot, hcnt, hne⟩
            exact Or.inr (by omega)
        · exact Or.inl hend
      exact yields_done ⟨⟨_, rfl, hbuf.whole hs.nonempty hnoNewline (fun htext => hout (hnul htext))
        hfull hbehind⟩, (by decide : 0 < 1024), fun _ => rfl⟩

/-- Where the outer loop is: between two reads. -/
def BetweenReads (pattern : List Byte) (name : CString) (contents : List Byte)
    (state : Nat → List Byte → Process) (x : (Nat → Byte) × Nat) (p : Process) : Prop :=
  ∃ q, q ≤ contents.length ∧ x.2 < 1024 ∧
    Searching pattern name contents state q x.2 (x.1, 0) p

/-- What has been read is in the buffer behind what was there. -/
theorem InBuffer.read {printed : List Byte} {data : Nat → Byte}
    (h : InBuffer pattern name contents q printed data 0 last) (hlast : last < 1024)
    {chunk : List Byte} (hchunk : chunk = (contents.drop q).take (1024 - last)) :
    InBuffer pattern name contents (q + chunk.length) printed (storeFrom data last chunk) 0
      (last + chunk.length) := by
  have hlength : chunk.length ≤ 1024 - last := by
    rw [hchunk]
    exact List.length_take_le _ _
  have hstored : slice (storeFrom data last chunk) 0 (last + chunk.length) =
      slice data 0 last ++ chunk := by
    rw [← slice_append _ (Nat.zero_le last) (Nat.le_add_right ..)]
    congr 1
    · refine slice_congr rfl fun j hj => ?_
      rw [storeFrom, if_neg (by omega)]
    · refine List.ext_getElem (by simp) fun j hj hj' => ?_
      rw [getElem_slice, storeFrom, if_pos (Nat.le_add_right ..), Nat.add_sub_cancel_left]
      simp [hj']
  have hrest : contents.drop q = chunk ++ contents.drop (q + chunk.length) := by
    have hprefix : chunk = (contents.drop q).take chunk.length := by
      rw [hchunk]
      exact List.prefix_iff_eq_take.mp (List.take_prefix _ _)
    calc contents.drop q
        = (contents.drop q).take chunk.length ++ (contents.drop q).drop chunk.length :=
          (List.take_append_drop ..).symm
      _ = chunk ++ contents.drop (q + chunk.length) := by rw [← hprefix, List.drop_drop]
  refine ⟨fun htext => ?_, fun htext => ?_, ?_, Nat.zero_le _, by omega⟩
  · rw [hstored]
    refine Buffered.read ?_
    rw [← hrest]
    exact h.lines htext
  · rw [hstored]
    intro hmem
    rcases List.mem_append.mp hmem with hold | hnew
    · exact h.noNul htext hold
    · rw [hchunk] at hnew
      exact htext.noNul (List.mem_of_mem_drop (List.mem_of_mem_take hnew))
  · have hout : chunk.length ≤ 1024 - last := hlength
    have hget : chunk.getD (1024 - last) (data 1024) = data 1024 := by
      simp [hout]
    rw [storeFrom, if_pos (Nat.le_of_lt hlast), hget]
    exact h.behind

/-- **A round of the outer loop**: a piece of the file is read and its lines are worked on. -/
theorem yields_chunkRound (hreads : ReadsAs fs arg fd contents state left) {s fname : Nat → Byte}
    (hs : HoldsPattern s pattern) (m : GrepMemory) (hname : text 0 fname 33 0 = name.bytes)
    (hlen : name.strlen < 33)
    {rounds : Nat} (hrounds : 1024 < rounds) (x : (Nat → Byte) × Nat) {p : Process}
    (h : BetweenReads pattern name contents state x p) :
    Yields (processSystem fs arg) (chunkRound m s fname pattern.length fd rounds x) p
      (Round (BetweenReads pattern name contents state) (fun _ => left)
        (fun status p' => status = 0 ∧ ∃ printed, p' = state contents.length printed ∧
          (IsText contents → printed = grepText pattern name.bytes contents)) x p) := by
  obtain ⟨data, last⟩ := x
  obtain ⟨q, hq, hlast, printed, rfl, hbuf⟩ := h
  dsimp only at hlast hbuf
  have hcall := hreads.read q printed (m.data.entry last) (fun i => data (last + i)) (1024 - last)
    hq (entry_ne_zero m.data (by omega)) (by omega) (by omega)
  have hnext := hbuf.read hlast rfl
  have hlength : ((contents.drop q).take (1024 - last)).length =
      min (1024 - last) (contents.length - q) := by
    rw [List.length_take, List.length_drop]
  unfold chunkRound
  refine yields_make hcall ?_
  dsimp only
  generalize (contents.drop q).take (1024 - last) = chunk at hnext hlength ⊢
  have hcnt := toNat_ofNat_small (n := chunk.length) (by omega)
  have hzero : BitVec.ofNat 32 chunk.length = 0 ↔ chunk.length = 0 := by
    rw [← BitVec.toNat_inj, hcnt]
    rfl
  have hret : BitVec.ofNat 32 chunk.length ≠ minusOne := by
    by_cases hnone : chunk.length = 0
    · rw [hzero.mpr hnone]
      decide
    · exact (ofNat_ne_status (Nat.pos_of_ne_zero hnone) (by omega)).2
  rw [if_neg hret, hcnt]
  have hend : contents.length ≤ q + chunk.length → contents.drop (q + chunk.length) = [] :=
    List.drop_eq_nil_of_le
  have hread : last + chunk.length = 1024 ∨ contents.drop (q + chunk.length) = [] := by
    by_cases hfull : last + chunk.length = 1024
    · exact Or.inl hfull
    · exact Or.inr (hend (by omega))
  have hnone : BitVec.ofNat 32 chunk.length = 0 → contents.drop (q + chunk.length) = [] := by
    intro hcnt
    have hnothing := hzero.mp hcnt
    exact hend (by omega)
  refine (yields_loop (fun x p h => yields_searchRound hreads hs m hname hlen hread hnone x h)
    ⟨printed, rfl, hnext⟩ (by dsimp only; omega)).bind fun y p' hy => ?_
  obtain ⟨⟨printed', rfl, hbuf'⟩, hshort, hempty⟩ := hy
  by_cases hlastRead : BitVec.ofNat 32 chunk.length = 0
  · rw [if_pos hlastRead]
    have hnothing := hzero.mp hlastRead
    refine yields_done ⟨rfl, printed', by rw [show contents.length = q + chunk.length by omega],
      fun htext => ?_⟩
    have hlines := hbuf'.lines htext
    rw [hempty hlastRead, slice_self, hnone hlastRead] at hlines
    exact hlines.done_eq (grepLine_nil hs.nonempty _)
  · rw [if_neg hlastRead]
    have hsome : chunk.length ≠ 0 := fun hnothing => hlastRead (hzero.mpr hnothing)
    refine yields_done ⟨⟨q + chunk.length, by omega, hshort, printed', rfl, hbuf'⟩, ?_⟩
    dsimp only
    rw [hreads.left_state _ _ (by omega), hreads.left_state _ _ hq]
    omega

/-- **One file** is searched, and the descriptor it was read by is free again. -/
theorem run_doOneFile {p : Process} {i : Fin 8} {d : Dentry}
    (hreads : ReadsAs fs arg (BitVec.ofNat 32 i) contents state left)
    (hopened : p.setFd i (openedEntry d) = state 0 [])
    (hclose : ∀ q printed, processSystem fs arg (.close (BitVec.ofNat 32 i)) (state q printed) =
      some (⟨0, []⟩, (p.print printed).setFd i .cleared))
    {s fname : Nat → Byte} (hs : HoldsPattern s pattern) (m : GrepMemory)
    (hname : text 0 fname 33 0 = name.bytes) (hlen : name.strlen < 33)
    (hfound : fs.readDentryByName name = some d) (hfree : freeFd p.fds = some i)
    {old : Nat → Byte} (hold : old 1024 ≠ 0x0A) {rounds : Nat} (hrounds : 1024 < rounds)
    (hrounds' : contents.length < rounds) :
    ∃ printed, (doOneFile m s fname old rounds).run (processSystem fs arg) p =
        some (0, (p.print printed).setFd i .cleared) ∧
      (IsText contents → printed = grepText pattern name.bytes contents) := by
  have hstart : BetweenReads pattern name contents state (old, 0) (state 0 []) := by
    refine ⟨0, Nat.zero_le _, (by decide : 0 < 1024), [], rfl, fun htext => ?_, fun _ => ?_, hold,
      Nat.le_refl 0, Nat.zero_le _⟩
    · rw [slice_self]
      exact buffered_start htext.fits
    · rw [slice_self]
      exact List.not_mem_nil
  have hloop : Yields (processSystem fs arg)
      (loop (chunkRound m s fname pattern.length (BitVec.ofNat 32 i) rounds) rounds (old, 0))
      (state 0 []) _ :=
    yields_loop (fun x p h => yields_chunkRound hreads hs m hname hlen hrounds x h) hstart
      (by rw [hreads.left_state 0 [] (Nat.zero_le _)]; omega)
  obtain ⟨_, _, hloop, rfl, printed, rfl, hprinted⟩ := hloop
  refine ⟨printed, Yields.run_eq ?_, hprinted⟩
  unfold doOneFile
  rw [hs.strlen]
  refine yields_seq (run_openText hname hlen hfound hfree) ?_
  rw [if_neg (ofNat_fin_ne_minusOne i), hopened]
  refine yields_seq hloop ?_
  rw [if_neg (by decide : (0 : Word) ≠ minusOne)]
  refine yields_make (hclose _ _) ?_
  dsimp only
  rw [if_neg (by decide : (0 : Word) ≠ minusOne)]
  exact yields_done ⟨rfl, rfl⟩

end Search

/-! ## Files and the clock -/

section Opened
variable {fs : FileSystem} {arg : CString} {p : Process} {i : Fin 8}

/-- A descriptor that `open` has given can be closed. -/
theorem close_open (hi : 2 ≤ i) {op : FileOperation} (hop : op ≠ .stdin ∧ op ≠ .stdout)
    {inode q : Word} (hentry : p.fds i = ⟨some op, inode, q, 1⟩) :
    processSystem fs arg (.close (BitVec.ofNat 32 i)) p = some (⟨0, []⟩, p.setFd i .cleared) := by
  have hlow : ¬(i < 2 ∨ (1 : Word) = 0) := by
    rintro (hlt | hflag)
    · exact absurd hlt (Fin.not_lt.mpr hi)
    · exact absurd hflag (by decide)
  simp only [processSystem, fdIndex_ofNat, hentry, if_neg hlow]
  cases op with
  | stdin => exact absurd rfl hop.1
  | stdout => exact absurd rfl hop.2
  | file | directory | rtc => rfl

/-- A regular file reads as its contents, if its end is seen. -/
theorem readsAs_file {inode : Word} (hfile : fs.ValidFile inode) (hout : p.Console) (hi : 2 ≤ i)
    (hseen : fs.badBlock inode ((fs.fileContents inode).length / 4096) = false) :
    ReadsAs fs arg (BitVec.ofNat 32 i) (fs.fileContents inode)
      (fun q printed => p.readTo i .file inode q printed) (bytesLeft fs i inode) where
  read q printed buf old n hq hbuf hpos hn := by
    have hlength : (((fs.fileContents inode).drop q).take n).length ≤ n := List.length_take_le ..
    have hdata := readData_chunk hfile hq hpos (by omega) (Or.inr hseen)
    have hread : processSystem fs arg _ _ = _ := read_file hi
      (readTo_entry p i .file inode q printed) (fdIndex_ofNat i) hbuf old hdata
    have hret : BitVec.ofNat 32 (((fs.fileContents inode).drop q).take n).length ≠ minusOne := by
      intro hminus
      have hnat := congrArg BitVec.toNat hminus
      rw [toNat_ofNat_small (by omega), show minusOne.toNat = 2 ^ 32 - 1 by decide] at hnat
      omega
    rw [hread, if_pos hret, readTo_advance]
  print q printed more := readTo_print p i .file inode q printed more
  console q printed := readTo_console hout hi .file inode q printed
  left_state q printed hq := by
    have hlen := hfile.length_le
    rw [← length_fileContents] at hlen
    exact bytesLeft_readTo (by omega) printed

/-- The clock reads as an empty file. -/
theorem readsAs_clock (hout : p.Console) (hi : 2 ≤ i) :
    ReadsAs fs arg (BitVec.ofNat 32 i) []
      (fun _ printed => (p.print printed).setFd i ⟨some .rtc, 0, 0, 1⟩) (fun _ => 0) where
  read q printed buf old n _ hbuf _ _ := by
    rw [read_clock hi (Function.update_self ..) (fdIndex_ofNat i) hbuf old, List.drop_nil,
      List.take_nil]
    rfl
  print q printed more := by simp [Process.print, Process.setFd]
  console q printed := (hout.print printed).setFd hi _
  left_state _ _ _ := (Nat.zero_sub _).symm

end Opened

/-! ## The directory -/

section Grep
variable {fs : FileSystem} {arg : CString} {p : Process} {i i' : Fin 8} {pattern : List Byte}

/-- What `grep` may print for entry `j`: nothing for a name that begins with a dot or for the
clock, its lines for a text; of other files nothing is said. -/
def EntryOutput (fs : FileSystem) (pattern : List Byte) (j : Nat) (out : List Byte) : Prop :=
  if (fs.nameAt (fs.direntry j)).get 0 = 0x2E ∨ (fs.dentryAt (fs.direntry j)).filetype = 0 then
    out = []
  else
    let contents := fs.fileContents (fs.dentryAt (fs.direntry j)).inodeNum
    IsText contents → out = grepText pattern (fs.nameAt (fs.direntry j)).bytes contents

theorem entryOutput_nothing {j : Nat} (h : (fs.nameAt (fs.direntry j)).get 0 = 0x2E ∨
    (fs.dentryAt (fs.direntry j)).filetype = 0) : EntryOutput fs pattern j [] := by
  unfold EntryOutput
  rw [if_pos h]

theorem entryOutput_file {j : Nat} (hdot : (fs.nameAt (fs.direntry j)).get 0 ≠ 0x2E)
    (hclock : (fs.dentryAt (fs.direntry j)).filetype ≠ 0) {out : List Byte}
    (hout : IsText (fs.fileContents (fs.dentryAt (fs.direntry j)).inodeNum) →
      out = grepText pattern (fs.nameAt (fs.direntry j)).bytes
        (fs.fileContents (fs.dentryAt (fs.direntry j)).inodeNum)) :
    EntryOutput fs pattern j out := by
  unfold EntryOutput
  rw [if_neg (not_or.mpr ⟨hdot, hclock⟩)]
  exact hout

/-- What `grep` may print for the first `q` entries. -/
def Outputs (fs : FileSystem) (pattern : List Byte) (q : Nat) (printed : List Byte) : Prop :=
  ∃ out : Nat → List Byte, (∀ j, j < q → EntryOutput fs pattern j (out j)) ∧
    printed = (List.range q).flatMap out

/-- The other files are regular, and their ends are seen. -/
def Searchable (fs : FileSystem) : Prop :=
  ∀ j, j < fs.dirCount.toNat → (fs.nameAt (fs.direntry j)).get 0 ≠ 0x2E →
    (fs.dentryAt (fs.direntry j)).filetype ≠ 0 →
    (fs.dentryAt (fs.direntry j)).filetype = 2 ∧
      fs.badBlock (fs.dentryAt (fs.direntry j)).inodeNum
        ((fs.fileContents (fs.dentryAt (fs.direntry j)).inodeNum).length / 4096) = false

theorem outputs_zero (fs : FileSystem) (pattern : List Byte) : Outputs fs pattern 0 [] :=
  ⟨fun _ => [], fun _ hj => absurd hj (Nat.not_lt_zero _), rfl⟩

/-- One more entry. -/
theorem Outputs.next {q : Nat} {printed out : List Byte} (h : Outputs fs pattern q printed)
    (hout : EntryOutput fs pattern q out) : Outputs fs pattern (q + 1) (printed ++ out) := by
  obtain ⟨outs, houts, rfl⟩ := h
  refine ⟨Function.update outs q out, fun j hj => ?_, ?_⟩
  · by_cases hlast : j = q
    · rw [hlast, Function.update_self]
      exact hout
    · rw [Function.update_of_ne hlast]
      exact houts j (by omega)
  · have hbefore : ∀ j ∈ List.range q, outs j = Function.update outs q out j := fun j hj =>
      (Function.update_of_ne (Nat.ne_of_lt (List.mem_range.mp hj)) ..).symm
    rw [List.range_succ, List.flatMap_append, List.flatMap_singleton, Function.update_self,
      List.flatMap_congr hbefore]

/-- Where `grep` is in the directory, which is open as descriptor `i`; a file is read by `i'`. -/
structure InDirectory (fs : FileSystem) (p : Process) (i i' : Fin 8) (pattern : List Byte) (q : Nat)
    (p' : Process) : Prop where
  console : p'.Console
  entry : p'.fds i = ⟨some .directory, 0, BitVec.ofNat 32 q, 1⟩
  free : freeFd p'.fds = some i'
  text : ∃ printed, p'.text = p.text ++ printed ∧ Outputs fs pattern q printed

theorem freeFd_congr {fds fds' : Fin 8 → FdEntry} (h : ∀ j, (fds' j).flag = 0 ↔ (fds j).flag = 0) :
    freeFd fds' = freeFd fds := by
  unfold freeFd
  simp only [h]

theorem freeFd_flag {fds : Fin 8 → FdEntry} (h : freeFd fds = some i) : (fds i).flag = 0 := by
  have hfind := (Fin.find?_eq_some_iff.mp h).1
  simp only [decide_eq_true_eq] at hfind
  exact hfind.2

/-- A free descriptor that is cleared is free as before. -/
theorem freeFd_cleared {fds : Fin 8 → FdEntry} (h : freeFd fds = some i) :
    freeFd (Function.update fds i .cleared) = some i := by
  rw [← h]
  refine freeFd_congr fun j => ?_
  by_cases hj : j = i
  · subst hj
    rw [Function.update_self]
    exact iff_of_true rfl (freeFd_flag h)
  · rw [Function.update_of_ne hj]

variable {q : Nat} {p' : Process}

theorem InDirectory.ne (h : InDirectory fs p i i' pattern q p') : i ≠ i' := by
  rintro rfl
  have hflag := freeFd_flag h.free
  rw [h.entry] at hflag
  exact absurd hflag (by decide : (1 : Word) ≠ 0)

theorem InDirectory.advance_free (h : InDirectory fs p i i' pattern q p') :
    freeFd (p'.advance i (BitVec.ofNat 32 1)).fds = some i' := by
  rw [← h.free]
  refine freeFd_congr fun j => ?_
  by_cases hj : j = i
  · subst hj
    simp [Process.advance]
  · simp [Process.advance, hj]

/-- The next entry is read and its lines are printed. -/
theorem InDirectory.next (h : InDirectory fs p i i' pattern q p') (hi : 2 ≤ i) {out : List Byte}
    (hout : EntryOutput fs pattern q out) :
    InDirectory fs p i i' pattern (q + 1)
      ((p'.advance i (BitVec.ofNat 32 1)).print out) where
  console := (h.console.setFd hi _).print _
  entry := by simp [Process.advance, h.entry, BitVec.ofNat_add]
  free := h.advance_free
  text := by
    obtain ⟨printed, htext, houtputs⟩ := h.text
    refine ⟨printed ++ out, ?_, houtputs.next hout⟩
    rw [Process.print_text, Process.advance_text, htext, List.append_assoc]

theorem InDirectory.closed (h : InDirectory fs p i i' pattern q p') :
    InDirectory fs p i i' pattern q (p'.setFd i' .cleared) where
  console := h.console.setFd (freeFd_ge h.free) _
  entry := by rw [Process.setFd_fds, Function.update_of_ne h.ne, h.entry]
  free := freeFd_cleared h.free
  text := h.text

/-- The name of an entry, read into an array and ended. -/
theorem text_ended (name : CString) (old : Nat → Byte) {room : Nat} (hroom : name.strlen < room) :
    text 0 (Function.update (overlay name.bytes old) name.strlen 0) room 0 = name.bytes := by
  refine text_of_entries name.noNul hroom (fun j hj => ?_) ?_
  · have hne : j ≠ name.strlen := Nat.ne_of_lt hj
    rw [Nat.zero_add, Function.update_of_ne hne]
    simp [overlay, hj]
  · rw [Nat.zero_add]
    exact Function.update_self ..

/-- **One entry**: `do_one_file` prints what the entry is to give, and frees its descriptor. -/
theorem run_doOneFile_entry (himage : fs.ValidImage) (hsearch : Searchable fs)
    (hq : q < fs.dirCount.toNat) (hdot : (fs.nameAt (fs.direntry q)).get 0 ≠ 0x2E)
    (hout : p.Console) (hfree : freeFd p.fds = some i') {s fname : Nat → Byte}
    (hs : HoldsPattern s pattern) (m : GrepMemory)
    (hname : text 0 fname 33 0 = (fs.nameAt (fs.direntry q)).bytes) {old : Nat → Byte}
    (hold : old 1024 ≠ 0x0A) {rounds : Nat} (hrounds : 1023 * 4096 < rounds) :
    ∃ out, (doOneFile m s fname old rounds).run (processSystem fs arg) p =
        some (0, (p.print out).setFd i' .cleared) ∧ EntryOutput fs pattern q out := by
  have hfound := readDentryByName_nameAt himage.toValidDirectory hq
  have hlen : (fs.nameAt (fs.direntry q)).strlen < 33 :=
    Nat.lt_succ_of_le (strlen_nameAt_le fs (fs.direntry q))
  have hi' := freeFd_ge hfree
  have hbuffer : 1024 < rounds := by omega
  by_cases hclock : (fs.dentryAt (fs.direntry q)).filetype = 0
  · have hopened : p.setFd i' (openedEntry (fs.dentryAt (fs.direntry q))) =
        (p.print []).setFd i' ⟨some .rtc, 0, 0, 1⟩ := by
      rw [openedEntry, if_pos hclock]
      simp [Process.print]
    have hclose : ∀ (n : Nat) printed, processSystem fs arg (.close (BitVec.ofNat 32 i'))
        ((p.print printed).setFd i' ⟨some .rtc, 0, 0, 1⟩) =
          some (⟨0, []⟩, (p.print printed).setFd i' .cleared) := by
      intro _ printed
      rw [close_open hi' (by decide) (Function.update_self ..)]
      simp [Process.setFd]
    obtain ⟨out, hrun, htext⟩ := run_doOneFile (readsAs_clock hout hi') hopened hclose hs m
      hname hlen hfound hfree hold hbuffer (Nat.zero_lt_of_lt hbuffer)
    obtain rfl : out = [] := by
      rw [htext isText_nil, grepText, output_last List.not_mem_nil, grepLine_nil hs.nonempty]
    exact ⟨[], hrun, entryOutput_nothing (Or.inr hclock)⟩
  · obtain ⟨hregular, hseen⟩ := hsearch q hq hdot hclock
    have hfile := himage.files q hq hregular
    have hlength := hfile.length_le
    rw [← length_fileContents] at hlength
    have hopened : p.setFd i' (openedEntry (fs.dentryAt (fs.direntry q))) =
        p.readTo i' .file (fs.dentryAt (fs.direntry q)).inodeNum 0 [] := by
      rw [openedEntry, if_neg hclock, if_neg (by rw [hregular]; decide), setFd_opened]
    have hclose : ∀ n printed, processSystem fs arg (.close (BitVec.ofNat 32 i'))
        (p.readTo i' .file (fs.dentryAt (fs.direntry q)).inodeNum n printed) =
          some (⟨0, []⟩, (p.print printed).setFd i' .cleared) := by
      intro n printed
      rw [close_open hi' (by decide) (readTo_entry ..)]
      simp [Process.readTo, Process.setFd]
    obtain ⟨out, hrun, htext⟩ := run_doOneFile (readsAs_file hfile hout hi' hseen) hopened hclose hs
      m hname hlen hfound hfree hold hbuffer (Nat.lt_of_le_of_lt hlength hrounds)
    exact ⟨out, hrun, entryOutput_file hdot hclock htext⟩

/-- **A round of `grep`** does one entry of the directory. -/
theorem yields_grepRound (himage : fs.ValidImage) (hsearch : Searchable fs) (hi : 2 ≤ i)
    {s : Nat → Byte} (hs : HoldsPattern s pattern) (m : GrepMemory) {old : Nat → Nat → Byte}
    (hold : ∀ n, old n 1024 ≠ 0x0A) {rounds : Nat} (hrounds : 1023 * 4096 < rounds)
    (x : (Nat → Byte) × Nat) {p' : Process}
    (h : ∃ q, q ≤ fs.dirCount.toNat ∧ InDirectory fs p i i' pattern q p') :
    Yields (processSystem fs arg) (grepRound m s (BitVec.ofNat 32 i) old rounds x) p'
      (Round (fun _ p' => ∃ q, q ≤ fs.dirCount.toNat ∧ InDirectory fs p i i' pattern q p')
        (fun _ => entriesLeft fs i)
        (fun status p' => status = 0 ∧ ∃ printed, p'.text = p.text ++ printed ∧
          Outputs fs pattern fs.dirCount.toNat printed) x p') := by
  obtain ⟨buf, n⟩ := x
  obtain ⟨q, hq, hin⟩ := h
  have hcount := himage.count
  unfold grepRound
  dsimp only
  by_cases hlast : q = fs.dirCount.toNat
  · subst hlast
    refine yields_make
      (read_directory_end hi hin.entry (fdIndex_ofNat i) m.buf.notNull buf 32) ?_
    dsimp only
    rw [if_pos rfl]
    exact yields_done ⟨rfl, hin.text⟩
  · have hlt : q < fs.dirCount.toNat := by omega
    have hlong := strlen_nameAt_le fs (fs.direntry q)
    have hpos : 0 < (fs.nameAt (fs.direntry q)).strlen :=
      List.length_pos_iff.mpr (himage.named q hlt)
    have hret := ofNat_ne_status hpos (by omega)
    have hcnt := toNat_ofNat_small (n := (fs.nameAt (fs.direntry q)).strlen) (by omega)
    have hfirst : overlay (fs.nameAt (fs.direntry q)).bytes buf 0 =
        (fs.nameAt (fs.direntry q)).get 0 := by
      have hlength : 0 < (fs.nameAt (fs.direntry q)).bytes.length := hpos
      simp [overlay, CString.get, hlength]
    refine yields_make
      (read_directory hi hin.entry (fdIndex_ofNat i) m.buf.notNull buf 32 hlt) ?_
    dsimp only
    rw [if_neg hret.1, if_neg hret.2, hfirst, hcnt]
    have hprogress : ∀ p'', p''.fds i = ⟨some .directory, 0, BitVec.ofNat 32 (q + 1), 1⟩ →
        entriesLeft fs i p'' < entriesLeft fs i p' := by
      intro p'' hentry
      unfold entriesLeft
      rw [hentry, hin.entry]
      dsimp only
      rw [toNat_ofNat_small (by omega), toNat_ofNat_small (by omega)]
      omega
    by_cases hdot : (fs.nameAt (fs.direntry q)).get 0 = 0x2E
    · have hnext := hin.next hi (entryOutput_nothing (Or.inl hdot))
      rw [if_pos hdot]
      rw [show ∀ p : Process, p.print [] = p by simp [Process.print]] at hnext
      exact yields_done ⟨⟨q + 1, hlt, hnext⟩, hprogress _ hnext.entry⟩
    · rw [if_neg hdot]
      have hmoved : freeFd (p'.advance i (BitVec.ofNat 32 1)).fds = some i' :=
        hin.advance_free
      obtain ⟨out, hrun, hout⟩ := run_doOneFile_entry himage hsearch hlt hdot
        (hin.console.setFd hi _) hmoved hs m (text_ended (fs.nameAt (fs.direntry q)) buf (by omega))
        (hold n) hrounds
      have hclosed := (hin.next hi hout).closed
      refine yields_seq hrun ?_
      rw [if_neg (fun hne => hne rfl)]
      exact yields_done ⟨⟨q + 1, hlt, hclosed⟩, hprogress _ hclosed.entry⟩

/-- How `grep` may end: with a message, or when it has been through the directory. -/
def GrepOutcome (fs : FileSystem) (arg : CString) (printed : List Byte) (status : Word) : Prop :=
  if arg.strlen = 0 then printed = ascii "could not read argument\n".toList ∧ status = 3
  else
    match fs.readDentryByName dot with
    | none => printed = ascii "directory open failed\n".toList ∧ status = 2
    | some _ => Outputs fs arg.bytes fs.dirCount.toNat printed ∧ status = 0

/-- The process can open two files. -/
structure Process.ReadyForTwo (p : Process) : Prop where
  console : p.Console
  free : ∃ i, freeFd p.fds = some i ∧
    ∃ i', freeFd (Function.update p.fds i ⟨some .directory, 0, 0, 1⟩) = some i'

theorem yields_grep (himage : fs.ValidImage) (hsearch : Searchable fs)
    (hdot : ∀ d, fs.readDentryByName dot = some d → d.filetype = 1) (hp : p.ReadyForTwo)
    (harg : arg.strlen < 1024) (m : GrepMemory) (oldSearch oldBuf : Nat → Byte)
    {old : Nat → Nat → Byte} (hold : ∀ n, old n 1024 ≠ 0x0A) {rounds : Nat}
    (hrounds : 1023 * 4096 < rounds) :
    Yields (processSystem fs arg) (grep m oldSearch oldBuf old rounds) p fun status p' =>
      ∃ printed, p'.text = p.text ++ printed ∧ GrepOutcome fs arg printed status := by
  unfold grep GrepOutcome
  by_cases hempty : arg.strlen = 0
  · refine yields_make (getargs_empty hempty _ _) ?_
    rw [if_pos (by decide : Answer.refused.ret ≠ 0)]
    simp only [if_pos hempty]
    exact yields_seq (run_putLiteral hp.console m.literals.notNull (by decide))
      (yields_done ⟨_, rfl, rfl, rfl⟩)
  · refine yields_make (getargs_given hempty m.search.notNull _) ?_
    dsimp only
    rw [if_neg (fun hne => hne rfl)]
    simp only [if_neg hempty]
    have hs : HoldsPattern (overlay (arg.bytes ++ [0]) oldSearch) arg.bytes :=
      ⟨fun hnil => hempty (by rw [CString.strlen, hnil]; rfl), harg,
        text_overlay arg oldSearch harg⟩
    obtain ⟨i, hfree, i', hfree'⟩ := hp.free
    have hi := freeFd_ge hfree
    cases hfound : fs.readDentryByName dot with
    | none =>
      refine yields_make (open_missing hfound) ?_
      rw [if_pos (show Answer.refused.ret = minusOne from rfl)]
      exact yields_seq (run_putLiteral hp.console m.literals.notNull (by decide))
        (yields_done ⟨_, rfl, rfl, rfl⟩)
    | some d =>
      refine yields_make (open_free hfound hfree) ?_
      dsimp only
      rw [if_neg (ofNat_fin_ne_minusOne i), openedEntry, if_neg (by rw [hdot d hfound]; decide),
        if_pos (hdot d hfound)]
      have hstart : InDirectory fs p i i' arg.bytes 0 (p.setFd i ⟨some .directory, 0, 0, 1⟩) :=
        ⟨hp.console.setFd hi _, Function.update_self .., hfree', [], (List.append_nil _).symm,
          outputs_zero fs _⟩
      have hcount := himage.count
      refine (yields_loop (fun x p' h => yields_grepRound himage hsearch hi hs m hold hrounds x h)
        ⟨0, Nat.zero_le _, hstart⟩ ?_).mono ?_
      · dsimp only [entriesLeft]
        omega
      · rintro status p' ⟨rfl, printed, htext, houtputs⟩
        exact ⟨printed, htext, houtputs, rfl⟩

end Grep

/-- **`grep`.**  On a valid image `grep` goes through the directory, and of each text whose
lines fit its buffer it shows the lines that contain its argument, behind the name of the
file, however the lines lie in the buffers they are read through.  What it shows of other files
does not change that. -/
theorem grep_shows {fs : FileSystem} (himage : fs.ValidImage) (hsearch : Searchable fs)
    (hdot : ∀ d, fs.readDentryByName dot = some d → d.filetype = 1) {k : Kernel} (hk : Alone k)
    (hready : k.runningProcess.ReadyForTwo)
    (harg : (k.pcb k.executingSlot).arg.strlen < 1024) (ticks : Nat → List Regs) (m : GrepMemory)
    (oldSearch oldBuf : Nat → Byte) {old : Nat → Nat → Byte} (hold : ∀ n, old n 1024 ≠ 0x0A)
    {rounds : Nat} (hrounds : 1023 * 4096 < rounds) :
    ∃ printed status, Shows fs k ticks (grep m oldSearch oldBuf old rounds) printed status ∧
      GrepOutcome fs (k.pcb k.executingSlot).arg printed status := by
  obtain ⟨status, p, hrun, printed, htext, houtcome⟩ :=
    yields_grep himage hsearch hdot hready harg m oldSearch oldBuf hold hrounds
  exact ⟨printed, status,
    @shows_of_yields fs k hk ticks _ (printed, status) ⟨status, p, hrun, htext, rfl⟩, houtcome⟩

/-- An image of the directory and a shell, whose file is a text: the magic number, a newline, and
letters up to its entry point. -/
def textImage : FileSystem where
  bootBlock := 0x420000
  mem := fun a =>
    match (a - 0x420000).toNat with
    | 0 => 2
    | 4 | 8 => 1
    | 64 => 0x2E
    | 96 => 1
    | 128 => 0x73
    | 129 => 0x68
    | 130 => 0x65
    | 131 | 132 => 0x6C
    | 160 => 2
    | 4096 => 28
    | 8192 => 0x7F
    | 8193 => 0x45
    | 8194 => 0x4C
    | 8195 => 0x46
    | 8196 | 8206 => 0x0A
    | 8216 => 0x61
    | 8217 => 0x80
    | 8218 => 0x04
    | 8219 => 0x08
    | j => if 8192 ≤ j ∧ j < 8216 then 0x61 else 0

theorem textImage_validImage : textImage.ValidImage := by
  have hlength : (textImage.inodeLength 0).toNat = 28 := by decide +kernel
  have hfile : textImage.ValidFile 0 := by
    refine ⟨by decide +kernel, by decide +kernel, fun n hn => ?_⟩
    obtain rfl : n = 0 := by omega
    decide +kernel
  have hcount : textImage.dirCount.toNat = 2 := by decide +kernel
  have hinodes : ∀ j : Fin 2, (textImage.dentryAt (textImage.direntry j)).inodeNum = 0 := by
    decide +kernel
  have hdistinct : ∀ i j : Fin 2, textImage.nameAt (textImage.direntry i) =
      textImage.nameAt (textImage.direntry j) → i = j := by decide +kernel
  refine ⟨⟨by decide +kernel, by decide +kernel, by decide +kernel, fun i j hi hj hname => ?_⟩,
    fun j hj _ => ?_⟩
  · rw [hcount] at hi hj
    exact congrArg Fin.val (hdistinct ⟨i, hi⟩ ⟨j, hj⟩ hname)
  · rw [hcount] at hj
    exact (hinodes ⟨j, hj⟩).symm ▸ hfile

/-- The first shell has run `shell ELF`. -/
def withPattern : Kernel :=
  kernelStep textImage (booted textImage zeroHardware noJunk ⟨0x7FFF00, 0x7FFF40⟩)
    (.execute (some ⟨ascii "shell ELF".toList, by decide⟩) noJunk ⟨0x7FFE00, 0x7FFE40⟩)

theorem grep_shows_withPattern :
    ∃ printed status, Shows textImage withPattern (fun _ => [⟨0x7FDF00, 0x7FDF40⟩])
      (grep ⟨⟨0x83FF000, by decide, by decide⟩, ⟨0x83FFF00, by decide, by decide⟩,
        ⟨0x83FF800, by decide, by decide⟩, ⟨0x8049000, by decide, by decide⟩⟩ noJunk noJunk
        (fun _ => noJunk) 4190209) printed status ∧
      GrepOutcome textImage (withPattern.pcb withPattern.executingSlot).arg printed status := by
  have hdot : textImage.readDentryByName dot = some ⟨dot, 1, 0⟩ := by decide +kernel
  have halone : Alone withPattern := ⟨by decide +kernel, by decide +kernel, by decide +kernel,
    by decide +kernel, by decide +kernel, by decide +kernel⟩
  have hready : withPattern.runningProcess.ReadyForTwo :=
    ⟨⟨by decide +kernel, by decide +kernel⟩, 2, by decide +kernel, 3, by decide +kernel⟩
  have hsearch : Searchable textImage := by
    unfold Searchable
    decide +kernel
  refine grep_shows textImage_validImage hsearch (fun d hd => ?_) halone hready
    (by decide +kernel) _ _ _ _ (fun _ => by decide) (by omega)
  rw [hdot] at hd
  exact Option.some.inj hd ▸ rfl

end LinuxLikeOS
