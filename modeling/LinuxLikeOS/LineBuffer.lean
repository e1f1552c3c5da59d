import Mathlib.Data.List.Infix
import Mathlib.Logic.Basic

/-! # Lines through a buffer

A text is worked on line by line: each line gives an output (`emit`), and the output of the
text is that of its lines in order (`output`).  A program that reads the text in pieces has at
any time a part that is done, a part in its buffer and a part that is still to come; `Buffered`
says that the first is what the others do not have to give any more.

What the program may do to its buffer: read on (`Buffered.read`), take a line off its front
(`Buffered.line`), and take the rest for a line, where nothing is to come (`Buffered.last`) or
where the buffer is as long as a line can be (`Buffered.full`); there the separator that follows is
taken for an empty line, so an empty line must give nothing.
-/
namespace LineBuffer
variable {α β : Type} [BEq α] [LawfulBEq α] {sep : α} {size : Nat} {emit : List α → List β}

/-- What the lines of a text give. -/
def output (sep : α) (emit : List α → List β) (text : List α) : List β :=
  (text.splitOn sep).flatMap emit

theorem output_last {line : List α} (h : sep ∉ line) : output sep emit line = emit line := by
  unfold output
  rw [List.splitOn_eq_singleton h, List.flatMap_singleton]

theorem output_line {line : List α} (h : sep ∉ line) (text : List α) :
    output sep emit (line ++ sep :: text) = emit line ++ output sep emit text := by
  unfold output
  rw [List.splitOn_append_cons_self_of_not_mem h, List.flatMap_cons]

/-- No line is longer than `size`. -/
def Fits (sep : α) (size : Nat) (text : List α) : Prop :=
  ∀ line ∈ text.splitOn sep, line.length ≤ size

theorem fits_nil : Fits sep size [] := by
  intro line hline
  rw [List.splitOn_eq_singleton List.not_mem_nil, List.mem_singleton] at hline
  rw [hline]
  exact Nat.zero_le size

theorem Fits.line {line text : List α} (hsep : sep ∉ line)
    (h : Fits sep size (line ++ sep :: text)) : Fits sep size text := by
  intro l hl
  refine h l ?_
  rw [List.splitOn_append_cons_self_of_not_mem hsep]
  exact List.mem_cons_of_mem _ hl

/-- The first line begins with all that is in front of a separator. -/
theorem exists_line {line : List α} (hsep : sep ∉ line) (text : List α) :
    ∃ l ∈ (line ++ text).splitOn sep, line <+: l := by
  induction text generalizing line with
  | nil =>
    rw [List.append_nil, List.splitOn_eq_singleton hsep]
    exact ⟨line, List.mem_singleton.mpr rfl, List.prefix_refl line⟩
  | cons c text ih =>
    by_cases hc : sep = c
    · rw [← hc, List.splitOn_append_cons_self_of_not_mem hsep]
      exact ⟨line, List.mem_cons_self, List.prefix_refl line⟩
    · have hline : sep ∉ line ++ [c] := by simp [hsep, hc]
      obtain ⟨l, hl, hprefix⟩ := ih hline
      rw [List.append_assoc] at hl
      exact ⟨l, hl, (List.prefix_append line [c]).trans hprefix⟩

/-- A full line is followed by a separator, or by nothing. -/
theorem Fits.full {line text : List α} (hsep : sep ∉ line) (hsize : line.length = size)
    (h : Fits sep size (line ++ text)) : text = [] ∨ ∃ rest, text = sep :: rest := by
  rcases text with _ | ⟨c, rest⟩
  · exact Or.inl rfl
  · by_cases hc : sep = c
    · exact Or.inr ⟨rest, by rw [hc]⟩
    · -- otherwise the line goes on
      have hline : sep ∉ line ++ [c] := by simp [hsep, hc]
      obtain ⟨l, hl, hprefix⟩ := exists_line hline rest
      rw [List.append_assoc] at hl
      have hlong := hprefix.length_le
      have hshort := h l hl
      rw [List.length_append, List.length_singleton] at hlong
      omega

/-- The output of `all` is what is done and what the buffer and the rest give. -/
structure Buffered (sep : α) (size : Nat) (emit : List α → List β) (all : List α) (done : List β)
    (buffer rest : List α) : Prop where
  split : done ++ output sep emit (buffer ++ rest) = output sep emit all
  fits : Fits sep size (buffer ++ rest)

section Rules
variable {all text buffer rest : List α} {done : List β}

omit [LawfulBEq α] in
theorem buffered_start (h : Fits sep size all) : Buffered sep size emit all [] [] all :=
  ⟨rfl, h⟩

omit [LawfulBEq α] in
theorem Buffered.read {chunk : List α}
    (h : Buffered sep size emit all done buffer (chunk ++ rest)) :
    Buffered sep size emit all done (buffer ++ chunk) rest := by
  refine ⟨?_, ?_⟩
  · rw [List.append_assoc]
    exact h.split
  · rw [List.append_assoc]
    exact h.fits

theorem Buffered.line (hsep : sep ∉ text)
    (h : Buffered sep size emit all done (text ++ sep :: buffer) rest) :
    Buffered sep size emit all (done ++ emit text) buffer rest := by
  have hsplit := h.split
  have hfits := h.fits
  rw [List.append_assoc, List.cons_append] at hsplit hfits
  rw [output_line hsep, ← List.append_assoc] at hsplit
  exact ⟨hsplit, hfits.line hsep⟩

theorem Buffered.last (hempty : emit [] = []) (hsep : sep ∉ text)
    (h : Buffered sep size emit all done text []) :
    Buffered sep size emit all (done ++ emit text) [] [] := by
  have hsplit := h.split
  rw [List.append_nil, output_last hsep] at hsplit
  refine ⟨?_, fits_nil⟩
  rw [hsplit, List.append_nil, output_last List.not_mem_nil, hempty, List.append_nil]

theorem Buffered.full (hempty : emit [] = []) (hsep : sep ∉ text) (hsize : text.length = size)
    (h : Buffered sep size emit all done text rest) :
    Buffered sep size emit all (done ++ emit text) [] rest := by
  rcases h.fits.full hsep hsize with rfl | ⟨behind, rfl⟩
  · exact h.last hempty hsep
  · have hsplit := h.split
    rw [output_line hsep, ← List.append_assoc] at hsplit
    have hnothing : output sep emit (sep :: behind) = output sep emit behind := by
      have hline : output sep emit ([] ++ sep :: behind) = emit [] ++ output sep emit behind :=
        output_line List.not_mem_nil behind
      rw [hempty] at hline
      exact hline
    refine ⟨?_, fun l hl => ?_⟩
    · rw [List.nil_append, hnothing, hsplit]
    · have hsplits := List.splitOn_append_cons_self_of_not_mem (List.not_mem_nil (a := sep)) behind
      rw [List.nil_append] at hl hsplits
      rw [hsplits] at hl
      rcases List.mem_cons.mp hl with rfl | hin
      · exact Nat.zero_le size
      · exact h.fits.line hsep l hin

/-- Behind everything the whole output is done. -/
theorem Buffered.done_eq (hempty : emit [] = []) (h : Buffered sep size emit all done [] []) :
    done = output sep emit all := by
  rw [← h.split, List.append_nil, output_last List.not_mem_nil, hempty, List.append_nil]

end Rules

end LineBuffer
