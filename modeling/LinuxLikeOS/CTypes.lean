import Mathlib.Data.List.TakeWhile
import Mathlib.Logic.Function.Basic

/-! # The C types of the kernel

`types.h` fixes the integer types the kernel is written in.  They are bit
vectors here: a `Byte` is a `uint8_t` (or a `char`, where only its bits matter)
and a `Word` is a 32-bit register, a `uint32_t`, or an `int32_t` read with
`toInt`.  An `int` that the code only compares, adds to and subtracts from, far
away from `2^31`, is an `Int`.

A `CString` is what a `const uint8_t*` argument of a system call points to: the
bytes up to the terminating NUL, none of which is NUL.
-/
namespace LinuxLikeOS

/-- `uint8_t`. -/
abbrev Byte := BitVec 8

/-- `uint32_t`, or `int32_t` read with `toInt`. -/
abbrev Word := BitVec 32

/-- What `return -1` leaves in `eax`. -/
def minusOne : Word := -1

/-- The little-endian word at address `a`. -/
def loadWord (mem : Word → Byte) (a : Word) : Word :=
  mem (a + 3) ++ mem (a + 2) ++ mem (a + 1) ++ mem a

/-- The byte at `a + 1` is the second byte of the word. -/
theorem loadWord_byte1 (mem : Word → Byte) (a : Word) :
    (loadWord mem a).extractLsb' 8 8 = mem (a + 1) := by
  unfold loadWord
  ext i hi
  simp [BitVec.getElem_extractLsb']
  grind

/-- The four bytes of a word, in the order a store leaves them in memory. -/
def wordBytes (w : Word) : List Byte :=
  [w.extractLsb' 0 8, w.extractLsb' 8 8, w.extractLsb' 16 8, w.extractLsb' 24 8]

@[simp] theorem length_wordBytes (w : Word) : (wordBytes w).length = 4 := rfl

/-- `memcpy` of `n` bytes from `src` to `dest` (the ranges do not overlap). -/
def memcpy (mem : Word → Byte) (dest src : Word) (n : Nat) : Word → Byte :=
  fun a => if (a - dest).toNat < n then mem (src + (a - dest)) else mem a

/-- A NUL-terminated string, without its NUL. -/
structure CString where
  bytes : List Byte
  noNul : (0 : Byte) ∉ bytes
  deriving DecidableEq

namespace CString

/-- `strlen`. -/
def strlen (s : CString) : Nat := s.bytes.length

/-- `s[i]`: the NUL is at index `strlen s`. -/
def get (s : CString) (i : Nat) : Byte := s.bytes.getD i 0

/-- `len` bytes of `s` from `start` on, as the copy loops of `execute` put them
into a zeroed array. -/
def slice (s : CString) (start len : Nat) : CString where
  bytes := (s.bytes.drop start).take len
  noNul := fun h => s.noNul (List.mem_of_mem_drop (List.mem_of_mem_take h))

/-- The string of a text without NUL characters; a NUL would end it early. -/
def ofBytes (l : List Byte) : CString where
  bytes := l.takeWhile (· ≠ 0)
  noNul := fun h => by simpa using List.mem_takeWhile_imp h

end CString

/-- The bytes of an ASCII text. -/
def ascii (cs : List Char) : List Byte := cs.map fun c => BitVec.ofNat 8 c.toNat

end LinuxLikeOS
