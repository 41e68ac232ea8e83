import Mathlib.Data.List.GetD

/-!
# A file with holes

A `SparseFile` is a size and a value for every place, which is zero beyond the
size.  A write past the end leaves a hole that reads as zeros, and so does a
change of the size upwards.  A list is the file of its elements
(`SparseFile.of`), and the contents of that file are the list (`contents_of`).
-/

/-- A file: its size, and the value at each place. -/
@[ext] structure SparseFile (α : Type) [Zero α] where
  size : Nat
  cell : Nat → α
  beyond : ∀ i, size ≤ i → cell i = 0

namespace SparseFile

variable {α : Type} [Zero α]

/-- The file of a list. -/
def of (xs : List α) : SparseFile α where
  size := xs.length
  cell i := xs.getD i 0
  beyond _ hi := List.getD_eq_default xs 0 hi

/-- A write at a position. -/
def write (f : SparseFile α) (offset : Nat) (xs : List α) : SparseFile α where
  size := max f.size (offset + xs.length)
  cell i := if offset ≤ i ∧ i < offset + xs.length then xs.getD (i - offset) 0 else f.cell i
  beyond i hi := by
    rw [if_neg fun h => Nat.not_lt_of_le (Nat.le_trans (Nat.le_max_right _ _) hi) h.2]
    exact f.beyond i (Nat.le_trans (Nat.le_max_left _ _) hi)

/-- A change of the size. -/
def truncate (f : SparseFile α) (size : Nat) : SparseFile α where
  size := size
  cell i := if i < size then f.cell i else 0
  beyond _ hi := if_neg (Nat.not_lt_of_le hi)

/-- A read of at most `count` values from a position. -/
def read (f : SparseFile α) (offset count : Nat) : List α :=
  (List.range (min count (f.size - offset))).map fun i => f.cell (offset + i)

/-- All values of a file. -/
def contents (f : SparseFile α) : List α := f.read 0 f.size

section

variable (f : SparseFile α) (xs ys : List α) (offset count : Nat)

@[simp] theorem size_of : (of xs).size = xs.length := rfl

@[simp] theorem size_write : (f.write offset xs).size = max f.size (offset + xs.length) := rfl

@[simp] theorem size_truncate (size : Nat) : (f.truncate size).size = size := rfl

theorem length_read : (f.read offset count).length = min count (f.size - offset) := by
  rw [read, List.length_map, List.length_range]

/-- A read of the file of a list gives a part of the list. -/
theorem read_of : (of xs).read offset count = (xs.drop offset).take count := by
  refine List.ext_getElem ?_ fun i hread hlist => ?_
  · rw [length_read, size_of, List.length_take, List.length_drop]
  · rw [length_read, size_of] at hread
    have hin : offset + i < xs.length := by omega
    simp only [read, of, List.getElem_map, List.getElem_range, List.getElem_take,
      List.getElem_drop]
    exact List.getD_eq_getElem xs 0 hin

theorem contents_of : (of xs).contents = xs := by
  rw [contents, read_of, List.drop_zero, size_of, List.take_length]

/-- **Two writes in a row** are one write. -/
theorem write_write :
    (f.write offset xs).write (offset + xs.length) ys = f.write offset (xs ++ ys) := by
  ext i
  · simp only [size_write, List.length_append]
    omega
  · simp only [write, List.length_append]
    by_cases hsecond : offset + xs.length ≤ i ∧ i < offset + xs.length + ys.length
    · rw [if_pos hsecond, if_pos (by omega), List.getD_append_right _ _ _ _ (by omega)]
      congr 1
      omega
    · rw [if_neg hsecond]
      by_cases hfirst : offset ≤ i ∧ i < offset + xs.length
      · rw [if_pos hfirst, if_pos (by omega), List.getD_append _ _ _ _ (by omega)]
      · rw [if_neg hfirst, if_neg (by omega)]

end

end SparseFile
