import Mathlib.Data.List.GetD
import OxCtrl.Lib.Buffer

/-!
# Files

A file is the list of its items.  A write past the end and a growing truncation fill the gap
with one item, which is zero for a file of bytes.
-/

namespace OxCtrl.Lib

universe u

variable {α : Type u}

/-- The buffer after items of the file from an offset on have been read into its front:
`pread`.  A read that reaches the end of the file leaves the rest of the buffer. -/
def pread (file buf : List α) (n off : Nat) : List α :=
  slice file off n ++ buf.drop (slice file off n).length

theorem getElem?_slice (file : List α) (off n i : Nat) :
    (slice file off n)[i]? = if i < n then file[off + i]? else none := by
  rw [slice, List.getElem?_take]
  by_cases inside : i < n
  · rw [if_pos inside, if_pos inside, List.getElem?_drop]
  · rw [if_neg inside, if_neg inside]

/-- A range of the front is a range of the file. -/
theorem slice_append_left {file more : List α} {off n : Nat} (within : off + n ≤ file.length) :
    slice (file ++ more) off n = slice file off n := by
  apply List.ext_getElem?
  intro i
  rw [getElem?_slice, getElem?_slice]
  by_cases inside : i < n
  · rw [if_pos inside, if_pos inside, List.getElem?_append_left (by omega)]
  · rw [if_neg inside, if_neg inside]

theorem slice_replicate {value : α} {size off n : Nat} (within : off + n ≤ size) :
    slice (List.replicate size value) off n = List.replicate n value := by
  rw [slice, List.drop_replicate, List.take_replicate, Nat.min_eq_left (by omega)]

/-- A range of what was appended. -/
theorem slice_append_right {file more : List α} {off n : Nat} (behind : file.length ≤ off) :
    slice (file ++ more) off n = slice more (off - file.length) n := by
  rw [slice, slice, List.drop_append, List.drop_eq_nil_of_le behind, List.nil_append]

/-- A read inside the file fills the front of the buffer. -/
theorem take_pread {file buf : List α} {n off : Nat} (within : off + n ≤ file.length) :
    (pread file buf n off).take n = slice file off n := by
  have length := length_slice within
  rw [pread, List.take_append_of_le_length (by omega), List.take_of_length_le (by omega)]

/-- The file up to a size, filled at its end: `ftruncate`. -/
def ftruncate (fill : α) (file : List α) (size : Nat) : List α :=
  (file ++ List.replicate (size - file.length) fill).take size

/-- The file after a buffer has been written from an offset on: `pwrite`. -/
def pwrite (fill : α) (file buf : List α) (off : Nat) : List α :=
  ftruncate fill file off ++ buf ++ file.drop (off + buf.length)

theorem length_ftruncate (fill : α) (file : List α) (size : Nat) :
    (ftruncate fill file size).length = size := by
  rw [ftruncate, List.length_take, List.length_append, List.length_replicate]
  omega

theorem ftruncate_of_le {fill : α} {file : List α} {size : Nat} (le : size ≤ file.length) :
    ftruncate fill file size = file.take size := by
  rw [ftruncate, Nat.sub_eq_zero_of_le le, List.replicate_zero, List.append_nil]

theorem length_pwrite {fill : α} {file buf : List α} {off : Nat}
    (within : off + buf.length ≤ file.length) :
    (pwrite fill file buf off).length = file.length := by
  rw [pwrite, List.length_append, List.length_append, length_ftruncate, List.length_drop]
  omega

theorem getElem?_pwrite {fill : α} {file buf : List α} {off : Nat}
    (within : off + buf.length ≤ file.length) (i : Nat) :
    (pwrite fill file buf off)[i]? =
      if off ≤ i ∧ i < off + buf.length then buf[i - off]? else file[i]? := by
  have front : (file.take off ++ buf).length = off + buf.length := by
    rw [List.length_append, List.length_take, Nat.min_eq_left (by omega)]
  have frontLength : (file.take off).length = off := by
    rw [List.length_take, Nat.min_eq_left (by omega)]
  rw [pwrite, ftruncate_of_le (by omega)]
  by_cases before : i < off
  · rw [if_neg (by omega), List.getElem?_append_left (by omega),
      List.getElem?_append_left (by omega), List.getElem?_take, if_pos before]
  · by_cases inside : i < off + buf.length
    · rw [if_pos (by omega), List.getElem?_append_left (by omega),
        List.getElem?_append_right (by omega), frontLength]
    · rw [if_neg (by omega), List.getElem?_append_right (by omega), front, List.getElem?_drop]
      congr 1
      omega

/-- What a write inside the file has written is read back. -/
theorem slice_pwrite_self {fill : α} {file buf : List α} {off : Nat}
    (within : off + buf.length ≤ file.length) :
    slice (pwrite fill file buf off) off buf.length = buf := by
  apply List.ext_getElem?
  intro i
  rw [getElem?_slice]
  by_cases inside : i < buf.length
  · rw [if_pos inside, getElem?_pwrite within, if_pos (by omega), Nat.add_sub_cancel_left]
  · rw [if_neg inside, List.getElem?_eq_none (by omega)]

/-- A write changes no range apart from its own. -/
theorem slice_pwrite_of_apart {fill : α} {file buf : List α} {off at' n : Nat}
    (within : off + buf.length ≤ file.length)
    (apart : at' + n ≤ off ∨ off + buf.length ≤ at') :
    slice (pwrite fill file buf off) at' n = slice file at' n := by
  apply List.ext_getElem?
  intro i
  rw [getElem?_slice, getElem?_slice]
  by_cases inside : i < n
  · rw [if_pos inside, if_pos inside, getElem?_pwrite within, if_neg (by omega)]
  · rw [if_neg inside, if_neg inside]

/-- A range of a write of one repeated item reads that item. -/
theorem slice_pwrite_replicate {file : List α} {fill value : α} {size off at' n : Nat}
    (within : off + size ≤ file.length) (first : off ≤ at') (last : at' + n ≤ off + size) :
    slice (pwrite fill file (List.replicate size value) off) at' n = List.replicate n value := by
  have length : (List.replicate size value).length = size := List.length_replicate
  apply List.ext_getElem?
  intro i
  rw [getElem?_slice]
  by_cases inside : i < n
  · rw [if_pos inside, getElem?_pwrite (length.symm ▸ within), if_pos (by omega),
      List.getElem?_replicate, List.getElem?_replicate, if_pos inside, if_pos (by omega)]
  · rw [if_neg inside, List.getElem?_replicate, if_neg inside]

end OxCtrl.Lib
