import Mathlib.Data.List.Basic

/-!
# Buffers of a fixed size

A buffer is the list of its items.  Copying between buffers has no result when it leaves
one of them.
-/

namespace OxCtrl.Lib

universe u

variable {α : Type u}

/-- The items of a buffer from an offset on. -/
def slice (buf : List α) (off n : Nat) : List α :=
  (buf.drop off).take n

/-- `memcpy`: `n` items of `src` from `srcOff` on to `dst` from `dstOff` on. -/
def memcpy (dst : List α) (dstOff : Nat) (src : List α) (srcOff n : Nat) : Option (List α) :=
  if dstOff + n ≤ dst.length ∧ srcOff + n ≤ src.length then
    some (dst.take dstOff ++ slice src srcOff n ++ dst.drop (dstOff + n))
  else none

theorem length_slice {buf : List α} {off n : Nat} (within : off + n ≤ buf.length) :
    (slice buf off n).length = n := by
  rw [slice, List.length_take, List.length_drop]
  omega

theorem slice_zero (buf : List α) (n : Nat) : slice buf 0 n = buf.take n :=
  rfl

theorem take_slice {buf : List α} {off n m : Nat} (le : m ≤ n) :
    (slice buf off n).take m = slice buf off m := by
  rw [slice, slice, List.take_take, Nat.min_eq_left le]

theorem drop_slice (buf : List α) (off n m : Nat) :
    (slice buf off n).drop m = slice buf (off + m) (n - m) := by
  rw [slice, slice, List.drop_take, List.drop_drop]

/-- A copy within the buffers keeps the items before it, appends the copied ones and does not
change the size. -/
theorem memcpy_eq (dst src : List α) (dstOff srcOff n : Nat) (dstWithin : dstOff + n ≤ dst.length)
    (srcWithin : srcOff + n ≤ src.length) :
    ∃ copied, memcpy dst dstOff src srcOff n = some copied ∧ copied.length = dst.length ∧
      copied.take (dstOff + n) = dst.take dstOff ++ slice src srcOff n := by
  refine ⟨_, if_pos ⟨dstWithin, srcWithin⟩, ?_, ?_⟩
  · rw [List.length_append, List.length_append, length_slice srcWithin, List.length_take,
      List.length_drop]
    omega
  · have length : (dst.take dstOff ++ slice src srcOff n).length = dstOff + n := by
      rw [List.length_append, length_slice srcWithin, List.length_take]
      omega
    rw [← length, List.take_left]

theorem memcpy_eq_some {dst src out : List α} {dstOff srcOff n : Nat} :
    memcpy dst dstOff src srcOff n = some out ↔
      (dstOff + n ≤ dst.length ∧ srcOff + n ≤ src.length) ∧
        dst.take dstOff ++ slice src srcOff n ++ dst.drop (dstOff + n) = out := by
  rw [memcpy, Option.ite_none_right_eq_some, Option.some.injEq]

/-- The items behind a copy. -/
theorem getElem?_memcpy {dst src out : List α} {dstOff srcOff n : Nat}
    (copied : memcpy dst dstOff src srcOff n = some out) (x : Nat) :
    out[x]? =
      if dstOff ≤ x ∧ x < dstOff + n then src[srcOff + (x - dstOff)]? else dst[x]? := by
  obtain ⟨⟨dstWithin, srcWithin⟩, rfl⟩ := memcpy_eq_some.mp copied
  have front : (dst.take dstOff).length = dstOff := by
    rw [List.length_take]
    omega
  have middle := length_slice srcWithin
  rw [List.append_assoc]
  by_cases before : x < dstOff
  · rw [List.getElem?_append_left (by omega), List.getElem?_take_of_lt before, if_neg (by omega)]
  · rw [List.getElem?_append_right (by omega), front]
    by_cases inside : x < dstOff + n
    · rw [List.getElem?_append_left (by omega), slice, List.getElem?_take_of_lt (by omega),
        List.getElem?_drop, if_pos (by omega)]
    · rw [List.getElem?_append_right (by omega), middle, List.getElem?_drop, if_neg (by omega)]
      congr 1
      omega

/-- A copy does not see what stands behind its source. -/
theorem memcpy_append_src {dst src out : List α} {dstOff srcOff n : Nat}
    (copied : memcpy dst dstOff src srcOff n = some out) (rest : List α) :
    memcpy dst dstOff (src ++ rest) srcOff n = some out := by
  obtain ⟨⟨dstWithin, srcWithin⟩, rfl⟩ := memcpy_eq_some.mp copied
  have same : slice (src ++ rest) srcOff n = slice src srcOff n := by
    rw [slice, slice, List.drop_append_of_le_length (by omega),
      List.take_append_of_le_length (by rw [List.length_drop]; omega)]
  refine memcpy_eq_some.mpr ⟨⟨dstWithin, ?_⟩, by rw [same]⟩
  rw [List.length_append]
  omega

/-- A copy leaves what stands behind its destination. -/
theorem memcpy_append_dst {dst src out : List α} {dstOff srcOff n : Nat}
    (copied : memcpy dst dstOff src srcOff n = some out) (rest : List α) :
    memcpy (dst ++ rest) dstOff src srcOff n = some (out ++ rest) := by
  obtain ⟨⟨dstWithin, srcWithin⟩, rfl⟩ := memcpy_eq_some.mp copied
  refine memcpy_eq_some.mpr ⟨⟨?_, srcWithin⟩, ?_⟩
  · rw [List.length_append]
    omega
  · rw [List.take_append_of_le_length (by omega), List.drop_append_of_le_length dstWithin,
      List.append_assoc, List.append_assoc, List.append_assoc]

theorem slice_add (buf : List α) (off n m : Nat) :
    slice buf off (n + m) = slice buf off n ++ slice buf (off + n) m := by
  rw [slice, slice, slice, List.take_add, List.drop_drop]

/-- Buffers with one front have one range in it. -/
theorem slice_of_take {buf other : List α} {n off size : Nat} (same : buf.take n = other.take n)
    (within : off + size ≤ n) : slice buf off size = slice other off size := by
  have part (list : List α) : slice list off size = slice (list.take n) off size := by
    rw [slice, slice, List.drop_take, List.take_take,
      Nat.min_eq_left (Nat.le_sub_of_add_le' within)]
  rw [part, same, ← part]

/-- A copy of the front. -/
theorem memcpy_front {dst src : List α} {n : Nat} (dstLong : n ≤ dst.length)
    (srcLong : n ≤ src.length) :
    ∃ out, memcpy dst 0 src 0 n = some out ∧ out.length = dst.length ∧ out.take n = src.take n := by
  obtain ⟨out, copied, length, front⟩ := memcpy_eq dst src 0 0 n (by omega) (by omega)
  rw [Nat.zero_add, List.take_zero, List.nil_append, slice_zero] at front
  exact ⟨out, copied, length, front⟩

end OxCtrl.Lib
