import Mathlib.Logic.Function.Basic
import Mathlib.Data.List.Basic

/-!
# Ring buffers

A ring of `n` slots with a read and a write position.  It is empty when the positions
are equal, so that it holds at most `n - 1` elements.  `contents` lists the elements
from the read position to the write position.
-/

namespace OxCtrl.Lib.Ring

universe u

variable {α : Type u} {n read write : Nat}

/-- The position after `index`. -/
def next (n index : Nat) : Nat :=
  (index + 1) % n

/-- Number of elements between two positions. -/
def occupancy (n read write : Nat) : Nat :=
  (write + n - read) % n

/-- The elements between two positions, oldest first. -/
def contents (n : Nat) (slots : Nat → α) (read write : Nat) : List α :=
  (List.range (occupancy n read write)).map fun k => slots ((read + k) % n)

theorem next_lt (pos : 0 < n) (index : Nat) : next n index < n :=
  Nat.mod_lt _ pos

theorem next_eq {index : Nat} (lt : index < n) :
    next n index = if index + 1 = n then 0 else index + 1 := by
  unfold next
  split
  · rename_i last
    rw [last, Nat.mod_self]
  · exact Nat.mod_eq_of_lt (by omega)

theorem occupancy_lt (pos : 0 < n) (read write : Nat) : occupancy n read write < n :=
  Nat.mod_lt _ pos

theorem occupancy_eq (readLt : read < n) (writeLt : write < n) :
    occupancy n read write = if read ≤ write then write - read else write + n - read := by
  unfold occupancy
  split
  · rw [show write + n - read = write - read + n by omega, Nat.add_mod_right]
    exact Nat.mod_eq_of_lt (by omega)
  · exact Nat.mod_eq_of_lt (by omega)

@[simp]
theorem occupancy_self (n read : Nat) : occupancy n read read = 0 := by
  simp [occupancy]

theorem occupancy_succ (readLt : read < n) (writeLt : write < n) (differ : read ≠ write) :
    occupancy n read write = occupancy n (next n read) write + 1 := by
  rw [occupancy_eq readLt writeLt, occupancy_eq (next_lt (by omega) read) writeLt, next_eq readLt]
  split_ifs <;> omega

/-- There is room for one more element. -/
theorem occupancy_push (readLt : read < n) (writeLt : write < n)
    (room : next n write ≠ read) :
    occupancy n read (next n write) = occupancy n read write + 1 := by
  rw [next_eq writeLt] at room
  rw [occupancy_eq readLt writeLt, occupancy_eq readLt (next_lt (by omega) write), next_eq writeLt]
  split_ifs at room ⊢ <;> omega

theorem next_ne_of_occupancy_lt (readLt : read < n) (writeLt : write < n)
    (lt : occupancy n read write + 1 < n) : next n write ≠ read := by
  rw [occupancy_eq readLt writeLt] at lt
  rw [next_eq writeLt]
  split_ifs at lt ⊢ <;> omega

theorem occupancy_full (readLt : read < n) (writeLt : write < n) (full : next n write = read) :
    occupancy n read write + 1 = n := by
  rw [next_eq writeLt] at full
  rw [occupancy_eq readLt writeLt]
  split_ifs at full ⊢ <;> omega

theorem ne_of_next_eq (readLt : read < n) (two : 2 ≤ n) (full : next n write = read) :
    read ≠ write := by
  rintro rfl
  rw [next_eq readLt] at full
  split_ifs at full <;> omega

/-- The write position holds no element. -/
theorem position_ne_write (readLt : read < n) (writeLt : write < n) {k : Nat}
    (lt : k < occupancy n read write) : (read + k) % n ≠ write := by
  rw [occupancy_eq readLt writeLt] at lt
  by_cases wraps : n ≤ read + k
  · rw [Nat.mod_eq_sub_mod wraps, Nat.mod_eq_of_lt (by split_ifs at lt <;> omega)]
    split_ifs at lt <;> omega
  · rw [Nat.mod_eq_of_lt (by omega)]
    split_ifs at lt <;> omega

theorem position_occupancy (readLt : read < n) (writeLt : write < n) :
    (read + occupancy n read write) % n = write := by
  rw [occupancy_eq readLt writeLt]
  split
  · rw [Nat.mod_eq_of_lt (by omega)]
    omega
  · rw [show read + (write + n - read) = write + n by omega, Nat.add_mod_right]
    exact Nat.mod_eq_of_lt writeLt

@[simp]
theorem length_contents (n : Nat) (slots : Nat → α) (read write : Nat) :
    (contents n slots read write).length = occupancy n read write := by
  simp [contents]

@[simp]
theorem contents_self (n : Nat) (slots : Nat → α) (read : Nat) :
    contents n slots read read = [] := by
  simp [contents]

/-- The oldest element, and the others. -/
theorem contents_cons (slots : Nat → α) (readLt : read < n) (writeLt : write < n)
    (differ : read ≠ write) :
    contents n slots read write = slots read :: contents n slots (next n read) write := by
  rw [contents, occupancy_succ readLt writeLt differ, List.range_succ_eq_map, List.map_cons,
    List.map_map, Nat.add_zero, Nat.mod_eq_of_lt readLt, contents]
  congr 2
  funext k
  simp only [Function.comp, next, Nat.mod_add_mod]
  congr 2
  omega

/-- Storing an element at the write position appends it. -/
theorem contents_push (slots : Nat → α) (readLt : read < n) (writeLt : write < n)
    (room : next n write ≠ read) (a : α) :
    contents n (Function.update slots write a) read (next n write) =
      contents n slots read write ++ [a] := by
  rw [contents, occupancy_push readLt writeLt room, List.range_succ, List.map_append,
    List.map_singleton, position_occupancy readLt writeLt, Function.update_self, contents]
  congr 1
  refine List.map_congr_left fun k mem => ?_
  exact Function.update_of_ne
    (position_ne_write readLt writeLt (List.mem_range.mp mem)) _ _

/-- The read position after the first `k` elements. -/
theorem position_eq (readLt : read < n) (writeLt : write < n) {last k : Nat} (lastLt : last < n)
    (count : occupancy n read write = k + occupancy n last write) : last = (read + k) % n := by
  rw [occupancy_eq readLt writeLt, occupancy_eq lastLt writeLt] at count
  by_cases wraps : n ≤ read + k
  · rw [Nat.mod_eq_sub_mod wraps, Nat.mod_eq_of_lt (by split_ifs at count <;> omega)]
    split_ifs at count <;> omega
  · rw [Nat.mod_eq_of_lt (by omega)]
    split_ifs at count <;> omega

/-- Moving the read position drops the oldest elements. -/
theorem contents_drop (slots : Nat → α) (readLt : read < n) (writeLt : write < n) {k : Nat}
    (le : k ≤ occupancy n read write) :
    contents n slots ((read + k) % n) write = (contents n slots read write).drop k := by
  induction k generalizing read with
  | zero => rw [Nat.add_zero, Nat.mod_eq_of_lt readLt, List.drop_zero]
  | succ k ih =>
      have differ : read ≠ write := by
        rintro rfl
        rw [occupancy_self] at le
        exact absurd le (Nat.not_succ_le_zero k)
      have count := occupancy_succ readLt writeLt differ
      have rest := ih (next_lt (Nat.zero_lt_of_lt readLt) read) (by omega)
      rw [next, Nat.mod_add_mod, Nat.add_assoc, Nat.add_comm 1 k] at rest
      rw [contents_cons slots readLt writeLt differ, List.drop_succ_cons, rest, next]

/-- Storing an element outside the listed positions changes nothing. -/
theorem contents_update (slots : Nat → α) {last : Nat} (readLt : read < n) (writeLt : write < n)
    (le : occupancy n read last ≤ occupancy n read write) (a : α) :
    contents n (Function.update slots write a) read last = contents n slots read last := by
  refine List.map_congr_left fun k mem => ?_
  have lt : k < occupancy n read write := Nat.lt_of_lt_of_le (List.mem_range.mp mem) le
  exact Function.update_of_ne (position_ne_write readLt writeLt lt) _ _

end OxCtrl.Lib.Ring
