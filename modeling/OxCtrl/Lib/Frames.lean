import Mathlib.Data.List.Basic

/-!
# Frames of a stream

A stream is the concatenation of frames.  After its first `n` items some frames have
arrived, and the items behind them are the beginning of the next frame.
-/

namespace OxCtrl.Lib

universe u

variable {α : Type u}

/-- The frames that lie within the first `n` items of the stream. -/
def arrived : List (List α) → Nat → List (List α)
  | [], _ => []
  | frame :: frames, n =>
      if frame.length ≤ n then frame :: arrived frames (n - frame.length) else []

/-- The frames that are not complete after the first `n` items. -/
def unfinished (frames : List (List α)) (n : Nat) : List (List α) :=
  frames.drop (arrived frames n).length

/-- The number of items behind the complete frames. -/
def leftover (frames : List (List α)) (n : Nat) : Nat :=
  n - (arrived frames n).flatten.length

@[simp]
theorem arrived_nil (n : Nat) : arrived ([] : List (List α)) n = [] :=
  rfl

@[simp]
theorem unfinished_nil (n : Nat) : unfinished ([] : List (List α)) n = [] :=
  rfl

@[simp]
theorem leftover_nil (n : Nat) : leftover ([] : List (List α)) n = n :=
  rfl

section Cons

variable {frame : List α} {frames : List (List α)} {n : Nat}

theorem arrived_cons_of_le (le : frame.length ≤ n) :
    arrived (frame :: frames) n = frame :: arrived frames (n - frame.length) :=
  if_pos le

theorem arrived_cons_of_lt (lt : n < frame.length) : arrived (frame :: frames) n = [] :=
  if_neg (Nat.not_le.mpr lt)

theorem unfinished_cons_of_le (le : frame.length ≤ n) :
    unfinished (frame :: frames) n = unfinished frames (n - frame.length) := by
  rw [unfinished, arrived_cons_of_le le]
  rfl

theorem unfinished_cons_of_lt (lt : n < frame.length) :
    unfinished (frame :: frames) n = frame :: frames := by
  rw [unfinished, arrived_cons_of_lt lt]
  rfl

theorem leftover_cons_of_le (le : frame.length ≤ n) :
    leftover (frame :: frames) n = leftover frames (n - frame.length) := by
  rw [leftover, arrived_cons_of_le le, List.flatten_cons, List.length_append, Nat.sub_add_eq]
  rfl

theorem leftover_cons_of_lt (lt : n < frame.length) : leftover (frame :: frames) n = n := by
  rw [leftover, arrived_cons_of_lt lt]
  rfl

end Cons

/-- Less than a frame is left over. -/
theorem leftover_lt {frames : List (List α)} {n : Nat} {next : List α}
    (head : next ∈ (unfinished frames n).head?) : leftover frames n < next.length := by
  induction frames generalizing n with
  | nil => simp at head
  | cons frame frames ih =>
      by_cases complete : frame.length ≤ n
      · rw [unfinished_cons_of_le complete] at head
        rw [leftover_cons_of_le complete]
        exact ih head
      · have lt := Nat.not_le.mp complete
        rw [unfinished_cons_of_lt lt, List.head?_cons, Option.mem_some_iff] at head
        rw [leftover_cons_of_lt lt, ← head]
        exact lt

/-- All frames before the last ones have arrived. -/
theorem arrived_append (done frames : List (List α)) (n : Nat) :
    arrived (done ++ frames) (done.flatten.length + n) = done ++ arrived frames n := by
  induction done with
  | nil => rw [List.nil_append, List.flatten_nil, List.length_nil, Nat.zero_add, List.nil_append]
  | cons frame done ih =>
      rw [List.flatten_cons, List.length_append, List.cons_append, Nat.add_assoc,
        arrived_cons_of_le (Nat.le_add_right ..), Nat.add_sub_cancel_left, ih, List.cons_append]

/-- Receiving goes on with what is left over. -/
theorem arrived_add (frames : List (List α)) (n more : Nat) :
    arrived frames (n + more) =
      arrived frames n ++ arrived (unfinished frames n) (leftover frames n + more) := by
  induction frames generalizing n with
  | nil => rfl
  | cons frame frames ih =>
      by_cases complete : frame.length ≤ n
      · rw [arrived_cons_of_le (Nat.le_add_right_of_le complete), arrived_cons_of_le complete,
          unfinished_cons_of_le complete, leftover_cons_of_le complete, Nat.sub_add_comm complete,
          ih, List.cons_append]
      · have lt := Nat.not_le.mp complete
        rw [arrived_cons_of_lt lt, unfinished_cons_of_lt lt, leftover_cons_of_lt lt,
          List.nil_append]

/-- The complete frames are not longer than what was received. -/
theorem length_arrived_le (frames : List (List α)) (n : Nat) :
    (arrived frames n).flatten.length ≤ n := by
  induction frames generalizing n with
  | nil => exact Nat.zero_le n
  | cons frame frames ih =>
      by_cases complete : frame.length ≤ n
      · rw [arrived_cons_of_le complete, List.flatten_cons, List.length_append]
        exact Nat.add_le_of_le_sub' complete (ih _)
      · rw [arrived_cons_of_lt (Nat.not_le.mp complete)]
        exact Nat.zero_le n

theorem leftover_add (frames : List (List α)) (n more : Nat) :
    leftover frames (n + more) = leftover (unfinished frames n) (leftover frames n + more) := by
  induction frames generalizing n with
  | nil => rfl
  | cons frame frames ih =>
      by_cases complete : frame.length ≤ n
      · rw [leftover_cons_of_le (Nat.le_add_right_of_le complete), unfinished_cons_of_le complete,
          leftover_cons_of_le complete, Nat.sub_add_comm complete, ih]
      · have lt := Nat.not_le.mp complete
        rw [unfinished_cons_of_lt lt, leftover_cons_of_lt lt]

theorem arrived_append_unfinished (frames : List (List α)) (n : Nat) :
    arrived frames n ++ unfinished frames n = frames := by
  induction frames generalizing n with
  | nil => rfl
  | cons frame frames ih =>
      by_cases complete : frame.length ≤ n
      · rw [arrived_cons_of_le complete, unfinished_cons_of_le complete, List.cons_append, ih]
      · have lt := Nat.not_le.mp complete
        rw [arrived_cons_of_lt lt, unfinished_cons_of_lt lt, List.nil_append]

/-- What is left over is the beginning of the unfinished frames. -/
theorem flatten_unfinished {frames : List (List α)} {received rest : List α}
    (stream : frames.flatten = received ++ rest) :
    (unfinished frames received.length).flatten =
      received.drop (arrived frames received.length).flatten.length ++ rest := by
  have le := length_arrived_le frames received.length
  have whole := congrArg List.flatten (arrived_append_unfinished frames received.length)
  rw [List.flatten_append, stream] at whole
  have back := congrArg (List.drop (arrived frames received.length).flatten.length) whole
  rw [List.drop_left, List.drop_append_of_le_length le] at back
  exact back

end OxCtrl.Lib
