import Mathlib.Data.List.Basic

/-!
# Sorting by buckets

A list is distributed to one bucket for each value of a key.  The buckets from the largest key to
key one hold the elements with a positive key, in non-increasing order.
-/

namespace OxCtrl.Lib

universe u

variable {α : Type u} (key : α → Nat) (list : List α)

/-- The elements with key `n`, in the order of the list. -/
def bucketOf (n : Nat) : List α :=
  list.filter fun x => key x = n

/-- The buckets from key `n` down to key one. -/
def descending : Nat → List α
  | 0 => []
  | n + 1 => bucketOf key list (n + 1) ++ descending n

variable {key list} {n : Nat} {x : α}

theorem mem_bucketOf : x ∈ bucketOf key list n ↔ x ∈ list ∧ key x = n := by
  simp [bucketOf]

theorem mem_descending : x ∈ descending key list n ↔ x ∈ list ∧ 0 < key x ∧ key x ≤ n := by
  induction n with
  | zero =>
      simp only [descending, List.not_mem_nil, false_iff]
      omega
  | succ n ih =>
      rw [descending, List.mem_append, ih, mem_bucketOf, ← and_or_left]
      refine and_congr_right fun _ => ?_
      omega

variable (key list)

/-- The elements with a key from one to `n`, in another order. -/
theorem descending_perm (n : Nat) :
    (descending key list n).Perm (list.filter fun x => 0 < key x ∧ key x ≤ n) := by
  induction n with
  | zero =>
      refine List.Perm.of_eq (List.filter_eq_nil_iff.mpr fun x _ => ?_).symm
      simp only [decide_eq_true_eq]
      omega
  | succ n ih =>
      let upTo := list.filter fun x => 0 < key x ∧ key x ≤ n + 1
      have last : bucketOf key list (n + 1) = upTo.filter fun x => key x = n + 1 := by
        rw [List.filter_filter]
        apply List.filter_congr
        intro x _
        rw [← Bool.decide_and]
        exact decide_eq_decide.mpr (by omega)
      have earlier : (list.filter fun x => 0 < key x ∧ key x ≤ n) =
          upTo.filter fun x => !decide (key x = n + 1) := by
        rw [List.filter_filter]
        apply List.filter_congr
        intro x _
        rw [← decide_not, ← Bool.decide_and]
        exact decide_eq_decide.mpr (by omega)
      rw [descending, last]
      rw [earlier] at ih
      exact (List.Perm.append_left _ ih).trans (List.filter_append_perm _ _)

theorem descending_pairwise (n : Nat) :
    (descending key list n).Pairwise fun x y => key y ≤ key x := by
  induction n with
  | zero => exact List.Pairwise.nil
  | succ n ih =>
      refine List.pairwise_append.mpr ⟨?_, ih, fun x memX y memY => ?_⟩
      · refine List.pairwise_of_forall_mem_list fun x memX y memY => ?_
        exact Nat.le_of_eq ((mem_bucketOf.mp memY).2.trans (mem_bucketOf.mp memX).2.symm)
      · have := (mem_descending.mp memY).2.2
        rw [(mem_bucketOf.mp memX).2]
        omega

theorem descending_length_le (n : Nat) : (descending key list n).length ≤ list.length :=
  (descending_perm key list n).length_eq ▸ List.length_filter_le _ _

end OxCtrl.Lib
