import Mathlib.Data.List.Perm.Basic

/-!
# Items that are not ticked off

Items get numbers in the order in which they come, and a list has the numbers that are ticked off.
-/

namespace OxCtrl.Lib

universe u

variable {α : Type u}

/-- The items whose numbers, counted from `k`, are not in the list. -/
def outstanding (gone : List Nat) : List α → Nat → List α
  | [], _ => []
  | item :: rest, k =>
      if k ∈ gone then outstanding gone rest (k + 1) else item :: outstanding gone rest (k + 1)

variable {gone other : List Nat} {items : List α} {item : α} {k n : Nat}

theorem outstanding_congr (same : ∀ n, k ≤ n → (n ∈ gone ↔ n ∈ other)) :
    outstanding gone items k = outstanding other items k := by
  induction items generalizing k with
  | nil => rfl
  | cons item rest ih =>
      rw [outstanding, outstanding, ih fun n le => same n (Nat.le_of_succ_le le)]
      simp only [same k (Nat.le_refl k)]

theorem outstanding_snoc (fresh : k + items.length ∉ gone) :
    outstanding gone (items ++ [item]) k = outstanding gone items k ++ [item] := by
  induction items generalizing k with
  | nil => exact if_neg fresh
  | cons first rest ih =>
      have next : k + 1 + rest.length ∉ gone := by
        rwa [List.length_cons, ← Nat.add_assoc, Nat.add_right_comm] at fresh
      rw [List.cons_append, outstanding, outstanding, ih next]
      split <;> rfl

/-- An item is ticked off. -/
theorem outstanding_gone (get : items[n]? = some item) (notGone : k + n ∉ gone)
    (ticked : ∀ m, m ∈ other ↔ m ∈ gone ∨ m = k + n) :
    (outstanding gone items k).Perm (item :: outstanding other items k) := by
  induction items generalizing k n with
  | nil => cases get
  | cons first rest ih =>
      cases n with
      | zero =>
          cases get
          simp only [Nat.add_zero] at notGone ticked
          have same : outstanding gone rest (k + 1) = outstanding other rest (k + 1) := by
            refine outstanding_congr fun m le => ?_
            rw [ticked]
            exact ⟨Or.inl, fun either => either.resolve_right (Nat.ne_of_gt le)⟩
          rw [outstanding, outstanding, if_neg notGone, if_pos ((ticked k).mpr (Or.inr rfl)), same]
      | succ n =>
          have shift : k + (n + 1) = k + 1 + n := by omega
          have tail := ih (k := k + 1) get (by rwa [← shift]) (by rwa [← shift])
          have same : k ∈ other ↔ k ∈ gone := by
            rw [ticked]
            exact ⟨fun either => either.resolve_right (by omega), Or.inl⟩
          rw [outstanding, outstanding]
          simp only [same]
          split
          · exact tail
          · exact (tail.cons first).trans (List.Perm.swap _ _ _)

theorem mem_outstanding :
    item ∈ outstanding gone items k ↔ ∃ n, items[n]? = some item ∧ k + n ∉ gone := by
  induction items generalizing k with
  | nil => simp [outstanding]
  | cons first rest ih =>
      rw [outstanding]
      constructor
      · intro mem
        split at mem
        · obtain ⟨n, get, notGone⟩ := ih.mp mem
          exact ⟨n + 1, get, by rwa [Nat.add_assoc, Nat.add_comm 1 n] at notGone⟩
        · rename_i head
          rcases List.mem_cons.mp mem with rfl | later
          · exact ⟨0, rfl, head⟩
          · obtain ⟨n, get, notGone⟩ := ih.mp later
            exact ⟨n + 1, get, by rwa [Nat.add_assoc, Nat.add_comm 1 n] at notGone⟩
      · rintro ⟨n, get, notGone⟩
        cases n with
        | zero =>
            cases get
            rw [Nat.add_zero] at notGone
            rw [if_neg notGone]
            exact List.mem_cons_self
        | succ n =>
            have later : item ∈ outstanding gone rest (k + 1) :=
              ih.mpr ⟨n, get, by rwa [Nat.add_assoc, Nat.add_comm 1 n]⟩
            split
            · exact later
            · exact List.mem_cons_of_mem _ later

end OxCtrl.Lib
