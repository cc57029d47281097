import Mathlib.Data.List.Basic

/-!
# Lists with a counter

A doubly linked list whose length is counted beside it.  A removal takes no look at the list: the
counter goes down also when the element is not there.
-/

namespace OxCtrl.Lib

universe u

/-- A list and its counter. -/
structure Tailq (α : Type u) where
  entries : List α
  count : Int
  deriving DecidableEq, Repr

namespace Tailq

variable {α : Type u}

/-- Append an element. -/
def insertTail (list : Tailq α) (x : α) : Tailq α where
  entries := list.entries ++ [x]
  count := list.count + 1

/-- Remove the first element. -/
def removeHead (list : Tailq α) : Tailq α where
  entries := list.entries.tail
  count := list.count - 1

/-- Remove an element. -/
def remove [DecidableEq α] (list : Tailq α) (x : α) : Tailq α where
  entries := list.entries.erase x
  count := list.count - 1

/-- The counter is the length. -/
def Counted (list : Tailq α) : Prop :=
  list.count = list.entries.length

theorem Counted.insertTail {list : Tailq α} (counted : list.Counted) (x : α) :
    (list.insertTail x).Counted := by
  rw [Counted, Tailq.insertTail, counted, List.length_append]
  rfl

theorem Counted.removeHead {list : Tailq α} (counted : list.Counted) {x : α} {rest : List α}
    (first : list.entries = x :: rest) : list.removeHead.Counted := by
  rw [Counted, first] at counted
  simp only [Counted, Tailq.removeHead, counted, first, List.tail_cons, List.length_cons]
  omega

theorem Counted.remove [DecidableEq α] {list : Tailq α} (counted : list.Counted) {x : α}
    (mem : x ∈ list.entries) : (list.remove x).Counted := by
  have length := List.length_erase_add_one mem
  rw [Counted] at counted
  simp only [Counted, Tailq.remove, counted]
  omega

theorem perm_insertTail (list : Tailq α) (x : α) :
    (list.insertTail x).entries.Perm (x :: list.entries) :=
  List.perm_append_singleton x list.entries

theorem perm_removeHead {list : Tailq α} {x : α} {rest : List α}
    (first : list.entries = x :: rest) : list.entries.Perm (x :: list.removeHead.entries) := by
  rw [removeHead, first]
  exact List.Perm.refl _

theorem perm_remove [DecidableEq α] {list : Tailq α} {x : α} (mem : x ∈ list.entries) :
    list.entries.Perm (x :: (list.remove x).entries) :=
  List.perm_cons_erase mem

end Tailq

end OxCtrl.Lib
