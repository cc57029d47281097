import Mathlib.Data.List.Induction

/-!
# Histories

A history is a list of events, oldest first.  A rule says which event may follow which history, and
a history keeps the rule when each of its events does behind the events in front of it.
-/

namespace OxCtrl.Lib

universe u

variable {α : Type u} {rule : List α → α → Prop} {history events : List α} {event : α}

/-- Every event of the history may follow the events in front of it. -/
def Keeps (rule : List α → α → Prop) (history : List α) : Prop :=
  ∀ before event later, history = before ++ event :: later → rule before event

theorem Keeps.nil : Keeps rule [] :=
  fun _ _ _ split => absurd split.symm (by simp)

theorem Keeps.snoc (keeps : Keeps rule history) (next : rule history event) :
    Keeps rule (history ++ [event]) := by
  intro before other later split
  rcases List.eq_nil_or_concat later with rfl | ⟨rest, last, rfl⟩
  · obtain ⟨rfl, eq⟩ := List.append_inj' split rfl
    rw [← List.singleton_inj.mp eq]
    exact next
  · rw [List.concat_eq_append, ← List.cons_append, ← List.append_assoc] at split
    exact keeps before other rest (List.append_inj' split rfl).1

/-- Events of which each may follow whatever is in front of it. -/
theorem Keeps.append (keeps : Keeps rule history)
    (next : ∀ before, ∀ event ∈ events, rule (history ++ before) event) :
    Keeps rule (history ++ events) := by
  induction events using List.reverseRecOn with
  | nil =>
      rw [List.append_nil]
      exact keeps
  | append_singleton events event ih =>
      rw [← List.append_assoc]
      refine (ih fun before other mem => ?_).snoc ?_
      · exact next before other (List.mem_append_left _ mem)
      · exact next events event (List.mem_append_right _ (List.mem_singleton_self _))

/-- One event at most. -/
theorem Keeps.append_toList {next : Option α} (keeps : Keeps rule history)
    (follows : ∀ event ∈ next, rule history event) : Keeps rule (history ++ next.toList) := by
  cases next with
  | none =>
      rw [Option.toList_none, List.append_nil]
      exact keeps
  | some event => exact keeps.snoc (follows event rfl)

end OxCtrl.Lib
