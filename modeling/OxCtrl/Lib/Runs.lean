import Mathlib.Data.List.Range
import Mathlib.Logic.Function.Basic

/-!
# Runs of positions

A list of positions is cut in front of some of them.  The runs between the cuts partition the
positions, and two positions are in one run exactly when there is no cut between them.  The values
of a run can be written to slots by key; all of them stay exactly when equal keys have equal values.
-/

namespace OxCtrl.Lib

universe u v

/-- Consecutive positions. -/
structure Span where
  first : Nat
  length : Nat
  deriving DecidableEq, Repr

namespace Span

/-- The positions of a run. -/
def positions (span : Span) : List Nat :=
  List.range' span.first span.length

theorem mem_positions {span : Span} {pos : Nat} :
    pos ∈ span.positions ↔ span.first ≤ pos ∧ pos < span.first + span.length := by
  rw [positions, List.mem_range'_1]

end Span

/-- The runs of the first `n` positions. -/
structure Runs (cuts : Nat → Prop) (n : Nat) (spans : List Span) : Prop where
  partition : spans.flatMap Span.positions = List.range n
  nonempty : ∀ span ∈ spans, 0 < span.length
  inside : ∀ span ∈ spans, ∀ pos ∈ span.positions, span.first < pos → ¬ cuts pos
  ends : ∀ span ∈ spans, span.first + span.length < n → cuts (span.first + span.length)

section Runs

variable {cuts : Nat → Prop} {n : Nat} {spans : List Span}

theorem runs_nil (cuts : Nat → Prop) : Runs cuts 0 [] where
  partition := rfl
  nonempty := by simp
  inside := by simp
  ends := by simp

/-- A run does not go beyond the positions. -/
theorem Runs.end_le (runs : Runs cuts n spans) {span : Span} (mem : span ∈ spans) :
    span.first + span.length ≤ n := by
  have some := runs.nonempty span mem
  have top : span.first + span.length - 1 ∈ spans.flatMap Span.positions :=
    List.mem_flatMap.mpr ⟨span, mem, Span.mem_positions.mpr (by omega)⟩
  rw [runs.partition, List.mem_range] at top
  omega

/-- One more run behind a cut. -/
theorem Runs.snoc (runs : Runs cuts n spans) (cut : 0 < n → cuts n) {length : Nat}
    (some : 0 < length) (uncut : ∀ pos, n < pos → pos < n + length → ¬ cuts pos) :
    Runs cuts (n + length) (spans ++ [⟨n, length⟩]) where
  partition := by
    rw [List.flatMap_append, runs.partition, List.flatMap_singleton, Span.positions,
      List.range_eq_range', List.range_eq_range', ← List.range'_append_1, Nat.zero_add]
  nonempty := by
    intro span mem
    rcases List.mem_append.mp mem with before | last
    · exact runs.nonempty span before
    · rw [List.mem_singleton.mp last]
      exact some
  inside := by
    intro span mem pos at' behind
    rcases List.mem_append.mp mem with before | last
    · exact runs.inside span before pos at' behind
    · rw [List.mem_singleton.mp last] at at' behind
      exact uncut pos behind (Span.mem_positions.mp at').2
  ends := by
    intro span mem more
    rcases List.mem_append.mp mem with before | last
    · have size := runs.nonempty span before
      rcases Nat.eq_or_lt_of_le (runs.end_le before) with border | inner
      · rw [border]
        exact cut (by omega)
      · exact runs.ends span before inner
    · rw [List.mem_singleton.mp last] at more
      exact absurd more (Nat.lt_irrefl _)

/-- Two positions are in one run when no cut lies between them. -/
theorem Runs.together_iff (runs : Runs cuts n spans) {p q : Nat} (le : p ≤ q) (lt : q < n) :
    (∃ span ∈ spans, p ∈ span.positions ∧ q ∈ span.positions) ↔
      ∀ pos, p < pos → pos ≤ q → ¬ cuts pos := by
  constructor
  · rintro ⟨span, mem, pMem, qMem⟩ pos behind upTo
    have pAt := Span.mem_positions.mp pMem
    have qAt := Span.mem_positions.mp qMem
    exact runs.inside span mem pos (Span.mem_positions.mpr (by omega)) (by omega)
  · intro uncut
    have found : p ∈ spans.flatMap Span.positions := by
      rw [runs.partition]
      exact List.mem_range.mpr (by omega)
    obtain ⟨span, mem, pMem⟩ := List.mem_flatMap.mp found
    refine ⟨span, mem, pMem, ?_⟩
    have pAt := Span.mem_positions.mp pMem
    by_contra apart
    have early : span.first + span.length ≤ q := by
      by_contra late
      exact apart (Span.mem_positions.mpr (by omega))
    exact uncut _ pAt.2 early (runs.ends span mem (by omega))

end Runs

section Slots

variable {κ : Type u} {β : Type v} [DecidableEq κ] (key : Nat → κ) (value : Nat → β)

/-- The value of each position written to the slot of its key. -/
def writeSlots (slots : κ → β) (list : List Nat) : κ → β :=
  list.foldl (fun slots pos => Function.update slots (key pos) (value pos)) slots

/-- A slot holds the value of some position with its key, or what it held before. -/
theorem writeSlots_apply (slots : κ → β) (list : List Nat) (wanted : κ) :
    (∃ pos ∈ list, key pos = wanted ∧ writeSlots key value slots list wanted = value pos) ∨
      (∀ pos ∈ list, key pos ≠ wanted) ∧ writeSlots key value slots list wanted = slots wanted := by
  induction list using List.reverseRecOn with
  | nil => exact Or.inr ⟨by simp, rfl⟩
  | append_singleton list pos ih =>
      rw [writeSlots, List.foldl_append, List.foldl_cons, List.foldl_nil, ← writeSlots]
      by_cases here : key pos = wanted
      · subst here
        exact Or.inl ⟨pos, by simp, rfl, Function.update_self _ _ _⟩
      · rw [Function.update_of_ne (Ne.symm here)]
        rcases ih with ⟨other, mem, same, holds⟩ | ⟨none, holds⟩
        · exact Or.inl ⟨other, List.mem_append_left _ mem, same, holds⟩
        · refine Or.inr ⟨fun other mem => ?_, holds⟩
          rcases List.mem_append.mp mem with before | last
          · exact none other before
          · rw [List.mem_singleton.mp last]
            exact here

/-- All values stay in their slots when positions with one key have one value. -/
theorem writeSlots_kept_iff (slots : κ → β) (list : List Nat) :
    (∀ pos ∈ list, writeSlots key value slots list (key pos) = value pos) ↔
      ∀ p ∈ list, ∀ q ∈ list, key p = key q → value p = value q := by
  constructor
  · intro kept p pMem q qMem same
    rw [← kept p pMem, same, kept q qMem]
  · intro equal pos mem
    rcases writeSlots_apply key value slots list (key pos) with
      ⟨other, otherMem, same, holds⟩ | ⟨none, _⟩
    · rw [holds]
      exact equal other otherMem pos mem same
    · exact absurd rfl (none pos mem)

end Slots

end OxCtrl.Lib
