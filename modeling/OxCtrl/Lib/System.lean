import Mathlib.Logic.Relation
import Mathlib.Data.List.Basic

/-!
# Runs of an operation-driven system

A system receives operations one after another.  Each operation moves the state
and returns an observable result.  This module fixes the run and the list of
results of an operation sequence, the induction rule for invariants, and the
simulation rule between two systems that receive the same operations.
-/

namespace OxCtrl.Lib

universe u v w x

/-- A deterministic system: state `σ`, operations `ι`, results `ω`. -/
structure System (σ : Type u) (ι : Type v) (ω : Type w) where
  step : σ → ι → σ × ω

namespace System

variable {σ : Type u} {τ : Type x} {ι : Type v} {ω : Type w}

/-- State reached after an operation sequence. -/
def run (system : System σ ι ω) (state : σ) : List ι → σ
  | [] => state
  | op :: ops => run system (system.step state op).1 ops

/-- Results returned along an operation sequence, oldest first. -/
def results (system : System σ ι ω) (state : σ) : List ι → List ω
  | [] => []
  | op :: ops => (system.step state op).2 :: results system (system.step state op).1 ops

@[simp]
theorem run_nil (system : System σ ι ω) (state : σ) : system.run state [] = state :=
  rfl

@[simp]
theorem run_cons (system : System σ ι ω) (state : σ) (op : ι) (ops : List ι) :
    system.run state (op :: ops) = system.run (system.step state op).1 ops :=
  rfl

@[simp]
theorem results_nil (system : System σ ι ω) (state : σ) : system.results state [] = [] :=
  rfl

@[simp]
theorem results_cons (system : System σ ι ω) (state : σ) (op : ι) (ops : List ι) :
    system.results state (op :: ops) =
      (system.step state op).2 :: system.results (system.step state op).1 ops :=
  rfl

theorem run_append (system : System σ ι ω) (state : σ) (first second : List ι) :
    system.run state (first ++ second) = system.run (system.run state first) second := by
  induction first generalizing state with
  | nil => rfl
  | cons op ops ih => exact ih _

/-- A split of a longer sequence is at its last operation, or inside the rest. -/
theorem split_append_singleton {ops before later : List ι} {op other : ι}
    (split : ops ++ [op] = before ++ other :: later) :
    ops = before ∧ op = other ∨ ∃ rest, ops = before ++ other :: rest := by
  rcases List.eq_nil_or_concat later with rfl | ⟨rest, last, rfl⟩
  · obtain ⟨same, eq⟩ := List.append_inj' split rfl
    exact Or.inl ⟨same, List.singleton_inj.mp eq⟩
  · rw [List.concat_eq_append, ← List.cons_append, ← List.append_assoc] at split
    exact Or.inr ⟨rest, (List.append_inj' split rfl).1⟩

/-- Every operation of a sequence is admissible in the state that receives it. -/
def Allowed (system : System σ ι ω) (admissible : σ → ι → Prop) : σ → List ι → Prop
  | _, [] => True
  | state, op :: ops =>
      admissible state op ∧ Allowed system admissible (system.step state op).1 ops

instance instDecidableAllowed (system : System σ ι ω) (admissible : σ → ι → Prop)
    [∀ state op, Decidable (admissible state op)] :
    ∀ state ops, Decidable (system.Allowed admissible state ops)
  | _, [] => inferInstanceAs (Decidable True)
  | state, op :: ops =>
      have := instDecidableAllowed system admissible (system.step state op).1 ops
      inferInstanceAs (Decidable (_ ∧ _))

theorem allowed_append (system : System σ ι ω) (admissible : σ → ι → Prop) (state : σ)
    (first second : List ι) :
    system.Allowed admissible state (first ++ second) ↔
      system.Allowed admissible state first ∧
        system.Allowed admissible (system.run state first) second := by
  induction first generalizing state with
  | nil => simp [Allowed]
  | cons op ops ih =>
      rw [List.cons_append, Allowed, Allowed, ih, and_assoc, run_cons]

theorem allowed_of_forall_mem (system : System σ ι ω) {admissible : ι → Prop} {ops : List ι}
    (every : ∀ op ∈ ops, admissible op) (state : σ) :
    system.Allowed (fun _ => admissible) state ops := by
  induction ops generalizing state with
  | nil => trivial
  | cons op ops ih =>
      refine ⟨every op List.mem_cons_self, ih (fun later mem => ?_) _⟩
      exact every later (List.mem_cons_of_mem op mem)

theorem Allowed.and {system : System σ ι ω} {first second : σ → ι → Prop} {state : σ}
    {ops : List ι} (allowedFirst : system.Allowed first state ops)
    (allowedSecond : system.Allowed second state ops) :
    system.Allowed (fun state op => first state op ∧ second state op) state ops := by
  induction ops generalizing state with
  | nil => trivial
  | cons op ops ih =>
      exact ⟨⟨allowedFirst.1, allowedSecond.1⟩, ih allowedFirst.2 allowedSecond.2⟩

/-- The first operation of a sequence that is not admissible. -/
theorem exists_of_not_allowed (system : System σ ι ω) {admissible : σ → ι → Prop} {state : σ}
    {ops : List ι} (refused : ¬ system.Allowed admissible state ops) :
    ∃ before op after, ops = before ++ op :: after ∧
      ¬ admissible (system.run state before) op := by
  induction ops generalizing state with
  | nil => exact absurd trivial refused
  | cons op ops ih =>
      by_cases first : admissible state op
      · obtain ⟨before, later, after, rfl, bad⟩ := ih fun rest => refused ⟨first, rest⟩
        exact ⟨op :: before, later, after, rfl, bad⟩
      · exact ⟨[], op, ops, rfl, first⟩

/-- An invariant that every admissible operation preserves holds after every
run of admissible operations. -/
theorem run_invariant (system : System σ ι ω) (admissible : σ → ι → Prop) (Inv : σ → Prop)
    (preserved : ∀ state op, admissible state op → Inv state → Inv (system.step state op).1)
    {state : σ} (initial : Inv state) {ops : List ι}
    (allowed : system.Allowed admissible state ops) : Inv (system.run state ops) := by
  induction ops generalizing state with
  | nil => exact initial
  | cons op ops ih => exact ih (preserved state op allowed.1 initial) allowed.2

/-- An invariant of the state and of the results so far that every admissible operation preserves
holds after every run of admissible operations. -/
theorem run_results_invariant (system : System σ ι ω) (admissible : σ → ι → Prop)
    (Inv : σ → List ω → Prop)
    (preserved : ∀ state seen op, admissible state op → Inv state seen →
      Inv (system.step state op).1 (seen ++ [(system.step state op).2]))
    {state : σ} {seen : List ω} (initial : Inv state seen) {ops : List ι}
    (allowed : system.Allowed admissible state ops) :
    Inv (system.run state ops) (seen ++ system.results state ops) := by
  induction ops generalizing state seen with
  | nil =>
      rw [results_nil, List.append_nil]
      exact initial
  | cons op ops ih =>
      rw [results_cons, List.append_cons]
      exact ih (preserved state seen op allowed.1 initial) allowed.2

/-- A property that an inadmissible operation breaks at once, and that the invariant of the
admissible ones implies, holds in every state of a run exactly when all operations of the run are
admissible. -/
theorem forall_prefix_iff_allowed (system : System σ ι ω) (admissible : σ → ι → Prop)
    (Inv P : σ → Prop)
    (preserved : ∀ state op, admissible state op → Inv state → Inv (system.step state op).1)
    (holds : ∀ state, Inv state → P state)
    (broken : ∀ state op, ¬ admissible state op → Inv state → ¬ P (system.step state op).1)
    {state : σ} (initial : Inv state) (ops : List ι) :
    (∀ before, before <+: ops → P (system.run state before)) ↔
      system.Allowed admissible state ops := by
  induction ops generalizing state with
  | nil =>
      refine ⟨fun _ => trivial, fun _ before none => ?_⟩
      rw [List.prefix_nil.mp none]
      exact holds state initial
  | cons op ops ih =>
      constructor
      · intro always
        by_cases fine : admissible state op
        · refine ⟨fine, (ih (preserved state op fine initial)).mp fun before some => ?_⟩
          exact always (op :: before) (List.cons_prefix_cons.mpr ⟨rfl, some⟩)
        · have first := always [op] (List.cons_prefix_cons.mpr ⟨rfl, List.nil_prefix⟩)
          exact absurd first (broken state op fine initial)
      · rintro ⟨fine, allowed⟩ before some
        cases before with
        | nil => exact holds state initial
        | cons first before =>
            obtain ⟨rfl, rest⟩ := List.cons_prefix_cons.mp some
            exact (ih (preserved state first fine initial)).mpr allowed before rest

/-- Two systems are in lockstep under `R` when every admissible operation keeps
the relation and returns the same result. -/
structure Simulates (concrete : System σ ι ω) (abstract : System τ ι ω)
    (admissible : σ → ι → Prop) (R : σ → τ → Prop) : Prop where
  state : ∀ s t op, admissible s op → R s t →
    R (concrete.step s op).1 (abstract.step t op).1
  result : ∀ s t op, admissible s op → R s t →
    (concrete.step s op).2 = (abstract.step t op).2

namespace Simulates

variable {concrete : System σ ι ω} {abstract : System τ ι ω}
  {admissible : σ → ι → Prop} {R : σ → τ → Prop}

theorem run (simulates : Simulates concrete abstract admissible R) {s : σ} {t : τ}
    (related : R s t) {ops : List ι} (allowed : concrete.Allowed admissible s ops) :
    R (concrete.run s ops) (abstract.run t ops) := by
  induction ops generalizing s t with
  | nil => exact related
  | cons op ops ih => exact ih (simulates.state s t op allowed.1 related) allowed.2

theorem results (simulates : Simulates concrete abstract admissible R) {s : σ} {t : τ}
    (related : R s t) {ops : List ι} (allowed : concrete.Allowed admissible s ops) :
    concrete.results s ops = abstract.results t ops := by
  induction ops generalizing s t with
  | nil => rfl
  | cons op ops ih =>
      rw [results_cons, results_cons, simulates.result s t op allowed.1 related]
      congr 1
      exact ih (simulates.state s t op allowed.1 related) allowed.2

end Simulates

end System

end OxCtrl.Lib
