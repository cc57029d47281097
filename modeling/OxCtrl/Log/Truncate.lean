import OxCtrl.Log.Fifo

/-!
# Truncation of the log

A checkpoint takes the tail of the log as its new head and truncates the log:
`appftl_log_truncate` looks for the head in the list of flushed pages, which has the last page
first, and invalidates the pages behind it.  The insertion of a flushed page in this list is
commented out in `appftl_log_flush_buffer`.
-/

namespace OxCtrl.Log

open Lib

/-! ## Model -/

/-- The log, `flushed_pgs`, the pages that are marked in the block metadata, and the head that a
checkpoint in progress has taken. -/
structure TruncState where
  log : LogCtrl
  flushedPgs : List Nat := []
  invalid : Nat → Bool := fun _ => false
  cpHead : Option Nat := none

/-- The loop of `appftl_log_truncate`: what is left of the list, and the pages that are removed.
Once the head is found, the pages behind it are removed one after another. -/
def truncateLoop (phyLogHead : Nat) : List Nat → List Nat × List Nat
  | [] => ([], [])
  | head :: rest =>
      if head = phyLogHead then ([head], rest)
      else
        let (kept, removed) := truncateLoop phyLogHead rest
        (head :: kept, removed)

/-- `appftl_log_truncate`. -/
def appftlLogTruncate (state : TruncState) : TruncState :=
  let (kept, removed) := truncateLoop state.log.phyLogHead state.flushedPgs
  { state with
    flushedPgs := kept
    invalid := removed.foldl (fun invalid addr => Function.update invalid addr true) state.invalid }

/-- Operations on the log and steps of a checkpoint; the flush of the other tables lies between
`cpBegin` and `setHead`, and the flush of the checkpoint between `setHead` and `truncate`. -/
inductive TruncOp where
  | log (op : LogOp)
  /-- `log_head.ppa = get_log_tail ()`. -/
  | cpBegin
  /-- `set_log_head (log_head.ppa)`. -/
  | setHead
  | truncate
  deriving DecidableEq, Repr

def truncStep (env : Env) (state : TruncState) : TruncOp → TruncState
  -- a flush leaves the list of flushed pages as it is
  | .log op => { state with log := ((logSystem env).step state.log op).1 }
  | .cpBegin => { state with cpHead := some state.log.phyLogTail }
  | .setHead =>
      match state.cpHead with
      | some head => { state with log := { state.log with phyLogHead := head }, cpHead := none }
      | none => state
  | .truncate => appftlLogTruncate state

/-- Runs of log operations and checkpoints. -/
def truncSystem (env : Env) : System TruncState TruncOp Unit where
  step state op := (truncStep env state op, ())

/-! ## Pages before the head -/

/-- The pages written before the head are marked, and no page from the head on is. -/
def Truncated (state : TruncState) : Prop :=
  ∀ older page newer, state.log.flash = older ++ page :: newer →
    page.addr = state.log.phyLogHead →
      (∀ old ∈ older, state.invalid old.addr = true) ∧
        ∀ kept ∈ page :: newer, state.invalid kept.addr = false

/-- No page was written before the head. -/
def NothingBefore (state : TruncState) : Prop :=
  ∀ older page newer, state.log.flash = older ++ page :: newer →
    page.addr = state.log.phyLogHead → older = []

variable {env : Env} {state : TruncState}

/-- On a list with the pages that were flushed, the last one first, the loop removes those before
the head. -/
theorem truncateLoop_spec {head : Nat} {newer : List Nat} (absent : head ∉ newer)
    (older : List Nat) :
    truncateLoop head (newer ++ head :: older) = (newer ++ [head], older) := by
  induction newer with
  | nil => simp [truncateLoop]
  | cons first newer ih =>
      rw [List.mem_cons, not_or] at absent
      rw [List.cons_append, truncateLoop, if_neg (Ne.symm absent.1), ih absent.2]
      rfl

/-- No page was put to the list, and none is marked. -/
structure Untruncated (state : TruncState) : Prop where
  list : state.flushedPgs = []
  invalid : ∀ addr, state.invalid addr = false

theorem truncate_eq (untruncated : Untruncated state) : appftlLogTruncate state = state := by
  obtain ⟨log, list, invalid, cpHead⟩ := state
  obtain rfl : list = [] := untruncated.list
  rfl

theorem truncStep_untruncated (untruncated : Untruncated state) (op : TruncOp) :
    Untruncated (truncStep env state op) := by
  cases op with
  | log op => exact ⟨untruncated.list, untruncated.invalid⟩
  | cpBegin => exact ⟨untruncated.list, untruncated.invalid⟩
  | setHead =>
      rw [truncStep]
      split
      · exact ⟨untruncated.list, untruncated.invalid⟩
      · exact untruncated
  | truncate => rwa [truncStep, truncate_eq untruncated]

theorem run_untruncated (untruncated : Untruncated state) (ops : List TruncOp) :
    Untruncated ((truncSystem env).run state ops) := by
  induction ops generalizing state with
  | nil => exact untruncated
  | cons op ops ih => exact ih (truncStep_untruncated untruncated op)

theorem truncated_iff_nothingBefore (untruncated : Untruncated state) :
    Truncated (appftlLogTruncate state) ↔ NothingBefore state := by
  rw [truncate_eq untruncated]
  constructor
  · intro truncated older page newer flash isHead
    obtain ⟨marked, -⟩ := truncated older page newer flash isHead
    cases older with
    | nil => rfl
    | cons old older =>
        have mark := marked old List.mem_cons_self
        rw [untruncated.invalid] at mark
        exact absurd mark Bool.false_ne_true
  · intro nothing older page newer flash isHead
    obtain rfl := nothing older page newer flash isHead
    exact ⟨fun old mem => absurd mem List.not_mem_nil, fun kept _ => untruncated.invalid _⟩

/-- After any run of log operations and checkpoints, a truncation marks the pages before the head
exactly when there is none. -/
theorem log_truncated_iff (env : Env) (nextPpa : Nat × Nat × Nat) (ops : List TruncOp) :
    Truncated ((truncSystem env).run { log := appftlLogInit nextPpa } (ops ++ [.truncate])) ↔
      NothingBefore ((truncSystem env).run { log := appftlLogInit nextPpa } ops) := by
  have untruncated := @run_untruncated env { log := appftlLogInit nextPpa }
    ⟨rfl, fun _ => rfl⟩ ops
  rw [System.run_append]
  exact truncated_iff_nothingBefore untruncated

/-- Two pages are flushed before a checkpoint: the head is the second one, and the first one is not
marked. -/
theorem truncate_marks_nothing :
    ¬ Truncated ((truncSystem .small).run { log := appftlLogInit (1, 2, 3) }
      [.log (.append [⟨5, .write, 1, 2, 3, 4, 0, 0⟩, ⟨6, .commit, 0, 0, 0, 0, 0, 0⟩]),
        .log .flushAll, .cpBegin, .setHead, .truncate]) := by
  intro truncated
  have flash : ((truncSystem .small).run { log := appftlLogInit (1, 2, 3) }
      [.log (.append [⟨5, .write, 1, 2, 3, 4, 0, 0⟩, ⟨6, .commit, 0, 0, 0, 0, 0, 0⟩]),
        .log .flushAll, .cpBegin, .setHead, .truncate]).log.flash.map LogPage.addr = [1, 2] := by
    decide +kernel
  have head : ((truncSystem .small).run { log := appftlLogInit (1, 2, 3) }
      [.log (.append [⟨5, .write, 1, 2, 3, 4, 0, 0⟩, ⟨6, .commit, 0, 0, 0, 0, 0, 0⟩]),
        .log .flushAll, .cpBegin, .setHead, .truncate]).log.phyLogHead = 2 := by
    decide +kernel
  obtain ⟨first, rest, eq, firstAddr, more⟩ := List.map_eq_cons_iff.mp flash
  obtain ⟨second, rest, rfl, secondAddr, -⟩ := List.map_eq_cons_iff.mp more
  obtain ⟨marked, -⟩ := truncated [first] second rest eq (secondAddr.trans head.symm)
  have mark := marked first List.mem_cons_self
  rw [firstAddr] at mark
  revert mark
  decide +kernel

end OxCtrl.Log
