import OxCtrl.Log.Fifo

/-!
# Completion of flush requests

The timestamps of a transaction are taken when it is created, its records are appended
later, and `appftl_log_sq` decides by timestamps whether the commit record of a request
is on flash.  An operation here is one call, and an append is one record.  A request
keeps the list of the records that were appended before its commit record.
-/

namespace OxCtrl.Log

open Lib

variable {env : Env} {log log' : LogCtrl} {first : Nat}

/-! ## The system -/

/-- `struct app_transaction_t`, as far as timestamps go: those of its entries. -/
structure Transaction where
  entryTs : List Nat
  deriving DecidableEq, Repr

/-- `tr->ts`, which is also the transaction id: the timestamp of the last entry. -/
def Transaction.ts (tr : Transaction) : Nat :=
  tr.entryTs.getLastD 0

/-- A request in the queue of the log thread. -/
structure Request where
  /-- `cb->ts`. -/
  ts : Nat
  /-- The records appended before the commit record. -/
  before : List LogEntry
  deriving DecidableEq, Repr

/-- The records that the request is to make durable. -/
def Request.records (request : Request) : List LogEntry :=
  request.before ++ [LogEntry.ofCommit request.ts]

/-- The log with the transactions and the queued requests. -/
structure AckState where
  log : LogCtrl
  trs : List Transaction := []
  appended : List LogEntry := []
  queue : List Request := []

/-- Operations of the writers and of the log thread. -/
inductive AckOp where
  /-- `app_transaction_new` with `count + 1` LBAs. -/
  | new (count : Nat)
  /-- A write record for entry `i` of a transaction. -/
  | alloc (tr i lba : Nat) (ppa : Ppa)
  /-- A record of another kind. -/
  | append (entry : LogEntry)
  /-- The commit record of a transaction, and the request to flush it. -/
  | commit (tr : Nat)
  /-- A synchronous flush. -/
  | flush (size : Fin (2 ^ 16))
  /-- `appftl_log_sq` on the oldest request. -/
  | process

/-- `app_transaction_new`. -/
def appTransactionNew (env : Env) (state : AckState) (count : Nat) : AckState :=
  let ticks := state.log.ticks
  { state with
    trs := state.trs ++
      [⟨(List.range (count + 1)).map fun i => env.clock (ticks + 1 + i)⟩]
    log := { state.log with ticks := ticks + count + 2 } }

/-- Append a record to the log; the flag tells whether the append succeeded. -/
def appendRecord (env : Env) (state : AckState) (entry : LogEntry) : AckState × Bool :=
  match appftlLogAppend env state.log [entry] with
  | (log, some 0) => ({ state with log := log, appended := state.appended ++ [entry] }, true)
  | (log, _) => ({ state with log := log }, false)

/-- The records of the request are on flash. -/
def Durable (state : AckState) (request : Request) : Prop :=
  request.records <+: flashRecords state.log

instance (state : AckState) (request : Request) : Decidable (Durable state request) :=
  inferInstanceAs (Decidable (_ <+: _))

/-! ## The condition -/

/-- If a flush leaves the commit record of a request in the ring, then it does not end
with a page without records, and the last record it takes is older than the request. -/
def CutOk (conf : PageConf) (log : LogCtrl) (size : Nat) (request : Request) : Prop :=
  (flashRecords log).length + flushCapacity conf size ≤ request.before.length →
    size % conf.logsPerPg ≠ 1 ∧
      ∀ entry ∈ (ringRecords log)[flushCapacity conf size - 1]?, entry.ts < request.ts

instance (conf : PageConf) (log : LogCtrl) (size : Nat) (request : Request) :
    Decidable (CutOk conf log size request) :=
  inferInstanceAs (Decidable (_ → _))

/-- An append flushes a full ring. -/
def Full (log : LogCtrl) : Prop :=
  loopNext log.appendPtr = log.flushPtr

instance (log : LogCtrl) : Decidable (Full log) :=
  inferInstanceAs (Decidable (_ = _))

/-- A commit record is appended while the last flushed record is older than its
transaction. -/
def CommitOk (conf : PageConf) (state : AckState) (ts : Nat) : Prop :=
  if Full state.log then
    ∀ request ∈ state.queue ++ [⟨ts, state.appended⟩],
      CutOk conf state.log appLogTruncSz request
  else state.log.curTs < ts

instance (conf : PageConf) (state : AckState) (ts : Nat) : Decidable (CommitOk conf state ts) :=
  inferInstanceAs (Decidable (if Full state.log then _ else state.log.curTs < ts))

/-- The commit record of the oldest request is among the records that a flush of the
whole buffer takes. -/
def ProcessOk (conf : PageConf) (log : LogCtrl) : List Request → Prop
  | [] => True
  | request :: rest => log.curTs < request.ts →
      request.before.length <
          (flashRecords log).length + flushCapacity conf (appLogBufSz - 1) ∧
        ∀ later ∈ rest, CutOk conf log (appLogBufSz - 1) later

instance (conf : PageConf) (log : LogCtrl) (queue : List Request) :
    Decidable (ProcessOk conf log queue) :=
  match queue with
  | [] => inferInstanceAs (Decidable True)
  | request :: _ => inferInstanceAs (Decidable (log.curTs < request.ts → _))

/-- When the operation does what `appftl_log_sq` relies on. -/
def AckOp.Admissible (conf : PageConf) (state : AckState) : AckOp → Prop
  | .new _ => True
  | .alloc _ _ _ _ =>
      Full state.log → ∀ request ∈ state.queue, CutOk conf state.log appLogTruncSz request
  | .append entry => entry.IsRecord ∧
      (Full state.log → ∀ request ∈ state.queue, CutOk conf state.log appLogTruncSz request)
  | .commit tr => ∀ transaction ∈ state.trs[tr]?, CommitOk conf state transaction.ts
  | .flush size => ∀ request ∈ state.queue, CutOk conf state.log (flushSize size) request
  | .process => ProcessOk conf state.log state.queue

instance (conf : PageConf) (state : AckState) (op : AckOp) :
    Decidable (op.Admissible conf state) :=
  match op with
  | .new _ => inferInstanceAs (Decidable True)
  | .alloc _ _ _ _ => inferInstanceAs (Decidable (Full state.log → _))
  | .append entry => inferInstanceAs (Decidable (entry.IsRecord ∧ _))
  | .commit tr =>
      inferInstanceAs (Decidable (∀ transaction ∈ state.trs[tr]?,
        CommitOk conf state transaction.ts))
  | .flush size =>
      inferInstanceAs (Decidable (∀ request ∈ state.queue,
        CutOk conf state.log (flushSize size) request))
  | .process => inferInstanceAs (Decidable (ProcessOk conf state.log state.queue))

/-! ## The invariant -/

/-- The commit record of a request is on flash, or the check of `appftl_log_sq` fails. -/
def Waits (log : LogCtrl) (request : Request) : Prop :=
  request.records <+: flashRecords log ∨ log.curTs < request.ts

/-- A flush that leaves the commit record of a request in the ring. -/
theorem Took.waits_left {size : Nat} {request : Request} (took : Took env log log' size)
    (pos : size ≠ 0)
    (left : (flashRecords log).length + flushCapacity env.conf size ≤ request.before.length)
    (more : flushCapacity env.conf size < (ringRecords log).length)
    (cut : CutOk env.conf log size request) : Waits log' request := by
  obtain ⟨notOne, older⟩ := cut left
  obtain ⟨entry, isLast⟩ : ∃ entry,
      (ringRecords log)[flushCapacity env.conf size - 1]? = some entry :=
    ⟨_, List.getElem?_eq_getElem (by omega)⟩
  right
  rw [took.curTs more pos notOne entry isLast]
  exact older entry isLast

section

variable {appended : List LogEntry} {size : Nat} {request : Request}
  (proper : ∀ entry ∈ appended, entry.IsRecord) (fifo : Fifo first appended log)
  (took : Took env log log' size)
include proper fifo took

theorem length_flashRecords : (flashRecords log').length =
    min appended.length ((flashRecords log).length + flushCapacity env.conf size) := by
  have before := congrArg List.length fifo.records
  have after := congrArg List.length (took.flushes.fifo proper fifo).records
  have amount := took.amount
  rw [List.length_append] at before after
  omega

/-- A flush keeps a request waiting, or makes it durable. -/
theorem Took.waits (pos : size ≠ 0) (known : request.records <+: appended)
    (cut : CutOk env.conf log size request) (waits : Waits log request) :
    Waits log' request := by
  have length := length_flashRecords proper fifo took
  have total := congrArg List.length fifo.records
  have knownLength := known.length_le
  have flashed : flashRecords log' <+: appended :=
    ⟨_, (took.flushes.fifo proper fifo).records⟩
  rw [List.length_append] at total
  rw [Request.records, List.length_append, List.length_singleton] at knownLength
  by_cases left : (flashRecords log).length + flushCapacity env.conf size ≤ request.before.length
  · rcases waits with onFlash | _
    · have le := onFlash.length_le
      rw [Request.records, List.length_append, List.length_singleton] at le
      omega
    · exact took.waits_left pos left (by omega) cut
  · refine Or.inl (List.prefix_of_prefix_length_le known flashed ?_)
    rw [Request.records, List.length_append, List.length_singleton]
    omega

end

/-- Invariant of the log with its writers. -/
structure AckInv (first : Nat) (state : AckState) : Prop where
  fifo : Fifo first state.appended state.log
  proper : ∀ entry ∈ state.appended, entry.IsRecord
  known : ∀ request ∈ state.queue, request.records <+: state.appended
  waits : ∀ request ∈ state.queue, Waits state.log request

theorem appftlLogAppend_one (succeeds : env.Succeeds) (ptrs : PtrsOk log)
    (running : log.running = true) (entry : LogEntry) :
    ∃ flushed, appftlLogAppend env log [entry] = (appendEntry flushed entry, some 0) ∧
      loopNext flushed.appendPtr ≠ flushed.flushPtr ∧
      (¬ Full log ∧ flushed = log ∨ Full log ∧ Took env log flushed appLogTruncSz) := by
  by_cases full : Full log
  · obtain ⟨flushed, eq, took, room⟩ := appftlLogFlushBuffer_room succeeds ptrs running full
    refine ⟨flushed, ?_, room, Or.inr ⟨full, took⟩⟩
    rw [Full] at full
    simp [appftlLogAppend, running, appendLoop, full, eq, room]
  · refine ⟨log, ?_, full, Or.inl ⟨full, rfl⟩⟩
    rw [Full] at full
    simp [appftlLogAppend, running, appendLoop, full]

/-- The log before a record is stored in it. -/
theorem AckInv.flushed {state : AckState} {flushed : LogCtrl} (inv : AckInv first state)
    (cases : ¬ Full state.log ∧ flushed = state.log ∨
      Full state.log ∧ Took env state.log flushed appLogTruncSz)
    (cut : Full state.log → ∀ request ∈ state.queue,
      CutOk env.conf state.log appLogTruncSz request) :
    Fifo first state.appended flushed ∧ ∀ request ∈ state.queue, Waits flushed request := by
  rcases cases with ⟨-, rfl⟩ | ⟨full, took⟩
  · exact ⟨inv.fifo, inv.waits⟩
  · refine ⟨took.flushes.fifo inv.proper inv.fifo, fun request mem => ?_⟩
    exact took.waits inv.proper inv.fifo (by decide) (inv.known request mem)
      (cut full request mem) (inv.waits request mem)

theorem appendRecord_inv {state : AckState} (succeeds : env.Succeeds) (inv : AckInv first state)
    {entry : LogEntry} (record : entry.IsRecord)
    (cut : Full state.log → ∀ request ∈ state.queue,
      CutOk env.conf state.log appLogTruncSz request) :
    (appendRecord env state entry).2 = true ∧
      AckInv first (appendRecord env state entry).1 ∧
      (appendRecord env state entry).1.queue = state.queue ∧
      (appendRecord env state entry).1.appended = state.appended ++ [entry] := by
  obtain ⟨flushed, eq, room, cases⟩ :=
    appftlLogAppend_one succeeds inv.fifo.ptrs inv.fifo.running entry
  obtain ⟨fifo, waits⟩ := inv.flushed cases cut
  simp only [appendRecord, eq]
  refine ⟨trivial, ⟨appendEntry_fifo fifo room entry, ?_, ?_, waits⟩, trivial, trivial⟩
  · intro other mem
    rcases List.mem_append.mp mem with old | new
    · exact inv.proper other old
    · obtain rfl : other = entry := by simpa using new
      exact record
  · intro request mem
    exact (inv.known request mem).trans (List.prefix_append _ _)

/-- The request of a commit record that was just appended. -/
theorem appendRecord_waits {state : AckState} (succeeds : env.Succeeds)
    (inv : AckInv first state) {ts : Nat}
    (cut : if Full state.log then CutOk env.conf state.log appLogTruncSz ⟨ts, state.appended⟩
      else state.log.curTs < ts) :
    Waits (appendRecord env state (LogEntry.ofCommit ts)).1.log ⟨ts, state.appended⟩ := by
  obtain ⟨flushed, eq, -, cases⟩ :=
    appftlLogAppend_one succeeds inv.fifo.ptrs inv.fifo.running (LogEntry.ofCommit ts)
  have waits : Waits flushed ⟨ts, state.appended⟩ := by
    rcases cases with ⟨room, rfl⟩ | ⟨full, took⟩
    · rw [if_neg room] at cut
      exact Or.inr cut
    · rw [if_pos full] at cut
      have occupancy := Ring.occupancy_full inv.fifo.ptrs.flush inv.fifo.ptrs.append full
      have total := congrArg List.length inv.fifo.records
      have capacity : flushCapacity env.conf appLogTruncSz < appLogTruncSz :=
        flushCapacity_lt (by decide)
      have trunc : appLogTruncSz = 511 := rfl
      have buffer : appLogBufSz = 4096 := rfl
      have ring : (ringRecords state.log).length + 1 = appLogBufSz := by
        rw [ringRecords, Ring.length_contents]
        exact occupancy
      rw [List.length_append] at total
      exact took.waits_left (by decide) (by simp only; omega) (by omega) cut
  simp only [appendRecord, eq]
  exact waits

/-- A commit record and its request. -/
theorem commit_inv {state : AckState} (succeeds : env.Succeeds) (inv : AckInv first state)
    {ts : Nat}
    (cut : CommitOk env.conf state ts) :
    ∃ next, appendRecord env state (LogEntry.ofCommit ts) = (next, true) ∧
      AckInv first { next with queue := next.queue ++ [⟨ts, state.appended⟩] } := by
  rw [CommitOk] at cut
  have record : (LogEntry.ofCommit ts).IsRecord :=
    ⟨by simp [LogEntry.ofCommit], by simp [LogEntry.ofCommit]⟩
  obtain ⟨ok, next, queue, appended⟩ := appendRecord_inv succeeds inv record (by
    intro full request mem
    rw [if_pos full] at cut
    exact cut request (List.mem_append_left _ mem))
  have waits : Waits (appendRecord env state (LogEntry.ofCommit ts)).1.log
    ⟨ts, state.appended⟩ := by
    refine appendRecord_waits succeeds inv ?_
    split
    · rename_i full
      rw [if_pos full] at cut
      exact cut _ (by simp)
    · rename_i room
      rwa [if_neg room] at cut
  refine ⟨_, Prod.ext rfl ok, next.fifo, next.proper, ?_, ?_⟩ <;> intro request mem <;>
    rcases List.mem_append.mp mem with old | new
  · exact next.known request old
  · obtain rfl : request = ⟨ts, state.appended⟩ := by simpa using new
    simp only [Request.records, appended]
    exact List.prefix_rfl
  · exact next.waits request old
  · obtain rfl : request = ⟨ts, state.appended⟩ := by simpa using new
    exact waits

end OxCtrl.Log
