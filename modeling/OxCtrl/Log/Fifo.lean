import OxCtrl.Lib.System
import OxCtrl.Log.Flush
import Mathlib.Data.List.Chain

/-!
# The log is a FIFO

The records in the log pages, followed by the records in the ring, are the records
that were appended.  A page takes the oldest records of the ring, so a flush only
moves the border between the two.
-/

namespace OxCtrl.Log

open Lib

variable {env : Env} {conf : PageConf} {log log' : LogCtrl}

/-! ## Records -/

/-- A record that is neither a pointer nor an unused slot. -/
def LogEntry.IsRecord (entry : LogEntry) : Prop :=
  entry.type ≠ .pad ∧ entry.type ≠ .pointer

instance : DecidablePred LogEntry.IsRecord :=
  fun entry => inferInstanceAs (Decidable (entry.type ≠ .pad ∧ entry.type ≠ .pointer))

/-- The records in a page. -/
def LogPage.records (page : LogPage) : List LogEntry :=
  page.slots.filter fun entry => entry.IsRecord

/-- The records in the log pages. -/
def flashRecords (log : LogCtrl) : List LogEntry :=
  log.flash.flatMap LogPage.records

theorem records_pageSlots {records : List LogEntry} (proper : ∀ entry ∈ records, entry.IsRecord)
    (ts prev : Nat) (next : Nat × Nat × Nat) (addr : Nat) :
    LogPage.records ⟨addr, pageSlots conf (pointerEntry ts prev next) records⟩ = records := by
  have notPointer : ¬ (pointerEntry ts prev next).IsRecord := fun record => record.2 rfl
  have notZero : ¬ LogEntry.zero.IsRecord := fun record => record.1 rfl
  simp only [LogPage.records, pageSlots, List.cons_append, List.filter_cons, notPointer,
    decide_false, Bool.false_eq_true, if_false, List.filter_append]
  rw [List.filter_eq_self.mpr (by simpa using proper)]
  simp [notZero]

/-! ## The invariant -/

/-- Pointer to the next page. -/
def LogPage.next (page : LogPage) : Nat :=
  (page.slots.headD LogEntry.zero).word3

/-- Pointer to the previous page. -/
def LogPage.prev (page : LogPage) : Nat :=
  (page.slots.headD LogEntry.zero).word0

/-- A page of the chain and its successor. -/
def LogPage.Follows (page next : LogPage) : Prop :=
  page.next = next.addr ∧ next.prev = page.addr

/-- Invariant of the log: the pages form a chain from `first`, and their records with
those of the ring are the appended ones. -/
structure Fifo (first : Nat) (appended : List LogEntry) (log : LogCtrl) : Prop where
  ptrs : PtrsOk log
  running : log.running = true
  records : flashRecords log ++ ringRecords log = appended
  chain : log.flash.IsChain LogPage.Follows
  last : ∀ page ∈ log.flash.getLast?, page.next = log.nextPpa.1 ∧ log.phyLogTail = page.addr
  head : log.flash = [] ∧ log.nextPpa.1 = first ∨ ∃ page ∈ log.flash.head?, page.addr = first

variable {first : Nat} {appended : List LogEntry}

/-- Writing a page keeps the invariant. -/
theorem PageFlushed.fifo {records : List LogEntry} (page : PageFlushed env log log' records)
    (proper : ∀ entry ∈ appended, entry.IsRecord) (fifo : Fifo first appended log) :
    Fifo first appended log' := by
  have recordsProper : ∀ entry ∈ records, entry.IsRecord := by
    intro entry mem
    refine proper entry ?_
    rw [← fifo.records, page.ring]
    simp [mem]
  refine ⟨page.ptrsOk fifo.ptrs, page.running.trans fifo.running, ?_, ?_, ?_, ?_⟩
  · rw [flashRecords, page.flash, List.flatMap_append, List.flatMap_singleton, nextPointer,
      records_pageSlots recordsProper, List.append_assoc, ← page.ring]
    exact fifo.records
  · rw [page.flash, List.isChain_append]
    refine ⟨fifo.chain, List.isChain_singleton _, ?_⟩
    intro previous isLast written isWritten
    obtain ⟨next, tail⟩ := fifo.last previous isLast
    obtain rfl : _ = written := by simpa using isWritten
    exact ⟨next, tail⟩
  · intro written isWritten
    rw [page.flash, List.getLast?_append_of_ne_nil _ (by simp)] at isWritten
    obtain rfl : _ = written := by simpa using isWritten
    obtain ⟨addr, next⟩ := page.nextPpa
    exact ⟨by rw [next]; rfl, page.phyLogTail⟩
  · rcases fifo.head with ⟨empty, eq⟩ | ⟨oldest, isHead, eq⟩
    · right
      rw [page.flash, empty]
      exact ⟨_, rfl, eq⟩
    · right
      refine ⟨oldest, ?_, eq⟩
      rw [page.flash, List.head?_append, Option.mem_def.mp isHead]
      rfl

theorem Flushes.fifo (flushes : Flushes env log log')
    (proper : ∀ entry ∈ appended, entry.IsRecord) (fifo : Fifo first appended log) :
    Fifo first appended log' := by
  induction flushes with
  | refl => exact fifo
  | tail _ step ih =>
      obtain ⟨records, page⟩ := step
      exact page.fifo proper ih

/-- A flush of a full ring makes room. -/
theorem appftlLogFlushBuffer_room (succeeds : env.Succeeds) (ptrs : PtrsOk log)
    (running : log.running = true) (full : loopNext log.appendPtr = log.flushPtr) :
    ∃ log', appftlLogFlushBuffer env log appLogTruncSz = (log', some 0) ∧
      Took env log log' appLogTruncSz ∧ loopNext log'.appendPtr ≠ log'.flushPtr := by
  obtain ⟨log', eq, took⟩ :=
    @appftlLogFlushBuffer_took env log succeeds appLogTruncSz (by decide) ptrs running
  have nonempty := occupied ptrs (Ring.ne_of_next_eq ptrs.flush (by decide) full)
  have after := took.flushes.ptrsOk ptrs
  have amount := took.amount
  have pos : 0 < flushCapacity env.conf appLogTruncSz := flushCapacity_pos (by decide)
  have bound := length_ringRecords_lt log
  have less : Ring.occupancy appLogBufSz log'.flushPtr log'.appendPtr + 1 < appLogBufSz := by
    rw [← Ring.length_contents appLogBufSz log'.entries]
    change (ringRecords log').length + 1 < appLogBufSz
    rw [amount, flushSize]
    simp only [show appLogTruncSz ≠ 0 by decide, if_false]
    omega
  exact ⟨log', eq, took, Ring.next_ne_of_occupancy_lt after.flush after.append less⟩

theorem appendEntry_fifo (fifo : Fifo first appended log)
    (room : loopNext log.appendPtr ≠ log.flushPtr) (entry : LogEntry) :
    Fifo first (appended ++ [entry]) (appendEntry log entry) := by
  refine ⟨⟨loopNext_lt _, fifo.ptrs.flush⟩, fifo.running, ?_, fifo.chain, fifo.last, fifo.head⟩
  rw [← fifo.records, List.append_assoc]
  exact congrArg _ (Ring.contents_push log.entries fifo.ptrs.flush fifo.ptrs.append room entry)

/-- The loop of `appftl_log_append` appends the records. -/
theorem appendLoop_fifo (succeeds : env.Succeeds) {rounds : Nat} {list : List LogEntry}
    (proper : ∀ entry ∈ appended ++ list, entry.IsRecord) (fifo : Fifo first appended log)
    (enough : 2 * list.length + 1 ≤ rounds) :
    ∃ log', appendLoop env rounds list log = (log', some 0) ∧
      Fifo first (appended ++ list) log' := by
  induction list generalizing rounds appended log with
  | nil =>
      obtain ⟨rounds, rfl⟩ : ∃ n, rounds = n + 1 := ⟨rounds - 1, by omega⟩
      exact ⟨log, rfl, by simpa using fifo⟩
  | cons entry list ih =>
      simp only [List.length_cons] at enough
      obtain ⟨rounds, rfl⟩ : ∃ n, rounds = n + 2 := ⟨rounds - 2, by omega⟩
      have appendedProper : ∀ record ∈ appended, record.IsRecord :=
        fun record mem => proper record (by simp [mem])
      have listProper : ∀ record ∈ (appended ++ [entry]) ++ list, record.IsRecord :=
        fun record mem => proper record (by simpa using mem)
      by_cases full : loopNext log.appendPtr = log.flushPtr
      · obtain ⟨flushed, eq, took, room⟩ :=
          appftlLogFlushBuffer_room succeeds fifo.ptrs fifo.running full
        have next := appendEntry_fifo (took.flushes.fifo appendedProper fifo) room entry
        obtain ⟨log', rest, final⟩ := @ih _ _ rounds listProper next (by omega)
        exact ⟨log', by simp only [appendLoop, full, if_true, eq, if_neg room, rest],
          by simpa using final⟩
      · have next := appendEntry_fifo fifo full entry
        obtain ⟨log', rest, final⟩ := @ih _ _ (rounds + 1) listProper next (by omega)
        exact ⟨log', by rw [appendLoop, if_neg full, rest], by simpa using final⟩

/-! ## All runs -/

/-- Operations on the log. -/
inductive LogOp where
  | append (list : List LogEntry)
  | flush (size : Fin (2 ^ 16))
  deriving DecidableEq, Repr

theorem LogOp.zero_lt_size : 0 < 2 ^ 16 := by
  decide

/-- A flush without a size. -/
def LogOp.flushAll : LogOp :=
  .flush ⟨0, LogOp.zero_lt_size⟩

/-- The log as a system. -/
def logSystem (env : Env) : System LogCtrl LogOp (Option Int) where
  step
    | log, .append list => appftlLogAppend env log list
    | log, .flush size => appftlLogFlushBuffer env log size

/-- The records that an operation appends. -/
def LogOp.records : LogOp → List LogEntry
  | .append list => list
  | .flush _ => []

theorem logSystem_fifo (succeeds : env.Succeeds) (op : LogOp)
    (proper : ∀ entry ∈ appended ++ op.records, entry.IsRecord)
    (fifo : Fifo first appended log) :
    Fifo first (appended ++ op.records) ((logSystem env).step log op).1 ∧
      ((logSystem env).step log op).2 = some 0 := by
  cases op with
  | append list =>
      obtain ⟨log', eq, final⟩ :=
        @appendLoop_fifo env log first appended succeeds _ list proper fifo le_rfl
      simp only [logSystem, appftlLogAppend, fifo.running, if_true, eq]
      exact ⟨final, trivial⟩
  | flush size =>
      obtain ⟨log', eq, took⟩ :=
        appftlLogFlushBuffer_took succeeds size.isLt fifo.ptrs fifo.running
      simp only [logSystem, eq, LogOp.records, List.append_nil] at proper ⊢
      exact ⟨took.flushes.fifo proper fifo, trivial⟩

theorem logSystem_run (succeeds : env.Succeeds) {ops : List LogOp}
    (proper : ∀ entry ∈ appended ++ ops.flatMap LogOp.records, entry.IsRecord)
    (fifo : Fifo first appended log) :
    Fifo first (appended ++ ops.flatMap LogOp.records) ((logSystem env).run log ops) ∧
      ∀ result ∈ (logSystem env).results log ops, result = some 0 := by
  induction ops generalizing appended log with
  | nil => simpa using fifo
  | cons op ops ih =>
      rw [List.flatMap_cons, ← List.append_assoc] at proper ⊢
      obtain ⟨next, result⟩ := logSystem_fifo succeeds op
        (fun entry mem => proper entry (List.mem_append_left _ mem)) fifo
      obtain ⟨final, results⟩ := ih proper next
      refine ⟨final, ?_⟩
      rw [System.results_cons]
      simpa using ⟨result, results⟩

/-! ## What an operation does, page by page and record by record -/

/-- A page is written or a record is appended. -/
inductive LogStep (env : Env) : LogCtrl → LogCtrl → Prop where
  | page {log log' : LogCtrl} {records : List LogEntry} :
      PageFlushed env log log' records → LogStep env log log'
  | append {log : LogCtrl} (entry : LogEntry) : LogStep env log (appendEntry log entry)

theorem Flushes.steps (flushes : Flushes env log log') :
    Relation.ReflTransGen (LogStep env) log log' := by
  induction flushes with
  | refl => exact .refl
  | tail _ step ih =>
      obtain ⟨records, page⟩ := step
      exact ih.tail (.page page)

theorem Flushes.running (flushes : Flushes env log log') : log'.running = log.running := by
  induction flushes with
  | refl => rfl
  | tail _ step ih =>
      obtain ⟨records, page⟩ := step
      exact page.running.trans ih

theorem appendLoop_steps (succeeds : env.Succeeds) (rounds : Nat) (list : List LogEntry)
    (ptrs : PtrsOk log) (running : log.running = true) :
    Relation.ReflTransGen (LogStep env) log (appendLoop env rounds list log).1 := by
  induction rounds generalizing list log with
  | zero => exact .refl
  | succ rounds ih =>
      cases list with
      | nil => exact .refl
      | cons entry list =>
          rw [appendLoop]
          split
          · obtain ⟨flushed, eq, took⟩ := @appftlLogFlushBuffer_took env log succeeds appLogTruncSz
              (by decide) ptrs running
            rw [eq]
            exact took.flushes.steps.trans
              (ih (entry :: list) (took.flushes.ptrsOk ptrs) (took.flushes.running.trans running))
          · exact .head (.append entry)
              (@ih (appendEntry log entry) list ⟨loopNext_lt _, ptrs.flush⟩ running)

theorem logSystem_steps (succeeds : env.Succeeds) (op : LogOp) (ptrs : PtrsOk log)
    (running : log.running = true) :
    Relation.ReflTransGen (LogStep env) log ((logSystem env).step log op).1 := by
  cases op with
  | append list =>
      simp only [logSystem, appftlLogAppend, running, if_true]
      exact appendLoop_steps succeeds _ list ptrs running
  | flush size =>
      obtain ⟨flushed, eq, took⟩ := appftlLogFlushBuffer_took succeeds size.isLt ptrs running
      simp only [logSystem, eq]
      exact took.flushes.steps

theorem appftlLogInit_fifo (nextPpa : Nat × Nat × Nat) :
    Fifo nextPpa.1 [] (appftlLogInit nextPpa) :=
  ⟨⟨Nat.zero_lt_succ _, Nat.zero_lt_succ _⟩, rfl,
    by simp [flashRecords, ringRecords, appftlLogInit],
    List.isChain_nil, by simp [appftlLogInit], Or.inl ⟨rfl, rfl⟩⟩

/-- In every run of appends and flushes, the records on the chain of log pages, followed
by the records in the ring, are the records that were appended; the slot that the next
append writes holds no record of the ring; and no operation fails. -/
theorem log_is_fifo (env : Env) (succeeds : env.Succeeds) (nextPpa : Nat × Nat × Nat)
    (ops : List LogOp) (proper : ∀ entry ∈ ops.flatMap LogOp.records, entry.IsRecord) :
    let log := (logSystem env).run (appftlLogInit nextPpa) ops
    flashRecords log ++ ringRecords log = ops.flatMap LogOp.records ∧
      log.flash.IsChain LogPage.Follows ∧
      (∀ page ∈ log.flash.head?, page.addr = nextPpa.1) ∧
      (∀ k < (ringRecords log).length,
        (log.flushPtr + k) % appLogBufSz ≠ log.appendPtr) ∧
      ∀ result ∈ (logSystem env).results (appftlLogInit nextPpa) ops, result = some 0 := by
  obtain ⟨fifo, results⟩ :=
    @logSystem_run env (appftlLogInit nextPpa) nextPpa.1 [] succeeds ops proper
      (appftlLogInit_fifo nextPpa)
  refine ⟨fifo.records, fifo.chain, ?_, ?_, results⟩
  · intro page isHead
    rcases fifo.head with ⟨empty, -⟩ | ⟨oldest, isOldest, eq⟩
    · simp [empty] at isHead
    · obtain rfl : oldest = page := Option.some.inj (isOldest.symm.trans isHead)
      exact eq
  · intro k lt
    rw [ringRecords, Ring.length_contents] at lt
    exact Ring.position_ne_write fifo.ptrs.flush fifo.ptrs.append lt

theorem Env.small_lt : 2 < 2 ^ 16 := by
  decide

/-- Pages of two slots; addresses count up. -/
def Env.small : Env where
  conf := ⟨1, 2, Nat.one_pos, by decide, Env.small_lt, by decide⟩
  newFn n := some (n + 4)
  writeOk _ := true
  clock n := n

theorem Env.small_succeeds : Env.small.Succeeds :=
  ⟨fun n => ⟨n + 4, rfl⟩, fun _ => rfl⟩

/-- Three records, of which a flush writes the first. -/
theorem log_is_fifo_small :
    let log := (logSystem .small).run (appftlLogInit (1, 2, 3))
      [.append [⟨5, .write, 1, 2, 3, 4, 0, 0⟩, ⟨6, .commit, 0, 0, 0, 0, 0, 0⟩], .flush 2,
        .append [⟨7, .map, 0, 1, 2, 3, 0, 0⟩]]
    flashRecords log ++ ringRecords log =
      [⟨5, .write, 1, 2, 3, 4, 0, 0⟩, ⟨6, .commit, 0, 0, 0, 0, 0, 0⟩,
        ⟨7, .map, 0, 1, 2, 3, 0, 0⟩] :=
  (log_is_fifo .small Env.small_succeeds (1, 2, 3) _ (by decide)).1

end OxCtrl.Log
