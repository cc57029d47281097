import OxCtrl.Log.Core
import Mathlib.Logic.Relation

/-!
# Flush of the log

A page takes the oldest records of the ring.  A flush of `size` slots fills pages of
`logs_per_pg` slots, of which one holds the pointer.  It counts whole pages, so it
takes fewer records than its size.  The last page has no record at all if one slot of
the size is left for it.
-/

namespace OxCtrl.Log

open Lib

variable {env : Env} {conf : PageConf} {log log' : LogCtrl}

/-! ## The ring -/

/-- The records in the ring. -/
def ringRecords (log : LogCtrl) : List LogEntry :=
  Ring.contents appLogBufSz log.entries log.flushPtr log.appendPtr

/-- The pointers are in the ring. -/
structure PtrsOk (log : LogCtrl) : Prop where
  append : log.appendPtr < appLogBufSz
  flush : log.flushPtr < appLogBufSz

theorem loopNext_lt (ptr : Nat) : loopNext ptr < appLogBufSz :=
  Ring.next_lt (by decide) ptr

/-! ## Filling a page -/

/-- The rest of a page is padded as a whole. -/
theorem appftlLogFlushPadding_eq {processed : Nat} (lt : processed < conf.logsPerPg) :
    appftlLogFlushPadding conf processed = conf.logsPerPg := by
  have total : conf.secPerPlPg * (conf.logsPerPg / conf.secPerPlPg) = conf.logsPerPg :=
    Nat.mul_div_cancel' (Nat.dvd_of_mod_eq_zero conf.aligned)
  unfold appftlLogFlushPadding
  generalize conf.logsPerPg / conf.secPerPlPg = lSec at total ⊢
  have pos : 0 < lSec := by
    rcases Nat.eq_zero_or_pos lSec with rfl | pos
    · have two := conf.two_le
      omega
    · exact pos
  obtain ⟨sectors, aligned, le⟩ :
      ∃ sectors, alignSector lSec processed = sectors * lSec ∧ sectors ≤ conf.secPerPlPg := by
    have below : processed / lSec < conf.secPerPlPg := by
      rw [Nat.div_lt_iff_lt_mul pos, total]
      exact lt
    have mod := Nat.div_add_mod' processed lSec
    unfold alignSector
    split
    · refine ⟨processed / lSec + 1, ?_, below⟩
      have modLt := Nat.mod_lt processed pos
      rw [Nat.add_mul, Nat.one_mul]
      omega
    · refine ⟨processed / lSec, ?_, below.le⟩
      omega
  simp only [aligned, Nat.mul_div_cancel _ pos]
  split
  · assumption
  · rw [← Nat.add_mul, Nat.add_sub_cancel' le, total]

/-- The page is filled from the oldest record on, up to the records there are, the slots
that are left and the size of the flush. -/
theorem fillLoop_spec {entries : Nat → LogEntry} {truncate flushed size rounds processed : Nat}
    {readPtr : Nat} (readLt : readPtr < appLogBufSz) (truncateLt : truncate < appLogBufSz)
    (lt : processed < conf.logsPerPg) (enough : conf.logsPerPg ≤ processed + rounds) :
    ∃ records last, fillLoop conf entries truncate flushed size rounds processed readPtr =
        (records, conf.logsPerPg, last) ∧
      last < appLogBufSz ∧
      Ring.contents appLogBufSz entries readPtr truncate =
        records ++ Ring.contents appLogBufSz entries last truncate ∧
      records.length = min (Ring.occupancy appLogBufSz readPtr truncate)
        (min (conf.logsPerPg - processed) (size - (flushed + processed))) := by
  induction rounds generalizing processed readPtr with
  | zero => omega
  | succ rounds ih =>
      by_cases stop : readPtr = truncate ∨ size ≤ flushed + processed
      · refine ⟨[], readPtr, ?_, readLt, rfl, ?_⟩
        · simp [fillLoop, stop, appftlLogFlushPadding_eq lt]
        · rcases stop with rfl | reached
          · simp
          · simp [Nat.sub_eq_zero_of_le reached]
      · obtain ⟨differ, room⟩ := not_or.mp stop
        have nextLt := loopNext_lt readPtr
        have split := Ring.contents_cons entries readLt truncateLt differ
        have count := Ring.occupancy_succ readLt truncateLt differ
        by_cases more : processed + 1 < conf.logsPerPg
        · obtain ⟨records, last, eq, lastLt, contents, length⟩ :=
            ih nextLt more (by omega)
          refine ⟨entries readPtr :: records, last, ?_, lastLt, ?_, ?_⟩
          · simp [fillLoop, stop, more, eq]
          · rw [split, List.cons_append, ← contents]
            rfl
          · rw [List.length_cons, length, count]
            unfold loopNext
            omega
        · refine ⟨[entries readPtr], loopNext readPtr, ?_, nextLt, split, ?_⟩
          · have full : processed + 1 = conf.logsPerPg := by omega
            simp [fillLoop, stop, full]
          · rw [List.length_singleton, count]
            omega

/-! ## Writing a page -/

/-- Pages can be allocated, and page writes succeed. -/
structure Env.Succeeds (env : Env) : Prop where
  newFn : ∀ n, ∃ addr, env.newFn n = some addr
  writes : ∀ n, env.writeOk n = true

/-- The pointer record of the next page. -/
def nextPointer (env : Env) (log : LogCtrl) (last : Nat) : LogEntry :=
  pointerEntry (env.clock log.ticks) log.phyLogTail (log.nextPpa.2.1, log.nextPpa.2.2, last)

/-- What writing a page with the oldest records of the ring does. -/
structure PageFlushed (env : Env) (log log' : LogCtrl) (records : List LogEntry) : Prop where
  entries : log'.entries = log.entries
  appendPtr : log'.appendPtr = log.appendPtr
  running : log'.running = log.running
  flush_lt : log'.flushPtr < appLogBufSz
  ring : ringRecords log = records ++ ringRecords log'
  ticks : log'.ticks = log.ticks + 1
  phyLogTail : log'.phyLogTail = log.nextPpa.1
  nextPpa : ∃ addr, log'.nextPpa = (log.nextPpa.2.1, log.nextPpa.2.2, addr)
  flash : log'.flash = log.flash ++
    [⟨log.nextPpa.1, pageSlots env.conf (nextPointer env log log'.nextPpa.2.2) records⟩]
  curTs : log'.curTs =
    ((nextPointer env log log'.nextPpa.2.2 :: records).getLastD LogEntry.zero).ts

/-- One round of the loop of `appftl_log_flush_buffer` writes one page. -/
theorem flushLoop_step (succeeds : env.Succeeds) (ptrs : PtrsOk log) (running : log.running = true)
    {size flushed : Nat} (differ : log.flushPtr ≠ log.appendPtr) (more : flushed < size)
    (rounds : Nat) :
    ∃ log' records, flushLoop env log.appendPtr size (rounds + 1) flushed log =
        flushLoop env log.appendPtr size rounds ((flushed + env.conf.logsPerPg) % 2 ^ 16) log' ∧
      PageFlushed env log log' records ∧
      records.length = min (ringRecords log).length
        (min (env.conf.logsPerPg - 1) (size - (flushed + 1))) := by
  obtain ⟨addr, new⟩ := succeeds.newFn log.provs
  have two := env.conf.two_le
  obtain ⟨records, last, filled, lastLt, contents, length⟩ :=
    @fillLoop_spec env.conf log.entries log.appendPtr flushed size env.conf.logsPerPg 1
      log.flushPtr ptrs.flush ptrs.append (by omega) (by omega)
  refine ⟨?written, records, ?eq, ?_, ?_⟩
  case eq =>
    simp only [flushLoop, differ, more, ne_eq, not_false_eq_true, and_self, if_true, running,
      appftlLogGetPpa, new, appftlLogFlushFillPg, filled, appftlLogFlushPg, succeeds.writes,
      pageDone]
    rfl
  · refine ⟨rfl, rfl, running.symm, lastLt, contents, rfl, rfl, ⟨addr, rfl⟩, rfl, ?_⟩
    cases records <;> rfl
  · simpa [ringRecords] using length

/-- The loop ends when the ring is drained or the size is reached. -/
theorem flushLoop_stop {truncate size flushed : Nat}
    (stop : ¬ (log.flushPtr ≠ truncate ∧ flushed < size)) (rounds : Nat) :
    flushLoop env truncate size (rounds + 1) flushed log = (log, some 0) := by
  rw [flushLoop, if_neg stop]

/-- Pages are written one after another. -/
def Flushes (env : Env) : LogCtrl → LogCtrl → Prop :=
  Relation.ReflTransGen fun log log' => ∃ records, PageFlushed env log log' records

theorem PageFlushed.ptrsOk {records : List LogEntry} (page : PageFlushed env log log' records)
    (ptrs : PtrsOk log) : PtrsOk log' :=
  ⟨by rw [page.appendPtr]; exact ptrs.append, page.flush_lt⟩

/-! ## How much a flush takes -/

theorem Flushes.ptrsOk (flushes : Flushes env log log') (ptrs : PtrsOk log) : PtrsOk log' := by
  induction flushes with
  | refl => exact ptrs
  | tail _ step ih =>
      obtain ⟨records, page⟩ := step
      exact page.ptrsOk ih

/-- Number of records that a flush of a size takes from a ring with enough records. -/
def flushCapacity (conf : PageConf) (size : Nat) : Nat :=
  size / conf.logsPerPg * (conf.logsPerPg - 1) + (size % conf.logsPerPg - 1)

theorem flushCapacity_of_lt {size : Nat} (lt : size < conf.logsPerPg) :
    flushCapacity conf size = size - 1 := by
  rw [flushCapacity, Nat.div_eq_of_lt lt, Nat.mod_eq_of_lt lt, Nat.zero_mul, Nat.zero_add]

theorem flushCapacity_of_le {size : Nat} (le : conf.logsPerPg ≤ size) :
    flushCapacity conf size = conf.logsPerPg - 1 + flushCapacity conf (size - conf.logsPerPg) := by
  have two := conf.two_le
  have div := Nat.div_eq_sub_div (show 0 < conf.logsPerPg by omega) le
  rw [flushCapacity, flushCapacity, div, Nat.mod_eq_sub_mod le, Nat.add_mul, Nat.one_mul]
  omega

theorem flushCapacity_pos {size : Nat} (le : 2 ≤ size) : 0 < flushCapacity conf size := by
  have two := conf.two_le
  by_cases lt : size < conf.logsPerPg
  · rw [flushCapacity_of_lt lt]
    omega
  · rw [flushCapacity_of_le (by omega)]
    omega

theorem flushCapacity_lt {size : Nat} (pos : size ≠ 0) : flushCapacity conf size < size := by
  have two := conf.two_le
  have mod := Nat.div_add_mod' size conf.logsPerPg
  have le : size / conf.logsPerPg * (conf.logsPerPg - 1) ≤ size / conf.logsPerPg * conf.logsPerPg :=
    Nat.mul_le_mul_left _ (by omega)
  unfold flushCapacity
  rcases Nat.eq_zero_or_pos (size % conf.logsPerPg) with exact | rest
  · have some : 0 < size / conf.logsPerPg := by
      rcases Nat.eq_zero_or_pos (size / conf.logsPerPg) with none | some
      · rw [none] at mod
        omega
      · exact some
    have lt : size / conf.logsPerPg * (conf.logsPerPg - 1) <
        size / conf.logsPerPg * conf.logsPerPg := Nat.mul_lt_mul_of_pos_left (by omega) some
    omega
  · omega

theorem occupied (ptrs : PtrsOk log) (differ : log.flushPtr ≠ log.appendPtr) :
    0 < (ringRecords log).length := by
  rw [ringRecords, Ring.contents_cons log.entries ptrs.flush ptrs.append differ]
  simp

theorem length_ringRecords_lt (log : LogCtrl) : (ringRecords log).length < appLogBufSz := by
  rw [ringRecords, Ring.length_contents]
  exact Ring.occupancy_lt (by decide) _ _

/-- The last record of a page is noted. -/
theorem PageFlushed.curTs_eq {records : List LogEntry} (page : PageFlushed env log log' records)
    {entry : LogEntry} (last : (ringRecords log)[records.length - 1]? = some entry)
    (nonempty : records ≠ []) : log'.curTs = entry.ts := by
  have pos := List.length_pos_of_ne_nil nonempty
  rw [page.ring, List.getElem?_append_left (by omega), ← List.getLast?_eq_getElem?] at last
  rw [page.curTs, List.getLastD_cons, List.getLastD_eq_getLast?, last]
  rfl

/-- What a flush of a size has done: pages with the first records of the ring were
written.  If records are left, the last one it took is noted, unless the last page has
no record. -/
structure Took (env : Env) (log log' : LogCtrl) (size : Nat) : Prop where
  flushes : Flushes env log log'
  amount : (ringRecords log').length = (ringRecords log).length - flushCapacity env.conf size
  curTs : flushCapacity env.conf size < (ringRecords log).length → size ≠ 0 →
    size % env.conf.logsPerPg ≠ 1 → ∀ entry,
      (ringRecords log)[flushCapacity env.conf size - 1]? = some entry → log'.curTs = entry.ts

/-- The last page of a flush, which is not full, or drains the ring. -/
theorem PageFlushed.took_last {records : List LogEntry} {size : Nat}
    (page : PageFlushed env log log' records)
    (length : records.length = min (ringRecords log).length
      (min (env.conf.logsPerPg - 1) (size - 1)))
    (last : size < env.conf.logsPerPg ∨ (ringRecords log).length ≤ env.conf.logsPerPg - 1) :
    Took env log log' size := by
  have ring := congrArg List.length page.ring
  rw [List.length_append] at ring
  by_cases few : size < env.conf.logsPerPg
  · have capacity := flushCapacity_of_lt few
    refine ⟨.single ⟨records, page⟩, by omega, fun more _ notOne entry isLast => ?_⟩
    rw [Nat.mod_eq_of_lt few] at notOne
    have taken : records.length = flushCapacity env.conf size := by omega
    refine page.curTs_eq (by rw [taken]; exact isLast) ?_
    rintro rfl
    simp only [List.length_nil] at taken
    omega
  · have capacity := flushCapacity_of_le (Nat.le_of_not_lt few)
    exact ⟨.single ⟨records, page⟩, by omega, fun more => by omega⟩

/-- A full page, and the rest of the flush. -/
theorem PageFlushed.took_cons {records : List LogEntry} {size : Nat} {log'' : LogCtrl}
    (page : PageFlushed env log log' records) (le : env.conf.logsPerPg ≤ size)
    (length : records.length = env.conf.logsPerPg - 1)
    (rest : Took env log' log'' (size - env.conf.logsPerPg))
    (stop : size = env.conf.logsPerPg → log'' = log') : Took env log log'' size := by
  have two := env.conf.two_le
  have ring := congrArg List.length page.ring
  rw [List.length_append] at ring
  have capacity := flushCapacity_of_le le
  have amount := rest.amount
  refine ⟨.head ⟨records, page⟩ rest.flushes, by omega, fun more pos notOne entry isLast => ?_⟩
  by_cases exact : size = env.conf.logsPerPg
  · obtain rfl := stop exact
    have none : flushCapacity env.conf (size - env.conf.logsPerPg) = 0 := by
      rw [exact, Nat.sub_self, flushCapacity_of_lt (by omega)]
    rw [capacity, none, Nat.add_zero, ← length] at isLast
    refine page.curTs_eq isLast ?_
    · rintro rfl
      simp only [List.length_nil] at length
      omega
  · have leftOne : (size - env.conf.logsPerPg) % env.conf.logsPerPg ≠ 1 := by
      rw [← Nat.mod_eq_sub_mod le]
      exact notOne
    have leftTwo : 2 ≤ size - env.conf.logsPerPg := by
      by_contra few
      have one : size - env.conf.logsPerPg = 1 := by omega
      rw [one, Nat.mod_eq_of_lt (by omega)] at leftOne
      exact leftOne rfl
    have leftPos : 0 < flushCapacity env.conf (size - env.conf.logsPerPg) :=
      flushCapacity_pos leftTwo
    refine rest.curTs (by omega) (by omega) leftOne entry ?_
    rw [page.ring, List.getElem?_append_right (by omega)] at isLast
    rw [← isLast]
    congr 1
    omega

/-- The loop of a flush takes as many records as its size allows.  The count of the
flushed slots does not wrap around before the ring is drained. -/
theorem flushLoop_took (succeeds : env.Succeeds) {size rounds flushed : Nat}
    (sizeLt : size < 2 ^ 16) (ptrs : PtrsOk log) (running : log.running = true)
    (noWrap : flushed + 2 * (ringRecords log).length ≤ 2 * appLogBufSz)
    (layout : flushed = 0 ∨ env.conf.logsPerPg ≤ appLogBufSz)
    (enough : (ringRecords log).length + 2 ≤ rounds) :
    ∃ log', flushLoop env log.appendPtr size rounds flushed log = (log', some 0) ∧
      Took env log log' (size - flushed) ∧ (size ≤ flushed → log' = log) := by
  induction rounds generalizing flushed log with
  | zero => omega
  | succ rounds ih =>
      have two := env.conf.two_le
      have below := env.conf.lt
      have buffer : appLogBufSz = 4096 := rfl
      by_cases more : log.flushPtr ≠ log.appendPtr ∧ flushed < size
      · obtain ⟨next, records, eq, page, length⟩ :=
          flushLoop_step succeeds ptrs running more.1 more.2 rounds
        have ring := congrArg List.length page.ring
        rw [List.length_append] at ring
        have nonempty := occupied ptrs more.1
        by_cases full : env.conf.logsPerPg ≤ size - flushed ∧
            env.conf.logsPerPg - 1 < (ringRecords log).length
        · have bound := length_ringRecords_lt log
          have taken : records.length = env.conf.logsPerPg - 1 := by omega
          have mod : (flushed + env.conf.logsPerPg) % 2 ^ 16 = flushed + env.conf.logsPerPg :=
            Nat.mod_eq_of_lt (by omega)
          obtain ⟨log', rest, took, stop⟩ := @ih next (flushed + env.conf.logsPerPg)
            (page.ptrsOk ptrs) (page.running.trans running) (by omega) (by omega) (by omega)
          rw [page.appendPtr, ← mod] at rest
          rw [Nat.sub_add_eq] at took
          exact ⟨log', eq.trans rest, page.took_cons full.1 taken took (fun _ => stop (by omega)),
            fun _ => by omega⟩
        · obtain ⟨rounds, rfl⟩ : ∃ n, rounds = n + 1 := ⟨rounds - 1, by omega⟩
          have last : size - flushed < env.conf.logsPerPg ∨
              (ringRecords log).length ≤ env.conf.logsPerPg - 1 := by omega
          have stop : ¬ (next.flushPtr ≠ log.appendPtr ∧
              (flushed + env.conf.logsPerPg) % 2 ^ 16 < size) := by
            rintro ⟨differ, reached⟩
            rw [← page.appendPtr] at differ
            have left := occupied (page.ptrsOk ptrs) differ
            have few : size - flushed < env.conf.logsPerPg := by omega
            rw [Nat.mod_eq_of_lt (by omega)] at reached
            omega
          refine ⟨next, eq.trans (flushLoop_stop stop rounds), ?_, fun _ => by omega⟩
          exact page.took_last (by rw [length, Nat.sub_add_eq]) last
      · refine ⟨log, flushLoop_stop more rounds, ?_, fun _ => rfl⟩
        rcases not_and_or.mp more with drained | reached
        · have same : log.flushPtr = log.appendPtr := not_not.mp drained
          refine ⟨.refl, ?_, ?_⟩ <;> simp [ringRecords, same]
        · have zero : size - flushed = 0 := by omega
          refine ⟨.refl, ?_, fun _ pos => absurd zero pos⟩
          rw [zero, flushCapacity_of_lt (by omega)]
          rfl

/-- Effective size of a flush. -/
def flushSize (size : Nat) : Nat :=
  if size = 0 then appLogBufSz - 1 else size

theorem appftlLogFlushBuffer_took (succeeds : env.Succeeds) {size : Nat}
    (sizeLt : size < 2 ^ 16) (ptrs : PtrsOk log) (running : log.running = true) :
    ∃ log', appftlLogFlushBuffer env log size = (log', some 0) ∧
      Took env log log' (flushSize size) := by
  have bound := length_ringRecords_lt log
  have buffer : appLogBufSz = 4096 := rfl
  obtain ⟨log', eq, took, -⟩ :=
    @flushLoop_took env log succeeds (flushSize size) (2 * appLogBufSz) 0
      (by unfold flushSize; split <;> omega) ptrs running (by omega) (Or.inl rfl) (by omega)
  exact ⟨log', eq, took⟩

end OxCtrl.Log
