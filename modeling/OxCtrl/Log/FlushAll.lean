import OxCtrl.Log.Fifo

/-!
# Flushing the whole log

`appftl_log_flush_buffer` with size zero is to flush up to the append pointer that it reads
at its start.  Other threads append records meanwhile: `append_spin` is only held for the
pointers, so a record may arrive before a page is filled, and again before the flush pointer
moves.  Addresses matter here: at shutdown `appftl_log_flush_buffer` takes no new addresses,
and a page that is written to the address of an earlier one replaces it.
-/

namespace OxCtrl.Log

open Lib

variable (env : Env)

/-! ## Appends during a flush -/

/-- A record is appended during a flush, if there is room.  The second component lists the
records that were appended since the call. -/
def appendLater (state : LogCtrl × List LogEntry) (entry : LogEntry) : LogCtrl × List LogEntry :=
  if loopNext state.1.appendPtr = state.1.flushPtr then state
  else (appendEntry state.1 entry, state.2 ++ [entry])

/-- Several records are appended during a flush. -/
def appendsLater (state : LogCtrl × List LogEntry) (entries : List LogEntry) :
    LogCtrl × List LogEntry :=
  entries.foldl appendLater state

/-- The part of a round of `appftl_log_flush_buffer` that fills and writes a page: the
address of the page, the slots processed and the read pointer. -/
def writeNextPage (log : LogCtrl) (truncate flushed size : Nat) :
    LogCtrl × Option (Nat × Nat × Nat) :=
  let taken := if log.running then appftlLogGetPpa env log else (log, some log.nextPpa.1)
  match taken with
  | (log, none) => (log, none)
  | (log, some uppa) =>
      let (log, slots, processed, readPtr) := appftlLogFlushFillPg env log truncate flushed size
      match appftlLogFlushPg env 2 uppa slots log with
      | (log, none) => (log, none)
      | (log, some wppa) => (log, some (wppa, processed, readPtr))

/-- The loop of `appftl_log_flush_buffer`, with the records that other threads append in each
round before the page is filled and before the flush pointer moves. -/
def flushLoopBusy (arrivals : Nat → List LogEntry × List LogEntry) (truncate size : Nat) :
    Nat → Nat → LogCtrl × List LogEntry → (LogCtrl × List LogEntry) × Option Int
  | 0, _, state => (state, none)
  | rounds + 1, flushed, state =>
      let (log, later) := appendsLater state (arrivals rounds).1
      if log.flushPtr ≠ truncate ∧ flushed < size then
        match writeNextPage env log truncate flushed size with
        | (log, none) => ((log, later), some (-1))
        | (log, some (wppa, processed, readPtr)) =>
            let (log, later) := appendsLater (log, later) (arrivals rounds).2
            flushLoopBusy arrivals truncate size rounds ((flushed + processed) % 2 ^ 16)
              (pageDone log wppa readPtr, later)
      else ((log, later), some 0)

/-- `appftl_log_flush_buffer` while other threads append records. -/
def flushBufferBusy (arrivals : Nat → List LogEntry × List LogEntry) (log : LogCtrl) (size : Nat) :
    (LogCtrl × List LogEntry) × Option Int :=
  flushLoopBusy env arrivals log.appendPtr (flushSize size) (2 * appLogBufSz) 0 (log, [])

variable {env} in
/-- The loop ends when the truncate pointer or the size is reached. -/
theorem flushLoopBusy_stop {arrivals : Nat → List LogEntry × List LogEntry}
    {truncate size flushed rounds : Nat} {state : LogCtrl × List LogEntry} {log : LogCtrl}
    {later : List LogEntry} (arrived : appendsLater state (arrivals rounds).1 = (log, later))
    (stop : ¬ (log.flushPtr ≠ truncate ∧ flushed < size)) :
    flushLoopBusy env arrivals truncate size (rounds + 1) flushed state =
      ((log, later), some 0) := by
  rw [flushLoopBusy, arrived]
  exact if_neg stop

variable {env} in
/-- The loop ends when a page cannot be written. -/
theorem flushLoopBusy_fail {arrivals : Nat → List LogEntry × List LogEntry}
    {truncate size flushed rounds : Nat} {state : LogCtrl × List LogEntry} {log after : LogCtrl}
    {later : List LogEntry} (arrived : appendsLater state (arrivals rounds).1 = (log, later))
    (more : log.flushPtr ≠ truncate ∧ flushed < size)
    (written : writeNextPage env log truncate flushed size = (after, none)) :
    flushLoopBusy env arrivals truncate size (rounds + 1) flushed state =
      ((after, later), some (-1)) := by
  rw [flushLoopBusy, arrived]
  dsimp only
  rw [if_pos more, written]

variable {env} in
/-- A page is written, and the flush pointer moves. -/
theorem flushLoopBusy_page {arrivals : Nat → List LogEntry × List LogEntry}
    {truncate size flushed rounds wppa processed readPtr : Nat}
    {state : LogCtrl × List LogEntry} {log after : LogCtrl} {later : List LogEntry}
    (arrived : appendsLater state (arrivals rounds).1 = (log, later))
    (more : log.flushPtr ≠ truncate ∧ flushed < size)
    (written : writeNextPage env log truncate flushed size =
      (after, some (wppa, processed, readPtr))) :
    flushLoopBusy env arrivals truncate size (rounds + 1) flushed state =
      flushLoopBusy env arrivals truncate size rounds ((flushed + processed) % 2 ^ 16)
        (pageDone (appendsLater (after, later) (arrivals rounds).2).1 wppa readPtr,
          (appendsLater (after, later) (arrivals rounds).2).2) := by
  rw [flushLoopBusy, arrived]
  dsimp only
  rw [if_pos more, written]

/-- No other thread appends records. -/
def noArrivals : Nat → List LogEntry × List LogEntry :=
  fun _ => ([], [])

theorem flushLoopBusy_idle (truncate size rounds flushed : Nat) (log : LogCtrl)
    (later : List LogEntry) :
    flushLoopBusy env noArrivals truncate size rounds flushed (log, later) =
      (((flushLoop env truncate size rounds flushed log).1, later),
        (flushLoop env truncate size rounds flushed log).2) := by
  induction rounds generalizing flushed log with
  | zero => rfl
  | succ rounds ih =>
      have idle : appendsLater (log, later) (noArrivals rounds).1 = (log, later) := rfl
      rw [flushLoop]
      by_cases more : log.flushPtr ≠ truncate ∧ flushed < size
      · rw [if_pos more]
        rcases taken : if log.running = true then appftlLogGetPpa env log
          else (log, some log.nextPpa.1) with ⟨got, _ | uppa⟩
        · refine flushLoopBusy_fail idle more ?_
          rw [writeNextPage, taken]
        · dsimp only
          rcases wrote : appftlLogFlushPg env 2 uppa
            (appftlLogFlushFillPg env got truncate flushed size).2.1
            (appftlLogFlushFillPg env got truncate flushed size).1 with ⟨after, _ | wppa⟩
          · refine flushLoopBusy_fail idle more ?_
            simp only [writeNextPage, taken, wrote]
          · refine (flushLoopBusy_page idle more ?_).trans (ih _ _)
            simp only [writeNextPage, taken, wrote]
      · rw [flushLoopBusy_stop idle more, if_neg more]

/-- Without other threads this is the call that the other modules use. -/
theorem flushBufferBusy_idle (log : LogCtrl) (size : Nat) :
    flushBufferBusy env noArrivals log size =
      (((appftlLogFlushBuffer env log size).1, []), (appftlLogFlushBuffer env log size).2) :=
  flushLoopBusy_idle env _ _ _ _ log []

/-! ## What can be read back -/

/-- The pages that were not replaced by a later one at the same address. -/
def visiblePages : List LogPage → List LogPage
  | [] => []
  | page :: later =>
      if ∃ other ∈ later, other.addr = page.addr then visiblePages later
      else page :: visiblePages later

/-- The records that are on flash. -/
def visibleRecords (log : LogCtrl) : List LogEntry :=
  (visiblePages log.flash).flatMap LogPage.records

/-- Everything that was in the ring is on flash, and the ring holds what came later. -/
structure FlushedAll (log after : LogCtrl) (later : List LogEntry) : Prop where
  flash : visibleRecords after = visibleRecords log ++ ringRecords log
  ring : ringRecords after = later

/-- The addresses that the next pages get, one after another. -/
def pageSupply (log : LogCtrl) : Nat → Option Nat
  | 0 => some log.nextPpa.1
  | 1 => some log.nextPpa.2.1
  | 2 => some log.nextPpa.2.2
  | n + 3 => env.newFn (log.provs + n)

/-- Provisioning hands out a page at most once, and none that the log has written. -/
structure FreshPages (log : LogCtrl) : Prop where
  once : ∀ i j addr, pageSupply env log i = some addr → pageSupply env log j = some addr → i = j
  unused : ∀ i addr, pageSupply env log i = some addr → ∀ page ∈ log.flash, page.addr ≠ addr

/-- Number of records that a flush of everything takes: pages count the slots of their
pointer records and the padding, and at shutdown there is one page. -/
def wholeFlush (conf : PageConf) (running : Bool) : Nat :=
  flushCapacity conf (if running then appLogBufSz - 1 else min (appLogBufSz - 1) conf.logsPerPg)

/-! ## The ring during a flush -/

variable {env} {log after : LogCtrl} {truncate : Nat} {old later : List LogEntry}

/-- The ring holds the records of the flush that are left, and later ones. -/
structure Busy (truncate : Nat) (old later : List LogEntry) (log : LogCtrl) : Prop where
  ptrs : PtrsOk log
  truncate_lt : truncate < appLogBufSz
  ring : ringRecords log = old ++ later
  left : Ring.contents appLogBufSz log.entries log.flushPtr truncate = old

theorem Busy.occupancy (busy : Busy truncate old later log) :
    Ring.occupancy appLogBufSz log.flushPtr truncate = old.length := by
  rw [← busy.left, Ring.length_contents]

theorem Busy.occupancy_le (busy : Busy truncate old later log) :
    old.length ≤ Ring.occupancy appLogBufSz log.flushPtr log.appendPtr := by
  rw [← Ring.length_contents appLogBufSz log.entries]
  calc old.length ≤ (old ++ later).length := by rw [List.length_append]; exact Nat.le_add_right _ _
    _ = (ringRecords log).length := by rw [busy.ring]

theorem Busy.appendLater (busy : Busy truncate old later log) (entry : LogEntry) :
    Busy truncate old (appendLater (log, later) entry).2 (appendLater (log, later) entry).1 := by
  rw [Log.appendLater]
  split
  · exact busy
  next room =>
    refine ⟨⟨loopNext_lt _, busy.ptrs.flush⟩, busy.truncate_lt, ?_, ?_⟩
    · rw [← List.append_assoc, ← busy.ring]
      exact Ring.contents_push log.entries busy.ptrs.flush busy.ptrs.append room entry
    · refine (Ring.contents_update log.entries busy.ptrs.flush busy.ptrs.append ?_ entry).trans
        busy.left
      rw [busy.occupancy]
      exact busy.occupancy_le

theorem Busy.appendsLater (busy : Busy truncate old later log) (entries : List LogEntry) :
    Busy truncate old (appendsLater (log, later) entries).2
      (appendsLater (log, later) entries).1 := by
  induction entries generalizing log later with
  | nil => exact busy
  | cons entry entries ih => exact ih (busy.appendLater entry)

/-- Appending records changes the slots and the append pointer. -/
theorem appendsLater_eq (log : LogCtrl) (later entries : List LogEntry) :
    ∃ slots ptr, (appendsLater (log, later) entries).1 =
      { log with entries := slots, appendPtr := ptr } := by
  induction entries generalizing log later with
  | nil => exact ⟨log.entries, log.appendPtr, rfl⟩
  | cons entry entries ih =>
      rw [appendsLater, List.foldl_cons, appendLater]
      split
      · exact ih log later
      · exact ih (appendEntry log entry) (later ++ [entry])

/-- The flush pointer moves past the records of a page. -/
theorem Busy.advance {records : List LogEntry} {readPtr : Nat}
    (busy : Busy truncate (records ++ old) later log)
    (position : readPtr = (log.flushPtr + records.length) % appLogBufSz) :
    Busy truncate old later { log with flushPtr := readPtr } := by
  have readLt : readPtr < appLogBufSz := by
    rw [position]
    exact Nat.mod_lt _ (by decide)
  have taken : records.length ≤ (records ++ old).length := by
    rw [List.length_append]
    exact Nat.le_add_right _ _
  refine ⟨⟨busy.ptrs.append, readLt⟩, busy.truncate_lt, ?_, ?_⟩
  · have ring := Ring.contents_drop log.entries busy.ptrs.flush busy.ptrs.append
      (taken.trans busy.occupancy_le)
    rw [← position] at ring
    refine ring.trans ?_
    rw [show Ring.contents appLogBufSz log.entries log.flushPtr log.appendPtr =
      records ++ old ++ later from busy.ring, List.append_assoc, List.drop_left]
  · have left := Ring.contents_drop log.entries busy.ptrs.flush busy.truncate_lt
      (taken.trans_eq busy.occupancy.symm)
    rw [← position, busy.left, List.drop_left] at left
    exact left

/-! ## Writing a page -/

/-- The first `k` of the next pages were taken. -/
def Shifted (env : Env) (log after : LogCtrl) (k : Nat) : Prop :=
  ∀ i, pageSupply env after i = pageSupply env log (i + k)

theorem Shifted.trans {middle : LogCtrl} {k m : Nat} (first : Shifted env log middle k)
    (second : Shifted env middle after m) : Shifted env log after (m + k) := by
  intro i
  rw [second i, first (i + m), Nat.add_assoc]

theorem appftlLogGetPpa_some {got : LogCtrl} {addr : Nat}
    (taken : appftlLogGetPpa env log = (got, some addr)) :
    pageSupply env log 0 = some addr ∧ Shifted env log got 1 ∧
      ∃ provs nextPpa, got = { log with provs := provs, nextPpa := nextPpa } := by
  rw [appftlLogGetPpa] at taken
  split at taken
  · cases taken
  next new eq =>
    cases taken
    refine ⟨rfl, fun i => ?_, _, _, rfl⟩
    rcases i with _ | _ | _ | i
    · rfl
    · rfl
    · exact eq.symm
    · exact congrArg env.newFn (Nat.add_right_comm log.provs 1 i)

/-- What writing a page changes, besides the page itself. -/
def SamePlace (log after : LogCtrl) : Prop :=
  after.entries = log.entries ∧ after.appendPtr = log.appendPtr ∧
    after.flushPtr = log.flushPtr ∧ after.running = log.running

/-- `appftl_log_flush_pg` writes the page at the address it is given, or at one of the next
ones with corrected pointers. -/
theorem appftlLogFlushPg_some {retries uppa wppa ts prev : Nat} {next : Nat × Nat × Nat}
    {records : List LogEntry}
    (written : appftlLogFlushPg env retries uppa
      (pageSlots env.conf (pointerEntry ts prev next) records) log = (after, some wppa)) :
    SamePlace log after ∧
      (∃ next', after.flash =
        log.flash ++ [⟨wppa, pageSlots env.conf (pointerEntry ts prev next') records⟩]) ∧
      (wppa = uppa ∧ Shifted env log after 0 ∧ after.nextPpa = log.nextPpa ∨
        log.running = true ∧ ∃ k, pageSupply env log k = some wppa ∧
          Shifted env log after (k + 1)) := by
  induction retries generalizing uppa log next with
  | zero =>
      rw [appftlLogFlushPg] at written
      dsimp only at written
      split at written
      · cases written
        exact ⟨⟨rfl, rfl, rfl, rfl⟩, ⟨next, rfl⟩, Or.inl ⟨rfl, fun i => rfl, rfl⟩⟩
      · cases written
  | succ retries ih =>
      rw [appftlLogFlushPg] at written
      dsimp only at written
      split at written
      · cases written
        exact ⟨⟨rfl, rfl, rfl, rfl⟩, ⟨next, rfl⟩, Or.inl ⟨rfl, fun i => rfl, rfl⟩⟩
      · split at written
        next running =>
          split at written
          · cases written
          next got addr taken =>
            obtain ⟨isNext, shift, provs, nextPpa, rfl⟩ := appftlLogGetPpa_some taken
            obtain ⟨same, flash, source⟩ := ih written
            refine ⟨same, flash, Or.inr ⟨running, ?_⟩⟩
            rcases source with ⟨rfl, supply, _⟩ | ⟨_, k, isLater, supply⟩
            · exact ⟨0, isNext, shift.trans supply⟩
            · exact ⟨k + 1, (shift k).symm.trans isLater, shift.trans supply⟩
        · cases written

/-- A round writes one page with the oldest records of the flush. -/
structure PageWritten (env : Env) (log after : LogCtrl) (truncate limit wppa readPtr : Nat)
    (records : List LogEntry) : Prop where
  same : SamePlace log after
  position : readPtr = (log.flushPtr + records.length) % appLogBufSz
  left : Ring.contents appLogBufSz log.entries log.flushPtr truncate =
    records ++ Ring.contents appLogBufSz log.entries readPtr truncate
  length : records.length = min (Ring.occupancy appLogBufSz log.flushPtr truncate)
    (min (env.conf.logsPerPg - 1) limit)
  flash : ∃ ts prev next, after.flash =
    log.flash ++ [⟨wppa, pageSlots env.conf (pointerEntry ts prev next) records⟩]
  source : log.running = false ∧ wppa = log.nextPpa.1 ∧ after.nextPpa = log.nextPpa ∨
    log.running = true ∧ ∃ k, pageSupply env log k = some wppa ∧ Shifted env log after (k + 1)

theorem writeNextPage_some (ptrs : PtrsOk log) (truncateLt : truncate < appLogBufSz)
    {flushed size wppa processed readPtr : Nat}
    (written : writeNextPage env log truncate flushed size =
      (after, some (wppa, processed, readPtr))) :
    processed = env.conf.logsPerPg ∧ ∃ records,
      PageWritten env log after truncate (size - (flushed + 1)) wppa readPtr records := by
  have two := env.conf.two_le
  obtain ⟨records, last, filled, lastLt, contents, length⟩ :=
    @fillLoop_spec env.conf log.entries truncate flushed size env.conf.logsPerPg 1
      log.flushPtr ptrs.flush truncateLt (by omega) (by omega)
  have position : last = (log.flushPtr + records.length) % appLogBufSz := by
    refine Ring.position_eq ptrs.flush truncateLt lastLt ?_
    have count := congrArg List.length contents
    rwa [List.length_append, Ring.length_contents, Ring.length_contents] at count
  rw [writeNextPage] at written
  by_cases running : log.running = true
  · rw [if_pos running] at written
    rcases taken : appftlLogGetPpa env log with ⟨got, _ | uppa⟩
    · rw [taken] at written
      cases written
    · obtain ⟨isNext, shift, provs, nextPpa, rfl⟩ := appftlLogGetPpa_some taken
      rw [taken] at written
      simp only [appftlLogFlushFillPg, filled] at written
      split at written
      · cases written
      next done addr eq =>
        cases written
        obtain ⟨same, ⟨next, flash⟩, source⟩ := appftlLogFlushPg_some eq
        refine ⟨rfl, records, same, position, contents, length, ⟨_, _, next, flash⟩,
          Or.inr ⟨running, ?_⟩⟩
        rcases source with ⟨rfl, supply, _⟩ | ⟨_, k, isLater, supply⟩
        · exact ⟨0, isNext, shift.trans supply⟩
        · exact ⟨k + 1, (shift k).symm.trans isLater, shift.trans supply⟩
  · have stopped : log.running = false := Bool.not_eq_true _ ▸ running
    rw [if_neg running] at written
    simp only [appftlLogFlushFillPg, filled] at written
    split at written
    · cases written
    next done addr eq =>
      cases written
      obtain ⟨same, ⟨next, flash⟩, source⟩ := appftlLogFlushPg_some eq
      refine ⟨rfl, records, same, position, contents, length, ⟨_, _, next, flash⟩,
        Or.inl ⟨stopped, ?_⟩⟩
      rcases source with ⟨rfl, _, kept⟩ | ⟨still, _⟩
      · exact ⟨rfl, kept⟩
      · exact absurd still running

/-! ## The pages of a flush -/

/-- Pages at unused addresses replace nothing. -/
theorem visiblePages_append {flash pages : List LogPage}
    (unused : ∀ earlier ∈ flash, ∀ page ∈ pages, page.addr ≠ earlier.addr) :
    visiblePages (flash ++ pages) = visiblePages flash ++ visiblePages pages := by
  induction flash with
  | nil => rfl
  | cons first flash ih =>
      have rest := ih fun earlier mem => unused earlier (List.mem_cons_of_mem first mem)
      have same : (∃ other ∈ flash ++ pages, other.addr = first.addr) ↔
          ∃ other ∈ flash, other.addr = first.addr := by
        constructor
        · rintro ⟨other, mem, eq⟩
          rcases List.mem_append.mp mem with mem | mem
          · exact ⟨other, mem, eq⟩
          · exact absurd eq (unused first List.mem_cons_self other mem)
        · rintro ⟨other, mem, eq⟩
          exact ⟨other, List.mem_append_left _ mem, eq⟩
      rw [List.cons_append, visiblePages, visiblePages, rest]
      by_cases replaced : ∃ other ∈ flash, other.addr = first.addr
      · rw [if_pos replaced, if_pos (same.mpr replaced)]
      · rw [if_neg replaced, if_neg (mt same.mp replaced), List.cons_append]

theorem visiblePages_singleton (page : LogPage) : visiblePages [page] = [page] := by
  simp [visiblePages]

/-- Of pages that are written to one address, the last one stays. -/
theorem visiblePages_fixed {pages : List LogPage} {addr : Nat}
    (fixed : ∀ page ∈ pages, page.addr = addr) : visiblePages pages = pages.getLast?.toList := by
  induction pages with
  | nil => rfl
  | cons first pages ih =>
      have rest := ih fun page mem => fixed page (List.mem_cons_of_mem first mem)
      cases pages with
      | nil => exact visiblePages_singleton first
      | cons second pages =>
          have replaced : ∃ other ∈ second :: pages, other.addr = first.addr := by
            refine ⟨second, List.mem_cons_self, ?_⟩
            rw [fixed first List.mem_cons_self,
              fixed second (List.mem_cons_of_mem first List.mem_cons_self)]
          rw [visiblePages, if_pos replaced, rest, List.getLast?_cons_cons]

theorem FreshPages.written {wppa k : Nat} {slots : List LogEntry} (fresh : FreshPages env log)
    (isNext : pageSupply env log k = some wppa) (shifted : Shifted env log after (k + 1))
    (flash : after.flash = log.flash ++ [⟨wppa, slots⟩]) : FreshPages env after where
  once := by
    intro i j addr first second
    rw [shifted] at first second
    exact Nat.add_right_cancel (fresh.once _ _ addr first second)
  unused := by
    intro i addr next page mem
    rw [shifted] at next
    rw [flash] at mem
    rcases List.mem_append.mp mem with mem | mem
    · exact fresh.unused _ addr next page mem
    · rw [List.mem_singleton.mp mem]
      rintro rfl
      have same := fresh.once _ _ wppa next isNext
      omega

/-- What the pages of a flush contain, when `size` slots are left for it. -/
structure Drained (env : Env) (log after : LogCtrl) (size : Nat) (old rest : List LogEntry)
    (pages : List LogPage) : Prop where
  flash : after.flash = log.flash ++ pages
  records : old = pages.flatMap LogPage.records ++ rest
  rest : rest.length = old.length - flushCapacity env.conf size
  small : ∀ page ∈ pages, page.records.length ≤ env.conf.logsPerPg - 1
  none : old = [] → pages = []
  single : old.length ≤ min (env.conf.logsPerPg - 1) (size - 1) → pages.length ≤ 1
  visible : log.running = true → FreshPages env log →
    visiblePages after.flash = visiblePages log.flash ++ pages
  fixed : log.running = false → ∀ page ∈ pages, page.addr = log.nextPpa.1

theorem drained_refl (env : Env) (log : LogCtrl) {size : Nat} (old : List LogEntry)
    (stop : old = [] ∨ size = 0) : Drained env log log size old old [] where
  flash := (List.append_nil _).symm
  records := rfl
  rest := by
    rcases stop with rfl | rfl
    · rw [List.length_nil, Nat.zero_sub]
    · have two := env.conf.two_le
      rw [flushCapacity_of_lt (by omega)]
      rfl
  small := fun _ mem => absurd mem List.not_mem_nil
  none := fun _ => rfl
  single := fun _ => Nat.zero_le 1
  visible := fun _ _ => (List.append_nil _).symm
  fixed := fun _ _ mem => absurd mem List.not_mem_nil

theorem Drained.cons {next : LogCtrl} {size wppa ts prev : Nat} {ptr : Nat × Nat × Nat}
    {records old rest : List LogEntry} {pages : List LogPage}
    (drained : Drained env next after (size - env.conf.logsPerPg) old rest pages)
    (proper : ∀ entry ∈ records, entry.IsRecord)
    (length : records.length =
      min (records ++ old).length (min (env.conf.logsPerPg - 1) (size - 1)))
    (flash : next.flash =
      log.flash ++ [⟨wppa, pageSlots env.conf (pointerEntry ts prev ptr) records⟩])
    (running : next.running = log.running) (nonempty : records ++ old ≠ [])
    (source : log.running = false ∧ wppa = log.nextPpa.1 ∧ next.nextPpa = log.nextPpa ∨
      log.running = true ∧ ∃ k, pageSupply env log k = some wppa ∧ Shifted env log next (k + 1)) :
    Drained env log after size (records ++ old) rest
      (⟨wppa, pageSlots env.conf (pointerEntry ts prev ptr) records⟩ :: pages) := by
  have two := env.conf.two_le
  have taken := @records_pageSlots env.conf records proper ts prev ptr wppa
  rw [List.length_append] at length
  refine ⟨?_, ?_, ?_, ?_, ?_, ?_, ?_, ?_⟩
  · rw [drained.flash, flash, List.append_assoc, List.singleton_append]
  · rw [List.flatMap_cons, taken, List.append_assoc, ← drained.records]
  · rw [drained.rest, List.length_append]
    by_cases few : size < env.conf.logsPerPg
    · rw [flushCapacity_of_lt few, flushCapacity_of_lt (by omega)]
      omega
    · rw [flushCapacity_of_le (Nat.le_of_not_lt few)]
      omega
  · intro page mem
    rcases List.mem_cons.mp mem with rfl | mem
    · rw [taken]
      omega
    · exact drained.small page mem
  · exact fun empty => absurd empty nonempty
  · intro fits
    rw [List.length_append] at fits
    have empty : old = [] := List.eq_nil_of_length_eq_zero (by omega)
    rw [drained.none empty, List.length_singleton]
  · intro up fresh
    obtain ⟨_, k, isNext, shifted⟩ :=
      source.resolve_left fun ⟨down, _⟩ => absurd up (Bool.not_eq_true _ ▸ down)
    have unused := fresh.unused k wppa isNext
    rw [drained.visible (running.trans up) (fresh.written isNext shifted flash), flash,
      visiblePages_append ?_, visiblePages_singleton, List.append_assoc, List.singleton_append]
    intro earlier mem page isNew
    rw [List.mem_singleton.mp isNew]
    exact (unused earlier mem).symm
  · intro down page mem
    obtain ⟨_, addr, kept⟩ := source.resolve_right fun ⟨up, _⟩ => absurd up (by rw [down]; decide)
    rcases List.mem_cons.mp mem with rfl | mem
    · exact addr
    · rw [drained.fixed (running.trans down) page mem, kept]

/-- After a page the records that are left follow in the ring. -/
theorem PageWritten.busy {limit wppa readPtr : Nat} {records : List LogEntry}
    (written : PageWritten env log after truncate limit wppa readPtr records)
    (busy : Busy truncate old later log) (arrived : List LogEntry) :
    ∃ left, old = records ++ left ∧
      Busy truncate left (appendsLater (after, later) arrived).2
        (pageDone (appendsLater (after, later) arrived).1 wppa readPtr) := by
  obtain ⟨entries, appendPtr, flushPtr, _⟩ := written.same
  have split : old = records ++ Ring.contents appLogBufSz log.entries readPtr truncate :=
    busy.left.symm.trans written.left
  have busyAfter : Busy truncate old later after := by
    refine ⟨⟨?_, ?_⟩, busy.truncate_lt, ?_, ?_⟩
    · rw [appendPtr]
      exact busy.ptrs.append
    · rw [flushPtr]
      exact busy.ptrs.flush
    · rw [ringRecords, entries, flushPtr, appendPtr]
      exact busy.ring
    · rw [entries, flushPtr]
      exact busy.left
  have busyLater := busyAfter.appendsLater arrived
  obtain ⟨slots, ptr, eq⟩ := appendsLater_eq after later arrived
  have position : readPtr =
      ((appendsLater (after, later) arrived).1.flushPtr + records.length) % appLogBufSz := by
    rw [eq]
    dsimp only
    rw [flushPtr]
    exact written.position
  rw [split] at busyLater
  have advanced := busyLater.advance position
  exact ⟨_, split, ⟨advanced.ptrs.append, advanced.ptrs.flush⟩, advanced.truncate_lt,
    advanced.ring, advanced.left⟩

/-- Two logs that differ in the ring only. -/
theorem Drained.of_ring {start : LogCtrl} {size ptr : Nat} {slots : Nat → LogEntry}
    {old rest : List LogEntry} {pages : List LogPage}
    (drained : Drained env start after size old rest pages)
    (eq : start = { log with entries := slots, appendPtr := ptr }) :
    Drained env log after size old rest pages := by
  subst eq
  exact ⟨drained.flash, drained.records, drained.rest, drained.small, drained.none, drained.single,
    fun up fresh => drained.visible up ⟨fresh.once, fresh.unused⟩, drained.fixed⟩

/-- The loop ends, and if it succeeds then it has written the oldest records in pages. -/
theorem flushLoopBusy_drained {arrivals : Nat → List LogEntry × List LogEntry}
    {size rounds flushed : Nat} (busy : Busy truncate old later log)
    (proper : ∀ entry ∈ old, entry.IsRecord) (sizeLt : size < appLogBufSz)
    (layout : flushed < size → flushed = 0 ∨ env.conf.logsPerPg < size)
    (enough : size - flushed < rounds) :
    ∃ after later' ret,
      flushLoopBusy env arrivals truncate size rounds flushed (log, later) =
          ((after, later'), some ret) ∧
        (ret = 0 → ∃ pages rest, Busy truncate rest later' after ∧
          Drained env log after (size - flushed) old rest pages) := by
  induction rounds generalizing flushed log later old with
  | zero => exact absurd enough (Nat.not_lt_zero _)
  | succ rounds ih =>
      have two := env.conf.two_le
      have below := env.conf.lt
      have buffer : appLogBufSz = 4096 := rfl
      have busyStart := busy.appendsLater (arrivals rounds).1
      obtain ⟨slots, ptr, start⟩ := appendsLater_eq log later (arrivals rounds).1
      rcases arrived : appendsLater (log, later) (arrivals rounds).1 with ⟨log1, later1⟩
      rw [arrived] at busyStart start
      dsimp only at busyStart start
      by_cases more : log1.flushPtr ≠ truncate ∧ flushed < size
      · rcases page : writeNextPage env log1 truncate flushed size with
          ⟨log2, _ | ⟨wppa, processed, readPtr⟩⟩
        · exact ⟨log2, later1, -1, flushLoopBusy_fail arrived more page, fun ok => nomatch ok⟩
        · obtain ⟨rfl, records, written⟩ :=
            writeNextPage_some busyStart.ptrs busyStart.truncate_lt page
          obtain ⟨left, rfl, busyNext⟩ := written.busy busyStart (arrivals rounds).2
          obtain ⟨slots', ptr', mid⟩ := appendsLater_eq log2 later1 (arrivals rounds).2
          have noWrap : (flushed + env.conf.logsPerPg) % 2 ^ 16 =
              flushed + env.conf.logsPerPg := by
            refine Nat.mod_eq_of_lt ?_
            rcases layout more.2 with rfl | small <;> omega
          obtain ⟨after, later', ret, eq, drained⟩ := ih busyNext
            (fun entry mem => proper entry (List.mem_append_right _ mem))
            (show flushed + env.conf.logsPerPg < size → _ from fun lt => Or.inr (by omega))
            (by omega)
          refine ⟨after, later', ret, ?_, fun ok => ?_⟩
          · rw [flushLoopBusy_page arrived more page, noWrap]
            exact eq
          · obtain ⟨pages, rest, busyAfter, pagesDrained⟩ := drained ok
            rw [Nat.sub_add_eq] at pagesDrained
            obtain ⟨ts, prev, next, flash⟩ := written.flash
            obtain ⟨_, _, _, running⟩ := written.same
            refine ⟨⟨wppa, pageSlots env.conf (pointerEntry ts prev next) records⟩ :: pages, rest,
              busyAfter, ?_⟩
            have length := written.length
            rw [busyStart.occupancy, Nat.sub_add_eq] at length
            have nonempty : records ++ left ≠ [] := by
              rw [← List.length_pos_iff, ← busyStart.occupancy,
                Ring.occupancy_succ busyStart.ptrs.flush busyStart.truncate_lt more.1]
              exact Nat.succ_pos _
            refine (pagesDrained.cons ?_ length ?_ ?_ nonempty ?_).of_ring start
            · exact fun entry mem => proper entry (List.mem_append_left _ mem)
            · rw [mid]
              exact flash
            · rw [mid]
              exact running
            · rw [mid]
              exact written.source
      · refine ⟨log1, later1, 0, flushLoopBusy_stop arrived more, fun _ => ⟨[], old, busyStart, ?_⟩⟩
        have stop : old = [] ∨ size - flushed = 0 := by
          rcases not_and_or.mp more with drained | reached
          · left
            rw [← busyStart.left, not_not.mp drained, Ring.contents_self]
          · right
            omega
        exact (drained_refl env log1 old stop).of_ring start

/-! ## Flushing everything -/

variable {rest : List LogEntry} {pages : List LogPage} {size : Nat}

theorem FlushedAll.nothing_left (all : FlushedAll log after later)
    (busy : Busy truncate rest later after) : rest = [] :=
  List.append_left_eq_self.mp (busy.ring.symm.trans all.ring)

/-- While the system runs, every page has an address of its own. -/
theorem flushedAll_running (fresh : FreshPages env log) (busy : Busy truncate rest later after)
    (drained : Drained env log after size (ringRecords log) rest pages) (up : log.running = true) :
    FlushedAll log after later ↔ rest = [] := by
  constructor
  · exact fun all => all.nothing_left busy
  · rintro rfl
    refine ⟨?_, busy.ring⟩
    rw [visibleRecords, drained.visible up fresh, List.flatMap_append, drained.records,
      List.append_nil]
    rfl

/-- At shutdown all pages are written to one address. -/
theorem flushedAll_stopped (fresh : FreshPages env log) (busy : Busy truncate rest later after)
    (drained : Drained env log after size (ringRecords log) rest pages)
    (down : log.running = false) (fits : rest = [] → (ringRecords log).length ≤ size - 1) :
    FlushedAll log after later ↔
      rest = [] ∧ (ringRecords log).length ≤ env.conf.logsPerPg - 1 := by
  have visible : visibleRecords after =
      visibleRecords log ++ pages.getLast?.toList.flatMap LogPage.records := by
    have unused : ∀ earlier ∈ log.flash, ∀ page ∈ pages, page.addr ≠ earlier.addr := by
      intro earlier mem page isNew
      rw [drained.fixed down page isNew]
      exact (fresh.unused 0 _ rfl earlier mem).symm
    rw [visibleRecords, drained.flash, visiblePages_append unused,
      visiblePages_fixed (drained.fixed down), List.flatMap_append]
    rfl
  constructor
  · intro all
    refine ⟨all.nothing_left busy, ?_⟩
    rw [← List.append_cancel_left (visible.symm.trans all.flash)]
    rcases last : pages.getLast? with _ | page
    · exact Nat.zero_le _
    · simp only [Option.toList_some, List.flatMap_singleton]
      exact drained.small page (List.mem_of_getLast? last)
  · rintro ⟨rfl, onePage⟩
    refine ⟨?_, busy.ring⟩
    have single := drained.single (le_min onePage (fits rfl))
    have last : pages.getLast?.toList = pages := by
      rcases pages with _ | ⟨page, _ | ⟨second, pages⟩⟩
      · rfl
      · rfl
      · simp at single
    rw [visible, last, drained.records, List.append_nil]

theorem le_flushCapacity_min (conf : PageConf) (size count : Nat) :
    count ≤ flushCapacity conf (min size conf.logsPerPg) ↔
      count ≤ flushCapacity conf size ∧ count ≤ conf.logsPerPg - 1 := by
  have two := conf.two_le
  by_cases few : size < conf.logsPerPg
  · rw [min_eq_left few.le, flushCapacity_of_lt few]
    omega
  · have le := Nat.le_of_not_lt few
    have zero : flushCapacity conf (conf.logsPerPg - conf.logsPerPg) = 0 := by
      rw [Nat.sub_self, flushCapacity_of_lt (by omega)]
    rw [min_eq_right le, flushCapacity_of_le le, flushCapacity_of_le le_rfl, zero]
    omega

/-- A flush of everything that returns zero has flushed everything exactly when the ring did
not hold more records than the pages that it counts have room for. -/
theorem flush_all_iff (arrivals : Nat → List LogEntry × List LogEntry) (ptrs : PtrsOk log)
    (proper : ∀ entry ∈ ringRecords log, entry.IsRecord) (fresh : FreshPages env log) :
    ∃ after later ret, flushBufferBusy env arrivals log 0 = ((after, later), some ret) ∧
      (ret = 0 → (FlushedAll log after later ↔
        (ringRecords log).length ≤ wholeFlush env.conf log.running)) := by
  have start : Busy log.appendPtr (ringRecords log) [] log :=
    ⟨ptrs, ptrs.append, (List.append_nil _).symm, rfl⟩
  obtain ⟨after, later, ret, eq, drained⟩ := @flushLoopBusy_drained env log log.appendPtr
    (ringRecords log) [] arrivals (flushSize 0) (2 * appLogBufSz) 0 start proper (by decide)
    (fun _ => Or.inl rfl) (by decide)
  refine ⟨after, later, ret, eq, fun ok => ?_⟩
  obtain ⟨pages, rest, busy, pagesDrained⟩ := drained ok
  have empty : rest = [] ↔
      (ringRecords log).length ≤ flushCapacity env.conf (appLogBufSz - 1) := by
    rw [← List.length_eq_zero_iff, pagesDrained.rest]
    exact Nat.sub_eq_zero_iff_le
  cases running : log.running with
  | true => exact (flushedAll_running fresh busy pagesDrained running).trans empty
  | false =>
      have bound := @flushCapacity_lt env.conf (appLogBufSz - 1) (by decide)
      have fits : rest = [] → (ringRecords log).length ≤ flushSize 0 - 0 - 1 :=
        fun none => Nat.le_pred_of_lt ((empty.mp none).trans_lt bound)
      rw [flushedAll_stopped fresh busy pagesDrained running fits, empty]
      exact (le_flushCapacity_min env.conf (appLogBufSz - 1) _).symm

theorem Env.large_lt : 512 < 2 ^ 16 := by
  decide

/-- A log page of 32 KB has 512 slots, and every request is served. -/
def Env.large : Env where
  conf := ⟨8, 512, by decide, by decide, Env.large_lt, by decide⟩
  newFn n := some (n + 4)
  writeOk _ := true
  clock n := n + 1

theorem Env.large_succeeds : Env.large.Succeeds :=
  ⟨fun n => ⟨n + 4, rfl⟩, fun _ => rfl⟩

/-- A log with `count` records in the ring. -/
def filledLog (count : Nat) : LogCtrl :=
  { appftlLogInit (1, 2, 3) with entries := fun _ => .ofCommit 1, appendPtr := count }

theorem filledLog_supply (count i : Nat) :
    pageSupply Env.large (filledLog count) i = some (i + 1) := by
  rcases i with _ | _ | _ | i
  · rfl
  · rfl
  · rfl
  · simp only [pageSupply, Env.large, filledLog, appftlLogInit]
    congr 1
    omega

/-- Up to 4087 records are flushed. -/
theorem flush_all_most :
    ∃ after later ret, flushBufferBusy Env.large noArrivals (filledLog 4087) 0 =
        ((after, later), some ret) ∧
      (ret = 0 → (FlushedAll (filledLog 4087) after later ↔
        (ringRecords (filledLog 4087)).length ≤ wholeFlush Env.large.conf true)) := by
  refine flush_all_iff noArrivals ⟨by decide, by decide⟩ ?_ ⟨?_, ?_⟩
  · intro entry mem
    obtain ⟨k, _, rfl⟩ := List.mem_map.mp mem
    exact (by decide : (LogEntry.ofCommit 1).IsRecord)
  · intro i j addr first second
    rw [filledLog_supply] at first second
    have same := first.trans second.symm
    exact Nat.succ_injective (Option.some.inj same)
  · exact fun _ _ _ page mem => absurd mem List.not_mem_nil

/-- Of a full ring, eight records are left. -/
theorem flush_all_leaves_records :
    ∃ after, flushBufferBusy Env.large noArrivals (filledLog 4095) 0 = ((after, []), some 0) ∧
      (ringRecords after).length = 8 ∧ ¬ FlushedAll (filledLog 4095) after [] := by
  have ptrs : PtrsOk (filledLog 4095) := ⟨by decide, by decide⟩
  obtain ⟨after, eq, took⟩ :=
    @appftlLogFlushBuffer_took Env.large (filledLog 4095) Env.large_succeeds 0 (by decide) ptrs rfl
  have left : (ringRecords after).length = 8 := by
    rw [took.amount, ringRecords, Ring.length_contents]
    rfl
  refine ⟨after, ?_, left, fun all => ?_⟩
  · rw [flushBufferBusy_idle, eq]
  · rw [all.ring] at left
    exact absurd left (by decide)

end OxCtrl.Log
