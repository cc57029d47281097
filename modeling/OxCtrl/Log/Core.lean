import OxCtrl.Log.Entry
import OxCtrl.Lib.Ring

/-!
# Write-ahead log

The state and the operations of `oxb-log.c`.  The circular buffer is an array of
`APP_LOG_BUF_SZ` records, and the pointers into it are indices.  `flash` lists the log
pages that were written, oldest first; a page lists its slots in the order of the
planes.  Addresses of new pages, outcomes of page writes and readings of the clock are
supplied from outside.  No caller passes user data to be used as padding.
-/

namespace OxCtrl.Log

open Lib

/-- `APP_LOG_BUF_SZ`. -/
def appLogBufSz : Nat := 4096

/-- `APP_LOG_TRUNC_SZ`. -/
def appLogTruncSz : Nat := 511

/-- Layout of a log page. -/
structure PageConf where
  secPerPlPg : Nat
  logsPerPg : Nat
  sec_pos : 0 < secPerPlPg
  two_le : 2 ≤ logsPerPg
  lt : logsPerPg < 2 ^ 16
  aligned : logsPerPg % secPerPlPg = 0

/-- What the log takes from outside. -/
structure Env where
  conf : PageConf
  /-- Address of the `n`-th page taken from the metadata line, if there is one. -/
  newFn : Nat → Option Nat
  /-- The `n`-th write of a log page succeeds. -/
  writeOk : Nat → Bool
  /-- The `n`-th reading of the clock. -/
  clock : Nat → Nat

/-- A log page. -/
structure LogPage where
  addr : Nat
  slots : List LogEntry
  deriving DecidableEq, Repr

/-- `struct app_log_ctrl`, with the pages written so far. -/
structure LogCtrl where
  entries : Nat → LogEntry := fun _ => .zero
  appendPtr : Nat := 0
  flushPtr : Nat := 0
  phyLogTail : Nat
  phyLogHead : Nat
  nextPpa : Nat × Nat × Nat
  curTs : Nat := 0
  curTsAux : Nat := 0
  running : Bool := true
  flash : List LogPage := []
  /-- Requests for pages, page writes and clock readings so far. -/
  provs : Nat := 0
  writes : Nat := 0
  ticks : Nat := 0

variable (env : Env)

/-- `CIRCLEQ_LOOP_NEXT`. -/
def loopNext (ptr : Nat) : Nat :=
  Ring.next appLogBufSz ptr

/-- `appftl_log_get_ppa`: the first of the three next pages is taken, and a new one
becomes the last. -/
def appftlLogGetPpa (log : LogCtrl) : LogCtrl × Option Nat :=
  match env.newFn log.provs with
  | none => ({ log with provs := log.provs + 1 }, none)
  | some addr =>
      ({ log with
          provs := log.provs + 1
          nextPpa := (log.nextPpa.2.1, log.nextPpa.2.2, addr) },
        some log.nextPpa.1)

/-- A record of type `APP_LOG_POINTER`. -/
def pointerEntry (ts prev : Nat) (next : Nat × Nat × Nat) : LogEntry where
  ts := ts
  type := .pointer
  word0 := prev
  word3 := next.1
  word4 := next.2.1
  word5 := next.2.2

/-- The `next` addresses of the pointer record of a page are set. -/
def fixPointer (next : Nat × Nat × Nat) : List LogEntry → List LogEntry
  | [] => []
  | first :: rest =>
      { first with word3 := next.1, word4 := next.2.1, word5 := next.2.2 } :: rest

/-- `appftl_log_flush_pg`, for `retries` attempts after the first one. -/
def appftlLogFlushPg : Nat → Nat → List LogEntry → LogCtrl → LogCtrl × Option Nat
  | retries, wppa, slots, log =>
      let ok := env.writeOk log.writes
      let log := { log with writes := log.writes + 1 }
      if ok then ({ log with flash := log.flash ++ [⟨wppa, slots⟩] }, some wppa)
      else
        match retries with
        | 0 => (log, none)
        | retries + 1 =>
            if log.running then
              match appftlLogGetPpa env log with
              | (log, none) => (log, none)
              | (log, some wppa) =>
                  appftlLogFlushPg retries wppa (fixPointer log.nextPpa slots) log
            else (log, none)

/-- Align to the flash sector. -/
def alignSector (lSec processed : Nat) : Nat :=
  if processed % lSec ≠ 0 then processed + (lSec - processed % lSec) else processed

/-- `appftl_log_flush_padding` without user padding: the slots that are processed when
the rest of the page is padded. -/
def appftlLogFlushPadding (conf : PageConf) (processed : Nat) : Nat :=
  let lSec := conf.logsPerPg / conf.secPerPlPg
  let aligned := alignSector lSec processed
  if aligned = conf.logsPerPg then aligned
  else aligned + (conf.secPerPlPg - aligned / lSec) * lSec

/-- The loop of `appftl_log_flush_fill_pg`: the records copied to the page, the slots
processed and the read pointer. -/
def fillLoop (conf : PageConf) (entries : Nat → LogEntry) (truncate flushed size : Nat) :
    Nat → Nat → Nat → List LogEntry × Nat × Nat
  | 0, processed, readPtr => ([], processed, readPtr)
  | rounds + 1, processed, readPtr =>
      if readPtr = truncate ∨ size ≤ flushed + processed then
        let processed := appftlLogFlushPadding conf processed
        if processed < conf.logsPerPg then
          fillLoop conf entries truncate flushed size rounds processed readPtr
        else ([], processed, readPtr)
      else
        let (records, last) :=
          if processed + 1 < conf.logsPerPg then
            fillLoop conf entries truncate flushed size rounds (processed + 1) (loopNext readPtr)
          else ([], processed + 1, loopNext readPtr)
        (entries readPtr :: records, last)

/-- A log page: the pointer record, the records, and unused slots. -/
def pageSlots (conf : PageConf) (pointer : LogEntry) (records : List LogEntry) : List LogEntry :=
  pointer :: records ++ List.replicate (conf.logsPerPg - 1 - records.length) LogEntry.zero

/-- `appftl_log_flush_fill_pg`: the slots of the page, the slots processed and the read
pointer.  The timestamp of the last record in the page is noted. -/
def appftlLogFlushFillPg (log : LogCtrl) (truncate flushed size : Nat) :
    LogCtrl × List LogEntry × Nat × Nat :=
  let ts := env.clock log.ticks
  let pointer := pointerEntry ts log.phyLogTail (if log.running then log.nextPpa else (0, 0, 0))
  let (records, processed, readPtr) :=
    fillLoop env.conf log.entries truncate flushed size env.conf.logsPerPg 1 log.flushPtr
  ({ log with
      ticks := log.ticks + 1
      curTsAux := ((pointer :: records).getLastD pointer).ts },
    pageSlots env.conf pointer records, processed, readPtr)

/-- A page was written: the flush pointer moves on. -/
def pageDone (log : LogCtrl) (wppa readPtr : Nat) : LogCtrl :=
  { log with
    curTs := log.curTsAux
    phyLogHead := if log.phyLogHead = 0 then wppa else log.phyLogHead
    phyLogTail := wppa
    flushPtr := readPtr }

/-- The loop of `appftl_log_flush_buffer`.  The result is `none` if more than `rounds`
rounds are needed. -/
def flushLoop (truncate size : Nat) : Nat → Nat → LogCtrl → LogCtrl × Option Int
  | 0, _, log => (log, none)
  | rounds + 1, flushed, log =>
      if log.flushPtr ≠ truncate ∧ flushed < size then
        let taken := if log.running then appftlLogGetPpa env log else (log, some log.nextPpa.1)
        match taken with
        | (log, none) => (log, some (-1))
        | (log, some uppa) =>
            let (log, slots, processed, readPtr) :=
              appftlLogFlushFillPg env log truncate flushed size
            match appftlLogFlushPg env 2 uppa slots log with
            | (log, none) => (log, some (-1))
            | (log, some wppa) =>
                flushLoop truncate size rounds ((flushed + processed) % 2 ^ 16)
                  (pageDone log wppa readPtr)
      else (log, some 0)

/-- `appftl_log_flush_buffer`. -/
def appftlLogFlushBuffer (log : LogCtrl) (size : Nat) : LogCtrl × Option Int :=
  flushLoop env log.appendPtr (if size = 0 then appLogBufSz - 1 else size)
    (2 * appLogBufSz) 0 log

/-- A record is copied to the append pointer, which moves on. -/
def appendEntry (log : LogCtrl) (entry : LogEntry) : LogCtrl :=
  { log with
    entries := Function.update log.entries log.appendPtr entry
    appendPtr := loopNext log.appendPtr }

/-- The loop of `appftl_log_append`.  The result is `none` if more than `rounds` rounds
are needed. -/
def appendLoop : Nat → List LogEntry → LogCtrl → LogCtrl × Option Int
  | 0, _, log => (log, none)
  | _ + 1, [], log => (log, some 0)
  | rounds + 1, entry :: list, log =>
      -- if the buffer will be full, flush it
      if loopNext log.appendPtr = log.flushPtr then
        match appftlLogFlushBuffer env log appLogTruncSz with
        | (log, some 0) => appendLoop rounds (entry :: list) log
        | (log, some _) => (log, some (-1))
        | (log, none) => (log, none)
      else appendLoop rounds list (appendEntry log entry)

/-- `appftl_log_append`. -/
def appftlLogAppend (log : LogCtrl) (list : List LogEntry) : LogCtrl × Option Int :=
  if log.running then appendLoop env (2 * list.length + 1) list log else (log, some 0)

/-- `appftl_log_init`, with the three pages it takes. -/
def appftlLogInit (nextPpa : Nat × Nat × Nat) : LogCtrl where
  phyLogTail := nextPpa.1
  phyLogHead := nextPpa.1
  nextPpa := nextPpa

end OxCtrl.Log
