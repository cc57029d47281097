import OxCtrl.Gc.Core
import OxCtrl.Log.Core

/-!
# Padding of a log page

A log page that is not full is padded with sectors of the user, each with a write record in the
page, and the rest with empty sectors.  The write buffer is an array of slots of the size of a
record, in the order of the planes, so that a sector is a range of slots.
-/

namespace OxCtrl.Log

open OxCtrl.Gc (PgType)

/-! ## The write buffer -/

/-- Layout of a log page: the geometry of the device, and `logs_per_pg`. -/
structure PadConf where
  geo : Geometry
  logsPerPg : Nat
  logs_pos : 0 < logsPerPg
  lt : logsPerPg < 2 ^ 16
  aligned : geo.secPerPlPg ∣ logsPerPg

namespace PadConf

variable (conf : PadConf)

/-- `l_sec`: slots of a sector. -/
def lSec : Nat :=
  conf.logsPerPg / conf.geo.secPerPlPg

/-- `l_pl`: slots of a plane. -/
def lPl : Nat :=
  conf.logsPerPg / conf.geo.nOfPlanes

end PadConf

/-- What a slot holds: nothing, a record, or a part of a sector of the user. -/
inductive Cell where
  | blank
  | record (entry : LogEntry)
  | user (padI part : Nat)
  deriving DecidableEq, Repr

/-- The write buffer, with the sectors that were written to since the page was begun. -/
structure PageBuf where
  cells : Nat → Cell
  oob : Nat → PgType
  touched : List Nat := []

namespace PageBuf

/-- `oob_vec[sec]->pg_type = type`. -/
def setOob (buf : PageBuf) (sec : Nat) (type : PgType) : PageBuf :=
  { buf with oob := Function.update buf.oob sec type, touched := buf.touched ++ [sec] }

/-- Copy user sector `padI` to a sector of `lSec` slots. -/
def copySector (buf : PageBuf) (lSec sec padI : Nat) : PageBuf :=
  { buf with
    cells := fun slot => if slot / lSec = sec then .user padI (slot % lSec) else buf.cells slot
    touched := buf.touched ++ [sec] }

/-- Copy a record to a slot. -/
def copyRecord (buf : PageBuf) (lSec slot : Nat) (entry : LogEntry) : PageBuf :=
  { buf with
    cells := Function.update buf.cells slot (.record entry)
    touched := buf.touched ++ [slot / lSec] }

end PageBuf

/-- An entry of a transaction, `struct app_transaction_log`. -/
structure PadLog where
  ts : Nat
  tid : Nat
  lba : Nat
  ppa : Ppa := 0
  deriving DecidableEq, Repr

/-- `struct app_transaction_pad`.  The data of user sector `i` is called `i`, and `rsv` has the slot
of its record. -/
structure UserPad where
  count : Nat
  padded : Nat := 0
  log : Nat → PadLog
  rsv : Nat → Nat := fun _ => 0

/-- The variables of the loops: `processed` or `last_proc` beside the buffer. -/
structure PadState where
  buf : PageBuf
  pad : UserPad
  processed : Nat

variable (conf : PadConf) (uppa : Ppa)

/-! ## Filling a page -/

/-- A record is the next one of the page.  The first record of a sector marks the sector. -/
def fillRecord (state : PageBuf × Nat) (entry : LogEntry) : PageBuf × Nat :=
  let (buf, processed) := state
  let buf := if processed % conf.lSec = 0 then buf.setOob (processed / conf.lSec) .log else buf
  let pl := processed / conf.lPl
  let offId := processed % conf.lPl
  (buf.copyRecord conf.lSec (pl * conf.lPl + offId) entry, processed + 1)

/-- The part of `appftl_log_flush_fill_pg` before the padding: the pointer record and the records
from the log buffer, and the number of slots processed.  The OOB area may hold anything before. -/
def fillRecords (oob : Nat → PgType) (pointer : LogEntry) (records : List LogEntry) :
    PageBuf × Nat :=
  let buf := (PageBuf.setOob { cells := fun _ => .blank, oob := oob } 0 .log)
  let buf := buf.copyRecord conf.lSec 0 pointer
  records.foldl (fillRecord conf) (buf, 1)

/-! ## Padding -/

/-- One round of the loop that copies the user sectors. -/
def copyUser (state : PadState) (padI : Nat) : PadState :=
  let plSec := state.processed / conf.lSec
  let pl := state.processed / conf.lPl
  let sec := plSec % conf.geo.secPerPg
  let buf := state.buf.setOob plSec .nameSpace
  let buf := buf.copySector conf.lSec (pl * conf.geo.secPerPg + sec) padI
  { buf := buf
    pad :=
      { state.pad with
        log := Function.update state.pad.log padI
          { state.pad.log padI with ppa := uppa.setSector pl sec }
        padded := state.pad.padded + 1 }
    processed := (state.processed + conf.lSec) % 2 ^ 16 }

/-- One round of the loop that marks the sectors left. -/
def markPadding (state : PadState) (plSec : Nat) : PadState :=
  { state with
    buf := state.buf.setOob plSec .padding
    processed := (state.processed + conf.lSec) % 2 ^ 16 }

/-- The write record of a user sector. -/
def padRecord (log : PadLog) : LogEntry :=
  LogEntry.ofWrite .write log.ts log.tid log.lba log.ppa 0

/-- One round of the loop that adds the records of the user sectors; `processed` is `last_proc`. -/
def addPadRecord (state : PadState) (padI : Nat) : PadState :=
  let (buf, lastProc) :=
    fillRecord conf (state.buf, state.processed) (padRecord (state.pad.log padI))
  { buf := buf
    pad := { state.pad with
      rsv := Function.update state.pad.rsv padI
        (state.processed / conf.lPl * conf.lPl + state.processed % conf.lPl) }
    processed := lastProc }

/-- `appftl_log_flush_padding`: the buffer, the user padding and the slots processed. -/
def appftlLogFlushUserPadding (buf : PageBuf) (pad : UserPad) (lastProc : Nat) :
    PageBuf × UserPad × Nat :=
  let processed := alignSector conf.lSec lastProc
  if processed = conf.logsPerPg then (buf, pad, processed)
  else
    let plSec := processed / conf.lSec
    -- the records of the user sectors may reach into a new sector
    let slotsLeft := conf.lSec - lastProc % conf.lSec
    let realPad := min (conf.geo.secPerPlPg - plSec) (min slotsLeft pad.count)
    let processed := alignSector conf.lSec (lastProc + realPad)
    if processed = conf.logsPerPg then
      (buf.setOob (conf.geo.secPerPlPg - 1) .padding, pad, processed)
    else
      let state := (List.range realPad).foldl (copyUser conf uppa) ⟨buf, pad, processed⟩
      let left := state.processed / conf.lSec
      let state :=
        (List.range' left (conf.geo.secPerPlPg - left)).foldl (markPadding conf) state
      let records :=
        (List.range realPad).foldl (addPadRecord conf) { state with processed := lastProc }
      (records.buf, records.pad, state.processed)

/-- A page with `lastProc` records before the padding: the records of the user sectors follow them,
the user sectors begin at sector `first`, and the rest of the page is empty.  Each sector has the
type of what it holds. -/
structure PaddedPage (lastProc first : Nat) (before : PageBuf) (pad : UserPad)
    (after : PageBuf × UserPad × Nat) : Prop where
  returned : after.2.2 = conf.logsPerPg
  inside : ∀ sec ∈ after.1.touched, sec < conf.geo.secPerPlPg
  most : after.2.1.padded ≤ pad.count
  apart : lastProc + after.2.1.padded ≤ first * conf.lSec
  fits : first + after.2.1.padded ≤ conf.geo.secPerPlPg
  kept : ∀ slot < lastProc, after.1.cells slot = before.cells slot
  records : ∀ i < after.2.1.padded, after.1.cells (lastProc + i) =
    .record (padRecord { pad.log i with
      ppa := uppa.setSector ((first + i) / conf.geo.secPerPg) ((first + i) % conf.geo.secPerPg) })
  user : ∀ i < after.2.1.padded, ∀ slot, slot / conf.lSec = first + i →
    after.1.cells slot = .user i (slot % conf.lSec)
  blank : ∀ slot < conf.logsPerPg, lastProc + after.2.1.padded ≤ slot →
    ¬ (first ≤ slot / conf.lSec ∧ slot / conf.lSec < first + after.2.1.padded) →
      after.1.cells slot = .blank
  oob : ∀ sec < conf.geo.secPerPlPg, after.1.oob sec =
    if sec * conf.lSec < lastProc + after.2.1.padded then .log
    else if first ≤ sec ∧ sec < first + after.2.1.padded then .nameSpace
    else .padding

/-- The records fill whole sectors, and with a record for each user sector that fits behind them the
user sectors do not fit any more. -/
def Overflows (lastProc count : Nat) : Prop :=
  conf.lSec ∣ lastProc ∧ lastProc / conf.lSec + 1 < conf.geo.secPerPlPg ∧
    conf.geo.secPerPlPg - lastProc / conf.lSec ≤ min conf.lSec count

instance (lastProc count : Nat) : Decidable (Overflows conf lastProc count) :=
  inferInstanceAs (Decidable (_ ∧ _ ∧ _))

/-! ## Layout -/

namespace PadConf

theorem logs_eq : conf.logsPerPg = conf.geo.secPerPlPg * conf.lSec :=
  (Nat.mul_div_cancel' conf.aligned).symm

theorem lSec_pos : 0 < conf.lSec :=
  Nat.div_pos (Nat.le_of_dvd conf.logs_pos conf.aligned) conf.geo.secPerPlPg_pos

theorem lPl_eq : conf.lPl = conf.geo.secPerPg * conf.lSec := by
  have planes : conf.logsPerPg = conf.geo.nOfPlanes * (conf.geo.secPerPg * conf.lSec) := by
    rw [conf.logs_eq, Geometry.secPerPlPg, Nat.mul_comm conf.geo.secPerPg, Nat.mul_assoc]
  rw [lPl, planes, Nat.mul_div_cancel_left _ conf.geo.pl_pos]

/-- The plane of the slots of a sector. -/
theorem sector_div_lPl (sec : Nat) : sec * conf.lSec / conf.lPl = sec / conf.geo.secPerPg := by
  rw [conf.lPl_eq, Nat.mul_div_mul_right _ _ conf.lSec_pos]

theorem sector_div_lSec (sec : Nat) : sec * conf.lSec / conf.lSec = sec :=
  Nat.mul_div_cancel _ conf.lSec_pos

theorem sector_le {sec : Nat} (le : sec ≤ conf.geo.secPerPlPg) :
    sec * conf.lSec ≤ conf.logsPerPg := by
  rw [conf.logs_eq]
  exact Nat.mul_le_mul_right _ le

theorem slot_lt {slot : Nat} (lt : slot < conf.logsPerPg) :
    slot / conf.lSec < conf.geo.secPerPlPg := by
  rw [conf.logs_eq, Nat.mul_comm] at lt
  exact Nat.div_lt_of_lt_mul lt

end PadConf

/-- The slot behind the last sector that is in use. -/
theorem alignSector_spec {lSec : Nat} (pos : 0 < lSec) (processed : Nat) :
    ∃ sec, alignSector lSec processed = sec * lSec ∧ processed ≤ sec * lSec ∧
      sec * lSec < processed + lSec := by
  have parts := Nat.div_add_mod processed lSec
  have rest := Nat.mod_lt processed pos
  rw [Nat.mul_comm] at parts
  unfold alignSector
  split
  · refine ⟨processed / lSec + 1, ?_, ?_, ?_⟩ <;> rw [Nat.succ_mul] <;> omega
  · exact ⟨processed / lSec, by omega, by omega, by omega⟩

/-- Sectors whose slots overlap are the same. -/
theorem sector_unique (lSec : Nat) {first second : Nat}
    (below : first * lSec < second * lSec + lSec)
    (above : second * lSec < first * lSec + lSec) : first = second := by
  rw [← Nat.succ_mul] at below above
  exact Nat.le_antisymm (Nat.lt_succ_iff.mp (Nat.lt_of_mul_lt_mul_right below))
    (Nat.lt_succ_iff.mp (Nat.lt_of_mul_lt_mul_right above))

/-! ## The loops -/

variable {conf uppa}

/-- One record. -/
theorem fillRecord_spec (buf : PageBuf) (processed : Nat) (entry : LogEntry) :
    (fillRecord conf (buf, processed) entry).2 = processed + 1 ∧
      (fillRecord conf (buf, processed) entry).1.cells =
        Function.update buf.cells processed (.record entry) ∧
      (∀ sec, (fillRecord conf (buf, processed) entry).1.oob sec =
        if sec * conf.lSec = processed then .log else buf.oob sec) ∧
      ∀ sec ∈ (fillRecord conf (buf, processed) entry).1.touched,
        sec ∈ buf.touched ∨ sec = processed / conf.lSec := by
  have slot : processed / conf.lPl * conf.lPl + processed % conf.lPl = processed :=
    Nat.div_add_mod' _ _
  unfold fillRecord
  by_cases first : processed % conf.lSec = 0
  · simp only [first, if_true, slot]
    refine ⟨trivial, rfl, fun sec => ?_, fun sec mem => ?_⟩
    · have same : sec = processed / conf.lSec ↔ sec * conf.lSec = processed := by
        constructor
        · rintro rfl
          exact Nat.div_mul_cancel (Nat.dvd_of_mod_eq_zero first)
        · rintro rfl
          exact (conf.sector_div_lSec sec).symm
      simp only [PageBuf.copyRecord, PageBuf.setOob, Function.update_apply, same]
    · simpa [PageBuf.copyRecord, PageBuf.setOob, or_assoc] using mem
  · simp only [first, if_false, slot]
    refine ⟨trivial, rfl, fun sec => ?_, fun sec mem => ?_⟩
    · have ne : sec * conf.lSec ≠ processed := by
        rintro rfl
        exact first (Nat.mul_mod_left _ _)
      rw [if_neg ne]
      rfl
    · simpa [PageBuf.copyRecord] using mem

/-- A page with `processed` records: the other slots are empty, and the sectors that are in use are
marked. -/
structure Filled (conf : PadConf) (processed : Nat) (buf : PageBuf) : Prop where
  blank : ∀ slot, processed ≤ slot → buf.cells slot = .blank
  log : ∀ sec, sec * conf.lSec < processed → buf.oob sec = .log
  inside : processed ≤ conf.logsPerPg → ∀ sec ∈ buf.touched, sec < conf.geo.secPerPlPg

theorem Filled.append {buf : PageBuf} {processed : Nat} (filled : Filled conf processed buf)
    (entry : LogEntry) :
    Filled conf (processed + 1) (fillRecord conf (buf, processed) entry).1 := by
  obtain ⟨-, cells, oob, touched⟩ := @fillRecord_spec conf buf processed entry
  constructor
  · intro slot le
    have ne : slot ≠ processed := by omega
    rw [cells, Function.update_of_ne ne]
    exact filled.blank slot (by omega)
  · intro sec lt
    rw [oob]
    split
    · rfl
    · exact filled.log sec (by omega)
  · intro le sec mem
    rcases touched sec mem with mem | rfl
    · exact filled.inside (by omega) sec mem
    · exact conf.slot_lt le

theorem filled_foldl {buf : PageBuf} {processed : Nat} (filled : Filled conf processed buf)
    (records : List LogEntry) :
    Filled conf (processed + records.length)
        (records.foldl (fillRecord conf) (buf, processed)).1 ∧
      (records.foldl (fillRecord conf) (buf, processed)).2 = processed + records.length := by
  induction records generalizing buf processed with
  | nil => exact ⟨filled, rfl⟩
  | cons entry records ih =>
      have next := ih (filled.append entry)
      have count := (@fillRecord_spec conf buf processed entry).1
      rw [List.foldl_cons, List.length_cons, Nat.add_comm records.length 1, ← Nat.add_assoc]
      rw [← count] at next ⊢
      exact next

/-- `appftl_log_flush_fill_pg` hands such a page to the padding. -/
theorem fillRecords_spec (oob : Nat → PgType) (pointer : LogEntry) (records : List LogEntry) :
    Filled conf (records.length + 1) (fillRecords conf oob pointer records).1 ∧
      (fillRecords conf oob pointer records).2 = records.length + 1 := by
  have begun : Filled conf 1
      (((PageBuf.setOob { cells := fun _ => .blank, oob := oob } 0 .log)).copyRecord conf.lSec 0
        pointer) := by
    constructor
    · intro slot le
      have ne : slot ≠ 0 := by omega
      simp only [PageBuf.copyRecord, PageBuf.setOob, Function.update_of_ne ne]
    · intro sec lt
      have zero : sec = 0 := by
        by_contra some
        have := Nat.mul_pos (Nat.pos_of_ne_zero some) conf.lSec_pos
        omega
      simp only [zero, PageBuf.copyRecord, PageBuf.setOob, Function.update_self]
    · intro _ sec mem
      have zero : sec = 0 := by
        simpa [PageBuf.setOob, PageBuf.copyRecord] using mem
      rw [zero]
      exact conf.geo.secPerPlPg_pos
  rw [Nat.add_comm]
  exact filled_foldl begun records

/-- The user sectors have been copied, `n` of them from sector `first` on. -/
structure Copied (conf : PadConf) (uppa : Ppa) (first n : Nat) (before after : PadState) :
    Prop where
  processed : after.processed = (first + n) * conf.lSec
  padded : after.pad.padded = before.pad.padded + n
  log : ∀ i, after.pad.log i =
    if i < n then
      { before.pad.log i with
        ppa := uppa.setSector ((first + i) / conf.geo.secPerPg) ((first + i) % conf.geo.secPerPg) }
    else before.pad.log i
  cells : ∀ slot, after.buf.cells slot =
    if first ≤ slot / conf.lSec ∧ slot / conf.lSec < first + n then
      .user (slot / conf.lSec - first) (slot % conf.lSec)
    else before.buf.cells slot
  oob : ∀ sec, after.buf.oob sec =
    if first ≤ sec ∧ sec < first + n then .nameSpace else before.buf.oob sec
  touched : ∀ sec ∈ after.buf.touched, sec ∈ before.buf.touched ∨ sec < first + n

theorem copyUsers_spec {state : PadState} {first : Nat}
    (start : state.processed = first * conf.lSec) (n : Nat)
    (room : first + n ≤ conf.geo.secPerPlPg) :
    Copied conf uppa first n state ((List.range n).foldl (copyUser conf uppa) state) := by
  induction n with
  | zero =>
      refine ⟨start, rfl, by simp, fun slot => ?_, fun sec => ?_, fun sec mem => Or.inl mem⟩
      · rw [if_neg (by omega)]
        rfl
      · rw [if_neg (by omega)]
        rfl
  | succ n ih =>
      have copied := ih (by omega)
      rw [List.range_succ, List.foldl_append, List.foldl_cons, List.foldl_nil]
      generalize (List.range n).foldl (copyUser conf uppa) state = middle at copied
      have here : (first + n) / conf.geo.secPerPg * conf.geo.secPerPg +
          (first + n) % conf.geo.secPerPg = first + n := Nat.div_add_mod' _ _
      unfold copyUser
      simp only [copied.processed, conf.sector_div_lSec, conf.sector_div_lPl, here]
      refine ⟨?_, ?_, fun i => ?_, fun slot => ?_, fun sec => ?_, fun sec mem => ?_⟩
      · have le := conf.sector_le room
        rw [← Nat.add_assoc, Nat.succ_mul] at le
        rw [Nat.mod_eq_of_lt (le.trans_lt conf.lt), ← Nat.add_assoc, Nat.succ_mul]
      · rw [copied.padded, Nat.add_assoc]
      · simp only [Function.update_apply, copied.log]
        by_cases last : i = n
        · simp [last]
        · have same : i < n + 1 ↔ i < n := by omega
          simp only [last, same, if_false]
      · simp only [PageBuf.copySector, PageBuf.setOob, copied.cells]
        by_cases last : slot / conf.lSec = first + n
        · simp [last]
        · have same : slot / conf.lSec < first + (n + 1) ↔ slot / conf.lSec < first + n := by omega
          simp only [last, same, if_false]
      · simp only [PageBuf.copySector, PageBuf.setOob, Function.update_apply, copied.oob]
        by_cases last : sec = first + n
        · simp [last]
        · have same : sec < first + (n + 1) ↔ sec < first + n := by omega
          simp only [last, same, if_false]
      · simp only [PageBuf.copySector, PageBuf.setOob, List.mem_append, List.mem_singleton] at mem
        rcases mem with (mem | rfl) | rfl
        · exact (copied.touched sec mem).imp_right fun lt => by omega
        · exact Or.inr (by omega)
        · exact Or.inr (by omega)

/-- The sectors left have been marked, `n` of them from sector `first` on. -/
structure Marked (conf : PadConf) (first n : Nat) (before after : PadState) : Prop where
  processed : after.processed = (first + n) * conf.lSec
  pad : after.pad = before.pad
  cells : after.buf.cells = before.buf.cells
  oob : ∀ sec, after.buf.oob sec =
    if first ≤ sec ∧ sec < first + n then .padding else before.buf.oob sec
  touched : ∀ sec ∈ after.buf.touched, sec ∈ before.buf.touched ∨ sec < first + n

theorem markPaddings_spec {state : PadState} {first : Nat}
    (start : state.processed = first * conf.lSec) (n : Nat)
    (room : first + n ≤ conf.geo.secPerPlPg) :
    Marked conf first n state ((List.range' first n).foldl (markPadding conf) state) := by
  induction n with
  | zero =>
      refine ⟨start, rfl, rfl, fun sec => ?_, fun sec mem => Or.inl mem⟩
      rw [if_neg (by omega)]
      rfl
  | succ n ih =>
      have marked := ih (by omega)
      rw [List.range'_1_concat, List.foldl_append, List.foldl_cons, List.foldl_nil]
      generalize (List.range' first n).foldl (markPadding conf) state = middle at marked
      unfold markPadding
      refine ⟨?_, marked.pad, marked.cells, fun sec => ?_, fun sec mem => ?_⟩
      · have le := conf.sector_le room
        rw [← Nat.add_assoc, Nat.succ_mul] at le
        simp only [marked.processed]
        rw [Nat.mod_eq_of_lt (le.trans_lt conf.lt), ← Nat.add_assoc, Nat.succ_mul]
      · simp only [PageBuf.setOob, Function.update_apply, marked.oob]
        by_cases last : sec = first + n
        · simp [last]
        · have same : sec < first + (n + 1) ↔ sec < first + n := by omega
          simp only [last, same, if_false]
      · simp only [PageBuf.setOob, List.mem_append, List.mem_singleton] at mem
        rcases mem with mem | rfl
        · exact (marked.touched sec mem).imp_right fun lt => by omega
        · exact Or.inr (by omega)

/-- The records of `n` user sectors have been added behind slot `lastProc`. -/
structure Recorded (conf : PadConf) (lastProc n : Nat) (before after : PadState) : Prop where
  processed : after.processed = lastProc + n
  padded : after.pad.padded = before.pad.padded
  log : after.pad.log = before.pad.log
  cells : ∀ slot, after.buf.cells slot =
    if lastProc ≤ slot ∧ slot < lastProc + n then
      .record (padRecord (before.pad.log (slot - lastProc)))
    else before.buf.cells slot
  oob : ∀ sec, after.buf.oob sec =
    if lastProc ≤ sec * conf.lSec ∧ sec * conf.lSec < lastProc + n then .log
    else before.buf.oob sec
  touched : ∀ sec ∈ after.buf.touched, sec ∈ before.buf.touched ∨
    ∃ slot < lastProc + n, sec = slot / conf.lSec

theorem addPadRecords_spec {state : PadState} {lastProc : Nat} (start : state.processed = lastProc)
    (n : Nat) :
    Recorded conf lastProc n state ((List.range n).foldl (addPadRecord conf) state) := by
  induction n with
  | zero =>
      refine ⟨start, rfl, rfl, fun slot => ?_, fun sec => ?_, fun sec mem => Or.inl mem⟩
      · rw [if_neg (by omega)]
        rfl
      · rw [if_neg (by omega)]
        rfl
  | succ n ih =>
      rw [List.range_succ, List.foldl_append, List.foldl_cons, List.foldl_nil]
      generalize (List.range n).foldl (addPadRecord conf) state = middle at ih
      obtain ⟨next, cells, oob, touched⟩ := @fillRecord_spec conf middle.buf middle.processed
        (padRecord (middle.pad.log n))
      rw [ih.processed] at next cells oob touched
      unfold addPadRecord
      simp only [ih.processed]
      refine ⟨next.trans (Nat.add_assoc ..), ih.padded, ih.log, fun slot => ?_, fun sec => ?_,
        fun sec mem => ?_⟩
      · simp only [cells]
        simp only [Function.update_apply, ih.cells, ih.log]
        by_cases last : slot = lastProc + n
        · simp [last]
        · have same : slot < lastProc + (n + 1) ↔ slot < lastProc + n := by omega
          simp only [last, same, if_false]
      · simp only [oob, ih.oob]
        by_cases last : sec * conf.lSec = lastProc + n
        · simp [last]
        · have same : sec * conf.lSec < lastProc + (n + 1) ↔ sec * conf.lSec < lastProc + n := by
            omega
          simp only [last, same, if_false]
      · rcases touched sec mem with mem | rfl
        · refine (ih.touched sec mem).imp_right ?_
          rintro ⟨slot, lt, eq⟩
          exact ⟨slot, by omega, eq⟩
        · exact Or.inr ⟨_, by omega, rfl⟩

/-! ## The page -/

variable {buf : PageBuf} {pad : UserPad} {lastProc first n : Nat}

/-- The loops with room for the user sectors. -/
theorem paddedPage_of_loops (filled : Filled conf lastProc buf) (below : lastProc < conf.logsPerPg)
    (fresh : pad.padded = 0) (most : n ≤ pad.count) (apart : lastProc + n ≤ first * conf.lSec)
    (next : first * conf.lSec < lastProc + n + conf.lSec)
    (fits : first + n ≤ conf.geo.secPerPlPg) {copied marked added : PadState}
    (copy : Copied conf uppa first n ⟨buf, pad, first * conf.lSec⟩ copied)
    (mark : Marked conf (first + n) (conf.geo.secPerPlPg - (first + n)) copied marked)
    (add : Recorded conf lastProc n { marked with processed := lastProc } added) :
    PaddedPage conf uppa lastProc first buf pad (added.buf, added.pad, marked.processed) := by
  have padded : added.pad.padded = n := by
    rw [add.padded, mark.pad, copy.padded, fresh, Nat.zero_add]
  have whole : first + n + (conf.geo.secPerPlPg - (first + n)) = conf.geo.secPerPlPg := by omega
  -- the slots before the user sectors are those of lower sectors
  have lower : ∀ slot < lastProc + n, slot / conf.lSec < first := by
    intro slot lt
    exact Nat.div_lt_of_lt_mul (Nat.mul_comm first _ ▸ lt.trans_le apart)
  constructor
  · simp only [mark.processed, whole]
    exact conf.logs_eq.symm
  · intro sec mem
    rcases add.touched sec mem with mem | ⟨slot, lt, rfl⟩
    · rcases mark.touched sec mem with mem | lt
      · rcases copy.touched sec mem with mem | lt
        · exact filled.inside below.le sec mem
        · omega
      · omega
    · exact (lower slot lt).trans_le (by omega)
  · rw [padded]
    exact most
  · rwa [padded]
  · rwa [padded]
  · intro slot lt
    have low := lower slot (by omega)
    simp only [add.cells, mark.cells, copy.cells]
    rw [if_neg (by omega), if_neg (by omega)]
  · intro i lt
    rw [padded] at lt
    simp only [add.cells, mark.pad, copy.log]
    rw [if_pos (by omega), Nat.add_sub_cancel_left, if_pos lt]
  · intro i lt slot sector
    rw [padded] at lt
    have high : ¬ slot < lastProc + n := by
      intro low
      have := lower slot low
      omega
    simp only [add.cells, mark.cells, copy.cells]
    rw [if_neg (by omega), if_pos (by omega), sector, Nat.add_sub_cancel_left]
  · intro slot lt behind outside
    rw [padded] at behind outside
    simp only [add.cells, mark.cells, copy.cells]
    rw [if_neg (by omega), if_neg outside]
    exact filled.blank slot (by omega)
  · intro sec lt
    rw [padded]
    simp only [add.oob, mark.oob, copy.oob]
    by_cases inUse : sec * conf.lSec < lastProc + n
    · have low : sec < first :=
        Nat.lt_of_mul_lt_mul_right (inUse.trans_le apart)
      rw [if_pos inUse]
      split
      · rfl
      · rw [if_neg (by omega), if_neg (by omega)]
        exact filled.log sec (by omega)
    · have high : first ≤ sec := by
        have lt' : first * conf.lSec < (sec + 1) * conf.lSec := by
          rw [Nat.succ_mul]
          omega
        exact Nat.lt_succ_iff.mp (Nat.lt_of_mul_lt_mul_right lt')
      rw [if_neg inUse, if_neg fun both => inUse both.2]
      by_cases user : sec < first + n
      · rw [if_neg (by omega), if_pos ⟨high, user⟩, if_pos ⟨high, user⟩]
      · rw [if_pos (by omega), if_neg fun both => user both.2]

/-- The number of user sectors that the function tries to place. -/
def realPad (conf : PadConf) (lastProc count : Nat) : Nat :=
  min (conf.geo.secPerPlPg - alignSector conf.lSec lastProc / conf.lSec)
    (min (conf.lSec - lastProc % conf.lSec) count)

/-- The branch with loops. -/
theorem flushUserPadding_loops (buf : PageBuf) (pad : UserPad)
    (started : alignSector conf.lSec lastProc ≠ conf.logsPerPg)
    (aligned : alignSector conf.lSec (lastProc + realPad conf lastProc pad.count) =
      first * conf.lSec) (room : first < conf.geo.secPerPlPg) :
    appftlLogFlushUserPadding conf uppa buf pad lastProc =
      let copied := (List.range (realPad conf lastProc pad.count)).foldl (copyUser conf uppa)
        ⟨buf, pad, first * conf.lSec⟩
      let left := copied.processed / conf.lSec
      let marked := (List.range' left (conf.geo.secPerPlPg - left)).foldl (markPadding conf) copied
      let added := (List.range (realPad conf lastProc pad.count)).foldl (addPadRecord conf)
        { marked with processed := lastProc }
      (added.buf, added.pad, marked.processed) := by
  have ne : first * conf.lSec ≠ conf.logsPerPg := by
    rw [conf.logs_eq]
    exact (Nat.mul_lt_mul_of_pos_right room conf.lSec_pos).ne
  unfold realPad at aligned ⊢
  rw [appftlLogFlushUserPadding, if_neg started]
  simp only [aligned]
  rw [if_neg ne]

/-- The two alignments: sector `sec` is the first one without records, and sector `first` the first
one once the records of the user sectors are counted. -/
structure Alignments (conf : PadConf) (lastProc count sec first : Nat) : Prop where
  started : alignSector conf.lSec lastProc = sec * conf.lSec
  near : sec * conf.lSec < lastProc + conf.lSec
  again : alignSector conf.lSec (lastProc + realPad conf lastProc count) = first * conf.lSec
  apart : lastProc + realPad conf lastProc count ≤ first * conf.lSec
  next : first * conf.lSec < lastProc + realPad conf lastProc count + conf.lSec
  /-- They differ when the records fill whole sectors. -/
  cases : lastProc = sec * conf.lSec ∧ realPad conf lastProc count = 0 ∧ first = sec ∨
    lastProc = sec * conf.lSec ∧ 0 < realPad conf lastProc count ∧ first = sec + 1 ∨
    ¬ conf.lSec ∣ lastProc ∧ first = sec

theorem alignments (conf : PadConf) (lastProc count : Nat) :
    ∃ sec first, Alignments conf lastProc count sec first := by
  have pos := conf.lSec_pos
  obtain ⟨sec, alignedSec, leSec, ltSec⟩ := alignSector_spec pos lastProc
  obtain ⟨first, alignedFirst, leFirst, ltFirst⟩ :=
    alignSector_spec pos (lastProc + realPad conf lastProc count)
  refine ⟨sec, first, alignedSec, ltSec, alignedFirst, leFirst, ltFirst, ?_⟩
  have room : realPad conf lastProc count ≤ conf.lSec - lastProc % conf.lSec :=
    (Nat.min_le_right _ _).trans (Nat.min_le_left _ _)
  by_cases whole : conf.lSec ∣ lastProc
  · have same : lastProc = sec * conf.lSec := by
      rw [← alignedSec, alignSector, if_neg (not_not.mpr (Nat.mod_eq_zero_of_dvd whole))]
    rcases Nat.eq_zero_or_pos (realPad conf lastProc count) with none | some
    · refine Or.inl ⟨same, none, ?_⟩
      apply sector_unique conf.lSec <;> omega
    · refine Or.inr (Or.inl ⟨same, some, ?_⟩)
      apply sector_unique conf.lSec <;> rw [Nat.succ_mul] <;> omega
  · refine Or.inr (Or.inr ⟨whole, ?_⟩)
    have parts := Nat.div_add_mod lastProc conf.lSec
    rw [Nat.mul_comm] at parts
    have rest := Nat.mod_lt lastProc pos
    have some : lastProc % conf.lSec ≠ 0 := fun zero => whole (Nat.dvd_of_mod_eq_zero zero)
    have behind : sec = lastProc / conf.lSec + 1 := by
      apply sector_unique conf.lSec <;> rw [Nat.succ_mul] <;> omega
    have sum := congrArg (· * conf.lSec) behind
    simp only [Nat.succ_mul] at sum
    apply sector_unique conf.lSec <;> omega

theorem realPad_eq {sec : Nat} (aligned : Alignments conf lastProc n sec first) :
    realPad conf lastProc n =
      min (conf.geo.secPerPlPg - sec) (min (conf.lSec - lastProc % conf.lSec) n) := by
  rw [realPad, aligned.started, conf.sector_div_lSec]

/-- The records and the user sectors fit. -/
theorem paddedPage_of_fits (filled : Filled conf lastProc buf) (below : lastProc < conf.logsPerPg)
    (fresh : pad.padded = 0) (fit : ¬ Overflows conf lastProc pad.count) :
    ∃ first, PaddedPage conf uppa lastProc first buf pad
      (appftlLogFlushUserPadding conf uppa buf pad lastProc) := by
  obtain ⟨sec, first, aligned⟩ := alignments conf lastProc pad.count
  have pos := conf.lSec_pos
  have logs := conf.logs_eq
  have real := realPad_eq aligned
  have near := aligned.near
  by_cases full : alignSector conf.lSec lastProc = conf.logsPerPg
  · -- the last sector holds records
    have last : sec = conf.geo.secPerPlPg := by
      rw [aligned.started, logs] at full
      exact Nat.eq_of_mul_eq_mul_right pos full
    rw [appftlLogFlushUserPadding, if_pos full, full]
    refine ⟨conf.geo.secPerPlPg, rfl, filled.inside below.le, ?_, ?_, ?_, fun _ _ => rfl, ?_, ?_,
      ?_, ?_⟩
    · simp only [fresh, Nat.zero_le]
    · simp only [fresh, ← logs]
      exact below.le
    · simp only [fresh, Nat.add_zero, le_refl]
    · simp only [fresh, Nat.not_lt_zero, false_imp_iff, implies_true]
    · simp only [fresh, Nat.not_lt_zero, false_imp_iff, implies_true]
    · intro slot _ behind _
      exact filled.blank slot (by simpa [fresh] using behind)
    · intro other lt
      have inUse : other * conf.lSec < lastProc := by
        have le : (other + 1) * conf.lSec ≤ sec * conf.lSec :=
          Nat.mul_le_mul_right _ (last ▸ lt)
        rw [Nat.succ_mul] at le
        omega
      simp only [fresh, Nat.add_zero]
      rw [if_pos inUse]
      exact filled.log other inUse
  · have secLt : sec < conf.geo.secPerPlPg := by
      rw [logs] at below
      have lt : sec * conf.lSec < (conf.geo.secPerPlPg + 1) * conf.lSec := by
        rw [Nat.succ_mul]
        omega
      refine (Nat.lt_succ_iff.mp (Nat.lt_of_mul_lt_mul_right lt)).lt_of_ne fun same => full ?_
      rw [aligned.started, same, logs]
    by_cases end' : first = conf.geo.secPerPlPg
    · -- only the records of the user sectors would be in the last sector: it is left empty
      obtain ⟨same, some, next⟩ :=
        (aligned.cases.resolve_left (by omega)).resolve_right (by omega)
      have fullAgain : alignSector conf.lSec (lastProc + realPad conf lastProc pad.count) =
          conf.logsPerPg := by rw [aligned.again, end', logs]
      unfold realPad at fullAgain
      rw [appftlLogFlushUserPadding, if_neg full]
      simp only [fullAgain, if_true]
      refine ⟨conf.geo.secPerPlPg, rfl, ?_, ?_, ?_, ?_, fun _ _ => rfl, ?_, ?_, ?_, ?_⟩
      · intro other mem
        rcases List.mem_append.mp mem with mem | mem
        · exact filled.inside below.le other mem
        · rw [List.mem_singleton.mp mem]
          omega
      · simp only [fresh, Nat.zero_le]
      · simp only [fresh, ← logs]
        exact below.le
      · simp only [fresh, Nat.add_zero, le_refl]
      · simp only [fresh, Nat.not_lt_zero, false_imp_iff, implies_true]
      · simp only [fresh, Nat.not_lt_zero, false_imp_iff, implies_true]
      · intro slot _ behind _
        exact filled.blank slot (by simpa [fresh] using behind)
      · intro other lt
        simp only [fresh, Nat.add_zero, PageBuf.setOob, Function.update_apply]
        by_cases isLast : other = conf.geo.secPerPlPg - 1
        · have eq : other = sec := by omega
          rw [if_pos isLast, if_neg (by rw [eq]; omega), if_neg (by omega)]
        · have inUse : other * conf.lSec < lastProc := by
            rw [same]
            exact Nat.mul_lt_mul_of_pos_right (by omega) pos
          rw [if_neg isLast, if_pos inUse]
          exact filled.log other inUse
    · have fits : first + realPad conf lastProc pad.count ≤ conf.geo.secPerPlPg := by
        rcases aligned.cases with ⟨-, none, eq⟩ | ⟨same, some, eq⟩ | ⟨-, eq⟩
        · omega
        · have sector : lastProc / conf.lSec = sec := by rw [same, conf.sector_div_lSec]
          have whole : lastProc % conf.lSec = 0 := by rw [same, Nat.mul_mod_left]
          have noRoom : ¬ conf.geo.secPerPlPg - sec ≤ min conf.lSec pad.count := by
            intro many
            exact fit ⟨Nat.dvd_of_mod_eq_zero whole, by omega, by rwa [sector]⟩
          rw [whole, Nat.sub_zero] at real
          omega
        · omega
      have most : realPad conf lastProc pad.count ≤ pad.count :=
        (Nat.min_le_right _ _).trans (Nat.min_le_right _ _)
      refine ⟨first, ?_⟩
      rw [flushUserPadding_loops buf pad full aligned.again (by omega)]
      have copy := @copyUsers_spec conf uppa ⟨buf, pad, first * conf.lSec⟩ first rfl
        (realPad conf lastProc pad.count) fits
      simp only
      rw [copy.processed, conf.sector_div_lSec]
      have mark := markPaddings_spec copy.processed
        (conf.geo.secPerPlPg - (first + realPad conf lastProc pad.count)) (by omega)
      exact paddedPage_of_loops filled below fresh most aligned.apart aligned.next fits copy mark
        (@addPadRecords_spec conf _ lastProc rfl _)

/-! ## The overflow -/

section Touched

variable {sec : Nat} {state : PadState}

theorem mem_touched_foldl {f : PadState → Nat → PadState}
    (grows : ∀ state i, sec ∈ state.buf.touched → sec ∈ (f state i).buf.touched)
    (mem : sec ∈ state.buf.touched) (list : List Nat) :
    sec ∈ (list.foldl f state).buf.touched := by
  induction list generalizing state with
  | nil => exact mem
  | cons i list ih => exact ih (grows state i mem)

theorem markPadding_touched (state : PadState) (i : Nat) (mem : sec ∈ state.buf.touched) :
    sec ∈ (markPadding conf state i).buf.touched :=
  List.mem_append_left _ mem

theorem addPadRecord_touched (state : PadState) (i : Nat) (mem : sec ∈ state.buf.touched) :
    sec ∈ (addPadRecord conf state i).buf.touched := by
  unfold addPadRecord fillRecord
  apply List.mem_append_left
  split
  · exact List.mem_append_left _ mem
  · exact mem

end Touched

/-- The last user sector is copied behind the page. -/
theorem touched_of_overflows (buf : PageBuf) {pad : UserPad}
    (overflows : Overflows conf lastProc pad.count) :
    conf.geo.secPerPlPg ∈ (appftlLogFlushUserPadding conf uppa buf pad lastProc).1.touched := by
  obtain ⟨whole, two, many⟩ := overflows
  obtain ⟨sec, first, aligned⟩ := alignments conf lastProc pad.count
  have real := realPad_eq aligned
  have started : sec = lastProc / conf.lSec := by
    rw [← conf.sector_div_lSec sec, ← aligned.started, alignSector,
      if_neg (not_not.mpr (Nat.mod_eq_zero_of_dvd whole))]
  rw [Nat.mod_eq_zero_of_dvd whole, Nat.sub_zero, started] at real
  have behind : first = sec + 1 := by
    rcases aligned.cases with ⟨-, none, -⟩ | ⟨-, -, eq⟩ | ⟨not, -⟩
    · omega
    · exact eq
    · exact absurd whole not
  have notFull : alignSector conf.lSec lastProc ≠ conf.logsPerPg := by
    rw [aligned.started, conf.logs_eq]
    exact (Nat.mul_lt_mul_of_pos_right (by omega) conf.lSec_pos).ne
  rw [flushUserPadding_loops buf pad notFull aligned.again (by omega)]
  apply mem_touched_foldl addPadRecord_touched
  apply mem_touched_foldl markPadding_touched
  -- the round for the last user sector is at the end of the page
  obtain ⟨n, count⟩ : ∃ n, realPad conf lastProc pad.count = n + 1 :=
    ⟨realPad conf lastProc pad.count - 1, by omega⟩
  have copied := @copyUsers_spec conf uppa ⟨buf, pad, first * conf.lSec⟩ first rfl n (by omega)
  have last : first + n = conf.geo.secPerPlPg := by omega
  rw [count, List.range_succ, List.foldl_append, List.foldl_cons, List.foldl_nil]
  simp [copyUser, PageBuf.copySector, PageBuf.setOob, copied.processed, conf.sector_div_lSec, last]

/-- After any records, and for any number of user sectors, the page is padded correctly exactly when
it does not overflow. -/
theorem padded_page_iff (conf : PadConf) (uppa : Ppa) (oob : Nat → PgType) (pointer : LogEntry)
    (records : List LogEntry) (count : Nat) (log : Nat → PadLog)
    (room : records.length + 1 < conf.logsPerPg) :
    (∃ first, PaddedPage conf uppa (records.length + 1) first
      (fillRecords conf oob pointer records).1
      { count := count, log := log }
      (appftlLogFlushUserPadding conf uppa (fillRecords conf oob pointer records).1
        { count := count, log := log } (fillRecords conf oob pointer records).2)) ↔
      ¬ Overflows conf (records.length + 1) count := by
  obtain ⟨filled, processed⟩ := @fillRecords_spec conf oob pointer records
  rw [processed]
  constructor
  · rintro ⟨first, page⟩ overflows
    have outside := page.inside _ (touched_of_overflows _ overflows)
    exact lt_irrefl _ outside
  · exact fun fit =>
      @paddedPage_of_fits conf uppa _ { count := count, log := log } _ filled room rfl fit

theorem padSmall_aligned : 4 ∣ 16 := ⟨4, rfl⟩

theorem padSmall_sec_pos : 0 < 4 := by decide

theorem padSmall_sec_le : 4 ≤ 8 := by decide

theorem padSmall_lt : 16 < 2 ^ 16 := by decide

/-- Pages with four sectors of four slots. -/
def PadConf.small : PadConf where
  geo := { Geometry.small with
    secPerPg := 4
    sec_pos := padSmall_sec_pos
    sec_le := padSmall_sec_le }
  logsPerPg := 16
  logs_pos := Nat.succ_pos 15
  lt := padSmall_lt
  aligned := padSmall_aligned

/-- Three user sectors with the timestamps 20, 21 and 22. -/
def smallLog (i : Nat) : PadLog where
  ts := 20 + i
  tid := 9
  lba := 100 + i

/-- A page with five records has room for the records of two user sectors and for the sectors. -/
theorem padded_page_five :
    (∃ first, PaddedPage .small 0 (([.zero, .zero, .zero, .zero] : List LogEntry).length + 1) first
      (fillRecords .small (fun _ => .reserved) .zero [.zero, .zero, .zero, .zero]).1
      { count := 3, log := smallLog }
      (appftlLogFlushUserPadding .small 0
        (fillRecords .small (fun _ => .reserved) .zero [.zero, .zero, .zero, .zero]).1
        { count := 3, log := smallLog }
        (fillRecords .small (fun _ => .reserved) .zero [.zero, .zero, .zero, .zero]).2)) ↔
      ¬ Overflows .small (([.zero, .zero, .zero, .zero] : List LogEntry).length + 1) 3 :=
  padded_page_iff .small 0 (fun _ => .reserved) .zero [.zero, .zero, .zero, .zero] 3 smallLog
    (by decide)

/-- Four records fill the first sector: the records of three user sectors need the second one, and
the last user sector is copied behind the page. -/
theorem page_overflows :
    ¬ ∃ first, PaddedPage .small 0 4 first
      (fillRecords .small (fun _ => .reserved) .zero [.zero, .zero, .zero]).1
      { count := 3, log := smallLog }
      (appftlLogFlushUserPadding .small 0
        (fillRecords .small (fun _ => .reserved) .zero [.zero, .zero, .zero]).1
        { count := 3, log := smallLog } 4) := by
  rintro ⟨first, page⟩
  have returned := page.returned
  revert returned
  decide +kernel

end OxCtrl.Log
