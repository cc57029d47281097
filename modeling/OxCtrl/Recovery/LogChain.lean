import OxCtrl.Log.Attempts
import OxCtrl.Recovery.LogRead

/-!
# The chain of log pages and the read buffers

`oxb_recovery_log_read` has one read buffer for each channel, and the pointer to the
next page that it follows points into one of them.  Reading a page of the same channel
overwrites the address while it is in use: the commands for the other planes of the
page, the repair of the log block and the next candidate all take what stands in the
buffer by then.
-/

namespace OxCtrl.Recovery

open OxCtrl.Log

universe u

/-! ## The medium and the buffers -/

/-- A sector of a page in a read buffer; `isLog` tells that the type in its OOB area is
`APP_PG_LOG`. -/
structure LogSector where
  isLog : Bool := false
  slots : List LogEntry := []
  deriving DecidableEq, Repr

/-- The page that a read command names. -/
structure PgLoc where
  ch : Nat
  lun : Nat
  blk : Nat
  pg : Nat
  deriving DecidableEq, Repr

/-- The page that a command on a channel names: the channel of the address is not
looked at. -/
def pgLoc (ch addr : Nat) : PgLoc :=
  ⟨ch, (Ppa.ofNat addr).lun, (Ppa.ofNat addr).blk, (Ppa.ofNat addr).pg⟩

/-- Channel of an address. -/
def chOf (addr : Nat) : Nat :=
  (Ppa.ofNat addr).ch

/-- The medium: a page is read with one command for each plane, or with one command if
the media manager has `MMGR_FLAG_PL_CMD`.  A command that fails leaves the buffer as it
is. -/
structure Nvm where
  cmds : Nat
  read : PgLoc → Nat → Option (List LogSector)

/-- `io[ch]->pl_vec[pl]`. -/
abbrev Bufs := Nat → Nat → List LogSector

/-- A record in a read buffer. -/
structure BufPos where
  ch : Nat
  pl : Nat
  sec : Nat
  slot : Nat
  deriving DecidableEq, Repr

/-- The record at a position. -/
def bufEntry (io : Bufs) (pos : BufPos) : LogEntry :=
  (((io pos.ch pos.pl).getD pos.sec {}).slots).getD pos.slot LogEntry.zero

/-- `*ppa`, where `ppa` is `&ppa_list[list_i]`, or the head of the log at first. -/
def ppaAt (head : Nat) (ppaList : Option BufPos) (listI : Nat) (io : Bufs) : Nat :=
  match ppaList with
  | none => head
  | some pos => pick (nextPages (bufEntry io pos)) listI

/-- A buffer is filled. -/
def setBuf (io : Bufs) (ch pl : Nat) (sectors : List LogSector) : Bufs :=
  Function.update io ch (Function.update (io ch) pl sectors)

/-- `ftl_pg_io`: the address is taken from memory for every command. -/
def ftlPgIo (nvm : Nvm) (ch : Nat) (ppa : Bufs → Nat) : Nat → Nat → Bufs → Bufs × Bool
  | 0, _, io => (io, true)
  | left + 1, pl, io =>
      match nvm.read (pgLoc ch (ppa io)) pl with
      | none => (io, false)
      | some sectors => ftlPgIo nvm ch ppa left (pl + 1) (setBuf io ch pl sectors)

/-! ## The reader -/

section Reader

variable {ε : Type u} (oxapp : Oxapp ε)

/-- The records of a sector in `oxb_recovery_log_apply`; `pos` is the sector. -/
def logApplySlots (pos : Nat → BufPos) :
    List LogEntry → Nat → RecState ε × Option BufPos → RecState ε × Option BufPos
  | [], _, current => current
  | entry :: slots, i, (state, next) =>
      if entry.ts = 0 then (state, next)
      else if entry.type = .pointer then
        match next with
        | some _ => (state, next)
        | none => logApplySlots pos slots (i + 1) (state, some (pos i))
      else
        let (state, stop) := oxbRecoveryLogSwitch oxapp state entry
        if stop ≠ 0 then (state, next) else logApplySlots pos slots (i + 1) (state, next)

/-- The sectors of a plane in `oxb_recovery_log_apply`. -/
def logApplySectors (ch pl : Nat) :
    List LogSector → Nat → RecState ε × Option BufPos → RecState ε × Option BufPos
  | [], _, current => current
  | sector :: sectors, sec, current =>
      logApplySectors ch pl sectors (sec + 1)
        (if sector.isLog then logApplySlots oxapp (BufPos.mk ch pl sec) sector.slots 0 current
          else current)

/-- `oxb_recovery_log_apply` on the buffer of a channel. -/
def logApplyBuf (cmds : Nat) (io : Bufs) (ch : Nat) (state : RecState ε) :
    RecState ε × Option BufPos :=
  (List.range cmds).foldl (fun current pl => logApplySectors oxapp ch pl (io ch pl) 0 current)
    (state, none)

/-- The variables of `oxb_recovery_log_read`, with the log pages that were visited and
the addresses that were repaired so far. -/
structure Reader (ε : Type u) where
  state : RecState ε
  io : Bufs := fun _ _ => []
  ppaList : Option BufPos := none
  listI : Nat := 0
  visited : List (List (List LogSector)) := []
  fixed : List Nat := []

/-- `*ppa`. -/
def Reader.ppa (reader : Reader ε) (head : Nat) : Nat :=
  ppaAt head reader.ppaList reader.listI reader.io

/-- The body of the loop of `oxb_recovery_log_read`; the flag tells that the loop goes
on. -/
def readStep (nvm : Nvm) (head : Nat) (reader : Reader ε) : Reader ε × Bool :=
  let ch := chOf (reader.ppa head)
  let (io, ok) := ftlPgIo nvm ch (ppaAt head reader.ppaList reader.listI) nvm.cmds 0 reader.io
  let (state, ret) :=
    if ok then logApplyBuf oxapp nvm.cmds io ch reader.state else (reader.state, none)
  -- fix the log block itself and invalidate the log page
  let addr := ppaAt head reader.ppaList reader.listI io
  let reader :=
    { reader with state := fixLogPage oxapp state addr, io := io, fixed := reader.fixed ++ [addr] }
  match ret, reader.ppaList with
  | some next, _ =>
      ({ reader with
          ppaList := some next
          listI := 0
          visited := reader.visited ++ [(List.range nvm.cmds).map (io ch)] }, true)
  | none, none => (reader, false)
  | none, some _ =>
      if reader.listI < 2 then ({ reader with listI := reader.listI + 1 }, true)
      else (reader, false)

/-- The loop of `oxb_recovery_log_read`, for at most `rounds` pages. -/
def readLoop (nvm : Nvm) (head : Nat) : Nat → Reader ε → Reader ε
  | 0, reader => reader
  | rounds + 1, reader =>
      if reader.ppa head = 0 then reader
      else
        match readStep oxapp nvm head reader with
        | (reader, true) => readLoop nvm head rounds reader
        | (reader, false) => reader

end Reader

/-! ## A log page on the medium -/

/-- The sectors of a log page.  A sector with a record is of type `APP_PG_LOG`, the
others are padding. -/
def pageSectors (conf : PageConf) (page : LogPage) : List LogSector :=
  let lSec := conf.logsPerPg / conf.secPerPlPg
  (List.range conf.secPerPlPg).map fun sec =>
    let slots := (page.slots.drop (sec * lSec)).take lSec
    { isLog := slots.headD LogEntry.zero ≠ LogEntry.zero, slots := slots }

/-- The part of a log page that command `pl` reads. -/
def pagePart (conf : PageConf) (cmds : Nat) (page : LogPage) (pl : Nat) : List LogSector :=
  let sectors := conf.secPerPlPg / cmds
  ((pageSectors conf page).drop (pl * sectors)).take sectors

section Apply

variable {ε : Type u} (oxapp : Oxapp ε)

/-! ## Applying a page -/

/-- The slots behind the pointer of a page that the log wrote: records, and unused slots behind
them. -/
structure Padded (slots : List LogEntry) : Prop where
  entry : ∀ entry ∈ slots, entry = LogEntry.zero ∨ entry.IsRecord ∧ entry.ts ≠ 0
  behind : slots.Pairwise fun entry later => entry = LogEntry.zero → later = LogEntry.zero

theorem Padded.sublist {slots part : List LogEntry} (padded : Padded slots)
    (sublist : part.Sublist slots) : Padded part :=
  ⟨fun entry mem => padded.entry entry (sublist.subset mem), padded.behind.sublist sublist⟩

theorem padded_pageSlots {conf : PageConf} {records : List LogEntry}
    (proper : ∀ entry ∈ records, entry.IsRecord ∧ entry.ts ≠ 0) :
    Padded (records ++ List.replicate (conf.logsPerPg - 1 - records.length) LogEntry.zero) := by
  constructor
  · intro entry mem
    rcases List.mem_append.mp mem with record | unused
    · exact Or.inr (proper entry record)
    · exact Or.inl (List.eq_of_mem_replicate unused)
  · refine List.pairwise_append.mpr ⟨?_, List.pairwise_replicate.mpr (Or.inr fun _ => rfl), ?_⟩
    · refine List.Pairwise.imp_of_mem (fun mem _ _ isZero => ?_) (List.pairwise_of_forall
        (R := fun _ _ => True) fun _ _ => trivial)
      exact absurd (congrArg LogEntry.ts isZero) (proper _ mem).2
    · intro entry _ unused mem _
      exact List.eq_of_mem_replicate mem

theorem foldl_applySlot_unused {slots : List LogEntry}
    (unused : ∀ entry ∈ slots, entry = LogEntry.zero)
    (current : RecState ε × Option (Nat × Nat × Nat)) :
    slots.foldl (applySlot oxapp) current = current := by
  induction slots with
  | nil => rfl
  | cons entry slots ih =>
      obtain rfl := unused entry List.mem_cons_self
      exact ih fun other mem => unused other (List.mem_cons_of_mem _ mem)

/-- The loop over a sector ends at the first unused slot, behind which there is no record. -/
theorem logApplySlots_eq {slots : List LogEntry} (padded : Padded slots) (pos : Nat → BufPos)
    (i : Nat) (state : RecState ε) (next : Option BufPos) (list : Option (Nat × Nat × Nat)) :
    ∃ after, logApplySlots oxapp pos slots i (state, next) = (after, next) ∧
      slots.foldl (applySlot oxapp) (state, list) = (after, list) := by
  induction slots generalizing i state with
  | nil => exact ⟨state, rfl, rfl⟩
  | cons entry slots ih =>
      rcases padded.entry entry List.mem_cons_self with rfl | ⟨record, nonzero⟩
      · have unused : ∀ other ∈ slots, other = LogEntry.zero := fun other mem =>
          (List.pairwise_cons.mp padded.behind).1 other mem rfl
        exact ⟨state, rfl, foldl_applySlot_unused oxapp unused (state, list)⟩
      · have goesOn : (oxbRecoveryLogSwitch oxapp state entry).2 = 0 := by
          unfold oxbRecoveryLogSwitch
          split
          · rename_i kind
            exact absurd kind record.1
          · rename_i kind
            exact absurd kind record.2
          all_goals rfl
        have rest := ih (padded.sublist (List.sublist_cons_self entry slots)) (i + 1)
          (oxbRecoveryLogSwitch oxapp state entry).1
        simpa only [logApplySlots, List.foldl_cons, applySlot, nonzero, record.2, goesOn, if_false,
          ne_eq, not_true_eq_false] using rest

/-- A sector of padding has no record. -/
def SectorOk (sector : LogSector) : Prop :=
  Padded sector.slots ∧ (sector.isLog = false → ∀ entry ∈ sector.slots, entry = LogEntry.zero)

theorem logApplySectors_eq {sectors : List LogSector} (ok : ∀ sector ∈ sectors, SectorOk sector)
    (ch pl sec : Nat) (state : RecState ε) (next : Option BufPos)
    (list : Option (Nat × Nat × Nat)) :
    ∃ after, logApplySectors oxapp ch pl sectors sec (state, next) = (after, next) ∧
      (sectors.flatMap LogSector.slots).foldl (applySlot oxapp) (state, list) = (after, list) := by
  induction sectors generalizing sec state with
  | nil => exact ⟨state, rfl, rfl⟩
  | cons sector sectors ih =>
      obtain ⟨padded, unused⟩ := ok sector List.mem_cons_self
      have rest := ih fun other mem => ok other (List.mem_cons_of_mem _ mem)
      rw [List.flatMap_cons, List.foldl_append, logApplySectors]
      cases isLog : sector.isLog with
      | true =>
          obtain ⟨after, slots, fold⟩ :=
            logApplySlots_eq oxapp padded (BufPos.mk ch pl sec) 0 state next list
          rw [if_pos rfl, slots, fold]
          exact rest (sec + 1) after
      | false =>
          rw [if_neg Bool.false_ne_true, foldl_applySlot_unused oxapp (unused isLog)]
          exact rest (sec + 1) state

theorem foldl_logApplySectors_eq {io : Bufs} {ch : Nat} {parts : List Nat}
    (ok : ∀ pl ∈ parts, ∀ sector ∈ io ch pl, SectorOk sector) (state : RecState ε)
    (next : Option BufPos) (list : Option (Nat × Nat × Nat)) :
    ∃ after,
      parts.foldl (fun current pl => logApplySectors oxapp ch pl (io ch pl) 0 current)
        (state, next) = (after, next) ∧
      (parts.flatMap fun pl => (io ch pl).flatMap LogSector.slots).foldl (applySlot oxapp)
        (state, list) = (after, list) := by
  induction parts generalizing state with
  | nil => exact ⟨state, rfl, rfl⟩
  | cons pl parts ih =>
      obtain ⟨after, sectors, fold⟩ :=
        logApplySectors_eq oxapp (ok pl List.mem_cons_self) ch pl 0 state next list
      rw [List.flatMap_cons, List.foldl_append, List.foldl_cons, sectors, fold]
      exact ih (fun other mem => ok other (List.mem_cons_of_mem _ mem)) after

end Apply

theorem flatMap_take_drop {α : Type*} (list : List α) (size count : Nat) :
    (List.range count).flatMap (fun i => (list.drop (i * size)).take size) =
      list.take (count * size) := by
  induction count with
  | zero => simp
  | succ count ih =>
      rw [List.range_succ, List.flatMap_append, ih, Nat.succ_mul, List.take_add]
      simp

/-- The sectors of a page hold its slots. -/
theorem flatMap_pageSectors {conf : PageConf} {page : LogPage}
    (length : page.slots.length = conf.logsPerPg) :
    (pageSectors conf page).flatMap LogSector.slots = page.slots := by
  have total := Nat.mul_div_cancel' (Nat.dvd_of_mod_eq_zero conf.aligned)
  rw [pageSectors, List.flatMap_map]
  simp only
  rw [flatMap_take_drop, total, ← length, List.take_length]

/-- The commands read all sectors of a page. -/
theorem flatMap_pagePart {conf : PageConf} {cmds : Nat} (divides : cmds ∣ conf.secPerPlPg)
    (page : LogPage) :
    (List.range cmds).flatMap (pagePart conf cmds page) = pageSectors conf page := by
  have length : (pageSectors conf page).length = conf.secPerPlPg := by simp [pageSectors]
  change (List.range cmds).flatMap (fun pl => ((pageSectors conf page).drop
    (pl * (conf.secPerPlPg / cmds))).take (conf.secPerPlPg / cmds)) = _
  rw [flatMap_take_drop, Nat.mul_div_cancel' divides, ← length, List.take_length]

/-- The first sector of a log page starts with the pointer record. -/
theorem pageSectors_cons {conf : PageConf} {page : LogPage} {pointer : LogEntry}
    {slots : List LogEntry} (eq : page.slots = pointer :: slots) (nonzero : pointer.ts ≠ 0) :
    ∃ lSec count, pageSectors conf page = ⟨true, pointer :: slots.take lSec⟩ ::
      (List.range count).map fun sec =>
        let part := (slots.drop (sec * (lSec + 1) + lSec)).take (lSec + 1)
        { isLog := part.headD LogEntry.zero ≠ LogEntry.zero, slots := part } := by
  have total := Nat.mul_div_cancel' (Nat.dvd_of_mod_eq_zero conf.aligned)
  obtain ⟨lSec, isSec⟩ : ∃ n, conf.logsPerPg / conf.secPerPlPg = n + 1 := by
    apply Nat.exists_eq_succ_of_ne_zero
    intro zero
    rw [zero, Nat.mul_zero] at total
    have two := conf.two_le
    omega
  obtain ⟨count, isCount⟩ : ∃ n, conf.secPerPlPg = n + 1 :=
    Nat.exists_eq_succ_of_ne_zero conf.sec_pos.ne'
  have notZero : pointer ≠ LogEntry.zero := by
    rintro rfl
    exact nonzero rfl
  refine ⟨lSec, count, ?_⟩
  rw [pageSectors, isSec, isCount, List.range_succ_eq_map, List.map_cons, List.map_map]
  congr 1
  · simp [eq, notZero]
  · refine List.map_congr_left fun sec _ => ?_
    simp [eq, Nat.succ_mul, ← Nat.add_assoc]

/-- The first part of a log page starts with the first sector. -/
theorem pagePart_zero {conf : PageConf} {cmds : Nat} (pos : 0 < cmds)
    (le : cmds ≤ conf.secPerPlPg) {page : LogPage} {pointer : LogEntry} {slots : List LogEntry}
    (eq : page.slots = pointer :: slots) (nonzero : pointer.ts ≠ 0) :
    ∃ lSec size, pagePart conf cmds page 0 =
      ⟨true, pointer :: slots.take lSec⟩ :: (pageSectors conf page).tail.take size := by
  obtain ⟨lSec, count, cons⟩ := @pageSectors_cons conf page pointer slots eq nonzero
  obtain ⟨size, isSize⟩ : ∃ n, conf.secPerPlPg / cmds = n + 1 :=
    Nat.exists_eq_succ_of_ne_zero (Nat.div_pos le pos).ne'
  refine ⟨lSec, size, ?_⟩
  rw [pagePart, isSize, Nat.zero_mul, List.drop_zero, cons, List.take_succ_cons, List.tail_cons]

/-- The other parts are without the first sector. -/
theorem mem_tail_of_mem_pagePart {conf : PageConf} {cmds : Nat} (pos : 0 < cmds)
    (le : cmds ≤ conf.secPerPlPg) {page : LogPage} {pl : Nat} {sector : LogSector}
    (mem : sector ∈ pagePart conf cmds page (pl + 1)) : sector ∈ (pageSectors conf page).tail := by
  obtain ⟨size, isSize⟩ : ∃ n, conf.secPerPlPg / cmds = n + 1 :=
    Nat.exists_eq_succ_of_ne_zero (Nat.div_pos le pos).ne'
  rw [pagePart, isSize, Nat.succ_mul, ← Nat.add_assoc, ← List.drop_tail] at mem
  exact List.mem_of_mem_drop (List.mem_of_mem_take mem)

/-- A part of such slots is a sector that holds records and unused slots. -/
theorem Padded.sectorOk {slots : List LogEntry} (padded : Padded slots) :
    SectorOk { isLog := slots.headD LogEntry.zero ≠ LogEntry.zero, slots := slots } := by
  refine ⟨padded, fun noLog entry mem => ?_⟩
  cases slots with
  | nil => cases mem
  | cons first rest =>
      have isZero : first = LogEntry.zero := by simpa using noLog
      rcases List.mem_cons.mp mem with rfl | later
      · exact isZero
      · exact (List.pairwise_cons.mp padded.behind).1 entry later isZero

theorem sectorOk_tail {conf : PageConf} {page : LogPage} {pointer : LogEntry}
    {slots : List LogEntry} (eq : page.slots = pointer :: slots) (nonzero : pointer.ts ≠ 0)
    (padded : Padded slots) : ∀ sector ∈ (pageSectors conf page).tail, SectorOk sector := by
  obtain ⟨lSec, count, cons⟩ := @pageSectors_cons conf page pointer slots eq nonzero
  intro sector mem
  rw [cons, List.tail_cons] at mem
  obtain ⟨sec, -, rfl⟩ := List.mem_map.mp mem
  exact (padded.sublist ((List.take_sublist _ _).trans (List.drop_sublist _ _))).sectorOk

/-- On a page that the log wrote, the loop over the sectors is the loop over the slots. -/
theorem logApplyBuf_eq {ε : Type u} (oxapp : Oxapp ε) {conf : PageConf} {cmds : Nat}
    (pos : 0 < cmds) (divides : cmds ∣ conf.secPerPlPg) {page : LogPage} {pointer : LogEntry}
    {slots : List LogEntry} (eq : page.slots = pointer :: slots) (kind : pointer.type = .pointer)
    (nonzero : pointer.ts ≠ 0) (padded : Padded slots)
    (length : page.slots.length = conf.logsPerPg) {io : Bufs} {ch : Nat}
    (parts : ∀ pl < cmds, io ch pl = pagePart conf cmds page pl) (state : RecState ε) :
    ∃ after, logApplyBuf oxapp cmds io ch state = (after, some ⟨ch, 0, 0, 0⟩) ∧
      oxbRecoveryLogApply oxapp state page = (after, some (nextPages pointer)) := by
  have le := Nat.le_of_dvd conf.sec_pos divides
  obtain ⟨lSec, size, first⟩ := pagePart_zero pos le eq nonzero
  have others := @sectorOk_tail conf page pointer slots eq nonzero padded
  have whole : page.slots =
      ((List.range cmds).flatMap (pagePart conf cmds page)).flatMap LogSector.slots := by
    rw [flatMap_pagePart divides, flatMap_pageSectors length]
  obtain ⟨left, rfl⟩ := Nat.exists_eq_succ_of_ne_zero pos.ne'
  have later : ∀ pl ∈ (List.range left).map Nat.succ, ∀ sector ∈ io ch pl, SectorOk sector := by
    intro pl mem sector inPart
    obtain ⟨before, lt, rfl⟩ := List.mem_map.mp mem
    rw [parts _ (Nat.succ_lt_succ (List.mem_range.mp lt))] at inPart
    exact others sector (mem_tail_of_mem_pagePart pos le inPart)
  have ahead : ∀ sector ∈ (pageSectors conf page).tail.take size, SectorOk sector :=
    fun sector mem => others sector (List.mem_of_mem_take mem)
  let next : Option BufPos := some ⟨ch, 0, 0, 0⟩
  let list := some (nextPages pointer)
  obtain ⟨behind, slotsEq, slotsFold⟩ := logApplySlots_eq oxapp
    (padded.sublist (List.take_sublist lSec slots)) (BufPos.mk ch 0 0) 1 state next list
  obtain ⟨plane, sectorsEq, sectorsFold⟩ := logApplySectors_eq oxapp ahead ch 0 1 behind next list
  obtain ⟨after, planesEq, planesFold⟩ :=
    foldl_logApplySectors_eq oxapp later plane next list
  refine ⟨after, ?_, ?_⟩
  · rw [logApplyBuf, List.range_succ_eq_map, List.foldl_cons, parts 0 pos, first, logApplySectors]
    simp only [if_true, logApplySlots, nonzero, kind, if_false]
    rw [slotsEq, sectorsEq, planesEq]
  · have rest : ((List.range left).map Nat.succ).flatMap (pagePart conf (left + 1) page) =
        ((List.range left).map Nat.succ).flatMap (io ch) := by
      refine List.flatMap_congr fun pl mem => ?_
      obtain ⟨before, lt, rfl⟩ := List.mem_map.mp mem
      exact (parts _ (Nat.succ_lt_succ (List.mem_range.mp lt))).symm
    rw [oxbRecoveryLogApply, whole, List.range_succ_eq_map, List.flatMap_cons, first, rest]
    simp only [List.cons_append, List.flatMap_cons, List.flatMap_append, List.foldl_cons,
      List.foldl_append, applySlot, nonzero, kind, if_false, if_true, Option.getD_none]
    rw [slotsFold, sectorsFold, List.flatMap_assoc, planesFold]

/-- `appftl_log_flush_fill_pg` fills such pages. -/
theorem logApplyBuf_pageSlots {ε : Type u} (oxapp : Oxapp ε) {conf : PageConf} {cmds : Nat}
    (pos : 0 < cmds) (divides : cmds ∣ conf.secPerPlPg) {ts prev addr : Nat}
    {next : Nat × Nat × Nat} {records : List LogEntry} (nonzero : ts ≠ 0)
    (proper : ∀ entry ∈ records, entry.IsRecord ∧ entry.ts ≠ 0)
    (fits : records.length < conf.logsPerPg) {io : Bufs} {ch : Nat}
    (parts : ∀ pl < cmds, io ch pl =
      pagePart conf cmds ⟨addr, pageSlots conf (pointerEntry ts prev next) records⟩ pl)
    (state : RecState ε) :
    ∃ after, logApplyBuf oxapp cmds io ch state = (after, some ⟨ch, 0, 0, 0⟩) ∧
      oxbRecoveryLogApply oxapp state
        ⟨addr, pageSlots conf (pointerEntry ts prev next) records⟩ = (after, some next) := by
  refine logApplyBuf_eq oxapp pos divides rfl rfl nonzero (padded_pageSlots proper) ?_ parts state
  simp only [pageSlots, List.length_append, List.length_cons, List.length_replicate]
  omega

/-! ## One round of the reader -/

section Round

variable {ε : Type u} {oxapp : Oxapp ε} {nvm : Nvm} {head addr : Nat} {reader : Reader ε}

end Round

/-! ## The chain -/

/-- Write `last` is the last one before write `n` that succeeded: the reader gets to the
page of `n` by the pointers of the page of `last`. -/
def LastBefore (env : Env) (log : LogCtrl) (last n : Nat) : Prop :=
  Wrote env log last ∧ last < n ∧ ∀ m, last < m → m < n → ¬ Wrote env log m

theorem pick_writeAddrs (env : Env) (start : Nat × Nat × Nat) (n : Nat) {i : Nat} (lt : i < 3) :
    pick (writeAddrs env start n) i = writeAddr env start (n + i) := by
  rcases i with _ | _ | _ | i
  · rfl
  · rfl
  · rfl
  · omega

section Chain

variable {ε : Type u} {oxapp : Oxapp ε} {nvm : Nvm} {env : Env} {start : Nat × Nat × Nat}
  {log : LogCtrl} {first head : Nat}

/-- The reader is at candidate `i` of the page of write `last`. -/
structure At (env : Env) (start : Nat × Nat × Nat) (last i : Nat) (reader : Reader ε) : Prop where
  list : reader.ppaList = some ⟨chOf (writeAddr env start last), 0, 0, 0⟩
  listI : reader.listI = i
  next : nextPages (bufEntry reader.io ⟨chOf (writeAddr env start last), 0, 0, 0⟩) =
    writeAddrs env start (last + 1)

theorem At.ppa {last i : Nat} {reader : Reader ε} (here : At env start last i reader)
    (lt : i < 3) : reader.ppa head = writeAddr env start (last + 1 + i) := by
  rw [Reader.ppa, here.list, ppaAt, here.next, here.listI, pick_writeAddrs env start _ lt]

theorem LastBefore.unique {last other n : Nat} (isLast : LastBefore env log last n)
    (otherLast : LastBefore env log other n) : other = last := by
  rcases Nat.lt_trichotomy other last with lt | same | lt
  · exact absurd isLast.1 (otherLast.2.2 last lt isLast.2.1)
  · exact same
  · exact absurd otherLast.1 (isLast.2.2 other lt otherLast.2.1)

end Chain

section Runs

variable {nvm : Nvm} {env : Env} {start : Nat × Nat × Nat} {log : LogCtrl}

end Runs

/-! ## Two log pages -/

end OxCtrl.Recovery
