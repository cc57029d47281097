import OxCtrl.Recovery.LogRead

/-!
# Write pointers after a replay

A replay moves the write pointer of a block in four ways: a record of page zero opens the
block, a record of the last page closes it, a record of a whole page sets the pointer after
the page, and a sector record moves it by one.  A log page that is visited counts as a record
of a whole page of its own block.  `ABORT_W` records take the pointer back.
-/

namespace OxCtrl.Recovery

open OxCtrl.Lib
open OxCtrl.Log

universe u

/-- What a replay does to one block. -/
inductive BlkRecord where
  /-- A record of a user sector in a page. -/
  | sector (pg : Nat)
  /-- A record of a page of the mapping or of metadata, or a log page. -/
  | page (pg : Nat)
  /-- An `ABORT_W` record. -/
  | abort (pg : Nat)
  deriving DecidableEq, Repr

namespace BlkRecord

/-- The page that a record names. -/
def pg : BlkRecord → Nat
  | .sector pg => pg
  | .page pg => pg
  | .abort pg => pg

/-- A record of something that was written. -/
def IsWrite : BlkRecord → Prop
  | .abort _ => False
  | _ => True

instance : DecidablePred IsWrite
  | .sector _ => inferInstanceAs (Decidable True)
  | .page _ => inferInstanceAs (Decidable True)
  | .abort _ => inferInstanceAs (Decidable False)

/-- The number of written pages after a record. -/
def writtenAfter (count : Nat) : BlkRecord → Nat
  | .sector pg => max count (pg + 1)
  | .page pg => max count (pg + 1)
  | .abort pg => min count pg

end BlkRecord

/-- The block update of a record. -/
def applyRecord (geo : Geometry) (blk : BlkMdEntry) : BlkRecord → BlkMdEntry
  | .sector pg => applyWriteEntry geo blk pg false
  | .page pg => applyWriteEntry geo blk pg true
  | .abort pg =>
      if pg < geo.pgPerBlk - 1 ∧ blk.flags.isOpen then { blk with currentPg := pg } else blk

/-- Steps of `oxb_recovery_log_read`. -/
inductive ReplayStep where
  /-- `oxb_recovery_log_switch` on a record. -/
  | entry (log : LogEntry)
  /-- A log page was visited. -/
  | logPage (addr : Nat)
  deriving DecidableEq, Repr

/-- What a step does to a block, if it is a write record, a log page or an `ABORT_W` record of
the block. -/
def ReplayStep.recordOf (block : BlkAddr) : ReplayStep → Option BlkRecord
  | .logPage addr =>
      if (Ppa.ofNat addr).block = block then some (.page (Ppa.ofNat addr).pg) else none
  | .entry log =>
      match log.type with
      | .write | .gcWrite =>
          if log.newPpa.block = block then some (.sector log.newPpa.pg) else none
      | .gcMap | .map | .blkMd | .mapMd =>
          if log.newPpa.block = block then some (.page log.newPpa.pg) else none
      | .abortW => if log.amendPpa.block = block then some (.abort log.amendPpa.pg) else none
      | _ => none

variable {κ : Type u} (geo : Geometry) (prov : ProvFns)

/-- The replay over the tables. -/
def replaySystem : System (RecState (Store κ)) ReplayStep Unit where
  step
    | state, .entry log => ((oxbRecoveryLogSwitch (Store.oxapp geo prov) state log).1, ())
    | state, .logPage addr => (fixLogPage (Store.oxapp geo prov) state addr, ())

/-- Forced closes and put blocks of the step leave the block alone. -/
def ReplayStep.Spares (block : BlkAddr) : ReplayStep → Prop
  | .logPage _ => True
  | .entry log =>
      (log.type = .amend → log.amendPpa.block ≠ block ∧
          ∀ blocks, (prov.closeBlkFn blocks log.amendPpa log.provType).1 block = blocks block) ∧
        (log.type = .putBlk →
          ∀ blocks, (prov.putBlkFn blocks log.amendPpa).1 block = blocks block)

/-- The pages below this one were written, as far as the records tell: `written` pages before
the checkpoint, and those that are named and not aborted. -/
def pagesWritten (written : Nat) (records : List BlkRecord) : Nat :=
  records.foldl BlkRecord.writtenAfter written

/-- The pointer is after every written page, and a block that is written to its end is closed
with the pointer at the end. -/
structure PointerOk (count : Nat) (blk : BlkMdEntry) : Prop where
  above : count ≤ blk.currentPg
  closed : count = geo.pgPerBlk → blk.flags.isOpen = false ∧ blk.currentPg = geo.pgPerBlk

instance (count : Nat) (blk : BlkMdEntry) : Decidable (PointerOk geo count blk) :=
  decidable_of_iff (count ≤ blk.currentPg ∧ (count = geo.pgPerBlk →
    blk.flags.isOpen = false ∧ blk.currentPg = geo.pgPerBlk))
    ⟨fun ok => ⟨ok.1, ok.2⟩, fun ok => ⟨ok.above, ok.closed⟩⟩

/-- The record finds the block in a state in which its branch does what it should. -/
def RecordOk (blk : BlkMdEntry) (record : BlkRecord) : Prop :=
  record.IsWrite →
    if record.pg = 0 ∧ ¬ blk.flags.isOpen then blk.currentPg ≤ 1 ∧ 1 < geo.pgPerBlk
    else if record.pg = geo.pgPerBlk - 1 ∧ blk.flags.isOpen then blk.currentPg = geo.pgPerBlk
    else if record = .page record.pg then blk.currentPg ≤ record.pg + 1
    else record.pg ≤ blk.currentPg

instance (blk : BlkMdEntry) (record : BlkRecord) : Decidable (RecordOk geo blk record) :=
  inferInstanceAs (Decidable (_ → _))

/-! ## One record -/

/-- The flag and the pointer of a block. -/
def pointer (blk : BlkMdEntry) : Bool × Nat :=
  (blk.flags.isOpen, blk.currentPg)

variable {geo prov} {blk : BlkMdEntry} {count : Nat}

theorem pointerOk_congr {other : BlkMdEntry} (same : pointer blk = pointer other) :
    PointerOk geo count blk ↔ PointerOk geo count other := by
  obtain ⟨isOpen, current⟩ := Prod.mk.inj same
  constructor
  · rintro ⟨above, closed⟩
    rw [isOpen, current] at closed
    exact ⟨current ▸ above, closed⟩
  · rintro ⟨above, closed⟩
    rw [← isOpen, ← current] at closed
    exact ⟨current.symm ▸ above, closed⟩

theorem pointerOk_iff : PointerOk geo count blk ↔ count ≤ blk.currentPg ∧
    (count = geo.pgPerBlk → blk.flags.isOpen = false ∧ blk.currentPg = geo.pgPerBlk) :=
  ⟨fun ok => ⟨ok.above, ok.closed⟩, fun ok => ⟨ok.1, ok.2⟩⟩

/-- The four branches of `oxb_recovery_apply_write`. -/
theorem pointerOk_applyWriteEntry_iff {pg : Nat} {logPg : Bool} (ok : PointerOk geo count blk)
    (inBlock : blk.currentPg ≤ geo.pgPerBlk) (page : pg < geo.pgPerBlk) :
    (PointerOk geo (max count (pg + 1)) (applyWriteEntry geo blk pg logPg) ∧
        blk.currentPg ≤ (applyWriteEntry geo blk pg logPg).currentPg) ↔
      if pg = 0 ∧ ¬ blk.flags.isOpen then blk.currentPg ≤ 1 ∧ 1 < geo.pgPerBlk
      else if pg = geo.pgPerBlk - 1 ∧ blk.flags.isOpen then blk.currentPg = geo.pgPerBlk
      else if logPg then blk.currentPg ≤ pg + 1 else pg ≤ blk.currentPg := by
  obtain ⟨above, closed⟩ := ok
  rw [pointerOk_iff, applyWriteEntry]
  by_cases opens : pg = 0 ∧ ¬ blk.flags.isOpen
  · rw [if_pos opens, if_pos opens]
    obtain ⟨rfl, _⟩ := opens
    dsimp only
    constructor
    · rintro ⟨⟨_, last⟩, forward⟩
      refine ⟨forward, Nat.lt_of_le_of_ne page fun one => ?_⟩
      exact absurd (last (by omega)).1 Bool.noConfusion
    · rintro ⟨low, long⟩
      exact ⟨⟨by omega, fun last => by omega⟩, low⟩
  · rw [if_neg opens, if_neg opens]
    by_cases closes : pg = geo.pgPerBlk - 1 ∧ blk.flags.isOpen
    · rw [if_pos closes, if_pos closes]
      dsimp only
      constructor
      · rintro ⟨⟨above', _⟩, _⟩
        omega
      · intro atEnd
        exact ⟨⟨by omega, fun _ => ⟨rfl, atEnd⟩⟩, le_rfl⟩
    · rw [if_neg closes, if_neg closes]
      -- A record of the last page finds the block closed here.
      have isClosed : pg = geo.pgPerBlk - 1 → blk.flags.isOpen = false :=
        fun last => Bool.eq_false_iff.mpr fun isOpen => closes ⟨last, isOpen⟩
      cases logPg with
      | true =>
          simp only [if_true]
          constructor
          · exact fun result => result.2
          · intro forward
            refine ⟨⟨by omega, fun last => ?_⟩, forward⟩
            by_cases atEnd : pg = geo.pgPerBlk - 1
            · exact ⟨isClosed atEnd, by omega⟩
            · have := (closed (by omega)).2
              omega
      | false =>
          simp only [Bool.false_eq_true, if_false]
          by_cases moves : blk.currentPg ≤ pg
          · rw [if_pos moves]
            dsimp only
            constructor
            · rintro ⟨⟨above', _⟩, _⟩
              omega
            · intro low
              refine ⟨⟨by omega, fun last => ?_⟩, by omega⟩
              exact ⟨isClosed (by omega), by omega⟩
          · rw [if_neg moves]
            constructor
            · intro _
              omega
            · intro _
              refine ⟨⟨by omega, fun last => ?_⟩, le_rfl⟩
              by_cases atEnd : pg = geo.pgPerBlk - 1
              · exact ⟨isClosed atEnd, by omega⟩
              · exact closed (by omega)

/-- A record keeps the pointer right, and moves it forward if it is a write record, exactly
when it finds the block as its branch expects. -/
theorem pointerOk_applyRecord_iff {record : BlkRecord} (ok : PointerOk geo count blk)
    (inBlock : blk.currentPg ≤ geo.pgPerBlk) (page : record.pg < geo.pgPerBlk) :
    (PointerOk geo (record.writtenAfter count) (applyRecord geo blk record) ∧
      (record.IsWrite → blk.currentPg ≤ (applyRecord geo blk record).currentPg)) ↔
      RecordOk geo blk record := by
  cases record with
  | sector pg =>
      simp only [BlkRecord.IsWrite, RecordOk, true_imp_iff, applyRecord]
      refine (pointerOk_applyWriteEntry_iff ok inBlock page).trans ?_
      simp [BlkRecord.pg]
  | page pg =>
      simp only [BlkRecord.IsWrite, RecordOk, true_imp_iff, applyRecord]
      refine (pointerOk_applyWriteEntry_iff ok inBlock page).trans ?_
      simp [BlkRecord.pg]
  | abort pg =>
      simp only [BlkRecord.IsWrite, RecordOk, false_imp_iff, and_true, iff_true]
      have page : pg < geo.pgPerBlk := page
      have notLast : min count pg ≠ geo.pgPerBlk :=
        ((min_le_right count pg).trans_lt page).ne
      simp only [pointerOk_iff, applyRecord, BlkRecord.writtenAfter]
      refine ⟨?_, fun last => absurd last notLast⟩
      split
      · exact min_le_right count pg
      · exact (min_le_left count pg).trans ok.above

theorem currentPg_applyRecord_le {record : BlkRecord} (inBlock : blk.currentPg ≤ geo.pgPerBlk)
    (page : record.pg < geo.pgPerBlk) :
    (applyRecord geo blk record).currentPg ≤ geo.pgPerBlk := by
  have write : ∀ pg logPg, pg < geo.pgPerBlk →
      (applyWriteEntry geo blk pg logPg).currentPg ≤ geo.pgPerBlk := by
    intro pg logPg lt
    unfold applyWriteEntry
    split
    · exact geo.pg_pos
    · split
      · exact inBlock
      · split
        · exact lt
        · split
          next moves => exact Nat.lt_of_le_of_lt moves lt
          next => exact inBlock
  cases record with
  | sector pg => exact write pg false page
  | page pg => exact write pg true page
  | abort pg =>
      simp only [applyRecord]
      split
      · exact Nat.le_of_lt page
      · exact inBlock

/-! ## One step -/

variable {block : BlkAddr}

theorem pointer_invalidatePlanes (pg left pl : Nat) (blk : BlkMdEntry) :
    pointer (BlkMdEntry.invalidatePlanes geo pg left pl blk) = pointer blk := by
  induction left generalizing pl blk with
  | zero => rfl
  | succ left ih =>
      rw [BlkMdEntry.invalidatePlanes]
      split
      · rfl
      · exact ih _ _

theorem pointer_invalidate (blk : BlkMdEntry) (ppa : Ppa) (full : Bool) :
    pointer (blk.invalidate geo ppa full) = pointer blk := by
  unfold BlkMdEntry.invalidate
  split
  · exact pointer_invalidatePlanes _ _ _ _
  · split <;> rfl

theorem pointer_storeInvalidate (store : Store κ) (ppa : Ppa) (full : Bool) :
    pointer ((store.invalidate geo ppa full).blocks block) = pointer (store.blocks block) := by
  rw [Store.invalidate_blocks]
  split
  · exact pointer_invalidate _ _ _
  · rfl

theorem pointer_upsert (store : Store κ) (lba : Nat) (ppa oldCaller : Ppa) :
    pointer ((store.upsert lba ppa oldCaller).1.blocks block) = pointer (store.blocks block) := by
  rw [Store.upsert_blocks]

theorem pointer_upsertMd (store : Store κ) (index : Nat) (newPpa oldPpa : Ppa) :
    pointer ((store.upsertMd geo index newPpa oldPpa).1.blocks block) =
      pointer (store.blocks block) := by
  unfold Store.upsertMd
  dsimp only
  split
  · split <;> rfl
  · rw [pointer_storeInvalidate]
    split <;> rfl

theorem setBlk_blocks (store : Store κ) (ppa : Ppa) (entry : BlkMdEntry) :
    (store.setBlk ppa entry).blocks block =
      if ppa.block = block then entry else store.blocks block := by
  by_cases same : ppa.block = block
  · subst same
    rw [if_pos rfl]
    exact Function.update_self _ _ _
  · rw [if_neg same]
    exact Function.update_of_ne (Ne.symm same) _ _

theorem pointer_applyWrite (store : Store κ) (log : LogEntry) (logPg inv : Bool) :
    pointer ((oxbRecoveryApplyWrite (Store.oxapp geo prov) store log logPg inv).blocks block) =
      if log.newPpa.block = block then
        pointer (applyWriteEntry geo (store.blocks block) log.newPpa.pg logPg)
      else pointer (store.blocks block) := by
  have set : pointer ((store.setBlk log.newPpa (applyWriteEntry geo
        (store.blocks log.newPpa.block) log.newPpa.pg logPg)).blocks block) =
      if log.newPpa.block = block then
        pointer (applyWriteEntry geo (store.blocks block) log.newPpa.pg logPg)
      else pointer (store.blocks block) := by
    rw [setBlk_blocks]
    by_cases same : log.newPpa.block = block
    · rw [if_pos same, if_pos same, same]
    · rw [if_neg same, if_neg same]
  unfold oxbRecoveryApplyWrite
  dsimp only
  split
  · exact (pointer_storeInvalidate _ _ _).trans set
  · exact set

theorem pointer_fixBlk (store : Store κ) (ppa : Ppa) :
    pointer ((oxbRecoveryApplyFixBlk (Store.oxapp geo prov) store ppa).blocks block) =
      if ppa.block = block then pointer (applyRecord geo (store.blocks block) (.abort ppa.pg))
      else pointer (store.blocks block) := by
  by_cases effective : ppa.pg.val < geo.pgPerBlk - 1 ∧ (store.blocks ppa.block).flags.isOpen = true
  · have fixed : oxbRecoveryApplyFixBlk (Store.oxapp geo prov) store ppa =
        store.setBlk ppa { store.blocks ppa.block with currentPg := ppa.pg } := if_pos effective
    have record : applyRecord geo (store.blocks ppa.block) (.abort ppa.pg) =
        { store.blocks ppa.block with currentPg := ppa.pg } := if_pos effective
    rw [fixed, setBlk_blocks, ← record]
    by_cases same : ppa.block = block
    · rw [if_pos same, if_pos same, same]
    · rw [if_neg same, if_neg same]
  · have fixed : oxbRecoveryApplyFixBlk (Store.oxapp geo prov) store ppa = store :=
      if_neg effective
    have record : applyRecord geo (store.blocks ppa.block) (.abort ppa.pg) =
        store.blocks ppa.block := if_neg effective
    rw [fixed]
    by_cases same : ppa.block = block
    · rw [if_pos same, ← same, record]
    · rw [if_neg same]

theorem pointer_upsertRecord (state : RecState (Store κ)) (log : LogEntry) :
    pointer ((upsertRecord (Store.oxapp geo prov) state log).env.blocks block) =
      pointer (state.env.blocks block) := by
  unfold upsertRecord
  dsimp only
  split
  · exact (pointer_storeInvalidate _ _ _).trans (pointer_upsert _ _ _ _)
  · exact pointer_upsert _ _ _ _

theorem pointer_commitRecord (state : RecState (Store κ)) (log : LogEntry) (logN : Nat) :
    pointer ((commitRecord (Store.oxapp geo prov) state log logN).env.blocks block) =
      pointer (state.env.blocks block) := by
  unfold commitRecord
  split
  · exact pointer_upsertRecord _ _
  · split
    · exact pointer_storeInvalidate _ _ _
    · exact pointer_upsertRecord _ _
  · split
    · exact pointer_storeInvalidate _ _ _
    · exact pointer_upsertMd _ _ _ _
  · rfl

theorem pointer_drain (logs : List LogEntry) (state : RecState (Store κ)) (logN : Nat) :
    pointer ((drain (Store.oxapp geo prov) state logs logN).env.blocks block) =
      pointer (state.env.blocks block) := by
  induction logs generalizing state logN with
  | nil => rfl
  | cons log logs ih => exact (ih _ _).trans (pointer_commitRecord _ _ _)

theorem pointer_btreeCommit (state : RecState (Store κ)) (log : LogEntry) :
    pointer ((oxbRecoveryBtreeCommit (Store.oxapp geo prov) state log).env.blocks block) =
      pointer (state.env.blocks block) := by
  unfold oxbRecoveryBtreeCommit
  split
  · rfl
  · exact pointer_drain _ _ _

theorem pointer_invalidateTail (store : Store κ) (ppa : Ppa) (left pg : Nat) :
    pointer ((invalidateTail (Store.oxapp geo prov) store ppa left pg).blocks block) =
      pointer (store.blocks block) := by
  induction left generalizing store pg with
  | zero => rfl
  | succ left ih => exact (ih _ _).trans (pointer_storeInvalidate _ _ _)

theorem pointer_recordOf (blk : BlkMdEntry) (ppa : Ppa) (record : BlkRecord) :
    (if ppa.block = block then pointer (applyRecord geo blk record) else pointer blk) =
      (if ppa.block = block then some record else none).elim (pointer blk)
        fun record => pointer (applyRecord geo blk record) := by
  by_cases same : ppa.block = block
  · rw [if_pos same, if_pos same, Option.elim_some]
  · rw [if_neg same, if_neg same, Option.elim_none]

/-- A step changes the pointer of a block by its record of the block, if it has one. -/
theorem pointer_step (state : RecState (Store κ)) {step : ReplayStep}
    (spares : step.Spares prov block) :
    pointer (((replaySystem geo prov).step state step).1.env.blocks block) =
      ((step.recordOf block).elim (pointer (state.env.blocks block))
        fun record => pointer (applyRecord geo (state.env.blocks block) record)) := by
  cases step with
  | logPage addr =>
      refine (pointer_storeInvalidate _ _ _).trans ((pointer_applyWrite _ _ _ _).trans ?_)
      exact pointer_recordOf _ _ (.page _)
  | entry log =>
      obtain ⟨closes, puts⟩ := spares
      simp only [replaySystem, oxbRecoveryLogSwitch, ReplayStep.recordOf]
      cases kind : log.type with
      | pad => rfl
      | pointer => rfl
      | write =>
          exact (pointer_applyWrite state.env log false false).trans
            (pointer_recordOf _ log.newPpa (.sector log.newPpa.pg))
      | gcWrite =>
          exact (pointer_applyWrite state.env log false false).trans
            (pointer_recordOf _ log.newPpa (.sector log.newPpa.pg))
      | gcMap =>
          exact (pointer_applyWrite state.env log true false).trans
            (pointer_recordOf _ log.newPpa (.page log.newPpa.pg))
      | map =>
          refine (pointer_upsertMd _ log.lba log.newPpa log.oldPpa).trans ?_
          exact (pointer_applyWrite state.env log true true).trans
            (pointer_recordOf _ log.newPpa (.page log.newPpa.pg))
      | blkMd =>
          exact (pointer_applyWrite state.env log true true).trans
            (pointer_recordOf _ log.newPpa (.page log.newPpa.pg))
      | mapMd =>
          exact (pointer_applyWrite state.env log true true).trans
            (pointer_recordOf _ log.newPpa (.page log.newPpa.pg))
      | amend =>
          obtain ⟨other, close⟩ := closes kind
          refine (pointer_fixBlk _ log.amendPpa).trans ?_
          rw [if_neg other]
          refine (pointer_invalidateTail _ log.amendPpa _ _).trans ?_
          exact congrArg pointer (close _)
      | abortW =>
          exact (pointer_fixBlk state.env log.amendPpa).trans
            (pointer_recordOf _ log.amendPpa (.abort log.amendPpa.pg))
      | putBlk => exact congrArg pointer (puts kind _)
      | commit => exact pointer_btreeCommit state log
      | unknown code => rfl

/-! ## The whole replay -/

variable (geo prov block) in
/-- Through a replay, the pointer of the block is right after every step, and only `ABORT_W`
records move it back. -/
structure PointersOk (written : Nat) (state : RecState (Store κ)) (steps : List ReplayStep) :
    Prop where
  after : ∀ before, before <+: steps →
    PointerOk geo (pagesWritten written (before.filterMap (ReplayStep.recordOf block)))
      (((replaySystem geo prov).run state before).env.blocks block)
  forward : ∀ before step later, steps = before ++ step :: later →
    (∀ record ∈ step.recordOf block, record.IsWrite) →
      (((replaySystem geo prov).run state before).env.blocks block).currentPg ≤
        (((replaySystem geo prov).run state (before ++ [step])).env.blocks block).currentPg

variable (geo prov block) in
/-- Each record of the block finds it in a state in which its branch does what it should. -/
structure RecordsOk (written : Nat) (state : RecState (Store κ)) (steps : List ReplayStep) :
    Prop where
  image : PointerOk geo written (state.env.blocks block)
  records : ∀ before step later, steps = before ++ step :: later →
    ∀ record ∈ step.recordOf block,
      RecordOk geo (((replaySystem geo prov).run state before).env.blocks block) record

variable {state : RecState (Store κ)} {steps : List ReplayStep} {step : ReplayStep} {written : Nat}

theorem pointersOk_append : PointersOk geo prov block written state (steps ++ [step]) ↔
    PointersOk geo prov block written state steps ∧
      PointerOk geo
        (pagesWritten written ((steps ++ [step]).filterMap (ReplayStep.recordOf block)))
        (((replaySystem geo prov).run state (steps ++ [step])).env.blocks block) ∧
      ((∀ record ∈ step.recordOf block, record.IsWrite) →
        (((replaySystem geo prov).run state steps).env.blocks block).currentPg ≤
          (((replaySystem geo prov).run state (steps ++ [step])).env.blocks block).currentPg) := by
  constructor
  · intro ok
    refine ⟨⟨fun before isPrefix => ?_, fun before other later split => ?_⟩, ?_, ?_⟩
    · exact ok.after before (isPrefix.trans (List.prefix_append _ _))
    · exact ok.forward before other (later ++ [step]) (by rw [split]; simp)
    · exact ok.after _ List.prefix_rfl
    · exact ok.forward steps step [] rfl
  · rintro ⟨ok, last, forward⟩
    refine ⟨fun before isPrefix => ?_, fun before other later split => ?_⟩
    · rcases List.prefix_concat_iff.mp isPrefix with rfl | isPrefix
      · exact last
      · exact ok.after before isPrefix
    · rcases System.split_append_singleton split with ⟨rfl, rfl⟩ | ⟨rest, eq⟩
      · exact forward
      · exact ok.forward before other rest eq

theorem recordsOk_append : RecordsOk geo prov block written state (steps ++ [step]) ↔
    RecordsOk geo prov block written state steps ∧ ∀ record ∈ step.recordOf block,
      RecordOk geo (((replaySystem geo prov).run state steps).env.blocks block) record := by
  constructor
  · intro ok
    refine ⟨⟨ok.image, fun before other later split => ?_⟩, ok.records steps step [] rfl⟩
    exact ok.records before other (later ++ [step]) (by rw [split]; simp)
  · rintro ⟨ok, last⟩
    refine ⟨ok.image, fun before other later split => ?_⟩
    rcases System.split_append_singleton split with ⟨rfl, rfl⟩ | ⟨rest, eq⟩
    · exact last
    · exact ok.records before other rest eq

theorem run_append_singleton (state : RecState (Store κ)) (steps : List ReplayStep)
    (step : ReplayStep) :
    (replaySystem geo prov).run state (steps ++ [step]) =
      ((replaySystem geo prov).step ((replaySystem geo prov).run state steps) step).1 :=
  System.run_append _ _ _ _

/-- The pointer stays in the block. -/
theorem currentPg_run_le (inBlock : (state.env.blocks block).currentPg ≤ geo.pgPerBlk)
    (spares : ∀ step ∈ steps, step.Spares prov block)
    (pages : ∀ step ∈ steps, ∀ record ∈ step.recordOf block, record.pg < geo.pgPerBlk) :
    (((replaySystem geo prov).run state steps).env.blocks block).currentPg ≤ geo.pgPerBlk := by
  induction steps using List.reverseRecOn with
  | nil => exact inBlock
  | append_singleton steps step ih =>
      have mem : step ∈ steps ++ [step] := List.mem_append_right _ (List.mem_singleton.mpr rfl)
      have before := ih (fun other isIn => spares other (List.mem_append_left _ isIn))
        fun other isIn => pages other (List.mem_append_left _ isIn)
      have moved := @pointer_step κ geo prov block ((replaySystem geo prov).run state steps) step
        (spares step mem)
      rw [run_append_singleton]
      cases isRecord : step.recordOf block with
      | none =>
          rw [isRecord] at moved
          exact (Prod.mk.inj moved).2.trans_le before
      | some record =>
          rw [isRecord] at moved
          exact (Prod.mk.inj moved).2.trans_le
            (currentPg_applyRecord_le before (pages step mem record isRecord))

/-- One step, with the record that it has of the block. -/
theorem pointerOk_step_iff {after : BlkMdEntry} {records : List BlkRecord}
    {record : Option BlkRecord} (ok : PointerOk geo (pagesWritten written records) blk)
    (inBlock : blk.currentPg ≤ geo.pgPerBlk)
    (page : ∀ found ∈ record, found.pg < geo.pgPerBlk)
    (moved : pointer after =
      record.elim (pointer blk) fun found => pointer (applyRecord geo blk found)) :
    (PointerOk geo (pagesWritten written (records ++ record.toList)) after ∧
        ((∀ found ∈ record, found.IsWrite) → blk.currentPg ≤ after.currentPg)) ↔
      ∀ found ∈ record, RecordOk geo blk found := by
  cases record with
  | none =>
      have same : pointer after = pointer blk := moved
      rw [Option.toList_none, List.append_nil, pointerOk_congr same]
      constructor
      · exact fun _ found isIn => absurd isIn (Option.not_mem_none found)
      · exact fun _ => ⟨ok, fun _ => (Prod.mk.inj same).2.ge⟩
  | some found =>
      have same : pointer after = pointer (applyRecord geo blk found) := moved
      have count : pagesWritten written (records ++ [found]) =
          found.writtenAfter (pagesWritten written records) := List.foldl_append
      rw [Option.toList_some, count, pointerOk_congr same, (Prod.mk.inj same).2]
      simp only [Option.mem_some_iff, forall_eq']
      exact pointerOk_applyRecord_iff ok inBlock (page found rfl)

/-- For every order of the records of a block and every image of the block, the pointer is
right after every step and goes back for `ABORT_W` records only, exactly when every record
finds the block as its branch expects. -/
theorem write_pointers_iff (inBlock : (state.env.blocks block).currentPg ≤ geo.pgPerBlk)
    (spares : ∀ step ∈ steps, step.Spares prov block)
    (pages : ∀ step ∈ steps, ∀ record ∈ step.recordOf block, record.pg < geo.pgPerBlk) :
    PointersOk geo prov block written state steps ↔
      RecordsOk geo prov block written state steps := by
  induction steps using List.reverseRecOn with
  | nil =>
      constructor
      · intro ok
        exact ⟨ok.after [] List.prefix_rfl, fun before step later split => by simp at split⟩
      · intro ok
        refine ⟨fun before isPrefix => ?_, fun before step later split => by simp at split⟩
        rw [List.prefix_nil.mp isPrefix]
        exact ok.image
  | append_singleton steps step ih =>
      have mem : step ∈ steps ++ [step] := List.mem_append_right _ (List.mem_singleton.mpr rfl)
      have sparesBefore : ∀ other ∈ steps, other.Spares prov block :=
        fun other isIn => spares other (List.mem_append_left _ isIn)
      have pagesBefore : ∀ other ∈ steps, ∀ record ∈ other.recordOf block,
          record.pg < geo.pgPerBlk := fun other isIn => pages other (List.mem_append_left _ isIn)
      have current := @currentPg_run_le κ geo prov block state steps inBlock
        sparesBefore pagesBefore
      have moved := @pointer_step κ geo prov block ((replaySystem geo prov).run state steps) step
        (spares step mem)
      rw [pointersOk_append, recordsOk_append, ← ih sparesBefore pagesBefore]
      refine and_congr_right fun ok => ?_
      have right := ok.after steps List.prefix_rfl
      have single : [step].filterMap (ReplayStep.recordOf block) =
          (step.recordOf block).toList := by
        cases found : step.recordOf block with
        | none => exact List.filterMap_cons_none found
        | some record => exact List.filterMap_cons_some found
      rw [run_append_singleton, List.filterMap_append, single]
      exact pointerOk_step_iff right current (pages step mem) moved

/-! ## Reading the log -/

variable (geo prov) in
/-- Steps of a replay lead from one state to another. -/
def StepsTo (state after : RecState (Store κ)) : Prop :=
  ∃ steps, after = (replaySystem geo prov).run state steps

theorem StepsTo.trans {middle after : RecState (Store κ)} (first : StepsTo geo prov state middle)
    (second : StepsTo geo prov middle after) : StepsTo geo prov state after := by
  obtain ⟨steps, rfl⟩ := first
  obtain ⟨more, rfl⟩ := second
  exact ⟨steps ++ more, (System.run_append _ _ _ _).symm⟩

theorem StepsTo.fixLogPage {middle : RecState (Store κ)} (first : StepsTo geo prov state middle)
    (addr : Nat) :
    StepsTo geo prov state (fixLogPage (Store.oxapp geo prov) middle addr) :=
  first.trans ⟨[.logPage addr], rfl⟩

theorem applySlots_steps (slots : List LogEntry) (state : RecState (Store κ))
    (next : Option (Nat × Nat × Nat)) :
    StepsTo geo prov state (slots.foldl (applySlot (Store.oxapp geo prov)) (state, next)).1 := by
  induction slots generalizing state next with
  | nil => exact ⟨[], rfl⟩
  | cons slot slots ih =>
      rw [List.foldl_cons, applySlot]
      split
      · exact ih state next
      · split
        · exact ih state _
        · exact StepsTo.trans ⟨[.entry slot], rfl⟩ (ih _ next)

/-- `oxb_recovery_log_read` is a sequence of such steps. -/
theorem logRead_steps (readPage : Nat → Option LogPage) (rounds ppa : Nat)
    (ppaList : Option (Nat × Nat × Nat)) (listI : Nat) (state : RecState (Store κ)) :
    StepsTo geo prov state
      (oxbRecoveryLogRead (Store.oxapp geo prov) readPage rounds ppa ppaList listI state) := by
  induction rounds generalizing ppa ppaList listI state with
  | zero => exact ⟨[], rfl⟩
  | succ rounds ih =>
      rw [oxbRecoveryLogRead]
      split
      · exact ⟨[], rfl⟩
      · rcases readPage ppa with _ | page
        · have fixed : StepsTo geo prov state (fixLogPage (Store.oxapp geo prov) state ppa) :=
            StepsTo.fixLogPage ⟨[], rfl⟩ ppa
          rcases ppaList with _ | list
          · exact fixed
          · dsimp only
            split
            · exact fixed.trans (ih _ _ _ _)
            · exact fixed
        · have fixed : StepsTo geo prov state (fixLogPage (Store.oxapp geo prov)
              (oxbRecoveryLogApply (Store.oxapp geo prov) state page).1 ppa) :=
            StepsTo.fixLogPage (applySlots_steps page.slots state none) ppa
          dsimp only
          generalize oxbRecoveryLogApply (Store.oxapp geo prov) state page = applied at fixed ⊢
          obtain ⟨middle, _ | next⟩ := applied
          · rcases ppaList with _ | list
            · exact fixed
            · dsimp only
              split
              · exact fixed.trans (ih _ _ _ _)
              · exact fixed
          · exact fixed.trans (ih _ _ _ _)

/-- Tables in which every block has the same write pointer. -/
def openedStore (currentPg : Nat) (isOpen : Bool) : Store Unit where
  map := fun _ => 0
  mapMd := fun _ => 0
  blocks := fun _ => { currentPg := currentPg, flags := { isOpen := isOpen } }
  log := ()

/-- The records of two sectors of the first page of a block that is opened after the
checkpoint. -/
theorem write_pointers_first_page :
    PointersOk .small noProvFns (0, 0, 1) 0 { env := openedStore 0 false }
      [.entry (.ofWrite .write 1 1 5 (Ppa.sector 0 0 1 0 0 0) 0),
        .entry (.ofWrite .write 2 1 6 (Ppa.sector 0 0 1 0 0 1) 0)] := by
  have start : RecordsOk .small noProvFns (0, 0, 1) 0 { env := openedStore 0 false } [] :=
    ⟨by decide, fun before step later split => by simp at split⟩
  refine (write_pointers_iff (by decide) ?_ (by decide)).mpr ?_
  · intro step mem
    simp only [List.mem_cons, List.not_mem_nil, or_false] at mem
    rcases mem with rfl | rfl
    · exact ⟨(fun kind => nomatch kind), (fun kind => nomatch kind)⟩
    · exact ⟨(fun kind => nomatch kind), (fun kind => nomatch kind)⟩
  · exact recordsOk_append.mpr ⟨recordsOk_append.mpr ⟨start, by decide⟩, by decide⟩

/-- After the record of its last page a block is closed with its pointer at that page. -/
theorem write_pointers_last_page :
    ¬ PointersOk .small noProvFns (0, 0, 1) 1 { env := openedStore 1 true }
      [.entry (.ofWrite .map 1 0 5 (Ppa.sector 0 0 1 1 0 0) 0)] := by
  intro ok
  exact absurd (ok.after _ List.prefix_rfl) (by decide)

end OxCtrl.Recovery
