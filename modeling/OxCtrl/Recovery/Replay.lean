import OxCtrl.App
import OxCtrl.Log.Entry
import OxCtrl.Lib.SearchTree

/-!
# Log replay

The functions of `oxb-recovery.c` that apply one log record.  Write records of a
transaction are collected in a search tree under the transaction id and reach the
mapping table only when the commit record drains their node.  The list `calls` is
the sequence of `upsert_fn` calls that the replay has made.
-/

namespace OxCtrl.Recovery

open OxCtrl.Lib
open OxCtrl.Log

universe u

/-- One call of `gl_map->upsert_fn`, with the record type that caused it. -/
structure MapCall where
  origin : LogType
  lba : Nat
  ppa : Ppa
  oldCaller : Ppa
  deriving DecidableEq, Repr

/-- The `upsert_fn` call made for a collected record. -/
def MapCall.ofEntry (entry : LogEntry) : MapCall :=
  ⟨entry.type, entry.lba, entry.newPpa, entry.oldPpa⟩

/-- Replay state: the modules, `tr_root`, and the calls made so far. -/
structure RecState (ε : Type u) where
  env : ε
  tree : SearchTree Nat (List LogEntry) := .leaf
  calls : List MapCall := []

variable {ε : Type u} (oxapp : Oxapp ε)

/-- The block update of `oxb_recovery_apply_write`. -/
def applyWriteEntry (geo : Geometry) (blk : BlkMdEntry) (pg : Nat) (logPg : Bool) :
    BlkMdEntry :=
  if pg = 0 ∧ ¬ blk.flags.isOpen then
    -- open the block
    { blk with
      currentPg := 1
      invalidSec := 0
      eraseCount := blk.eraseCount + 1
      flags := { blk.flags with
        used := true, isOpen := true, line := false, metadata := false, cold := false }
      pgState := fun _ => 0 }
  else if pg = geo.pgPerBlk - 1 ∧ blk.flags.isOpen then
    -- close the block; the write pointer is left behind
    { blk with flags := { blk.flags with line := false, isOpen := false } }
  else if logPg then
    { blk with currentPg := pg + 1 }
  else if blk.currentPg ≤ pg then
    { blk with currentPg := blk.currentPg + 1 }
  else blk

/-- `oxb_recovery_apply_write`. -/
def oxbRecoveryApplyWrite (env : ε) (log : LogEntry) (logPg inv : Bool) : ε :=
  let addr := log.newPpa
  let blk := applyWriteEntry oxapp.geo (oxapp.getBlk env addr) addr.pg logPg
  let env := oxapp.markFn (oxapp.setBlk env addr blk) addr
  if inv ∧ log.oldPpa ≠ 0 then oxapp.invalidateFn env log.oldPpa logPg else env

/-- `oxb_recovery_apply_fix_blk`. -/
def oxbRecoveryApplyFixBlk (env : ε) (ppa : Ppa) : ε :=
  let blk := oxapp.getBlk env ppa
  if ppa.pg.val < oxapp.geo.pgPerBlk - 1 ∧ blk.flags.isOpen then
    oxapp.setBlk env ppa { blk with currentPg := ppa.pg }
  else env

/-- `oxb_recovery_btree_add_log`. -/
def oxbRecoveryBtreeAddLog (tree : SearchTree Nat (List LogEntry)) (log : LogEntry) :
    SearchTree Nat (List LogEntry) :=
  let tree :=
    match tree.tfind log.tid with
    | none => tree.tsearch log.tid []
    | some _ => tree
  tree.modify log.tid fun logs => logs ++ [log]

/-- `oxb_recovery_should_drop`: the byte loop from index `byteI` on. -/
def shouldDropFrom (log : LogEntry) (i : Nat) : Nat → Nat → Bool
  | 0, _ => false
  | left + 1, byteI =>
      if log.byte byteI = 0 then false
      else if log.byte byteI = i then true
      else shouldDropFrom log i left (byteI + 1)

/-- `oxb_recovery_should_drop`. -/
def oxbRecoveryShouldDrop (log : LogEntry) (i : Nat) : Bool :=
  shouldDropFrom log i 48 0

/-- Upsert a sector record and, on success, invalidate the address the record
names as the old one. -/
def upsertRecord (state : RecState ε) (log : LogEntry) : RecState ε :=
  let (env, _, ret) := oxapp.upsertFn state.env log.lba log.newPpa log.oldPpa
  { state with
    env := if ret = 0 then oxapp.invalidateFn env log.oldPpa false else env
    calls := state.calls ++ [MapCall.ofEntry log] }

/-- The body of the drain loop of `oxb_recovery_btree_commit` for record number
`logN` of the transaction. -/
def commitRecord (state : RecState ε) (log : LogEntry) (logN : Nat) : RecState ε :=
  match log.type with
  | .write => upsertRecord oxapp state log
  | .gcWrite =>
      if oxbRecoveryShouldDrop log logN then
        { state with env := oxapp.invalidateFn state.env log.newPpa false }
      else upsertRecord oxapp state log
  | .gcMap =>
      if oxbRecoveryShouldDrop log logN then
        { state with env := oxapp.invalidateFn state.env log.newPpa true }
      else
        { state with env := (oxapp.upsertMdFn state.env log.lba log.newPpa log.oldPpa).1 }
  | _ => state

/-- The drain loop of `oxb_recovery_btree_commit`. -/
def drain : RecState ε → List LogEntry → Nat → RecState ε
  | state, [], _ => state
  | state, log :: logs, logN => drain (commitRecord oxapp state log (logN + 1)) logs (logN + 1)

/-- `oxb_recovery_btree_commit`: the commit record carries the transaction id as
its timestamp. -/
def oxbRecoveryBtreeCommit (state : RecState ε) (log : LogEntry) : RecState ε :=
  match state.tree.tfind log.ts with
  | none => state
  | some logs => { drain oxapp state logs 0 with tree := state.tree.tdelete log.ts }

/-- Invalidate the pages of the block of `ppa` from page `pg` on. -/
def invalidateTail (env : ε) (ppa : Ppa) : Nat → Nat → ε
  | 0, _ => env
  | left + 1, pg => invalidateTail (oxapp.invalidateFn env (ppa.setPg pg) true) ppa left (pg + 1)

/-- `oxb_recovery_log_switch`: new state and return value, which is non-zero when
the rest of the sector is to be skipped. -/
def oxbRecoveryLogSwitch (state : RecState ε) (entry : LogEntry) : RecState ε × Int :=
  match entry.type with
  | .pad | .pointer => (state, 1)
  | .write | .gcWrite =>
      ({ state with
          env := oxbRecoveryApplyWrite oxapp state.env entry false false
          tree := oxbRecoveryBtreeAddLog state.tree entry }, 0)
  | .gcMap =>
      ({ state with
          env := oxbRecoveryApplyWrite oxapp state.env entry true false
          tree := oxbRecoveryBtreeAddLog state.tree entry }, 0)
  | .map =>
      let env := oxbRecoveryApplyWrite oxapp state.env entry true true
      ({ state with env := (oxapp.upsertMdFn env entry.lba entry.newPpa entry.oldPpa).1 }, 0)
  | .blkMd | .mapMd =>
      ({ state with env := oxbRecoveryApplyWrite oxapp state.env entry true true }, 0)
  | .amend =>
      let ppa := entry.amendPpa
      let env := (oxapp.closeBlkFn state.env ppa entry.provType).1
      let env := invalidateTail oxapp env ppa (oxapp.geo.pgPerBlk - ppa.pg) ppa.pg
      -- the case falls through to the aborted-write case
      ({ state with env := oxbRecoveryApplyFixBlk oxapp env ppa }, 0)
  | .abortW =>
      ({ state with env := oxbRecoveryApplyFixBlk oxapp state.env entry.amendPpa }, 0)
  | .putBlk => ({ state with env := (oxapp.putBlkFn state.env entry.amendPpa).1 }, 0)
  | .commit => (oxbRecoveryBtreeCommit oxapp state entry, 0)
  | .unknown _ => (state, 0)

/-- Replay a record sequence. -/
def replay (state : RecState ε) (log : List LogEntry) : RecState ε :=
  log.foldl (fun current entry => (oxbRecoveryLogSwitch oxapp current entry).1) state

end OxCtrl.Recovery
