import OxCtrl.Recovery.Atomicity
import OxCtrl.Transaction

/-!
# Replay of a garbage-collection transaction

Garbage collection marks the entries whose mapping update lost against a user write,
and the commit record of the transaction carries their numbers.  Replay does not look
there: the drain loop of `oxb_recovery_btree_commit` passes the write record itself to
`oxb_recovery_should_drop`, so the bytes it compares are those of the transaction id
and of the logical address.
-/

namespace OxCtrl.Recovery

open OxCtrl.Log
open OxCtrl.Transaction

universe u

/-! ## What the run time decided -/

/-- The write record of an entry of a transaction, as `app_transaction_alloc_list`
appends it. -/
def trRecord (tr : Tr) (entry : TrLog) : LogEntry :=
  LogEntry.ofWrite tr.type.logType entry.ts tr.ts entry.lba entry.ppa 0

/-- The write records of a transaction. -/
def trRecords (tr : Tr) : List LogEntry :=
  tr.entries.map (trRecord tr)

section Flagged

variable {ε : Type u} (oxapp : Oxapp ε)

/-- One entry of a garbage-collection transaction: dropped when the flag is set, and
applied otherwise. -/
def commitFlaggedEntry (type : TrType) (env : ε) (entry : TrLog) (dropped : Bool) : ε :=
  if dropped then oxapp.invalidateFn env entry.ppa (type = .gcMap)
  else if type = .gcMap then (oxapp.upsertMdFn env entry.lba entry.ppa 0).1
  else
    match oxapp.upsertFn env entry.lba entry.ppa 0 with
    | (env, _, ret) => if ret = 0 then oxapp.invalidateFn env 0 false else env

/-- The entries of a garbage-collection transaction, each with its flag. -/
def commitFlagged (type : TrType) (env : ε) (flagged : List (TrLog × Bool)) : ε :=
  flagged.foldl (fun env item => commitFlaggedEntry oxapp type env item.1 item.2) env

/-- The outcome that the run time decided on: exactly the entries marked `abort` are
dropped. -/
def commitByAbort (env : ε) (tr : Tr) : ε :=
  commitFlagged oxapp tr.type env (tr.entries.map fun entry => (entry, entry.abort))

end Flagged

/-- Replay of a transaction agrees with its run time: whatever the modules do and
whatever else the log holds before the commit record, the commit record applies the
entries that were applied and drops those that were marked. -/
def ReplayAgrees (tr : Tr) : Prop :=
  ∀ (ε : Type) (oxapp : Oxapp ε) (env : ε) (log : List LogEntry),
    log.filter (collectedFor tr.ts) = trRecords tr →
    (∀ entry ∈ log, isCommit entry → entry.ts ≠ tr.ts) →
    (replay oxapp { env := env } (log ++ [tr.commitEntry])).env =
      commitByAbort oxapp (replay oxapp { env := env } log).env tr

/-! ## What replay decides -/

/-- The eight bytes of a word. -/
def wordBytes (word : Nat) : List Nat :=
  (List.range 8).map fun i => word / 2 ^ (8 * i) % 2 ^ 8

/-- The bytes of the id of a transaction and of a logical address, up to the first byte
that is zero. -/
def comparedBytes (tid lba : Nat) : List Nat :=
  (wordBytes tid ++ wordBytes lba).takeWhile fun byte => byte ≠ 0

theorem shouldDropFrom_iff (log : LogEntry) (i left byteI : Nat) :
    shouldDropFrom log i left byteI = true ↔
      i ∈ (((List.range' byteI left).map log.byte).takeWhile fun byte => byte ≠ 0) := by
  induction left generalizing byteI with
  | zero => simp [shouldDropFrom]
  | succ left ih =>
      rw [shouldDropFrom, List.range'_succ, List.map_cons, List.takeWhile_cons]
      by_cases zero : log.byte byteI = 0
      · simp [zero]
      · by_cases same : log.byte byteI = i
        · simp [same]
        · simp [zero, same, ih, Ne.symm same]

/-- The bytes of a write record: the third word is an old address that is zero. -/
theorem bytes_trRecord (tr : Tr) (entry : TrLog) :
    ∃ rest, (List.range' 0 48).map (trRecord tr entry).byte =
      wordBytes tr.ts ++ wordBytes entry.lba ++ 0 :: rest := by
  refine ⟨(List.range' 17 31).map (trRecord tr entry).byte, ?_⟩
  rw [show List.range' 0 48 = List.range' 0 16 ++ 16 :: List.range' 17 31 from by decide,
    List.map_append, List.map_cons]
  congr 2
  -- byte 16 is the first byte of the old address
  simp [LogEntry.byte, LogEntry.word, trRecord, LogEntry.ofWrite]
  rfl

/-- A write record is dropped when its number is one of the compared bytes. -/
theorem shouldDrop_trRecord (tr : Tr) (entry : TrLog) (i : Nat) :
    oxbRecoveryShouldDrop (trRecord tr entry) i = true ↔ i ∈ comparedBytes tr.ts entry.lba := by
  obtain ⟨rest, bytes⟩ := bytes_trRecord tr entry
  rw [oxbRecoveryShouldDrop, shouldDropFrom_iff, bytes, comparedBytes]
  rw [List.takeWhile_append]
  split
  next all =>
    rw [(List.takeWhile_prefix _).eq_of_length all]
    simp
  next => rfl

/-- The entries of a transaction with the flags that replay computes. -/
def replayFlags (tr : Tr) : List (TrLog × Bool) :=
  tr.entries.mapIdx fun i entry => (entry, oxbRecoveryShouldDrop (trRecord tr entry) (i + 1))

section Drain

variable {ε : Type u} (oxapp : Oxapp ε)

theorem env_commitRecord {tr : Tr} (gc : tr.type ≠ .lbaNs) (state : RecState ε) (entry : TrLog)
    (logN : Nat) :
    (commitRecord oxapp state (trRecord tr entry) logN).env =
      commitFlaggedEntry oxapp tr.type state.env entry
        (oxbRecoveryShouldDrop (trRecord tr entry) logN) := by
  have newPpa : (trRecord tr entry).newPpa = entry.ppa := LogEntry.ofWrite_newPpa ..
  have oldPpa : (trRecord tr entry).oldPpa = 0 := LogEntry.ofWrite_oldPpa ..
  have lba : (trRecord tr entry).lba = entry.lba := rfl
  have type : (trRecord tr entry).type = tr.type.logType := rfl
  unfold commitRecord commitFlaggedEntry upsertRecord
  rw [type, newPpa, oldPpa, lba]
  cases kind : tr.type with
  | lbaNs => exact absurd kind gc
  | gcNs => by_cases dropped : oxbRecoveryShouldDrop (trRecord tr entry) logN <;>
      simp [TrType.logType, dropped]
  | gcMap => by_cases dropped : oxbRecoveryShouldDrop (trRecord tr entry) logN <;>
      simp [TrType.logType, dropped]

theorem env_drain {tr : Tr} (gc : tr.type ≠ .lbaNs) (state : RecState ε) (entries : List TrLog)
    (logN : Nat) :
    (drain oxapp state (entries.map (trRecord tr)) logN).env =
      commitFlagged oxapp tr.type state.env
        (entries.mapIdx fun i entry =>
          (entry, oxbRecoveryShouldDrop (trRecord tr entry) (logN + i + 1))) := by
  induction entries generalizing state logN with
  | nil => rfl
  | cons entry entries ih =>
      rw [List.map_cons, drain, ih, List.mapIdx_cons, commitFlagged, commitFlagged,
        List.foldl_cons, env_commitRecord oxapp gc]
      congr 3
      funext i entry
      rw [Nat.add_right_comm logN 1 i, Nat.add_assoc logN i 1]

/-- The commit record of a transaction applies its entries with the flags that replay
computes. -/
theorem replay_commitEntry {tr : Tr} (gc : tr.type ≠ .lbaNs) (env : ε) {log : List LogEntry}
    (records : log.filter (collectedFor tr.ts) = trRecords tr)
    (uncommitted : ∀ entry ∈ log, isCommit entry → entry.ts ≠ tr.ts) :
    (replay oxapp { env := env } (log ++ [tr.commitEntry])).env =
      commitFlagged oxapp tr.type (replay oxapp { env := env } log).env (replayFlags tr) := by
  obtain ⟨-, holds⟩ := pending_replay oxapp env log
  have found := holds tr.ts uncommitted
  rw [records] at found
  have step : replay oxapp { env := env } (log ++ [tr.commitEntry]) =
      oxbRecoveryBtreeCommit oxapp (replay oxapp { env := env } log) tr.commitEntry := by
    rw [replay, List.foldl_append, List.foldl_cons, List.foldl_nil, ← replay]
    rfl
  have sameTs : tr.commitEntry.ts = tr.ts := rfl
  rw [step, oxbRecoveryBtreeCommit, sameTs]
  unfold pending at found
  cases entry : (replay oxapp { env := env } log).tree.tfind tr.ts with
  | none =>
      rw [entry] at found
      have none : tr.entries = [] := List.map_eq_nil_iff.mp found.symm
      simp [replayFlags, none, commitFlagged]
  | some logs =>
      rw [entry] at found
      have same : logs = tr.entries.map (trRecord tr) := found
      simp only [same, env_drain oxapp gc, Nat.zero_add]
      rfl

end Drain

/-! ## Agreement -/

/-- Modules that record, for each entry, whether it was applied. -/
def tracing : Oxapp (List Bool) where
  geo := .small
  upsertFn env _ _ _ := (env ++ [true], 0, 1)
  upsertMdFn env _ _ _ := (env ++ [true], 0)
  getBlk _ _ := {}
  setBlk env _ _ := env
  markFn env _ := env
  invalidateFn env _ _ := env ++ [false]
  closeBlkFn env _ _ := (env, 0)
  putBlkFn env _ := (env, 0)

theorem commitFlagged_tracing (type : TrType) (env : List Bool) (flagged : List (TrLog × Bool)) :
    commitFlagged tracing type env flagged = env ++ flagged.map fun item => !item.2 := by
  induction flagged generalizing env with
  | nil => simp [commitFlagged]
  | cons item flagged ih =>
      have head : commitFlaggedEntry tracing type env item.1 item.2 = env ++ [!item.2] := by
        unfold commitFlaggedEntry
        cases dropped : item.2 with
        | true => rfl
        | false => cases type <;> rfl
      rw [commitFlagged, List.foldl_cons, ← commitFlagged, head, ih]
      simp

theorem filter_trRecords {tr : Tr} (gc : tr.type ≠ .lbaNs) :
    (trRecords tr).filter (collectedFor tr.ts) = trRecords tr := by
  apply List.filter_eq_self.mpr
  intro record mem
  obtain ⟨entry, -, rfl⟩ := List.mem_map.mp mem
  have collected : isCollected (trRecord tr entry) = true := by
    unfold isCollected
    change decide (tr.type.logType = _ ∨ tr.type.logType = _ ∨ tr.type.logType = _) = true
    cases kind : tr.type <;> simp_all [TrType.logType]
  rw [collectedFor, collected]
  exact decide_eq_true rfl

theorem not_isCommit_trRecords {tr : Tr} {record : LogEntry} (mem : record ∈ trRecords tr) :
    ¬ isCommit record := by
  obtain ⟨entry, -, rfl⟩ := List.mem_map.mp mem
  unfold isCommit
  change ¬ decide (tr.type.logType = _) = true
  cases tr.type <;> simp [TrType.logType]

theorem replayAgrees_iff_flags {tr : Tr} (gc : tr.type ≠ .lbaNs) :
    ReplayAgrees tr ↔ replayFlags tr = tr.entries.map fun entry => (entry, entry.abort) := by
  constructor
  · intro agrees
    have trace := agrees (List Bool) tracing [] (trRecords tr) (filter_trRecords gc)
      (fun record mem commit => absurd commit (not_isCommit_trRecords mem))
    rw [replay_commitEntry tracing gc [] (filter_trRecords gc)
      (fun record mem commit => absurd commit (not_isCommit_trRecords mem)), commitByAbort,
      commitFlagged_tracing, commitFlagged_tracing] at trace
    have flags := List.append_cancel_left trace
    apply List.ext_getElem
    · simp [replayFlags]
    · intro i _ bound
      have below : i < tr.entries.length := by simpa using bound
      have atI := congrArg (fun flags : List Bool => flags[i]?) flags
      simp only [replayFlags, List.getElem_mapIdx, List.getElem_map]
      simp [replayFlags, below] at atI
      rw [atI]
  · intro flags ε oxapp env log records uncommitted
    rw [replay_commitEntry oxapp gc env records uncommitted, flags, commitByAbort]

/-- Replay of a garbage-collection transaction agrees with its run time exactly when the
number of every entry is one of the bytes of the transaction id and of the logical
address before the first zero byte if, and only if, the entry was marked. -/
theorem gc_replay_agrees_iff (tr : Tr) (gc : tr.type ≠ .lbaNs) :
    ReplayAgrees tr ↔
      ∀ i entry, tr.entries[i]? = some entry →
        (entry.abort = true ↔ i + 1 ∈ comparedBytes tr.ts entry.lba) := by
  rw [replayAgrees_iff_flags gc]
  constructor
  · intro flags i entry get
    have atI := congrArg (fun flags : List (TrLog × Bool) => flags[i]?) flags
    simp only [replayFlags, List.getElem?_mapIdx, List.getElem?_map, get, Option.map_some,
      Option.some.injEq, Prod.mk.injEq, true_and] at atI
    rw [← shouldDrop_trRecord tr, atI]
  · intro marked
    apply List.ext_getElem
    · simp [replayFlags]
    · intro i _ bound
      have below : i < tr.entries.length := by simpa using bound
      simp only [replayFlags, List.getElem_mapIdx, List.getElem_map, Prod.mk.injEq, true_and]
      rw [Bool.eq_iff_iff, shouldDrop_trRecord tr]
      exact (marked i _ (List.getElem?_eq_getElem below)).symm

/-- A transaction that moves one sector and loses no race. -/
theorem gc_replay_agrees_iff_small :
    ReplayAgrees { ts := 5, type := .gcNs, entries := [{ ts := 5, lba := 7, ppa := .ofNat 9 }] } :=
  (gc_replay_agrees_iff _ (by decide)).mpr (by
    intro i entry get
    cases i with
    | zero => cases get; decide
    | succ i => simp at get)

/-- The sector of the transaction was written by the user meanwhile: the entry is
marked, and replay applies it. -/
theorem gc_replay_disagrees :
    ¬ ReplayAgrees
      { ts := 5, type := .gcNs,
        entries := [{ ts := 5, lba := 7, ppa := .ofNat 9, abort := true }] } := by
  intro agrees
  have flags := (replayAgrees_iff_flags (by decide)).mp agrees
  revert flags
  decide

end OxCtrl.Recovery
