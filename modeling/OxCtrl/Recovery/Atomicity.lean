import OxCtrl.Recovery.Replay
import OxCtrl.Store
import Mathlib.Data.List.Induction

/-!
# Replay atomicity

A transaction reaches the mapping table as a whole, at its commit record, or not at
all.  The tree is described by the records it holds for each transaction id; one
lemma says how a log record changes them, and the induction over the log follows
from it.
-/

namespace OxCtrl.Recovery

open OxCtrl.Lib
open OxCtrl.Log

universe u

/-! ## Record kinds -/

/-- Record types that `oxb_recovery_log_switch` adds to the tree. -/
def isCollected (entry : LogEntry) : Bool :=
  entry.type = .write ∨ entry.type = .gcWrite ∨ entry.type = .gcMap

/-- Commit records. -/
def isCommit (entry : LogEntry) : Bool :=
  entry.type = .commit

/-- Records collected for transaction `tid`. -/
def collectedFor (tid : Nat) (entry : LogEntry) : Bool :=
  isCollected entry && entry.tid = tid

/-- User-write records of transaction `tid`. -/
def isWriteOf (tid : Nat) (entry : LogEntry) : Bool :=
  entry.type = .write && entry.tid = tid

theorem filter_isWriteOf (log : List LogEntry) (tid : Nat) :
    (log.filter (collectedFor tid)).filter (fun entry => entry.type = .write) =
      log.filter (isWriteOf tid) := by
  rw [List.filter_filter]
  apply List.filter_congr
  intro entry _
  simp only [collectedFor, isCollected, isWriteOf]
  grind

/-! ## The tree as a map from transaction ids to records -/

/-- Records that the tree holds for a transaction. -/
def pending (tree : SearchTree Nat (List LogEntry)) (tid : Nat) : List LogEntry :=
  (tree.tfind tid).getD []

theorem pending_addLog (tree : SearchTree Nat (List LogEntry)) (log : LogEntry) (tid : Nat) :
    pending (oxbRecoveryBtreeAddLog tree log) tid =
      if tid = log.tid then pending tree tid ++ [log] else pending tree tid := by
  unfold oxbRecoveryBtreeAddLog pending
  cases found : tree.tfind log.tid with
  | none =>
      simp only [SearchTree.tfind_modify, SearchTree.tfind_tsearch]
      by_cases same : tid = log.tid <;> simp [same, found]
  | some logs =>
      simp only [SearchTree.tfind_modify]
      by_cases same : tid = log.tid <;> simp [same, found]

theorem ordered_addLog {tree : SearchTree Nat (List LogEntry)} (ordered : tree.Ordered)
    (log : LogEntry) : (oxbRecoveryBtreeAddLog tree log).Ordered := by
  unfold oxbRecoveryBtreeAddLog
  cases tree.tfind log.tid with
  | none => exact (ordered.tsearch log.tid []).modify log.tid _
  | some logs => exact ordered.modify log.tid _

variable {ε : Type u} (oxapp : Oxapp ε)

/-- Upsert calls made for user-write records. -/
def userCalls (state : RecState ε) : List MapCall :=
  state.calls.filter fun call => call.origin = .write

/-! ## Draining a transaction -/

theorem userCalls_commitRecord (state : RecState ε) (log : LogEntry) (logN : Nat) :
    userCalls (commitRecord oxapp state log logN) =
      userCalls state ++
        ([log].filter fun entry => entry.type = .write).map MapCall.ofEntry := by
  unfold commitRecord userCalls upsertRecord
  split
  · simp [MapCall.ofEntry, *]
  · split <;> simp [MapCall.ofEntry, *]
  · split <;> simp [*]
  · rename_i notWrite _ _
    simp [show ¬ log.type = .write from notWrite]

theorem userCalls_drain (state : RecState ε) (logs : List LogEntry) (logN : Nat) :
    userCalls (drain oxapp state logs logN) =
      userCalls state ++ (logs.filter fun entry => entry.type = .write).map MapCall.ofEntry := by
  induction logs generalizing state logN with
  | nil => simp [drain]
  | cons log logs ih =>
      rw [drain, ih, userCalls_commitRecord, ← List.singleton_append (l := logs),
        List.filter_append, List.map_append, List.append_assoc]

/-- A commit record issues the user writes pending for its transaction. -/
theorem userCalls_commit (state : RecState ε) (log : LogEntry) :
    userCalls (oxbRecoveryBtreeCommit oxapp state log) =
      userCalls state ++
        ((pending state.tree log.ts).filter fun entry => entry.type = .write).map
          MapCall.ofEntry := by
  unfold oxbRecoveryBtreeCommit pending
  cases state.tree.tfind log.ts with
  | none => simp
  | some logs => exact userCalls_drain oxapp state logs 0

theorem ordered_commit {state : RecState ε} (ordered : state.tree.Ordered) (log : LogEntry) :
    (oxbRecoveryBtreeCommit oxapp state log).tree.Ordered := by
  unfold oxbRecoveryBtreeCommit
  cases state.tree.tfind log.ts with
  | none => exact ordered
  | some logs => exact ordered.tdelete log.ts

theorem pending_commit {state : RecState ε} (ordered : state.tree.Ordered) (log : LogEntry)
    (tid : Nat) :
    pending (oxbRecoveryBtreeCommit oxapp state log).tree tid =
      if tid = log.ts then [] else pending state.tree tid := by
  unfold oxbRecoveryBtreeCommit pending
  cases found : state.tree.tfind log.ts with
  | none => by_cases same : tid = log.ts <;> simp [same, found]
  | some logs =>
      simp only [SearchTree.tfind_tdelete ordered]
      by_cases same : tid = log.ts <;> simp [same]

/-! ## One record of the log -/

/-- How a log record changes the tree. -/
theorem pending_logSwitch {state : RecState ε} (ordered : state.tree.Ordered)
    (entry : LogEntry) (tid : Nat) :
    pending (oxbRecoveryLogSwitch oxapp state entry).1.tree tid =
      if isCommit entry ∧ tid = entry.ts then []
      else pending state.tree tid ++ [entry].filter (collectedFor tid) := by
  unfold oxbRecoveryLogSwitch
  cases kind : entry.type
  case commit =>
    simp only [pending_commit oxapp ordered]
    simp [isCommit, collectedFor, isCollected, kind]
  case write =>
    simp only [pending_addLog]
    by_cases same : tid = entry.tid
    · simp [isCommit, collectedFor, isCollected, kind, same]
    · simp [isCommit, collectedFor, isCollected, kind, same, Ne.symm same]
  case gcWrite =>
    simp only [pending_addLog]
    by_cases same : tid = entry.tid
    · simp [isCommit, collectedFor, isCollected, kind, same]
    · simp [isCommit, collectedFor, isCollected, kind, same, Ne.symm same]
  case gcMap =>
    simp only [pending_addLog]
    by_cases same : tid = entry.tid
    · simp [isCommit, collectedFor, isCollected, kind, same]
    · simp [isCommit, collectedFor, isCollected, kind, same, Ne.symm same]
  all_goals simp [isCommit, collectedFor, isCollected, kind]

theorem ordered_logSwitch {state : RecState ε} (ordered : state.tree.Ordered)
    (entry : LogEntry) : (oxbRecoveryLogSwitch oxapp state entry).1.tree.Ordered := by
  unfold oxbRecoveryLogSwitch
  cases entry.type
  case commit => exact ordered_commit oxapp ordered entry
  case write => exact ordered_addLog ordered entry
  case gcWrite => exact ordered_addLog ordered entry
  case gcMap => exact ordered_addLog ordered entry
  all_goals exact ordered

/-- User writes reach the mapping table at commit records only. -/
theorem userCalls_logSwitch (state : RecState ε) (entry : LogEntry) :
    userCalls (oxbRecoveryLogSwitch oxapp state entry).1 =
      userCalls state ++
        if isCommit entry then
          ((pending state.tree entry.ts).filter fun log => log.type = .write).map
            MapCall.ofEntry
        else [] := by
  unfold oxbRecoveryLogSwitch
  cases kind : entry.type
  case commit =>
    rw [if_pos (by simp [isCommit, kind])]
    exact userCalls_commit oxapp state entry
  all_goals simp [isCommit, kind, userCalls]

/-! ## The whole log -/

/-- The user-write records that precede position `i` of the log, if a commit record
of their transaction stands there. -/
def committedAt (log : List LogEntry) (i : Nat) : List LogEntry :=
  match log[i]? with
  | some entry => if isCommit entry then (log.take i).filter (isWriteOf entry.ts) else []
  | none => []

/-- The records that the commit records of a log make effective: transaction by
transaction in the order of the commit records, and in log order inside each. -/
def committedWrites (log : List LogEntry) : List LogEntry :=
  (List.range log.length).flatMap (committedAt log)

/-- No two commit records carry the same transaction id. -/
def DistinctCommits (log : List LogEntry) : Prop :=
  ((log.filter isCommit).map LogEntry.ts).Nodup

/-- The commit record of a transaction follows all of its write records. -/
def CommitLast (log : List LogEntry) : Prop :=
  log.Pairwise fun first second => ¬ (isCommit first ∧ isWriteOf first.ts second)

theorem committedWrites_concat (log : List LogEntry) (entry : LogEntry) :
    committedWrites (log ++ [entry]) =
      committedWrites log ++
        if isCommit entry then log.filter (isWriteOf entry.ts) else [] := by
  unfold committedWrites
  rw [List.length_append, List.length_singleton, List.range_succ, List.flatMap_append,
    List.flatMap_singleton]
  congr 1
  · apply List.flatMap_congr
    intro i mem
    have below : i < log.length := List.mem_range.mp mem
    simp only [committedAt, List.getElem?_append_left below,
      List.take_append_of_le_length below.le]
  · simp [committedAt]

/-- Replay invariant: the tree holds, for every transaction without a commit record
so far, all records collected for it. -/
theorem pending_replay (env : ε) (log : List LogEntry) :
    let state := replay oxapp { env := env } log
    state.tree.Ordered ∧
      ∀ tid, (∀ entry ∈ log, isCommit entry → entry.ts ≠ tid) →
        pending state.tree tid = log.filter (collectedFor tid) := by
  induction log using List.reverseRecOn with
  | nil => exact ⟨SearchTree.ordered_leaf, fun _ _ => rfl⟩
  | append_singleton log entry ih =>
      obtain ⟨ordered, holds⟩ := ih
      rw [replay, List.foldl_append, List.foldl_cons, List.foldl_nil, ← replay]
      refine ⟨ordered_logSwitch oxapp ordered entry, ?_⟩
      intro tid uncommitted
      rw [pending_logSwitch oxapp ordered, holds tid, List.filter_append]
      · rw [if_neg]
        rintro ⟨commit, rfl⟩
        exact uncommitted entry (by simp) commit rfl
      · intro earlier earlierMem
        exact uncommitted earlier (List.mem_append_left _ earlierMem)

/-- The calls that a replay makes are the committed writes. -/
theorem userCalls_replay (env : ε) (log : List LogEntry) (distinct : DistinctCommits log) :
    userCalls (replay oxapp { env := env } log) =
      (committedWrites log).map MapCall.ofEntry := by
  induction log using List.reverseRecOn with
  | nil => rfl
  | append_singleton log entry ih =>
      have distinctLog : DistinctCommits log := by
        unfold DistinctCommits at distinct ⊢
        rw [List.filter_append, List.map_append] at distinct
        exact (List.nodup_append.mp distinct).1
      have calls := ih distinctLog
      obtain ⟨-, holds⟩ := pending_replay oxapp env log
      rw [replay, List.foldl_append, List.foldl_cons, List.foldl_nil, ← replay]
      rw [userCalls_logSwitch, calls, committedWrites_concat, List.map_append]
      congr 1
      by_cases commit : isCommit entry
      · rw [if_pos commit, if_pos commit, holds entry.ts, filter_isWriteOf]
        -- the transaction id of this commit record occurs in no earlier one
        intro earlier earlierMem earlierCommit same
        unfold DistinctCommits at distinct
        rw [List.filter_append, List.map_append, List.nodup_append] at distinct
        refine distinct.2.2 earlier.ts ?_ entry.ts (by simp [commit]) same
        exact List.mem_map_of_mem (List.mem_filter.mpr ⟨earlierMem, earlierCommit⟩)
      · rw [if_neg commit, if_neg commit, List.map_nil]

theorem committedWrites_eq_flatMap {log : List LogEntry} (last : CommitLast log) :
    committedWrites log =
      (log.filter isCommit).flatMap fun entry => log.filter (isWriteOf entry.ts) := by
  induction log using List.reverseRecOn with
  | nil => rfl
  | append_singleton log entry ih =>
      obtain ⟨lastLog, -, before⟩ := List.pairwise_append.mp last
      have earlier : ∀ commit ∈ log.filter isCommit,
          (log ++ [entry]).filter (isWriteOf commit.ts) = log.filter (isWriteOf commit.ts) := by
        intro commit mem
        obtain ⟨commitMem, commitKind⟩ := List.mem_filter.mp mem
        have notWrite : isWriteOf commit.ts entry = false := by
          have := before commit commitMem entry List.mem_cons_self
          simpa [commitKind] using this
        rw [List.filter_append, List.filter_singleton, notWrite]
        simp
      rw [committedWrites_concat, List.filter_append, List.flatMap_append,
        List.flatMap_congr earlier, ih lastLog]
      congr 1
      by_cases commit : isCommit entry
      · have kind : entry.type = .commit := by simpa [isCommit] using commit
        simp [commit, List.filter_append, isWriteOf, kind]
      · simp [commit]

/-- Replay atomicity.  The user-write upserts that a replay performs are those of the
records that precede the commit record of their transaction, in log order within a
transaction and transaction by transaction in the order of the commit records.  When
every commit record follows the write records of its transaction, these are all
entries of the transactions with a commit record. -/
theorem replay_upserts_committed_transactions (env : ε) (log : List LogEntry)
    (distinct : DistinctCommits log) :
    userCalls (replay oxapp { env := env } log) =
        (committedWrites log).map MapCall.ofEntry ∧
      (CommitLast log →
        userCalls (replay oxapp { env := env } log) =
          ((log.filter isCommit).flatMap fun entry =>
            log.filter (isWriteOf entry.ts)).map MapCall.ofEntry) ∧
      ∀ entry ∈ committedWrites log, ∃ commit ∈ log, isCommit commit ∧ commit.ts = entry.tid := by
  have calls := userCalls_replay oxapp env log distinct
  refine ⟨calls, fun last => ?_, ?_⟩
  · rw [calls, committedWrites_eq_flatMap last]
  · intro entry mem
    simp only [committedWrites, List.mem_flatMap, List.mem_range] at mem
    obtain ⟨i, below, entryMem⟩ := mem
    rw [committedAt, List.getElem?_eq_getElem below] at entryMem
    by_cases commit : isCommit log[i]
    · simp only [commit, if_true, List.mem_filter] at entryMem
      refine ⟨log[i], List.getElem_mem below, commit, ?_⟩
      simpa [isWriteOf, eq_comm] using (Bool.and_eq_true_iff.mp entryMem.2).2
    · simp [commit] at entryMem

/-- Two transactions, of which the second one has no commit record. -/
theorem replay_upserts_committed_transactions_small :
    userCalls (replay
        (Store.oxapp .small ⟨fun blocks _ _ => (blocks, 0), fun blocks _ => (blocks, 0)⟩)
        { env := (⟨fun _ => 0, fun _ => 0, fun _ => {}, ()⟩ : Store Unit) }
        [.ofWrite .write 1 2 7 (.ofNat 9) 0, .ofWrite .write 3 3 8 (.ofNat 10) 0,
          .ofWrite .write 2 2 8 (.ofNat 11) 0, .ofCommit 2]) =
      [⟨.write, 7, .ofNat 9, 0⟩, ⟨.write, 8, .ofNat 11, 0⟩] :=
  (replay_upserts_committed_transactions _ _ _ (by unfold DistinctCommits; decide)).1.trans
    (by decide)

end OxCtrl.Recovery
