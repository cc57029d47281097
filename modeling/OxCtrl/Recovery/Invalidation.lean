import OxCtrl.Lib.System
import OxCtrl.ChProv.Core
import OxCtrl.Recovery.Atomicity

/-!
# Sector invalidation at run time and in a replay

At run time a commit invalidates the sectors that the mapping table held before.  A
replay invalidates the address that a write record names as the old one, and
`app_transaction_alloc_list` stores zero there.  The two page states are compared over
histories of user transactions: blocks are opened, sectors are handed out and logged,
and transactions are committed one after another.
-/

namespace OxCtrl.Recovery

open OxCtrl.Lib
open OxCtrl.Log
open OxCtrl.Transaction

/-- The tables, with the list of the records appended since the checkpoint. -/
abbrev HostState : Type := TrState (Store (List LogEntry))

variable (geo : Geometry) (prov : ProvFns)

/-- The modules over such tables. -/
def hostApp : TrApp (Store (List LogEntry)) where
  toOxapp := Store.oxapp geo prov
  appendFn store list := ({ store with log := store.log ++ list }, 0)
  flushFn store := (store, 0)

/-! ## Histories -/

/-- Block metadata when the sectors of page `pg` are handed out: the write pointer
moves with the first one, and a full block is closed. -/
def handOutMd (entry : BlkMdEntry) (pg : Nat) : BlkMdEntry :=
  if entry.currentPg = pg then
    { entry with
      currentPg := pg + 1
      flags :=
        if pg + 1 = geo.pgPerBlk then { entry.flags with line := false, isOpen := false }
        else entry.flags }
  else entry

/-- Block metadata of a sector that is handed out. -/
def handOut (blocks : Blocks) (ppa : Ppa) : Blocks :=
  Function.update blocks ppa.block (handOutMd geo (blocks ppa.block) ppa.pg)

/-- Steps of a history. -/
inductive HostOp where
  /-- Provisioning opens a free block. -/
  | openBlk (block : BlkAddr)
  /-- A user transaction is created. -/
  | new (lbas : List (Nat × Nat))
  /-- Sectors are provided for entries of transactions. -/
  | alloc (ent : List (Option EntryRef)) (ppas : List Ppa)
  /-- `app_transaction_commit` marks a transaction. -/
  | mark (tid : Nat) (flush : Bool)
  /-- One round of `app_transaction_ordered_commit`. -/
  | commit
  deriving DecidableEq, Repr

/-- The running system. -/
def hostSystem : System HostState HostOp Unit where
  step
    | state, .openBlk block =>
        let entry := state.env.blocks block
        let opened := ChProv.openedMd { entry with eraseCount := entry.eraseCount + 1 }
        ({ state with
            env := { state.env with blocks := Function.update state.env.blocks block opened } },
          ())
    | state, .new lbas => ((Transaction.appTransactionNew state lbas .lbaNs).getD state, ())
    | state, .alloc ent ppas =>
        let env := { state.env with blocks := ppas.foldl (handOut geo) state.env.blocks }
        ((appTransactionAllocList (hostApp geo prov) { state with env := env } ent .lbaNs
            (some ppas)).1, ())
    | state, .mark tid flush => ((markCommitted state tid flush).1, ())
    | state, .commit => ((commitHead (hostApp geo prov) state).1, ())

theorem orderedCommit_run (rounds : Nat) (state : HostState) :
    ∃ n, orderedCommit (hostApp geo prov) rounds state =
      (hostSystem geo prov).run state (List.replicate n .commit) := by
  induction rounds generalizing state with
  | zero => exact ⟨0, rfl⟩
  | succ rounds ih =>
      rw [orderedCommit]
      split
      next after eq =>
        obtain ⟨n, run⟩ := ih after
        refine ⟨n + 1, run.trans ?_⟩
        simp [List.replicate_succ, hostSystem, eq]
      next after eq => exact ⟨1, by simp [hostSystem, eq]⟩

/-- `app_transaction_commit` is a sequence of such steps. -/
theorem appTransactionCommit_run (state : HostState) (tid : Nat) (flush : Bool) :
    ∃ n, (appTransactionCommit (hostApp geo prov) state tid flush).1 =
      (hostSystem geo prov).run state (.mark tid flush :: List.replicate n .commit) := by
  rw [appTransactionCommit]
  split
  next after eq =>
    obtain ⟨n, run⟩ := orderedCommit_run geo prov after.used.length after
    exact ⟨n, by simp [hostSystem, eq, run]⟩
  next after ret _ eq => exact ⟨0, by simp [hostSystem, eq]⟩

/-- The block of the address zero, which no line uses. -/
def reservedBlk : BlkAddr :=
  (0 : Ppa).block

/-- The sectors come page by page.  A page is the next one of an open block, and its
first sector is for an entry. -/
def PageByPage : Blocks → Option (BlkAddr × Nat) → List (Option EntryRef × Ppa) → Prop
  | _, _, [] => True
  | blocks, begun, (ref, ppa) :: rest =>
      (begun = some (ppa.block, ppa.pg.val) ∨
          ref.isSome ∧ ppa.block ≠ reservedBlk ∧ (blocks ppa.block).flags.used ∧
            (blocks ppa.block).flags.isOpen ∧ (blocks ppa.block).currentPg = ppa.pg) ∧
        PageByPage (handOut geo blocks ppa) (some (ppa.block, ppa.pg.val)) rest

instance instDecidablePageByPage : ∀ blocks begun sectors,
    Decidable (PageByPage geo blocks begun sectors)
  | _, _, [] => inferInstanceAs (Decidable True)
  | blocks, _, (_, ppa) :: rest =>
      have := instDecidablePageByPage (handOut geo blocks ppa) (some (ppa.block, ppa.pg.val)) rest
      inferInstanceAs (Decidable (_ ∧ _))

/-- What the modules promise: a block that is opened is free, and the sectors for
existing entries come page by page. -/
def HostOp.Proper (state : HostState) : HostOp → Prop
  | .openBlk block => block ≠ reservedBlk ∧ ¬ (state.env.blocks block).flags.used
  | .alloc ent ppas =>
      ent.length % geo.secPerPlPg = 0 ∧ ent.length = ppas.length ∧
        (∀ ref ∈ ent.filterMap id, (entryAt state.used ref).isSome) ∧
        PageByPage geo state.env.blocks none (ent.zip ppas)
  | _ => True

instance (state : HostState) : ∀ op : HostOp, Decidable (op.Proper geo state)
  | .openBlk _ => inferInstanceAs (Decidable (_ ∧ _))
  | .alloc _ _ => inferInstanceAs (Decidable (_ ∧ _))
  | .new _ | .mark _ _ | .commit => inferInstanceAs (Decidable True)

/-- What holds of the tables at a checkpoint. -/
structure Checkpointed (cp : Store (List LogEntry)) : Prop where
  log : cp.log = []
  used : ∀ block, (cp.blocks block).flags.isOpen → (cp.blocks block).flags.used
  empty : ∀ block, (cp.blocks block).flags.isOpen → (cp.blocks block).currentPg = 0 →
    (cp.blocks block).pgState = fun _ => 0
  mapped : ∀ lba, cp.map lba ≠ 0 →
    (cp.map lba).block ≠ reservedBlk ∧ (cp.blocks (cp.map lba).block).flags.used

/-! ## The comparison -/

/-- The block has a write record in the log. -/
def Touched (log : List LogEntry) (block : BlkAddr) : Prop :=
  ∃ entry ∈ log, entry.type = .write ∧ entry.newPpa.block = block

instance (log : List LogEntry) (block : BlkAddr) : Decidable (Touched log block) :=
  inferInstanceAs (Decidable (∃ entry ∈ log, _ ∧ _))

/-- A block with user sectors: it was in use at the checkpoint or has been written. -/
def UserBlk (cp : Store (List LogEntry)) (log : List LogEntry) (block : BlkAddr) : Prop :=
  block ≠ reservedBlk ∧ ((cp.blocks block).flags.used ∨ Touched log block)

/-- The tables after the checkpoint is loaded and the log is replayed. -/
def recovered (cp : Store (List LogEntry)) (log : List LogEntry) :
    RecState (Store (List LogEntry)) :=
  replay (Store.oxapp geo prov) { env := cp } log

/-- The page states after a recovery are those of the running system, on every block
with user sectors. -/
def PgStatesAgree (cp : Store (List LogEntry)) (state : HostState) : Prop :=
  ∀ block, UserBlk cp state.env.log block →
    ((recovered geo prov cp state.env.log).env.blocks block).pgState =
      (state.env.blocks block).pgState

/-- The transaction that is committed next replaces no sector that is still valid. -/
def HostOp.ReplacesNoValid (state : HostState) : HostOp → Prop
  | .commit => ∀ tr ∈ state.used.head?, tr.committed →
      ∀ old ∈ Store.overwritten state.env.map tr.entries,
        old = 0 ∨ Store.SectorInvalid geo state.env.blocks old
  | _ => True

instance (state : HostState) : ∀ op : HostOp, Decidable (op.ReplacesNoValid geo state)
  | .commit => inferInstanceAs (Decidable (∀ tr ∈ state.used.head?, tr.committed →
      ∀ old ∈ Store.overwritten state.env.map tr.entries,
        old = 0 ∨ Store.SectorInvalid geo state.env.blocks old))
  | .openBlk _ | .new _ | .alloc _ _ | .mark _ _ => inferInstanceAs (Decidable True)

variable {geo : Geometry} {prov : ProvFns}

/-! ## What a replay does to the block metadata -/

theorem applyWriteEntry_pgState (blk : BlkMdEntry) (pg : Nat) :
    (applyWriteEntry geo blk pg false).pgState =
      if pg = 0 ∧ ¬ blk.flags.isOpen then fun _ => 0 else blk.pgState := by
  unfold applyWriteEntry
  split
  · rfl
  · split
    · rfl
    · simp only [Bool.false_eq_true, if_false]
      split <;> rfl

/-- A record that a user transaction appends. -/
def UserRecord (entry : LogEntry) : Prop :=
  entry.type = .write ∧ entry.oldPpa = 0 ∨ entry.type = .commit

theorem recovered_concat (cp : Store (List LogEntry)) (log : List LogEntry) (entry : LogEntry) :
    recovered geo prov cp (log ++ [entry]) =
      (oxbRecoveryLogSwitch (Store.oxapp geo prov) (recovered geo prov cp log) entry).1 := by
  simp [recovered, replay]

/-- The tree holds write records without an old address. -/
theorem recovered_pending (cp : Store (List LogEntry)) {log : List LogEntry}
    (user : ∀ entry ∈ log, UserRecord entry) :
    (recovered geo prov cp log).tree.Ordered ∧
      ∀ tid, ∀ entry ∈ pending (recovered geo prov cp log).tree tid,
        entry.type = .write ∧ entry.oldPpa = 0 := by
  induction log using List.reverseRecOn with
  | nil => exact ⟨SearchTree.ordered_leaf, fun tid entry mem => by simp [recovered, replay, pending,
      SearchTree.tfind] at mem⟩
  | append_singleton log entry ih =>
      obtain ⟨ordered, writes⟩ := ih fun record mem => user record (List.mem_append_left _ mem)
      rw [recovered_concat]
      refine ⟨ordered_logSwitch _ ordered entry, fun tid record mem => ?_⟩
      rw [pending_logSwitch _ ordered] at mem
      split at mem
      · simp at mem
      · rcases List.mem_append.mp mem with mem | mem
        · exact writes tid record mem
        · obtain ⟨single, collected⟩ := List.mem_filter.mp mem
          obtain rfl := List.mem_singleton.mp single
          rcases user record (by simp) with write | commit
          · exact write
          · simp [collectedFor, isCollected, commit] at collected

theorem drain_blocks {logs : List LogEntry}
    (writes : ∀ entry ∈ logs, entry.type = .write ∧ entry.oldPpa = 0)
    (state : RecState (Store (List LogEntry))) (logN : Nat) {block : BlkAddr}
    (user : block ≠ reservedBlk) :
    (drain (Store.oxapp geo prov) state logs logN).env.blocks block =
      state.env.blocks block := by
  induction logs generalizing state logN with
  | nil => rfl
  | cons log logs ih =>
      obtain ⟨write, noOld⟩ := writes log List.mem_cons_self
      rw [drain, ih fun entry mem => writes entry (List.mem_cons_of_mem _ mem)]
      simp only [commitRecord, write, upsertRecord, Store.oxapp, noOld, Store.upsert_zero, if_true]
      rw [Store.invalidate_blocks]
      exact if_neg user

/-- A commit record changes the reserved block only. -/
theorem recovered_commit (cp : Store (List LogEntry)) {log : List LogEntry} {entry : LogEntry}
    (user : ∀ record ∈ log, UserRecord record) (commit : entry.type = .commit)
    {block : BlkAddr} (userBlk : block ≠ reservedBlk) :
    (recovered geo prov cp (log ++ [entry])).env.blocks block =
      (recovered geo prov cp log).env.blocks block := by
  have writes := (@recovered_pending geo prov cp log user).2 entry.ts
  rw [recovered_concat]
  simp only [oxbRecoveryLogSwitch, commit, oxbRecoveryBtreeCommit]
  unfold pending at writes
  split
  · rfl
  next logs found =>
    rw [found] at writes
    exact drain_blocks writes _ 0 userBlk

/-- A write record changes the block that it writes. -/
theorem recovered_write (cp : Store (List LogEntry)) (log : List LogEntry) {entry : LogEntry}
    (write : entry.type = .write) (block : BlkAddr) :
    (recovered geo prov cp (log ++ [entry])).env.blocks block =
      if block = entry.newPpa.block then
        applyWriteEntry geo ((recovered geo prov cp log).env.blocks block) entry.newPpa.pg false
      else (recovered geo prov cp log).env.blocks block := by
  rw [recovered_concat]
  simp only [oxbRecoveryLogSwitch, write, oxbRecoveryApplyWrite, Store.oxapp, Bool.false_eq_true,
    false_and, if_false, Store.setBlk]
  by_cases same : block = entry.newPpa.block
  · subst same
    simp
  · simp [same]

/-! ## The page states of the two sides -/

/-- How the block metadata of the running system (`run`) and of a replay (`rep`) are
related.  The two agree as long as nothing valid has been replaced (`quiet`). -/
structure Tracks (quiet : Prop) (cp : Store (List LogEntry)) (log : List LogEntry)
    (run rep : Blocks) : Prop where
  keeps : ∀ block, (cp.blocks block).flags.used → (run block).flags.used
  touched : ∀ block, Touched log block → (run block).flags.used
  behind : ∀ block, block ≠ reservedBlk → ¬ Touched log block → rep block = cp.blocks block
  fresh : ∀ block, ¬ Touched log block → (run block).flags.used →
    ¬ (cp.blocks block).flags.used → (run block).currentPg = 0
  le : ∀ block, UserBlk cp log block → ∀ idx i,
    ((rep block).pgState idx).getLsbD i → ((run block).pgState idx).getLsbD i
  agree : quiet → ∀ block, UserBlk cp log block → (rep block).pgState = (run block).pgState
  empty : quiet → ∀ block, (run block).flags.isOpen → (run block).currentPg = 0 →
    (run block).pgState = fun _ => 0

theorem touched_concat (log : List LogEntry) (entry : LogEntry) (block : BlkAddr) :
    Touched (log ++ [entry]) block ↔
      Touched log block ∨ entry.type = .write ∧ entry.newPpa.block = block := by
  simp [Touched, or_and_right, exists_or]

theorem touched_commit (log : List LogEntry) {entry : LogEntry} (commit : entry.type = .commit)
    (block : BlkAddr) : Touched (log ++ [entry]) block ↔ Touched log block := by
  simp [touched_concat, commit]

namespace Tracks

variable {quiet : Prop} {cp : Store (List LogEntry)} {log : List LogEntry} {run rep rep' : Blocks}

/-- The write pointer of a block with a record may move. -/
theorem handOut (tracks : Tracks quiet cp log run rep) {ppa : Ppa}
    (written : Touched log ppa.block) :
    Tracks quiet cp log (Recovery.handOut geo run ppa) rep := by
  have other : ∀ block, block ≠ ppa.block → Recovery.handOut geo run ppa block = run block :=
    fun block ne => Function.update_of_ne ne _ _
  have self : Recovery.handOut geo run ppa ppa.block = handOutMd geo (run ppa.block) ppa.pg :=
    Function.update_self _ _ _
  have used : ∀ block, (Recovery.handOut geo run ppa block).flags.used =
      (run block).flags.used := by
    intro block
    by_cases same : block = ppa.block
    · subst same
      rw [self, handOutMd]
      split <;> [skip; rfl]
      split <;> rfl
    · rw [other block same]
  have state : ∀ block, (Recovery.handOut geo run ppa block).pgState = (run block).pgState := by
    intro block
    by_cases same : block = ppa.block
    · subst same
      rw [self, handOutMd]
      split <;> rfl
    · rw [other block same]
  refine ⟨?_, ?_, tracks.behind, ?_, ?_, ?_, ?_⟩
  · simpa only [used] using tracks.keeps
  · simpa only [used] using tracks.touched
  · intro block untouched isUsed free
    have ne : block ≠ ppa.block := fun same => untouched (same ▸ written)
    rw [other block ne] at isUsed ⊢
    exact tracks.fresh block untouched isUsed free
  · simpa only [state] using tracks.le
  · simpa only [state] using tracks.agree
  · intro isQuiet block
    by_cases same : block = ppa.block
    · subst same
      rw [self, handOutMd]
      split
      · simp
      · exact tracks.empty isQuiet _
    · rw [other block same]
      exact tracks.empty isQuiet block

/-- A write record in an open block. -/
theorem write (tracks : Tracks quiet cp log run rep)
    (cpUsed : ∀ block, (cp.blocks block).flags.isOpen → (cp.blocks block).flags.used)
    {entry : LogEntry} (isWrite : entry.type = .write)
    (user : entry.newPpa.block ≠ reservedBlk) (used : (run entry.newPpa.block).flags.used)
    (first : ¬ UserBlk cp log entry.newPpa.block → entry.newPpa.pg = 0)
    (start : quiet → entry.newPpa.pg = 0 → (run entry.newPpa.block).pgState = fun _ => 0)
    (after : ∀ block, rep' block =
      if block = entry.newPpa.block then applyWriteEntry geo (rep block) entry.newPpa.pg false
      else rep block) :
    Tracks quiet cp (log ++ [entry]) run rep' := by
  have touchedSelf : Touched (log ++ [entry]) entry.newPpa.block :=
    (touched_concat ..).mpr (Or.inr ⟨isWrite, rfl⟩)
  have before : ∀ block, block ≠ entry.newPpa.block → UserBlk cp (log ++ [entry]) block →
      UserBlk cp log block := by
    rintro block ne ⟨notReserved, isUser⟩
    refine ⟨notReserved, isUser.imp_right fun isTouched => ?_⟩
    exact ((touched_concat ..).mp isTouched).resolve_right fun same => ne same.2.symm
  -- a block that is written for the first time is opened by the replay
  have reset : ¬ UserBlk cp log entry.newPpa.block →
      (rep' entry.newPpa.block).pgState = fun _ => 0 := by
    intro notUser
    have untouched : ¬ Touched log entry.newPpa.block := fun isTouched =>
      notUser ⟨user, Or.inr isTouched⟩
    have closed : ¬ (cp.blocks entry.newPpa.block).flags.isOpen := fun isOpen =>
      notUser ⟨user, Or.inl (cpUsed _ isOpen)⟩
    rw [after, if_pos rfl, applyWriteEntry_pgState, tracks.behind _ user untouched, if_pos]
    exact ⟨by simp [first notUser], closed⟩
  refine ⟨tracks.keeps, ?_, ?_, ?_, ?_, ?_, tracks.empty⟩
  · intro block isTouched
    rcases (touched_concat ..).mp isTouched with earlier | ⟨-, rfl⟩
    · exact tracks.touched block earlier
    · exact used
  · intro block notReserved untouched
    have ne : block ≠ entry.newPpa.block := fun same => untouched (same ▸ touchedSelf)
    rw [after, if_neg ne]
    exact tracks.behind block notReserved fun earlier =>
      untouched ((touched_concat ..).mpr (Or.inl earlier))
  · intro block untouched
    exact tracks.fresh block fun earlier => untouched ((touched_concat ..).mpr (Or.inl earlier))
  · intro block isUser idx i
    by_cases same : block = entry.newPpa.block
    · subst same
      by_cases known : UserBlk cp log entry.newPpa.block
      · rw [after, if_pos rfl, applyWriteEntry_pgState]
        split
        · simp
        · exact tracks.le _ known idx i
      · rw [reset known]
        simp
    · rw [after, if_neg same]
      exact tracks.le block (before block same isUser) idx i
  · intro isQuiet block isUser
    by_cases same : block = entry.newPpa.block
    · subst same
      by_cases known : UserBlk cp log entry.newPpa.block
      · rw [after, if_pos rfl, applyWriteEntry_pgState]
        split
        next opens => exact (start isQuiet (Fin.val_eq_zero_iff.mp opens.1)).symm
        next => exact tracks.agree isQuiet _ known
      · rw [reset known, start isQuiet (first known)]
    · rw [after, if_neg same]
      exact tracks.agree isQuiet block (before block same isUser)

/-- A free block is opened. -/
theorem openBlk (tracks : Tracks quiet cp log run rep) {block : BlkAddr}
    (free : ¬ (run block).flags.used) (entry : BlkMdEntry) :
    Tracks quiet cp log (Function.update run block (ChProv.openedMd entry)) rep := by
  have untouched : ¬ Touched log block := fun isTouched => free (tracks.touched block isTouched)
  have notKept : ¬ (cp.blocks block).flags.used := fun kept => free (tracks.keeps block kept)
  have notUser : ¬ UserBlk cp log block := fun isUser => isUser.2.elim notKept untouched
  have other : ∀ {other}, UserBlk cp log other → other ≠ block := by
    rintro other isUser rfl
    exact notUser isUser
  refine ⟨?_, ?_, tracks.behind, ?_, ?_, ?_, ?_⟩
  · intro other kept
    have ne : other ≠ block := fun same => notKept (same ▸ kept)
    rw [Function.update_of_ne ne]
    exact tracks.keeps other kept
  · intro other isTouched
    have ne : other ≠ block := fun same => untouched (same ▸ isTouched)
    rw [Function.update_of_ne ne]
    exact tracks.touched other isTouched
  · intro other isUntouched
    by_cases same : other = block
    · subst same
      simp [ChProv.openedMd]
    · rw [Function.update_of_ne same]
      exact tracks.fresh other isUntouched
  · intro block' isUser
    rw [Function.update_of_ne (other isUser)]
    exact tracks.le block' isUser
  · intro isQuiet block' isUser
    rw [Function.update_of_ne (other isUser)]
    exact tracks.agree isQuiet block' isUser
  · intro isQuiet block'
    by_cases same : block' = block
    · subst same
      simp [ChProv.openedMd]
    · rw [Function.update_of_ne same]
      exact tracks.empty isQuiet block'

/-- A commit: the running system invalidates sectors, the replay changes the reserved
block only. -/
theorem commit (tracks : Tracks quiet cp log run rep) {run' : Blocks} {entry : LogEntry}
    (isCommit : entry.type = .commit) (invalidated : Store.Invalidated run run')
    (same : quiet → run' = run) (after : ∀ block, block ≠ reservedBlk → rep' block = rep block) :
    Tracks quiet cp (log ++ [entry]) run' rep' := by
  have before : ∀ {block}, UserBlk cp (log ++ [entry]) block → UserBlk cp log block := by
    rintro block ⟨notReserved, isUser⟩
    exact ⟨notReserved, isUser.imp_right (touched_commit log isCommit block).mp⟩
  refine ⟨?_, ?_, ?_, ?_, ?_, ?_, ?_⟩
  · intro block
    rw [invalidated.flags]
    exact tracks.keeps block
  · intro block
    rw [touched_commit log isCommit, invalidated.flags]
    exact tracks.touched block
  · intro block notReserved
    rw [touched_commit log isCommit, after block notReserved]
    exact tracks.behind block notReserved
  · intro block
    rw [touched_commit log isCommit, invalidated.flags, invalidated.currentPg]
    exact tracks.fresh block
  · intro block isUser idx i
    rw [after block isUser.1]
    exact fun bit => invalidated.grows _ _ _ (tracks.le block (before isUser) idx i bit)
  · intro isQuiet block isUser
    rw [after block isUser.1, same isQuiet]
    exact tracks.agree isQuiet block (before isUser)
  · intro isQuiet
    rw [same isQuiet]
    exact tracks.empty isQuiet

end Tracks

/-! ## Allocation -/

/-- What is known of the page whose sectors are being handed out. -/
def Begun (quiet : Prop) (log : List LogEntry) (run : Blocks) : Option (BlkAddr × Nat) → Prop
  | none => True
  | some (block, pg) => block ≠ reservedBlk ∧ Touched log block ∧
      (quiet → pg = 0 → (run block).pgState = fun _ => 0)

theorem handOut_pgState (run : Blocks) (ppa : Ppa) (block : BlkAddr) :
    (handOut geo run ppa block).pgState = (run block).pgState := by
  unfold handOut handOutMd
  by_cases same : block = ppa.block
  · subst same
    rw [Function.update_self]
    split <;> rfl
  · rw [Function.update_of_ne same]

variable {quiet : Prop} {cp : Store (List LogEntry)}

/-- The records of an allocation, one after another. -/
theorem allocEntries_tracks (ok : Checkpointed cp) {ent : List (Option EntryRef)}
    {ppas : List Ppa} {used : List Tr} {begun : Option (BlkAddr × Nat)} {log : List LogEntry}
    {run : Blocks} (length : ent.length = ppas.length)
    (exist : ∀ ref, some ref ∈ ent → (entryAt used ref).isSome)
    (pages : PageByPage geo run begun (ent.zip ppas)) (isBegun : Begun quiet log run begun)
    (tracks : Tracks quiet cp log run (recovered geo prov cp log).env.blocks) :
    let records := (allocEntries .write ent ppas used).2
    Tracks quiet cp (log ++ records) (ppas.foldl (handOut geo) run)
        (recovered geo prov cp (log ++ records)).env.blocks ∧
      ∀ record ∈ records, record.newPpa.block ≠ reservedBlk := by
  induction ent generalizing ppas used begun log run with
  | nil =>
      obtain rfl : ppas = [] := List.length_eq_zero_iff.mp length.symm
      simpa [allocEntries] using tracks
  | cons ref ent ih =>
      obtain ⟨ppa, ppas, rfl⟩ := List.exists_cons_of_length_eq_add_one length.symm
      simp only [List.length_cons, Nat.add_right_cancel_iff] at length
      obtain ⟨here, pages⟩ := pages
      have restExist : ∀ other, some other ∈ ent → (entryAt used other).isSome :=
        fun other mem => exist other (List.mem_cons_of_mem _ mem)
      rw [List.foldl_cons]
      cases ref with
      | none =>
          -- a padding sector belongs to a page that has a record already
          obtain rfl : begun = some (ppa.block, ppa.pg.val) := by simpa using here
          refine ih length restExist pages ?_ (tracks.handOut isBegun.2.1)
          refine ⟨isBegun.1, isBegun.2.1, fun isQuiet zero => ?_⟩
          rw [handOut_pgState]
          exact isBegun.2.2 isQuiet zero
      | some ref =>
          obtain ⟨entry, found⟩ := Option.isSome_iff_exists.mp (exist ref List.mem_cons_self)
          let record := LogEntry.ofWrite .write entry.ts ref.tid entry.lba ppa 0
          have target : record.newPpa = ppa := LogEntry.ofWrite_newPpa ..
          have touched : Touched (log ++ [record]) ppa.block :=
            (touched_concat ..).mpr (Or.inr ⟨rfl, congrArg Ppa.block target⟩)
          obtain ⟨notReserved, isUsed, first, start⟩ :
              ppa.block ≠ reservedBlk ∧ (run ppa.block).flags.used ∧
                (¬ UserBlk cp log ppa.block → ppa.pg = 0) ∧
                (quiet → ppa.pg = 0 → (run ppa.block).pgState = fun _ => 0) := by
            rcases here with rfl | ⟨-, notReserved, isUsed, isOpen, next⟩
            · refine ⟨isBegun.1, tracks.touched _ isBegun.2.1, fun notUser => ?_,
                fun isQuiet zero => ?_⟩
              · exact absurd ⟨isBegun.1, Or.inr isBegun.2.1⟩ notUser
              · exact isBegun.2.2 isQuiet (by rw [zero]; rfl)
            · refine ⟨notReserved, isUsed, fun notUser => ?_, fun isQuiet zero => ?_⟩
              · have fresh := tracks.fresh _ (fun written => notUser ⟨notReserved, Or.inr written⟩)
                  isUsed (fun kept => notUser ⟨notReserved, Or.inl kept⟩)
                exact Fin.val_eq_zero_iff.mp (next.symm.trans fresh)
              · exact tracks.empty isQuiet _ isOpen (by rw [next, zero]; rfl)
          have written := tracks.write ok.used rfl (by rwa [target]) (by rwa [target])
            (by rwa [target]) (by rwa [target]) (recovered_write cp log rfl)
          have nextExist : ∀ other, some other ∈ ent →
              (entryAt (updateTr used ref.tid fun tr => tr.allocate ref.idx ppa) other).isSome := by
            intro other mem
            rw [isSome_entryAt_allocate]
            exact restExist other mem
          have nextBegun : Begun quiet (log ++ [record]) (handOut geo run ppa)
              (some (ppa.block, ppa.pg.val)) := by
            refine ⟨notReserved, touched, fun isQuiet zero => ?_⟩
            rw [handOut_pgState]
            exact start isQuiet (Fin.val_eq_zero_iff.mp zero)
          obtain ⟨final, reserved⟩ := ih length nextExist pages nextBegun (written.handOut touched)
          simp only [allocEntries, found, List.append_assoc, List.singleton_append] at final ⊢
          refine ⟨final, fun other mem => ?_⟩
          rcases List.mem_cons.mp mem with rfl | mem
          · rwa [target]
          · exact reserved other mem

/-! ## Runs -/

theorem UserBlk.append {log : List LogEntry} {block : BlkAddr} (user : UserBlk cp log block)
    (more : List LogEntry) : UserBlk cp (log ++ more) block := by
  refine ⟨user.1, user.2.imp_right ?_⟩
  rintro ⟨entry, mem, write⟩
  exact ⟨entry, List.mem_append_left _ mem, write⟩

variable (geo) in
/-- The effect of committing the user transaction at the head. -/
structure CommitStep (state after : HostState) (tr : Tr) : Prop where
  used : state.used = tr :: after.used
  committed : tr.committed
  map : after.env.map = Store.applyEntries state.env.map tr.entries
  log : after.env.log = state.env.log ++ [tr.commitEntry]
  invalidated : Store.Invalidated state.env.blocks after.env.blocks
  sectors : ∀ old ∈ Store.overwritten state.env.map tr.entries, old ≠ 0 →
    Store.SectorInvalid geo after.env.blocks old
  quiet : HostOp.commit.ReplacesNoValid geo state → after.env.blocks = state.env.blocks

/-- One round of the commit loop commits the transaction at the head, or nothing is to
be done. -/
theorem step_commit_cases {state : HostState} (user : ∀ tr ∈ state.used, tr.type = .lbaNs) :
    ((hostSystem geo prov).step state .commit).1 = state ∧
        HostOp.commit.ReplacesNoValid geo state ∨
      ∃ tr, CommitStep geo state ((hostSystem geo prov).step state .commit).1 tr := by
  simp only [hostSystem]
  unfold commitHead
  cases used : state.used with
  | nil => exact Or.inl ⟨rfl, by simp [HostOp.ReplacesNoValid, used]⟩
  | cons tr rest =>
      by_cases committed : tr.committed
      · right
        refine ⟨tr, ?_⟩
        let store : Store (List LogEntry) :=
          { state.env with
            map := Store.applyEntries state.env.map tr.entries
            log := state.env.log ++ [tr.commitEntry] }
        let oldPpas := Store.overwritten state.env.map tr.entries
        have eq : commitTr (hostApp geo prov) state.env tr =
            (invalidateOld (hostApp geo prov) store oldPpas, true) := by
          simp only [commitTr, user tr (by simp [used]), if_true,
            @Store.upsertEntries_eq _ (hostApp geo prov) rfl]
          cases tr.flushCommit <;> rfl
        obtain ⟨map, log, invalidated, sectors⟩ :=
          @Store.invalidateOld_spec _ geo (hostApp geo prov) rfl store oldPpas
        simp only [committed, if_true, eq]
        refine ⟨used, committed, map, log, invalidated, sectors, fun quiet => ?_⟩
        rw [@Store.invalidateOld_eq_self _ geo (hostApp geo prov) rfl store oldPpas
          (quiet tr (by simp [used]) committed)]
      · left
        refine ⟨by simp [committed], ?_⟩
        intro head isHead isCommitted
        obtain rfl : tr = head := by simpa [used] using isHead
        exact absurd isCommitted committed

/-- The effect of an allocation. -/
theorem step_alloc {state : HostState} {ent : List (Option EntryRef)} {ppas : List Ppa}
    (aligned : ent.length % geo.secPerPlPg = 0) :
    ((hostSystem geo prov).step state (.alloc ent ppas)).1 =
      { env := { state.env with
          blocks := ppas.foldl (handOut geo) state.env.blocks
          log := state.env.log ++ (allocEntries .write ent ppas state.used).2 }
        used := (allocEntries .write ent ppas state.used).1 } := by
  have fits : ent.length % (hostApp geo prov).geo.secPerPlPg = 0 := aligned
  simp only [hostSystem, appTransactionAllocList, fits, ne_eq, not_true_eq_false, if_false]
  rfl

variable (geo prov) in
/-- Invariant of the running system and the replay of its log. -/
structure HostInv (quiet : Prop) (cp : Store (List LogEntry)) (state : HostState) : Prop where
  tracks : Tracks quiet cp state.env.log state.env.blocks
    (recovered geo prov cp state.env.log).env.blocks
  records : ∀ entry ∈ state.env.log, UserRecord entry
  mapped : ∀ lba, state.env.map lba ≠ 0 → UserBlk cp state.env.log (state.env.map lba).block
  placed : ∀ tr ∈ state.used, ∀ entry ∈ tr.entries, entry.ppa ≠ 0 →
    UserBlk cp state.env.log entry.ppa.block
  user : ∀ tr ∈ state.used, tr.type = .lbaNs

/-- A sector that a transaction replaces is a user sector. -/
theorem HostInv.overwritten {state : HostState} (inv : HostInv geo prov quiet cp state)
    {tr : Tr} (mem : tr ∈ state.used) {old : Ppa}
    (replaced : old ∈ Store.overwritten state.env.map tr.entries) (nonzero : old ≠ 0) :
    UserBlk cp state.env.log old.block := by
  rcases Store.mem_overwritten replaced with ⟨lba, rfl⟩ | ⟨entry, entryMem, rfl⟩
  · exact inv.mapped lba nonzero
  · exact inv.placed tr mem entry entryMem nonzero

theorem checkpointed_inv (ok : Checkpointed cp) : HostInv geo prov quiet cp { env := cp } := by
  have noRecord : ∀ block, ¬ Touched cp.log block := by simp [Touched, ok.log]
  have start : (recovered geo prov cp cp.log).env = cp := by rw [ok.log]; rfl
  refine ⟨⟨fun _ kept => kept, ?_, ?_, ?_, ?_, ?_, fun _ => ok.empty⟩, ?_, ?_, ?_, ?_⟩
  · exact fun block isTouched => absurd isTouched (noRecord block)
  · intro block _ _
    rw [start]
  · exact fun block _ isUsed free => absurd isUsed free
  · intro block _ idx i bit
    rwa [start] at bit
  · intro _ block _
    rw [start]
  · simp [ok.log]
  · exact fun lba nonzero => ⟨(ok.mapped lba nonzero).1, Or.inl (ok.mapped lba nonzero).2⟩
  · simp
  · simp

theorem commit_inv {state : HostState}
    (quietOp : quiet → HostOp.commit.ReplacesNoValid geo state)
    (inv : HostInv geo prov quiet cp state) :
    HostInv geo prov quiet cp ((hostSystem geo prov).step state .commit).1 := by
  rcases @step_commit_cases geo prov state inv.user with ⟨same, -⟩ | ⟨tr, step⟩
  · rwa [same]
  have trMem : tr ∈ state.used := by simp [step.used]
  have restMem : ∀ other ∈ ((hostSystem geo prov).step state .commit).1.used,
      other ∈ state.used := fun other mem => by simp [step.used, mem]
  refine ⟨?_, ?_, ?_, ?_, fun other mem => inv.user other (restMem other mem)⟩
  · rw [step.log]
    exact inv.tracks.commit rfl step.invalidated (fun isQuiet => step.quiet (quietOp isQuiet))
      fun block notReserved => recovered_commit cp inv.records rfl notReserved
  · rw [step.log]
    intro entry mem
    rcases List.mem_append.mp mem with mem | mem
    · exact inv.records entry mem
    · rw [List.mem_singleton.mp mem]
      exact Or.inr rfl
  · rw [step.log, step.map]
    intro lba nonzero
    rcases Store.applyEntries_apply state.env.map tr.entries lba with ⟨-, eq⟩ | ⟨entry, mem, -, eq⟩
    · rw [eq] at nonzero ⊢
      exact (inv.mapped lba nonzero).append _
    · rw [eq] at nonzero ⊢
      exact (inv.placed tr trMem entry mem nonzero).append _
  · rw [step.log]
    exact fun other mem entry entryMem nonzero =>
      (inv.placed other (restMem other mem) entry entryMem nonzero).append _

theorem alloc_inv (ok : Checkpointed cp) {state : HostState} {ent : List (Option EntryRef)}
    {ppas : List Ppa} (proper : (HostOp.alloc ent ppas).Proper geo state)
    (inv : HostInv geo prov quiet cp state) :
    HostInv geo prov quiet cp ((hostSystem geo prov).step state (.alloc ent ppas)).1 := by
  obtain ⟨aligned, length, exist, pages⟩ := proper
  obtain ⟨tracks, notReserved⟩ := allocEntries_tracks ok length
    (fun ref mem => exist ref (by simpa using mem)) pages trivial inv.tracks
  have kinds := allocEntries_records .write ent ppas state.used
  rw [step_alloc aligned]
  refine ⟨tracks, ?_, ?_, ?_, ?_⟩
  · intro entry mem
    rcases List.mem_append.mp mem with mem | mem
    · exact inv.records entry mem
    · exact Or.inl (kinds entry mem)
  · exact fun lba nonzero => (inv.mapped lba nonzero).append _
  · intro tr mem entry entryMem nonzero
    rcases (allocEntries_ppa mem).2 entry entryMem with
      ⟨old, oldMem, before, beforeMem, eq⟩ | ⟨record, recordMem, eq⟩
    · rw [← eq] at nonzero ⊢
      exact (inv.placed old oldMem before beforeMem nonzero).append _
    · rw [← eq]
      exact ⟨notReserved record recordMem, Or.inr ⟨record, List.mem_append_right _ recordMem,
        (kinds record recordMem).1, rfl⟩⟩
  · intro tr mem
    obtain ⟨⟨old, oldMem, sameType⟩, -⟩ := allocEntries_ppa mem
    exact sameType.trans (inv.user old oldMem)

/-- One step of a history. -/
theorem hostSystem_inv (ok : Checkpointed cp) {state : HostState} (op : HostOp)
    (proper : op.Proper geo state) (quietOp : quiet → op.ReplacesNoValid geo state)
    (inv : HostInv geo prov quiet cp state) :
    HostInv geo prov quiet cp ((hostSystem geo prov).step state op).1 := by
  cases op with
  | openBlk block =>
      exact ⟨inv.tracks.openBlk proper.2 _, inv.records, inv.mapped, inv.placed, inv.user⟩
  | new lbas =>
      simp only [hostSystem, Transaction.appTransactionNew]
      split
      · exact inv
      · refine ⟨inv.tracks, inv.records, inv.mapped, fun tr mem => ?_, fun tr mem => ?_⟩
        · rcases List.mem_append.mp mem with mem | mem
          · exact inv.placed tr mem
          · rw [List.mem_singleton.mp mem]
            intro entry entryMem nonzero
            obtain ⟨lba, -, rfl⟩ := List.mem_map.mp entryMem
            exact absurd rfl nonzero
        · rcases List.mem_append.mp mem with mem | mem
          · exact inv.user tr mem
          · rw [List.mem_singleton.mp mem]
  | alloc ent ppas => exact alloc_inv ok proper inv
  | mark tid flush =>
      simp only [hostSystem, markCommitted]
      split
      · exact inv
      · split
        · exact inv
        · refine ⟨inv.tracks, inv.records, inv.mapped, fun tr mem => ?_, fun tr mem => ?_⟩
          · obtain ⟨old, oldMem, same⟩ := mem_updateTr mem
            rcases same with ⟨-, rfl⟩ | ⟨-, rfl⟩
            · exact inv.placed tr oldMem
            · exact inv.placed old oldMem
          · obtain ⟨old, oldMem, same⟩ := mem_updateTr mem
            rcases same with ⟨-, rfl⟩ | ⟨-, rfl⟩
            · exact inv.user tr oldMem
            · exact inv.user old oldMem
  | commit => exact commit_inv quietOp inv

/-! ## A replaced sector stays valid in a replay -/

variable (geo prov) in
/-- The running system has invalidated a user sector that a replay leaves valid. -/
structure Diverged (cp : Store (List LogEntry)) (state : HostState) (ppa : Ppa) : Prop where
  user : UserBlk cp state.env.log ppa.block
  invalid : Store.SectorInvalid geo state.env.blocks ppa
  valid : ¬ Store.SectorInvalid geo (recovered geo prov cp state.env.log).env.blocks ppa

/-- Write records invalidate nothing. -/
theorem recovered_writes (cp : Store (List LogEntry)) {log records : List LogEntry}
    (writes : ∀ entry ∈ records, entry.type = .write) {ppa : Ppa}
    (invalid : Store.SectorInvalid geo
      (recovered geo prov cp (log ++ records)).env.blocks ppa) :
    Store.SectorInvalid geo (recovered geo prov cp log).env.blocks ppa := by
  induction records using List.reverseRecOn with
  | nil => simpa using invalid
  | append_singleton records entry ih =>
      refine ih (fun other mem => writes other (List.mem_append_left _ mem)) ?_
      rw [← List.append_assoc] at invalid
      unfold Store.SectorInvalid BlkMdEntry.isInvalid at invalid ⊢
      rw [recovered_write cp _ (writes entry (by simp))] at invalid
      split at invalid
      · rw [applyWriteEntry_pgState] at invalid
        split at invalid
        · simp at invalid
        · exact invalid
      · exact invalid

theorem foldl_handOut_pgState (ppas : List Ppa) (run : Blocks) (block : BlkAddr) :
    (ppas.foldl (handOut geo) run block).pgState = (run block).pgState := by
  induction ppas generalizing run with
  | nil => rfl
  | cons ppa ppas ih => rw [List.foldl_cons, ih, handOut_pgState]

theorem Diverged.step {state : HostState} {ppa : Ppa} (op : HostOp) (proper : op.Proper geo state)
    (inv : HostInv geo prov quiet cp state) (diverged : Diverged geo prov cp state ppa) :
    Diverged geo prov cp ((hostSystem geo prov).step state op).1 ppa := by
  cases op with
  | openBlk block =>
      have used : (state.env.blocks ppa.block).flags.used :=
        diverged.user.2.elim (inv.tracks.keeps _) (inv.tracks.touched _)
      have ne : ppa.block ≠ block := fun same => proper.2 (same ▸ used)
      refine ⟨diverged.user, ?_, diverged.valid⟩
      unfold Store.SectorInvalid
      simp only [hostSystem]
      rw [Function.update_of_ne ne]
      exact diverged.invalid
  | new lbas =>
      simp only [hostSystem, Transaction.appTransactionNew]
      split <;> exact ⟨diverged.user, diverged.invalid, diverged.valid⟩
  | alloc ent ppas =>
      have kinds := allocEntries_records .write ent ppas state.used
      rw [step_alloc proper.1]
      refine ⟨diverged.user.append _, ?_, fun invalid => diverged.valid ?_⟩
      · unfold Store.SectorInvalid BlkMdEntry.isInvalid
        rw [foldl_handOut_pgState]
        exact diverged.invalid
      · exact recovered_writes cp (fun entry mem => (kinds entry mem).1) invalid
  | mark tid flush =>
      simp only [hostSystem, markCommitted]
      split
      · exact diverged
      · split <;> exact ⟨diverged.user, diverged.invalid, diverged.valid⟩
  | commit =>
      rcases @step_commit_cases geo prov state inv.user with ⟨same, -⟩ | ⟨tr, step⟩
      · rwa [same]
      · refine ⟨?_, step.invalidated.sector diverged.invalid, fun invalid => diverged.valid ?_⟩
        · exact step.log ▸ diverged.user.append _
        · unfold Store.SectorInvalid at invalid ⊢
          rwa [step.log, recovered_commit cp inv.records rfl diverged.user.1] at invalid

/-- A commit that replaces a valid sector makes the two sides diverge. -/
theorem diverged_of_replaces {state : HostState} (inv : HostInv geo prov quiet cp state)
    (replaces : ¬ HostOp.commit.ReplacesNoValid geo state) :
    ∃ ppa, Diverged geo prov cp ((hostSystem geo prov).step state .commit).1 ppa := by
  rcases @step_commit_cases geo prov state inv.user with ⟨-, quiet⟩ | ⟨tr, step⟩
  · exact absurd quiet replaces
  unfold HostOp.ReplacesNoValid at replaces
  push Not at replaces
  obtain ⟨head, isHead, -, old, replaced, nonzero, valid⟩ := replaces
  obtain rfl : tr = head := by simpa [step.used] using isHead
  have user := inv.overwritten (by simp [step.used]) replaced nonzero
  refine ⟨old, step.log ▸ user.append _, step.sectors old replaced nonzero, fun invalid => valid ?_⟩
  unfold Store.SectorInvalid at invalid
  rw [step.log, recovered_commit cp inv.records rfl user.1] at invalid
  exact inv.tracks.le _ user _ _ invalid

/-- The page states after a recovery are those of the running system if and only if no
transaction of the history replaced a sector that was still valid. -/
theorem pgStates_agree_iff (geo : Geometry) (prov : ProvFns) (cp : Store (List LogEntry))
    (ok : Checkpointed cp) (ops : List HostOp)
    (proper : (hostSystem geo prov).Allowed (fun state op => op.Proper geo state)
      { env := cp } ops) :
    PgStatesAgree geo prov cp ((hostSystem geo prov).run { env := cp } ops) ↔
      (hostSystem geo prov).Allowed (fun state op => op.ReplacesNoValid geo state)
        { env := cp } ops := by
  constructor
  · intro agree
    by_contra refused
    obtain ⟨before, op, after, rfl, replaces⟩ :=
      (hostSystem geo prov).exists_of_not_allowed refused
    obtain ⟨properBefore, properOp, properAfter⟩ :=
      ((hostSystem geo prov).allowed_append ..).mp proper
    have inv := (hostSystem geo prov).run_invariant _ (HostInv geo prov False cp)
      (fun state op properOp inv => hostSystem_inv ok op properOp False.elim inv)
      (checkpointed_inv ok) properBefore
    obtain rfl : op = .commit := by
      cases op <;> first | rfl | exact absurd trivial replaces
    obtain ⟨ppa, diverged⟩ := diverged_of_replaces inv replaces
    -- from here on the running system keeps the bit and a replay never sets it
    have final := (hostSystem geo prov).run_invariant _
      (fun state => HostInv geo prov False cp state ∧ Diverged geo prov cp state ppa)
      (fun state op properOp both =>
        ⟨hostSystem_inv ok op properOp False.elim both.1, both.2.step op properOp both.1⟩)
      ⟨hostSystem_inv ok _ properOp False.elim inv, diverged⟩ properAfter
    rw [System.run_append, System.run_cons] at agree
    have same := agree ppa.block final.2.user
    apply final.2.valid
    unfold Store.SectorInvalid BlkMdEntry.isInvalid
    rw [same]
    exact final.2.invalid
  · intro quiet
    have inv := (hostSystem geo prov).run_invariant _ (HostInv geo prov True cp)
      (fun state op both inv => hostSystem_inv ok op both.1 (fun _ => both.2) inv)
      (checkpointed_inv ok) (proper.and quiet)
    exact inv.tracks.agree trivial

/-- Tables before anything was written. -/
def emptyStore : Store (List LogEntry) :=
  ⟨fun _ => 0, fun _ => 0, fun _ => {}, []⟩

theorem emptyStore_checkpointed : Checkpointed emptyStore :=
  ⟨rfl, by simp [emptyStore], by simp [emptyStore], by simp [emptyStore]⟩

/-- A transaction writes LBA 7 to the first sector of a page of block 5; the other
sector is padding. -/
def writeOps (ts pg : Nat) : List HostOp :=
  [.new [(7, ts)], .alloc [some ⟨ts, 0⟩, none]
      [.sector 0 0 5 pg 0 0, .sector 0 0 5 pg 0 1],
    .mark ts true, .commit]

/-- One transaction on an empty store. -/
theorem pgStates_agree_small :
    PgStatesAgree .small noProvFns emptyStore
      ((hostSystem .small noProvFns).run { env := emptyStore }
        (.openBlk (0, 0, 5) :: writeOps 1 0)) :=
  (pgStates_agree_iff .small noProvFns emptyStore emptyStore_checkpointed _ (by decide)).mpr
    (by decide)

/-- A second transaction overwrites the LBA of the first. -/
theorem pgStates_disagree :
    let ops := .openBlk (0, 0, 5) :: (writeOps 1 0 ++ writeOps 2 1)
    (hostSystem .small noProvFns).Allowed (fun state op => op.Proper .small state)
        { env := emptyStore } ops ∧
      ¬ PgStatesAgree .small noProvFns emptyStore
        ((hostSystem .small noProvFns).run { env := emptyStore } ops) := by
  refine ⟨by decide, fun agree => ?_⟩
  have same := congrFun (agree (0, 0, 5) ⟨by decide, Or.inr (by decide)⟩) 0
  revert same
  decide

end OxCtrl.Recovery
