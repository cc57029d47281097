import OxCtrl.Recovery.Invalidation

/-!
# Failed commits

A call that fails while `app_transaction_ordered_commit` commits the transaction at the head
of the queue leads to `ROLLBACK`, and the transaction stays there until a later commit tries
again.  The failing call is a mapping update, the append of the commit record, or the flush.
-/

namespace OxCtrl.Transaction

open OxCtrl.Lib
open OxCtrl.Log

universe u

/-- The call of `app_transaction_ordered_commit` that fails. -/
inductive FailPoint where
  /-- The mapping update of entry `k`. -/
  | upsert (k : Nat)
  /-- The append of the commit record. -/
  | append
  /-- The submission of the flush. -/
  | flush
  deriving DecidableEq, Repr

/-- The modules, with the call that fails.  The state counts the mapping updates. -/
def withFailure {ε : Type u} (app : TrApp ε) (point : Option FailPoint) : TrApp (ε × Nat) where
  geo := app.geo
  upsertFn env lba ppa oldCaller :=
    if point = some (.upsert env.2) then ((env.1, env.2 + 1), 0, -1)
    else
      let (next, old, ret) := app.upsertFn env.1 lba ppa oldCaller
      ((next, env.2 + 1), old, ret)
  upsertMdFn env index newPpa oldPpa :=
    (((app.upsertMdFn env.1 index newPpa oldPpa).1, env.2),
      (app.upsertMdFn env.1 index newPpa oldPpa).2)
  getBlk env := app.getBlk env.1
  setBlk env ppa entry := (app.setBlk env.1 ppa entry, env.2)
  markFn env ppa := (app.markFn env.1 ppa, env.2)
  invalidateFn env ppa full := (app.invalidateFn env.1 ppa full, env.2)
  closeBlkFn env ppa type :=
    (((app.closeBlkFn env.1 ppa type).1, env.2), (app.closeBlkFn env.1 ppa type).2)
  putBlkFn env ppa := (((app.putBlkFn env.1 ppa).1, env.2), (app.putBlkFn env.1 ppa).2)
  appendFn env list :=
    if point = some .append then (env, -1)
    else (((app.appendFn env.1 list).1, env.2), (app.appendFn env.1 list).2)
  flushFn env :=
    if point = some .flush then (env, -1)
    else (((app.flushFn env.1).1, env.2), (app.flushFn env.1).2)

/-- A try to commit the transaction at the head of the queue. -/
def attempt {ε : Type u} (app : TrApp ε) (state : TrState ε) (point : Option FailPoint) :
    TrState ε × Bool :=
  let (after, ok) := commitHead (withFailure app point)
    { env := (state.env, 0), used := state.used }
  ({ env := after.env.1, used := after.used }, ok)

/-- The call is made when the transaction is committed. -/
def FailPoint.Reached (tr : Tr) : FailPoint → Prop
  | .upsert k => k < tr.entries.length
  | .append => True
  | .flush => tr.flushCommit

instance (tr : Tr) : DecidablePred (FailPoint.Reached tr)
  | .upsert _ => inferInstanceAs (Decidable (_ < _))
  | .append => inferInstanceAs (Decidable True)
  | .flush => inferInstanceAs (Decidable (_ = true))

/-- A commit record of the transaction. -/
def IsCommitOf (tr : Tr) (entry : LogEntry) : Prop :=
  entry.type = .commit ∧ entry.ts = tr.ts

instance (tr : Tr) : DecidablePred (IsCommitOf tr) :=
  fun _ => inferInstanceAs (Decidable (_ ∧ _))

/-- Number of commit records of the transaction in the log. -/
def commits (tr : Tr) (log : List LogEntry) : Nat :=
  log.countP fun entry => IsCommitOf tr entry

/-- What happens between two tries to commit a transaction. -/
inductive RetryOp where
  /-- A try that fails. -/
  | fail (point : FailPoint)
  /-- Another record is appended. -/
  | append (entry : LogEntry)
  /-- The mapping of an LBA is changed, as the garbage collection does. -/
  | remap (lba : Nat) (ppa : Ppa)
  /-- Another transaction enters the queue. -/
  | enqueue (tr : Tr)
  deriving DecidableEq, Repr

variable (geo : Geometry) (prov : ProvFns)

/-- The queue with a transaction that is committed later. -/
def retrySystem : System Recovery.HostState RetryOp Unit where
  step
    | state, .fail point => ((attempt (Recovery.hostApp geo prov) state (some point)).1, ())
    | state, .append entry =>
        ({ state with env := { state.env with log := state.env.log ++ [entry] } }, ())
    | state, .remap lba ppa =>
        ({ state with env := { state.env with map := Function.update state.env.map lba ppa } }, ())
    | state, .enqueue tr => ({ state with used := state.used ++ [tr] }, ())

/-- Tries reach the call that fails, and only the transaction itself logs its commit. -/
def RetryOp.Ok (tr : Tr) : RetryOp → Prop
  | .fail point => point.Reached tr
  | .append entry => ¬ IsCommitOf tr entry
  | _ => True

instance (tr : Tr) : DecidablePred (RetryOp.Ok tr)
  | .fail _ => inferInstanceAs (Decidable (FailPoint.Reached tr _))
  | .append _ => inferInstanceAs (Decidable (¬ _))
  | .remap _ _ => inferInstanceAs (Decidable True)
  | .enqueue _ => inferInstanceAs (Decidable True)

/-- A failed try leaves the mapping and the queue as they were, and no commit record. -/
structure Atomic (tr : Tr) (state : Recovery.HostState) (point : FailPoint) : Prop where
  failed : (attempt (Recovery.hostApp geo prov) state (some point)).2 = false
  queue : (attempt (Recovery.hostApp geo prov) state (some point)).1.used = state.used
  map : (attempt (Recovery.hostApp geo prov) state (some point)).1.env.map = state.env.map
  log : commits tr (attempt (Recovery.hostApp geo prov) state (some point)).1.env.log = 0

/-! ## One try -/

variable {geo prov} {point : Option FailPoint} {store : Store (List LogEntry)}

theorem upsertFn_ok {n : Nat} (ok : point ≠ some (.upsert n)) (store : Store (List LogEntry))
    (lba : Nat) (ppa : Ppa) :
    (withFailure (Recovery.hostApp geo prov) point).upsertFn (store, n) lba ppa 0 =
      (({ store with map := Function.update store.map lba ppa }, n + 1), store.map lba, 0) := by
  refine (if_neg ok).trans ?_
  exact congrArg (fun result : Store (List LogEntry) × Ppa × Int =>
    ((result.1, n + 1), result.2.1, result.2.2)) (Store.upsert_zero store lba ppa)

/-- Without a failure the whole transaction is mapped. -/
theorem upsertEntries_ok {n : Nat} (entries : List TrLog)
    (ok : ∀ k < n + entries.length, n ≤ k → point ≠ some (.upsert k)) :
    upsertEntries (withFailure (Recovery.hostApp geo prov) point) (store, n) entries =
      (({ store with map := Store.applyEntries store.map entries }, n + entries.length),
        Store.overwritten store.map entries, true) := by
  induction entries generalizing store n with
  | nil => rfl
  | cons entry entries ih =>
      rw [List.length_cons] at ok ⊢
      rw [upsertEntries, upsertFn_ok (ok n (by omega) le_rfl)]
      have later : ∀ k < n + 1 + entries.length, n + 1 ≤ k → point ≠ some (.upsert k) :=
        fun k lt le => ok k (by omega) (by omega)
      simp only [ih later]
      rw [Nat.add_assoc, Nat.add_comm 1]
      rfl

/-- The failure of an update leaves the entries before it mapped. -/
theorem upsertEntries_fail {n k : Nat} {entries : List TrLog} (lt : k < entries.length) :
    upsertEntries (withFailure (Recovery.hostApp geo prov) (some (.upsert (n + k)))) (store, n)
        entries =
      (({ store with map := Store.applyEntries store.map (entries.take k) }, n + k + 1),
        Store.overwritten store.map (entries.take k), false) := by
  induction entries generalizing store n k with
  | nil => exact absurd lt (Nat.not_lt_zero k)
  | cons entry entries ih =>
      rw [upsertEntries]
      cases k with
      | zero =>
          have failed : (withFailure (Recovery.hostApp geo prov) (some (.upsert (n + 0)))).upsertFn
              (store, n) entry.lba entry.ppa 0 = ((store, n + 1), 0, -1) := if_pos rfl
          rw [failed]
          rfl
      | succ k =>
          have other : some (FailPoint.upsert (n + (k + 1))) ≠ some (.upsert n) := by
            intro eq
            injection eq with eq
            injection eq with eq
            omega
          rw [upsertFn_ok other]
          have shift : n + (k + 1) = n + 1 + k := by omega
          rw [shift]
          simp only [ih (Nat.lt_of_succ_lt_succ lt)]
          rfl

/-- Undoing the updates, the last one first, restores the mapping also for an LBA that
occurs several times. -/
theorem undo_entries {n : Nat} (done : List TrLog) (ok : ∀ k, n ≤ k → point ≠ some (.upsert k)) :
    ∃ m, n ≤ m ∧ (done.zip (Store.overwritten store.map done)).foldr
        (fun undo env => ((withFailure (Recovery.hostApp geo prov) point).upsertFn env
          undo.1.lba undo.2 0).1)
        ({ store with map := Store.applyEntries store.map done }, n) = (store, m) := by
  induction done generalizing store with
  | nil => exact ⟨n, le_rfl, rfl⟩
  | cons entry done ih =>
      obtain ⟨m, le, eq⟩ := @ih { store with map := Function.update store.map entry.lba entry.ppa }
      refine ⟨m + 1, Nat.le_succ_of_le le, ?_⟩
      rw [Store.overwritten, List.zip_cons_cons, List.foldr_cons]
      refine (congrArg (fun env => ((withFailure (Recovery.hostApp geo prov) point).upsertFn env
        entry.lba (store.map entry.lba) 0).1) eq).trans ?_
      rw [upsertFn_ok (ok m le)]
      simp only [Function.update_idem, Function.update_eq_self]

theorem length_overwritten (map : Nat → Ppa) (entries : List TrLog) :
    (Store.overwritten map entries).length = entries.length := by
  induction entries generalizing map with
  | nil => rfl
  | cons entry entries ih => rw [Store.overwritten, List.length_cons, ih, List.length_cons]

/-- `ROLLBACK` after the first `k` updates. -/
theorem rollback_take {n k : Nat} {tr : Tr} (user : tr.type = .lbaNs)
    (ok : ∀ j, n ≤ j → point ≠ some (.upsert j)) :
    (rollback (withFailure (Recovery.hostApp geo prov) point)
      ({ store with map := Store.applyEntries store.map (tr.entries.take k) }, n) tr
      (Store.overwritten store.map (tr.entries.take k))).1 = store := by
  have zip : tr.entries.zip (Store.overwritten store.map (tr.entries.take k)) =
      (tr.entries.take k).zip (Store.overwritten store.map (tr.entries.take k)) := by
    have count : (Store.overwritten store.map (tr.entries.take k)).length ≤ k := by
      rw [length_overwritten]
      exact List.length_take_le k _
    have whole : (tr.entries.zip (Store.overwritten store.map (tr.entries.take k))).length ≤ k := by
      rw [List.length_zip]
      exact (min_le_right _ _).trans count
    rw [← List.take_of_length_le whole, List.zip_eq_zipWith, List.take_zipWith,
      List.take_of_length_le count]
    rfl
  obtain ⟨m, _, eq⟩ := @undo_entries geo prov point store n (tr.entries.take k) ok
  rw [rollback, if_pos user, zip, eq]

variable {tr : Tr}

theorem rollback_all {n : Nat} (user : tr.type = .lbaNs)
    (ok : ∀ j, n ≤ j → point ≠ some (.upsert j)) :
    (rollback (withFailure (Recovery.hostApp geo prov) point)
      ({ store with map := Store.applyEntries store.map tr.entries }, n) tr
      (Store.overwritten store.map tr.entries)).1 = store := by
  have undone := @rollback_take geo prov point store n tr.entries.length tr user ok
  rwa [List.take_length] at undone

/-- What a failed try leaves behind: nothing, or the commit record. -/
theorem commitTr_fail {point : FailPoint} (user : tr.type = .lbaNs) (reached : point.Reached tr)
    (store : Store (List LogEntry)) :
    ∃ n, commitTr (withFailure (Recovery.hostApp geo prov) (some point)) (store, 0) tr =
      (({ store with
          log := store.log ++ if point = .flush then [tr.commitEntry] else [] }, n), false) := by
  cases point with
  | upsert k =>
      have partly := @upsertEntries_fail geo prov store 0 k tr.entries reached
      rw [Nat.zero_add] at partly
      have undone := @rollback_take geo prov (some (.upsert k)) store (k + 1) k tr user
        (fun j le eq => by injection eq with eq; injection eq with eq; omega)
      rw [commitTr, if_pos user, partly]
      refine ⟨_, Prod.ext (Prod.ext ?_ rfl) rfl⟩
      rw [if_neg (fun eq : FailPoint.upsert k = .flush => by cases eq), List.append_nil]
      exact undone
  | append =>
      have mapped := @upsertEntries_ok geo prov (some .append) store 0 tr.entries
        (fun k _ _ eq => by cases eq)
      have undone := @rollback_all geo prov (some .append) store tr (0 + tr.entries.length) user
        (fun k _ eq => by cases eq)
      rw [commitTr, if_pos user, mapped]
      refine ⟨_, Prod.ext (Prod.ext ?_ rfl) rfl⟩
      rw [if_neg (fun eq : FailPoint.append = .flush => by cases eq), List.append_nil]
      exact undone
  | flush =>
      have mapped := @upsertEntries_ok geo prov (some .flush) store 0 tr.entries
        (fun k _ _ eq => by cases eq)
      have undone := @rollback_all geo prov (some .flush)
        { store with log := store.log ++ [tr.commitEntry] } tr (0 + tr.entries.length) user
        (fun k _ eq => by cases eq)
      have submits : tr.flushCommit = true := reached
      rw [commitTr, if_pos user, mapped]
      simp only [submits, if_true]
      refine ⟨_, Prod.ext (Prod.ext ?_ rfl) rfl⟩
      exact undone

theorem attempt_fail {point : FailPoint} {used : List Tr} (user : tr.type = .lbaNs)
    (marked : tr.committed = true) (reached : point.Reached tr) (store : Store (List LogEntry)) :
    attempt (Recovery.hostApp geo prov) { env := store, used := tr :: used } (some point) =
      ({ env := { store with
            log := store.log ++ if point = .flush then [tr.commitEntry] else [] }
         used := tr :: used }, false) := by
  obtain ⟨n, failed⟩ := @commitTr_fail geo prov tr point user reached store
  rw [attempt, commitHead]
  simp only [marked, if_true, failed]

theorem isCommitOf_commitEntry (tr : Tr) : IsCommitOf tr tr.commitEntry :=
  ⟨rfl, rfl⟩

theorem commits_append (tr : Tr) (log : List LogEntry) (entry : LogEntry) :
    commits tr (log ++ [entry]) = commits tr log + if IsCommitOf tr entry then 1 else 0 := by
  rw [commits, commits, List.countP_append, List.countP_singleton]
  by_cases commit : IsCommitOf tr entry <;> simp [commit]

/-- A try without a failure appends one commit record. -/
theorem commitTr_done (user : tr.type = .lbaNs) (store : Store (List LogEntry)) :
    ∃ after, commitTr (Recovery.hostApp geo prov) store tr = (after, true) ∧
      after.log = store.log ++ [tr.commitEntry] := by
  obtain ⟨_, log, _⟩ := @Store.invalidateOld_spec _ geo (Recovery.hostApp geo prov) rfl
    { store with
      map := Store.applyEntries store.map tr.entries
      log := store.log ++ [tr.commitEntry] }
    (Store.overwritten store.map tr.entries)
  refine ⟨_, ?_, log⟩
  unfold commitTr
  rw [if_pos user, Store.upsertEntries_eq rfl]
  simp only [Recovery.hostApp, not_true, if_false, ite_self, ne_eq]

variable (geo prov) in
/-- The transaction at the head is committed, and the log holds one record of that. -/
structure Committed (tr : Tr) (state : Recovery.HostState) : Prop where
  done : (commitHead (Recovery.hostApp geo prov) state).2 = true
  log : commits tr (commitHead (Recovery.hostApp geo prov) state).1.env.log = 1

theorem commitHead_done {state : Recovery.HostState} {used : List Tr} (user : tr.type = .lbaNs)
    (marked : tr.committed = true) (queue : state.used = tr :: used) :
    (commitHead (Recovery.hostApp geo prov) state).2 = true ∧
      (commitHead (Recovery.hostApp geo prov) state).1.env.log =
        state.env.log ++ [tr.commitEntry] := by
  obtain ⟨after, eq, log⟩ := @commitTr_done geo prov tr user state.env
  simp only [commitHead, queue, marked, if_true, eq]
  exact ⟨trivial, log⟩

/-! ## Several tries -/

/-- The transaction waits at the head of the queue; the flushes that failed have left a
commit record each. -/
structure Waiting (tr : Tr) (ops : List RetryOp) (state : Recovery.HostState) : Prop where
  queue : ∃ used, state.used = tr :: used
  log : commits tr state.env.log = ops.count (.fail .flush)

theorem Waiting.step {ops : List RetryOp} {op : RetryOp} {state : Recovery.HostState}
    (user : tr.type = .lbaNs) (marked : tr.committed = true) (ok : op.Ok tr)
    (waiting : Waiting tr ops state) :
    Waiting tr (ops ++ [op]) ((retrySystem geo prov).step state op).1 := by
  obtain ⟨used, queue⟩ := waiting.queue
  have count := waiting.log
  obtain ⟨store, queued⟩ := state
  subst queue
  cases op with
  | fail point =>
      refine ⟨⟨used, ?_⟩, ?_⟩
      · simp only [retrySystem, attempt_fail user marked ok]
      · simp only [retrySystem, attempt_fail user marked ok]
        rw [List.count_append, ← count]
        by_cases flush : point = .flush
        · subst flush
          rw [if_pos rfl, commits_append, if_pos (isCommitOf_commitEntry tr)]
          rfl
        · rw [if_neg flush, List.append_nil, List.count_singleton]
          simp [flush]
  | append entry =>
      refine ⟨⟨used, rfl⟩, ?_⟩
      rw [List.count_append, ← count]
      refine (commits_append tr store.log entry).trans ?_
      rw [if_neg ok]
      rfl
  | remap lba ppa => exact ⟨⟨used, rfl⟩, by rw [List.count_append, ← count]; rfl⟩
  | enqueue other => exact ⟨⟨used ++ [other], rfl⟩, by rw [List.count_append, ← count]; rfl⟩

theorem waiting_run (user : tr.type = .lbaNs) (marked : tr.committed = true) {used : List Tr}
    (fresh : commits tr store.log = 0) {ops : List RetryOp} (ok : ∀ op ∈ ops, op.Ok tr) :
    Waiting tr ops ((retrySystem geo prov).run { env := store, used := tr :: used } ops) := by
  induction ops using List.reverseRecOn with
  | nil => exact ⟨⟨used, rfl⟩, fresh⟩
  | append_singleton ops op ih =>
      have before := ih fun other mem => ok other (List.mem_append_left _ mem)
      rw [System.run_append]
      exact before.step user marked (ok op (List.mem_append_right _ (List.mem_singleton.mpr rfl)))

/-- For every user transaction and every history of failed tries, each try leaves nothing
behind and the commit in the end leaves one record, exactly when no flush submission fails. -/
theorem commit_failure_atomic_iff (user : tr.type = .lbaNs) (marked : tr.committed = true)
    (used : List Tr) (fresh : commits tr store.log = 0) (ops : List RetryOp)
    (ok : ∀ op ∈ ops, op.Ok tr) :
    ((∀ before point after, ops = before ++ .fail point :: after →
          Atomic geo prov tr
            ((retrySystem geo prov).run { env := store, used := tr :: used } before) point) ∧
        Committed geo prov tr
          ((retrySystem geo prov).run { env := store, used := tr :: used } ops)) ↔
      ∀ point, .fail point ∈ ops → point ≠ .flush := by
  constructor
  · rintro ⟨_, committed⟩ point mem rfl
    have waiting := @waiting_run geo prov store tr user marked used fresh ops ok
    obtain ⟨_, queue⟩ := waiting.queue
    have record := committed.log
    rw [(commitHead_done user marked queue).2, commits_append, waiting.log,
      if_pos (isCommitOf_commitEntry tr)] at record
    have left := List.count_pos_iff.mpr mem
    omega
  · intro noFlush
    have none : ∀ before : List RetryOp, (∀ op ∈ before, op ∈ ops) →
      before.count (.fail .flush) = 0 :=
      fun before part => List.count_eq_zero.mpr fun mem => noFlush .flush (part _ mem) rfl
    refine ⟨fun before point after split => ?_, ?_⟩
    · have part : ∀ op ∈ before, op ∈ ops := fun op mem => by simp [split, mem]
      have tried : .fail point ∈ ops := by simp [split]
      have waiting := @waiting_run geo prov store tr user marked used fresh before
        fun op mem => ok op (part op mem)
      obtain ⟨queued, queue⟩ := waiting.queue
      have log := waiting.log
      generalize (retrySystem geo prov).run { env := store, used := tr :: used } before = state
        at queue log
      obtain ⟨env, _⟩ := state
      subst queue
      have result := @attempt_fail geo prov tr point queued user marked (ok _ tried) env
      rw [if_neg (noFlush point tried), List.append_nil] at result
      refine ⟨?_, ?_, ?_, ?_⟩
      · rw [result]
      · rw [result]
      · rw [result]
      · rw [result]
        exact log.trans (none before part)
    · have waiting := @waiting_run geo prov store tr user marked used fresh ops ok
      obtain ⟨_, queue⟩ := waiting.queue
      obtain ⟨done, log⟩ := @commitHead_done geo prov tr _ _ user marked queue
      refine ⟨done, ?_⟩
      rw [log, commits_append, waiting.log, none ops fun _ mem => mem,
        if_pos (isCommitOf_commitEntry tr)]

/-- A user transaction that writes LBA 7 twice. -/
def doubleWrite : Tr where
  ts := 9
  type := .lbaNs
  entries := [⟨8, 7, Ppa.sector 0 0 1 0 0 0, false⟩, ⟨9, 7, Ppa.sector 0 0 1 0 0 1, false⟩]
  allocated := 2
  committed := true
  flushCommit := true

/-- Tables with an older mapping of LBA 7. -/
def mappedStore : Store (List LogEntry) where
  map := Function.update (fun _ => 0) 7 (Ppa.sector 0 0 2 0 0 0)
  mapMd := fun _ => 0
  blocks := fun _ => {}
  log := []

/-- The second update fails, then the append, with other work in between. -/
def failedTries : List RetryOp :=
  [.fail (.upsert 1), .append (LogEntry.ofCommit 4), .fail .append,
    .remap 3 (Ppa.sector 0 0 2 0 0 1)]

/-- Every failed try leaves no trace, and the transaction is committed once. -/
theorem commit_failure_atomic_doubleWrite :
    (∀ before point after, failedTries = before ++ .fail point :: after →
        Atomic .small noProvFns doubleWrite
          ((retrySystem .small noProvFns).run ⟨mappedStore, [doubleWrite]⟩ before) point) ∧
      Committed .small noProvFns doubleWrite
        ((retrySystem .small noProvFns).run ⟨mappedStore, [doubleWrite]⟩ failedTries) := by
  refine (commit_failure_atomic_iff rfl rfl [] rfl failedTries (by decide)).mpr ?_
  intro point mem
  rcases point with _ | _ | _
  · exact nofun
  · exact nofun
  · exact absurd mem (by decide)

/-- After a failed flush the log holds the commit record, and after the retry two of them. -/
theorem commit_failure_leaves_record :
    ¬ Atomic .small noProvFns doubleWrite ⟨mappedStore, [doubleWrite]⟩ .flush ∧
      ¬ Committed .small noProvFns doubleWrite
        ((retrySystem .small noProvFns).run ⟨mappedStore, [doubleWrite]⟩ [.fail .flush]) := by
  constructor
  · intro atomic
    exact absurd atomic.log (by decide)
  · intro committed
    exact absurd committed.log (by decide)

end OxCtrl.Transaction
