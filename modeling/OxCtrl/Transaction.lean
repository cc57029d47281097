import OxCtrl.App
import OxCtrl.Log.Entry

/-!
# Transactions

The functions of `app-transaction.c`.  Transactions are identified by their timestamp,
which is the `tid` of their entries and of their log records.  The list `used` is
`used_tr_head`; transactions leave it at the head, in the order in which they were
created.  The modules that are called are those of an arbitrary table.
-/

namespace OxCtrl.Transaction

open OxCtrl.Log

universe u

/-- `APP_TRANSACTION_LOG_COUNT`. -/
def appTransactionLogCount : Nat := 4096

/-- `enum app_transaction_type`. -/
inductive TrType where
  | lbaNs | gcNs | gcMap
  deriving DecidableEq, Repr

/-- `struct app_transaction_log`. -/
structure TrLog where
  ts : Nat
  lba : Nat
  ppa : Ppa := 0
  abort : Bool := false
  deriving DecidableEq, Repr

/-- `struct app_transaction_t`. -/
structure Tr where
  ts : Nat
  type : TrType
  entries : List TrLog
  allocated : Nat := 0
  committed : Bool := false
  flushCommit : Bool := false
  deriving DecidableEq, Repr

/-- The modules that transactions use. -/
structure TrApp (ε : Type u) extends Oxapp ε where
  /-- `log->append_fn (list, count)`. -/
  appendFn : ε → List LogEntry → ε × Int
  /-- `log->flush_fn (0, NULL, cb)`. -/
  flushFn : ε → ε × Int

/-- The modules and `used_tr_head`. -/
structure TrState (ε : Type u) where
  env : ε
  used : List Tr := []

variable {ε : Type u} (app : TrApp ε)

/-! ## Creation -/

/-- `app_transaction_new`, with the readings of the clock for the entries.  The
transaction takes the timestamp of its last entry. -/
def appTransactionNew (state : TrState ε) (lbas : List (Nat × Nat)) (type : TrType) :
    Option (TrState ε) :=
  if appTransactionLogCount < lbas.length then none
  else
    let entries : List TrLog := lbas.map fun lba => { lba := lba.1, ts := lba.2 }
    let ts := (entries.getLast?.map TrLog.ts).getD 0
    some { state with used := state.used ++ [{ ts := ts, type := type, entries := entries }] }

/-! ## Allocation -/

/-- A pointer to an entry of a transaction. -/
structure EntryRef where
  tid : Nat
  idx : Nat
  deriving DecidableEq, Repr

/-- The entry behind a pointer. -/
def entryAt (used : List Tr) (ref : EntryRef) : Option TrLog :=
  (used.find? fun tr => tr.ts = ref.tid).bind fun tr => tr.entries[ref.idx]?

/-- Apply a function to the transaction of an id. -/
def updateTr (used : List Tr) (tid : Nat) (f : Tr → Tr) : List Tr :=
  used.map fun tr => if tr.ts = tid then f tr else tr

/-- Give a sector to an entry. -/
def Tr.allocate (tr : Tr) (idx : Nat) (ppa : Ppa) : Tr :=
  { tr with
    entries := tr.entries.modify idx fun entry => { entry with ppa := ppa }
    allocated := tr.allocated + 1 }

/-- Take the sector of an entry back. -/
def Tr.release (tr : Tr) (idx : Nat) : Tr :=
  { tr with
    entries := tr.entries.modify idx fun entry => { entry with ppa := 0 }
    allocated := tr.allocated - 1 }

/-- The loop of `app_transaction_alloc_list`: the sectors are given to the entries, and
every entry that is not `NULL` has a record. -/
def allocEntries (type : LogType) :
    List (Option EntryRef) → List Ppa → List Tr → List Tr × List LogEntry
  | some ref :: ent, ppa :: ppas, used =>
      match entryAt used ref with
      | none => allocEntries type ent ppas used
      | some entry =>
          let (used, log) :=
            allocEntries type ent ppas (updateTr used ref.tid fun tr => tr.allocate ref.idx ppa)
          (used, LogEntry.ofWrite type entry.ts ref.tid entry.lba ppa 0 :: log)
  | none :: ent, _ :: ppas, used => allocEntries type ent ppas used
  | _, _, used => (used, [])

/-- The loop of the error path of `app_transaction_alloc_list`. -/
def releaseEntries (ent : List (Option EntryRef)) (used : List Tr) : List Tr :=
  (ent.filterMap id).foldl (fun used ref => updateTr used ref.tid fun tr => tr.release ref.idx) used

/-- Type of the records of a transaction. -/
def TrType.logType : TrType → LogType
  | .lbaNs => .write
  | .gcNs => .gcWrite
  | .gcMap => .gcMap

/-- `app_transaction_alloc_list`, with the sectors that provisioning returns. -/
def appTransactionAllocList (state : TrState ε) (ent : List (Option EntryRef)) (type : TrType)
    (prov : Option (List Ppa)) : TrState ε × Option (List Ppa) :=
  if ent.length % app.geo.secPerPlPg ≠ 0 then (state, none)
  else
    match prov with
    | none => (state, none)
    | some ppas =>
        let (used, log) := allocEntries type.logType ent ppas state.used
        match app.appendFn state.env log with
        | (env, 0) => ({ env := env, used := used }, some ppas)
        | (env, _) =>
            ({ env := ppas.foldl (fun env ppa => app.invalidateFn env ppa false) env
               used := releaseEntries ent used }, none)

/-! ## Commit -/

/-- The numbers of the aborted entries, as they are stored in the commit record. -/
def abortBytes : List TrLog → Nat → Nat → List Nat
  | [], _, _ => []
  | entry :: entries, i, byteI =>
      if entry.abort then
        if i < 256 ∧ byteI < 48 then (i + 1) % 2 ^ 8 :: abortBytes entries (i + 1) (byteI + 1)
        else []
      else abortBytes entries (i + 1) byteI

/-- Word `i` of a union whose first bytes are given. -/
def packWord (bytes : List Nat) (i : Nat) : Nat :=
  ((bytes.drop (8 * i)).take 8).foldr (fun byte word => byte + 2 ^ 8 * word) 0

/-- The commit record. -/
def Tr.commitEntry (tr : Tr) : LogEntry :=
  let bytes := if tr.type = .lbaNs then [] else abortBytes tr.entries 0 0
  { LogEntry.ofCommit tr.ts with
    word0 := packWord bytes 0
    word1 := packWord bytes 1
    word2 := packWord bytes 2
    word3 := packWord bytes 3
    word4 := packWord bytes 4
    word5 := packWord bytes 5 }

/-- The upserts of a user transaction.  The list holds the addresses that were replaced;
the flag tells that all upserts succeeded. -/
def upsertEntries : ε → List TrLog → ε × List Ppa × Bool
  | env, [] => (env, [], true)
  | env, entry :: entries =>
      match app.upsertFn env entry.lba entry.ppa 0 with
      | (env, old, 0) =>
          let (env, oldPpas, ok) := upsertEntries env entries
          (env, old :: oldPpas, ok)
      | (env, _, _) => (env, [], false)

/-- `ROLLBACK`: the upserts are undone, the last one first. -/
def rollback (env : ε) (tr : Tr) (oldPpas : List Ppa) : ε :=
  if tr.type = .lbaNs then
    (tr.entries.zip oldPpas).foldr
      (fun undo env => (app.upsertFn env undo.1.lba undo.2 0).1) env
  else env

/-- Invalidate the sectors that were replaced. -/
def invalidateOld (env : ε) (oldPpas : List Ppa) : ε :=
  oldPpas.foldl (fun env old => if old = 0 then env else app.invalidateFn env old false) env

/-- The body of the loop of `app_transaction_ordered_commit` for a transaction that is
to be committed.  The flag is false after a rollback. -/
def commitTr (env : ε) (tr : Tr) : ε × Bool :=
  let (env, oldPpas, ok) :=
    if tr.type = .lbaNs then upsertEntries app env tr.entries else (env, [], true)
  if ¬ ok then (rollback app env tr oldPpas, false)
  else
    match app.appendFn env [tr.commitEntry] with
    | (env, 0) =>
        let (env, ret) := if tr.flushCommit then app.flushFn env else (env, 0)
        if ret ≠ 0 then (rollback app env tr oldPpas, false)
        else (invalidateOld app env oldPpas, true)
    | (env, _) => (rollback app env tr oldPpas, false)

/-- One round of `app_transaction_ordered_commit`.  The flag tells that a transaction
was committed and the next one is tried. -/
def commitHead (state : TrState ε) : TrState ε × Bool :=
  match state.used with
  | [] => (state, false)
  | tr :: used =>
      if tr.committed then
        match commitTr app state.env tr with
        | (env, true) => ({ env := env, used := used }, true)
        | (env, false) => ({ state with env := env }, false)
      else (state, false)

/-- `app_transaction_ordered_commit`, for at most `rounds` transactions. -/
def orderedCommit : Nat → TrState ε → TrState ε
  | 0, state => state
  | rounds + 1, state =>
      match commitHead app state with
      | (state, true) => orderedCommit rounds state
      | (state, false) => state

/-- The first part of `app_transaction_commit`: the transaction is marked, unless
entries are missing. -/
def markCommitted (state : TrState ε) (tid : Nat) (flush : Bool) : TrState ε × Int :=
  match state.used.find? fun tr => tr.ts = tid with
  | none => (state, -1)
  | some tr =>
      if tr.allocated ≠ tr.entries.length then (state, -1)
      else
        ({ state with
            used := updateTr state.used tid fun tr =>
              { tr with committed := true, flushCommit := flush } }, 0)

/-- `app_transaction_commit`. -/
def appTransactionCommit (state : TrState ε) (tid : Nat) (flush : Bool) : TrState ε × Int :=
  match markCommitted state tid flush with
  | (state, 0) => (orderedCommit app state.used.length state, 0)
  | (state, ret) => (state, ret)

/-! ## Abort -/

/-- The first part of `app_transaction_abort`: the sectors are invalidated and the
transaction is recycled. -/
def recycleAborted (state : TrState ε) (tid : Nat) : TrState ε :=
  match state.used.find? fun tr => tr.ts = tid with
  | none => state
  | some tr =>
      { env := tr.entries.foldl
          (fun env entry =>
            if entry.ppa = 0 then env
            else app.invalidateFn env entry.ppa (tr.type = .gcMap)) state.env
        used := state.used.filter fun other => other.ts ≠ tid }

/-- `app_transaction_abort`. -/
def appTransactionAbort (state : TrState ε) (tid : Nat) : TrState ε :=
  let state := recycleAborted app state tid
  orderedCommit app state.used.length state

/-! ## The entries after an allocation -/

theorem mem_updateTr {used : List Tr} {tid : Nat} {f : Tr → Tr} {tr : Tr}
    (mem : tr ∈ updateTr used tid f) :
    ∃ old ∈ used, old.ts ≠ tid ∧ tr = old ∨ old.ts = tid ∧ tr = f old := by
  obtain ⟨old, oldMem, eq⟩ := List.mem_map.mp mem
  refine ⟨old, oldMem, ?_⟩
  split at eq
  next same => exact Or.inr ⟨same, eq.symm⟩
  next other => exact Or.inl ⟨other, eq.symm⟩

theorem find?_updateTr {used : List Tr} {tid : Nat} {f : Tr → Tr} (keeps : ∀ tr, (f tr).ts = tr.ts)
    (other : Nat) :
    (updateTr used tid f).find? (fun tr => tr.ts = other) =
      (used.find? fun tr => tr.ts = other).map fun tr => if tr.ts = tid then f tr else tr := by
  rw [updateTr, List.find?_map]
  congr 2
  funext tr
  by_cases same : tr.ts = tid <;> simp [same, keeps]

theorem isSome_entryAt_allocate (used : List Tr) (tid idx : Nat) (ppa : Ppa) (ref : EntryRef) :
    (entryAt (updateTr used tid fun tr => tr.allocate idx ppa) ref).isSome =
      (entryAt used ref).isSome := by
  unfold entryAt
  rw [@find?_updateTr used tid (fun tr => tr.allocate idx ppa) (fun _ => rfl)]
  cases used.find? fun tr => tr.ts = ref.tid with
  | none => rfl
  | some tr =>
      by_cases same : tr.ts = tid
      · simp [same, Tr.allocate, List.getElem?_modify]
      · simp [same]

theorem map_ts_updateTr {used : List Tr} {tid : Nat} {f : Tr → Tr}
    (keeps : ∀ tr, (f tr).ts = tr.ts) : (updateTr used tid f).map Tr.ts = used.map Tr.ts := by
  rw [updateTr, List.map_map]
  apply List.map_congr_left
  intro tr _
  by_cases same : tr.ts = tid <;> simp [same, keeps]

/-- The transaction behind a pointer. -/
theorem exists_of_entryAt {used : List Tr} {ref : EntryRef} {entry : TrLog}
    (found : entryAt used ref = some entry) :
    ∃ tr ∈ used, tr.ts = ref.tid ∧ tr.entries[ref.idx]? = some entry := by
  obtain ⟨tr, isFirst, get⟩ := Option.bind_eq_some_iff.mp found
  exact ⟨tr, List.mem_of_find?_eq_some isFirst, by simpa using List.find?_some isFirst, get⟩

theorem entryAt_allocate_of_ne (used : List Tr) {ref other : EntryRef} (ne : other ≠ ref)
    (ppa : Ppa) :
    entryAt (updateTr used ref.tid fun tr => tr.allocate ref.idx ppa) other =
      entryAt used other := by
  unfold entryAt
  rw [@find?_updateTr used ref.tid (fun tr => tr.allocate ref.idx ppa) (fun _ => rfl)]
  cases isFirst : used.find? fun tr => tr.ts = other.tid with
  | none => rfl
  | some tr =>
      have otherTid : tr.ts = other.tid := by simpa using List.find?_some isFirst
      by_cases same : tr.ts = ref.tid
      · have otherIdx : ref.idx ≠ other.idx := by
          intro sameIdx
          apply ne
          cases ref
          cases other
          simp_all
        simp [same, Tr.allocate, List.getElem?_modify_ne _ _ otherIdx]
      · simp [same]

theorem mem_allocate {tr : Tr} {idx : Nat} {ppa : Ppa} {entry : TrLog}
    (mem : entry ∈ (tr.allocate idx ppa).entries) : entry ∈ tr.entries ∨ entry.ppa = ppa := by
  obtain ⟨i, bound, rfl⟩ := List.mem_iff_getElem.mp mem
  simp only [Tr.allocate, List.getElem_modify]
  split
  · exact Or.inr rfl
  · exact Or.inl (List.getElem_mem _)

/-- The records of an allocation are write records without an old address. -/
theorem allocEntries_records (type : LogType) (ent : List (Option EntryRef)) (ppas : List Ppa)
    (used : List Tr) :
    ∀ entry ∈ (allocEntries type ent ppas used).2, entry.type = type ∧ entry.oldPpa = 0 := by
  induction ent generalizing ppas used with
  | nil => simp [allocEntries]
  | cons ref ent ih =>
      cases ppas with
      | nil => cases ref <;> simp [allocEntries]
      | cons ppa ppas =>
          cases ref with
          | none => exact ih ppas used
          | some ref =>
              rw [allocEntries]
              split
              · exact ih ppas used
              · intro entry mem
                rcases List.mem_cons.mp mem with rfl | mem
                · exact ⟨rfl, LogEntry.ofWrite_oldPpa ..⟩
                · exact ih ppas _ entry mem

/-- A sector that an entry has after an allocation is an earlier one or has a record. -/
theorem allocEntries_ppa {type : LogType} {ent : List (Option EntryRef)} {ppas : List Ppa}
    {used : List Tr} {tr : Tr} (mem : tr ∈ (allocEntries type ent ppas used).1) :
    (∃ old ∈ used, tr.type = old.type) ∧
      ∀ entry ∈ tr.entries, (∃ old ∈ used, ∃ before ∈ old.entries, before.ppa = entry.ppa) ∨
        ∃ record ∈ (allocEntries type ent ppas used).2, record.newPpa = entry.ppa := by
  induction ent generalizing ppas used with
  | nil => exact ⟨⟨tr, mem, rfl⟩, fun entry entryMem => Or.inl ⟨tr, mem, entry, entryMem, rfl⟩⟩
  | cons ref ent ih =>
      cases ppas with
      | nil =>
          have kept : tr ∈ used := by cases ref <;> simpa [allocEntries] using mem
          exact ⟨⟨tr, kept, rfl⟩, fun entry entryMem => Or.inl ⟨tr, kept, entry, entryMem, rfl⟩⟩
      | cons ppa ppas =>
          cases ref with
          | none => exact ih mem
          | some ref =>
              rw [allocEntries] at mem ⊢
              split at mem
              next => exact ih mem
              next =>
                obtain ⟨⟨old, oldMem, sameType⟩, sectors⟩ := ih mem
                refine ⟨?_, fun entry entryMem => ?_⟩
                · obtain ⟨first, firstMem, eq⟩ := mem_updateTr oldMem
                  refine ⟨first, firstMem, sameType.trans ?_⟩
                  rcases eq with ⟨-, rfl⟩ | ⟨-, rfl⟩ <;> rfl
                · rcases sectors entry entryMem with ⟨old, oldMem, before, beforeMem, eq⟩ | found
                  · obtain ⟨first, firstMem, same⟩ := mem_updateTr oldMem
                    rcases same with ⟨-, rfl⟩ | ⟨-, rfl⟩
                    · exact Or.inl ⟨old, firstMem, before, beforeMem, eq⟩
                    · rcases mem_allocate beforeMem with kept | given
                      · exact Or.inl ⟨first, firstMem, before, kept, eq⟩
                      · refine Or.inr ⟨_, List.mem_cons_self, ?_⟩
                        rw [LogEntry.ofWrite_newPpa, ← eq, given]
                  · obtain ⟨record, recordMem, eq⟩ := found
                    exact Or.inr ⟨record, List.mem_cons_of_mem _ recordMem, eq⟩

end OxCtrl.Transaction
