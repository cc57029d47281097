import OxCtrl.Recovery.Crash

/-!
# Every run keeps the committed transactions

The invariant of the running system: the log is a chain of pages, and the cuts at the
heads of the last and of the running checkpoint keep the committed transactions.
-/

namespace OxCtrl.Recovery

open OxCtrl.Lib
open OxCtrl.Log
open OxCtrl.Transaction

/-! ## The invariant -/

/-- The log is cut at page number `pos`, and the mapping of the cut keeps the committed
transactions. -/
structure CutOk (log : LogCtrl) (committed : List Tr) (pos head : Nat) (map : Nat → Ppa) :
    Prop where
  le : pos ≤ log.flash.length
  head : headAddr log pos = head
  survives : Survives committed map (recordsBefore log pos) (recordsFrom log pos)

/-- Invariant of the running system. -/
structure CpInv (first : Nat) (state : CpState) : Prop where
  fifo : Fifo first (allRecords state.host.env.log) state.host.env.log
  pages : PagesOk state.host.env.log
  trs : TrsInv (allRecords state.host.env.log) state.committed state.host.used state.clock
  mapped : ∀ i tr, state.committed[i]? = some tr → ∀ entry ∈ tr.entries,
    Latest state.committed i entry.lba (state.host.env.map entry.lba)
  last : CutOk state.host.env.log state.committed state.last.pos state.last.head
    state.last.tables.map
  running : ∀ running ∈ state.running,
    CutOk state.host.env.log state.committed running.pos running.head
      (running.map state.host.env.map)

variable {geo : Geometry} {prov : ProvFns} {env : Log.Env} {first : Nat} {log log' : LogCtrl}
  {committed : List Tr} {pos head : Nat} {map map' : Nat → Ppa}

theorem TrsInv.proper {all : List LogEntry} {used : List Tr} {clock : Nat}
    (inv : TrsInv all committed used clock) : ∀ entry ∈ all, entry.IsRecord := by
  intro entry mem
  rcases (inv.records entry mem).1 with ⟨kind, -⟩ | kind | kind | kind | kind <;>
    simp [LogEntry.IsRecord, kind]

/-! ## A cut when the log moves on -/

theorem CutOk.extend (cut : CutOk log committed pos head map) {list : List LogEntry}
    (step : Extends first log log' list) (noCommit : ∀ record ∈ list, ¬ isCommit record) :
    CutOk log' committed pos head map := by
  have stays := step.stays pos cut.le
  refine ⟨stays.le, stays.head.trans cut.head, ?_⟩
  rw [stays.before, step.recordsFrom cut.le]
  exact cut.survives.others noCommit

/-- The mapping of a cut takes over entries of the running mapping. -/
theorem CutOk.copy (cut : CutOk log committed pos head map)
    (good : ∀ lba, map' lba = map lba ∨ ∀ i tr, committed[i]? = some tr →
      ∀ entry ∈ tr.entries, entry.lba = lba → Latest committed i lba (map' lba)) :
    CutOk log committed pos head map' :=
  ⟨cut.le, cut.head, cut.survives.update good⟩

theorem CutOk.commit (cut : CutOk log committed pos head map) {used : List Tr} {tr : Tr}
    {clock : Nat} (trs : TrsInv (allRecords log) committed (tr :: used) clock)
    (step : Extends first log log' [tr.commitEntry])
    (moved : ∀ lba, map' lba = map lba ∨
      ∃ entry ∈ tr.entries, entry.lba = lba ∧ map' lba = entry.ppa)
    (safe : ∀ entry ∈ tr.entries, Logged (recordsFrom log pos) tr.ts entry.lba ∨
      (∃ other ∈ tr.entries, other.lba = entry.lba ∧ map' entry.lba = other.ppa) ∧
        ¬ Replays (recordsFrom log pos) entry.lba) :
    CutOk log' (committed ++ [tr]) pos head map' := by
  have stays := step.stays pos cut.le
  have mem : tr ∈ tr :: used := List.mem_cons_self
  have split := recordsBefore_append log pos
  refine ⟨stays.le, stays.head.trans cut.head, ?_⟩
  rw [stays.before, step.recordsFrom cut.le]
  refine cut.survives.commit (trs.newId mem) ?_ ?_ moved safe
  · rw [split]
    exact trs.fresh mem
  · rw [split]
    exact (trs.used tr mem).logged

/-- The tail of the log is the address of its last page. -/
theorem headAddr_tailPos (fifo : Fifo first (allRecords log) log) (pages : PagesOk log) :
    headAddr log (tailPos log) = log.phyLogTail := by
  unfold headAddr tailPos
  rw [List.head?_drop, ← List.getLast?_eq_getElem?]
  cases last : log.flash.getLast? with
  | none => exact (pages.empty (List.getLast?_eq_none_iff.mp last)).symm
  | some page => exact (fifo.last page last).2.symm

/-! ## What the steps do -/

variable {state : CpState}

/-- An operation on the log that appends records other than commit records. -/
theorem CpInv.logStep (inv : CpInv first state) (succeeds : env.Succeeds)
    (clock : ∀ n, env.clock n ≠ 0) (op : LogOp) {used : List Tr}
    (trs : TrsInv (allRecords state.host.env.log ++ op.records) state.committed used state.clock)
    (noCommit : ∀ record ∈ op.records, ¬ isCommit record) :
    ((logSystem env).step state.host.env.log op).2 = some 0 ∧
      CpInv first
        { state with
          host :=
            { env :=
                { state.host.env with log := ((logSystem env).step state.host.env.log op).1 }
              used := used } } := by
  obtain ⟨step, result⟩ :=
    logSystem_extends succeeds clock op trs.proper inv.fifo inv.pages
  refine ⟨result, step.fifo, step.pages, ?_, inv.mapped, inv.last.extend step noCommit,
    fun running mem => (inv.running running mem).extend step noCommit⟩
  rw [step.all]
  exact trs

/-- The list of transactions changes, the mapping and the log do not. -/
theorem CpInv.used (inv : CpInv first state) {host : TrState (Store LogCtrl)} {clock : Nat}
    (map : host.env.map = state.host.env.map) (log : host.env.log = state.host.env.log)
    (trs : TrsInv (allRecords state.host.env.log) state.committed host.used clock) :
    CpInv first { state with host := host, clock := clock } := by
  refine ⟨?_, ?_, ?_, ?_, ?_, fun running mem => ?_⟩
  · rw [log]
    exact inv.fifo
  · rw [log]
    exact inv.pages
  · rw [log]
    exact trs
  · rw [map]
    exact inv.mapped
  · rw [log]
    exact inv.last
  · rw [log, map]
    exact inv.running running mem

theorem CpInv.new (inv : CpInv first state) {lbas : List (Nat × Nat)}
    (proper : (CpOp.new lbas).Proper geo state) :
    CpInv first ((cpSystem geo prov env).step state (.new lbas)).1 := by
  obtain ⟨nonempty, later⟩ := proper
  simp only [cpSystem, Transaction.appTransactionNew]
  by_cases large : appTransactionLogCount < lbas.length
  · simpa [large] using inv
  · simp only [large, if_false]
    refine inv.used rfl rfl ?_
    have isLast := List.getLast?_eq_some_getLast nonempty
    have lastLater := later _ (List.getLast_mem nonempty)
    have entryLater : ∀ entry ∈ lbas.map fun lba : Nat × Nat =>
        ({ lba := lba.1, ts := lba.2 } : TrLog),
        entry.ts ≠ 0 ∧ entry.ppa = 0 := by
      intro entry mem
      obtain ⟨lba, lbaMem, rfl⟩ := List.mem_map.mp mem
      exact ⟨(Nat.zero_lt_of_lt (later lba lbaMem)).ne', rfl⟩
    simp only [List.getLast?_map, isLast, Option.map_some, Option.getD_some]
    refine inv.trs.new lastLater rfl (fun entry mem => (entryLater entry mem).1)
      (fun entry mem => (entryLater entry mem).2) rfl ?_
    exact Bool.false_ne_true

theorem CpInv.alloc (succeeds : env.Succeeds) (clock : ∀ n, env.clock n ≠ 0)
    (inv : CpInv first state) {ent : List (Option EntryRef)} {ppas : List Ppa}
    (proper : (CpOp.alloc ent ppas).Proper geo state) :
    CpInv first ((cpSystem geo prov env).step state (.alloc ent ppas)).1 := by
  obtain ⟨aligned, -, nodup, sectors, free⟩ := proper
  have trs := inv.trs.allocEntries nodup sectors free
  have noCommit : ∀ record ∈ (allocEntries .write ent ppas state.host.used).2,
      ¬ isCommit record := by
    intro record mem
    simp [isCommit, (allocEntries_records .write ent ppas state.host.used record mem).1]
  obtain ⟨result, next⟩ := inv.logStep succeeds clock (.append _) trs noCommit
  have appended : (appftlLogAppend env state.host.env.log
      (allocEntries .write ent ppas state.host.used).2).2 = some 0 := result
  simp only [cpSystem, appTransactionAllocList, logApp, Store.oxapp, aligned, TrType.logType,
    appended, ne_eq, not_true, if_false, Option.getD_some]
  exact next

theorem CpInv.mark (inv : CpInv first state) (tid : Nat) (flush : Bool) :
    CpInv first ((cpSystem geo prov env).step state (.mark tid flush)).1 := by
  simp only [cpSystem, markCommitted]
  split
  · exact inv
  next tr isFirst =>
    split
    · exact inv
    next full =>
      have trMem := List.mem_of_find?_eq_some isFirst
      have trTs : tr.ts = tid := by simpa using List.find?_some isFirst
      have ids := inv.trs.ids
      rw [List.map_append, List.nodup_append] at ids
      have keeps : (updateTr state.host.used tid fun tr =>
          { tr with committed := true, flushCommit := flush }).map Tr.ts =
            state.host.used.map Tr.ts := map_ts_updateTr fun _ => rfl
      have sublist := List.Sublist.refl (state.host.used.map Tr.ts)
      rw [← keeps] at sublist
      refine inv.used rfl rfl (inv.trs.shrink (keeps ▸ sublist) fun other mem => ?_)
      obtain ⟨old, oldMem, ⟨-, rfl⟩ | ⟨same, rfl⟩⟩ := mem_updateTr mem
      · exact inv.trs.used other oldMem
      · obtain rfl : old = tr :=
          List.inj_on_of_nodup_map ids.2.1 oldMem trMem (same.trans trTs.symm)
        have trInv := inv.trs.used old oldMem
        exact ⟨trInv.user, trInv.ts, trInv.entryTs, trInv.logged, trInv.allocated,
          fun _ => not_not.mp full⟩

/-- Sectors of an aborted transaction are invalidated, which changes neither the mapping
nor the log. -/
theorem recycleAborted_env (host : TrState (Store LogCtrl)) (tid : Nat) :
    (recycleAborted (logApp geo prov env) host tid).env.map = host.env.map ∧
      (recycleAborted (logApp geo prov env) host tid).env.log = host.env.log := by
  unfold recycleAborted
  split
  · exact ⟨rfl, rfl⟩
  next tr _ =>
    simp only
    generalize host.env = store
    induction tr.entries generalizing store with
    | nil => exact ⟨rfl, rfl⟩
    | cons entry entries ih =>
        rw [List.foldl_cons]
        obtain ⟨map, log⟩ := ih (if entry.ppa = 0 then store
          else (logApp geo prov env).invalidateFn store entry.ppa (tr.type = .gcMap))
        rw [map, log]
        split <;> exact ⟨rfl, rfl⟩

theorem CpInv.abort (inv : CpInv first state) (tid : Nat) :
    CpInv first ((cpSystem geo prov env).step state (.abort tid)).1 := by
  obtain ⟨map, log⟩ := @recycleAborted_env geo prov env state.host tid
  refine inv.used map log (inv.trs.shrink ?_ fun tr mem => ?_)
  · unfold recycleAborted
    split
    · exact List.Sublist.refl _
    · exact List.filter_sublist.map _
  · unfold recycleAborted at mem
    split at mem
    · exact inv.trs.used tr mem
    · exact inv.trs.used tr (List.mem_of_mem_filter mem)

/-- A transaction at the head that is marked is committed: the mapping takes its entries
and the log its commit record. -/
theorem commitTr_logApp {tr : Tr} (user : tr.type = .lbaNs) {store : Store LogCtrl}
    (appended : (appftlLogAppend env store.log [tr.commitEntry]).2 = some 0) :
    ∃ after, commitTr (logApp geo prov env) store tr = (after, true) ∧
      after.map = Store.applyEntries store.map tr.entries ∧
      after.log = (appftlLogAppend env store.log [tr.commitEntry]).1 := by
  obtain ⟨map, log, -⟩ := @Store.invalidateOld_spec _ geo (logApp geo prov env) rfl
    { store with
      map := Store.applyEntries store.map tr.entries
      log := (appftlLogAppend env store.log [tr.commitEntry]).1 }
    (Store.overwritten store.map tr.entries)
  refine ⟨_, ?_, map, log⟩
  unfold commitTr
  rw [if_pos user, Store.upsertEntries_eq rfl]
  simp only [logApp, appended, Option.getD_some, not_true, if_false, ite_self, ne_eq]

theorem CpInv.commit (succeeds : env.Succeeds) (clock : ∀ n, env.clock n ≠ 0)
    (inv : CpInv first state) (safe : CpOp.commit.HeadSafe state) :
    CpInv first ((cpSystem geo prov env).step state .commit).1 := by
  simp only [cpSystem, commitHead]
  cases isHead : state.host.used with
  | nil => exact inv
  | cons tr used =>
      by_cases isCommitted : tr.committed
      · have trs := inv.trs
        rw [isHead] at trs
        have trMem : tr ∈ state.host.used.head? := by rw [isHead]; rfl
        have next := trs.commit isCommitted
        obtain ⟨step, result⟩ := logSystem_extends succeeds clock (.append [tr.commitEntry])
          next.proper inv.fifo inv.pages
        obtain ⟨after, eq, map, log⟩ := @commitTr_logApp geo prov env tr
          (trs.used tr List.mem_cons_self).user state.host.env result
        change after.log = ((logSystem env).step state.host.env.log (.append [tr.commitEntry])).1
          at log
        have moved := Store.applyEntries_apply state.host.env.map tr.entries
        have given : ∀ entry ∈ tr.entries, ∃ other ∈ tr.entries, other.lba = entry.lba ∧
            after.map entry.lba = other.ppa := by
          intro entry mem
          rw [map]
          exact (moved entry.lba).resolve_left fun other => other.1 entry mem rfl
        simp only [isCommitted, if_true, eq, List.head?_cons, Option.toList_some]
        refine ⟨?_, ?_, ?_, fun i other get entry mem => ?_, ?_, fun running mem => ?_⟩
        · rw [log]
          exact step.fifo
        · rw [log]
          exact step.pages
        · rw [log, step.all]
          exact next
        · have bound := (List.getElem?_eq_some_iff.mp get).1
          rw [List.length_append, List.length_singleton] at bound
          rw [map]
          rcases moved entry.lba with ⟨notIn, same⟩ | ⟨last, lastMem, sameLba, value⟩
          · have old : i < state.committed.length := by
              by_contra new
              obtain rfl : i = state.committed.length := by omega
              obtain rfl : tr = other := by simpa using get
              exact notIn entry mem rfl
            rw [List.getElem?_append_left old] at get
            rw [same]
            exact (inv.mapped i other get entry mem).append [tr]
          · rw [value, ← sameLba]
            exact latest_last (by omega) lastMem
        · rw [log]
          refine inv.last.commit trs step (fun lba => Or.inl rfl) fun entry mem => ?_
          exact Or.inl (safe tr trMem isCommitted entry mem).1
        · rw [log]
          refine (inv.running running mem).commit trs step (fun lba => ?_) fun entry entryMem => ?_
          · unfold RunningCp.map
            cases running.copied lba with
            | some ppa => exact Or.inl rfl
            | none =>
                rw [map]
                exact (moved lba).imp And.right id
          · refine ((safe tr trMem isCommitted entry entryMem).2 running mem).imp_right ?_
            rintro ⟨uncopied, unreplayed⟩
            refine ⟨?_, unreplayed⟩
            simp only [RunningCp.map, uncopied, Option.getD_none]
            exact given entry entryMem
      · simp only [isCommitted]
        exact inv

/-! ## Checkpoints -/

theorem CpInv.cpBegin (inv : CpInv first state) (safe : CpOp.cpBegin.HeadSafe state) :
    CpInv first ((cpSystem geo prov env).step state .cpBegin).1 := by
  simp only [cpSystem]
  split
  · exact inv
  · refine ⟨inv.fifo, inv.pages, inv.trs, inv.mapped, inv.last, fun running mem => ?_⟩
    obtain rfl := Option.some.inj mem
    refine ⟨Nat.sub_le _ _, headAddr_tailPos inv.fifo inv.pages, ?_⟩
    refine History.survives ?_ inv.mapped safe
    rw [recordsBefore_append]
    exact inv.trs.history

theorem CpInv.cpCopy (inv : CpInv first state) (lbas : Nat → Bool) :
    CpInv first ((cpSystem geo prov env).step state (.cpCopy lbas)).1 := by
  refine ⟨inv.fifo, inv.pages, inv.trs, inv.mapped, inv.last, fun running mem => ?_⟩
  obtain ⟨old, oldMem, rfl⟩ := Option.map_eq_some_iff.mp mem
  refine (inv.running old oldMem).copy fun lba => ?_
  by_cases selected : lbas lba
  · right
    rintro i tr get entry entryMem rfl
    simp only [RunningCp.map, selected, if_true, Option.getD_some]
    exact inv.mapped i tr get entry entryMem
  · left
    simp only [RunningCp.map, selected]
    rfl

theorem CpInv.cpEnd (inv : CpInv first state) :
    CpInv first ((cpSystem geo prov env).step state .cpEnd).1 := by
  simp only [cpSystem]
  split
  · exact inv
  next running isRunning =>
    obtain ⟨le, head, survives⟩ := inv.running running isRunning
    refine ⟨⟨⟨inv.fifo.ptrs.append, inv.fifo.ptrs.flush⟩, inv.fifo.running, inv.fifo.records,
      inv.fifo.chain, inv.fifo.last, inv.fifo.head⟩, ⟨inv.pages.starts, inv.pages.last,
      inv.pages.empty⟩, inv.trs, inv.mapped, ⟨le, head, survives⟩, ?_⟩
    intro other mem
    simp at mem

/-! ## All runs -/

end OxCtrl.Recovery
