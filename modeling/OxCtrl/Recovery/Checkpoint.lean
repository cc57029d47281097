import OxCtrl.Recovery.LogRead

/-!
# Checkpoints

The running system with its log, and `oxb_recovery_checkpoint` in three phases: the log
tail is taken as the new head, the mapping is copied to flash page by page, and the
checkpoint is written.  Transactions go on meanwhile.  After a crash, recovery loads the
last checkpoint and replays the log from the head that it names.
-/

namespace OxCtrl.Recovery

open OxCtrl.Lib
open OxCtrl.Log
open OxCtrl.Transaction

/-! ## The system -/

/-- What a checkpoint leaves on flash. -/
structure Checkpoint where
  /-- `APP_CP_LOG_HEAD`. -/
  head : Nat
  /-- Number of log pages before the head. -/
  pos : Nat
  tables : Store Unit

/-- A checkpoint that has not been written yet. -/
structure RunningCp where
  head : Nat
  pos : Nat
  /-- The mapping entries copied so far. -/
  copied : Nat → Option Ppa

/-- The running system, with what is on flash. -/
structure CpState where
  host : TrState (Store LogCtrl)
  /-- Last reading of the clock by `app_transaction_new`. -/
  clock : Nat := 0
  /-- The committed transactions, oldest first. -/
  committed : List Tr := []
  last : Checkpoint
  running : Option RunningCp := none

/-- Steps of the system. -/
inductive CpOp where
  | new (lbas : List (Nat × Nat))
  | alloc (ent : List (Option EntryRef)) (ppas : List Ppa)
  | mark (tid : Nat) (flush : Bool)
  | commit
  | abort (tid : Nat)
  /-- The records of a table that is flushed. -/
  | append (list : List LogEntry)
  | flush (size : Fin (2 ^ 16))
  /-- `log_head = get_log_tail ()`. -/
  | cpBegin
  /-- Mapping pages are written; the predicate selects their LBAs. -/
  | cpCopy (lbas : Nat → Bool)
  /-- The rest of the tables and the checkpoint itself are written. -/
  | cpEnd

variable (geo : Geometry) (prov : ProvFns) (env : Log.Env)

/-- The modules, with the log.  A flush with a callback is a request to the log thread. -/
def logApp : TrApp (Store LogCtrl) where
  toOxapp := Store.oxapp geo prov
  appendFn store list :=
    ({ store with log := (appftlLogAppend env store.log list).1 },
      (appftlLogAppend env store.log list).2.getD (-1))
  flushFn store := (store, 0)

/-- The log changes. -/
def CpState.setLog (state : CpState) (log : LogCtrl) : CpState :=
  { state with host := { state.host with env := { state.host.env with log := log } } }

/-- Number of pages before the tail of the log. -/
def tailPos (log : LogCtrl) : Nat :=
  log.flash.length - 1

/-- The mapping that a running checkpoint would leave now. -/
def RunningCp.map (running : RunningCp) (map : Nat → Ppa) : Nat → Ppa :=
  fun lba => (running.copied lba).getD (map lba)

/-- The running system. -/
def cpSystem : System CpState CpOp Unit where
  step
    | state, .new lbas =>
        match Transaction.appTransactionNew state.host lbas .lbaNs with
        | none => (state, ())
        | some host =>
            ({ state with host := host, clock := (lbas.getLast?.map Prod.snd).getD 0 }, ())
    | state, .alloc ent ppas =>
        ({ state with
            host := (appTransactionAllocList (logApp geo prov env) state.host ent .lbaNs
              (some ppas)).1 }, ())
    | state, .mark tid flush => ({ state with host := (markCommitted state.host tid flush).1 }, ())
    | state, .commit =>
        match commitHead (logApp geo prov env) state.host with
        | (host, true) =>
            ({ state with
                host := host
                committed := state.committed ++ state.host.used.head?.toList }, ())
        | (host, false) => ({ state with host := host }, ())
    | state, .abort tid =>
        ({ state with host := recycleAborted (logApp geo prov env) state.host tid }, ())
    | state, .append list => (state.setLog (appftlLogAppend env state.host.env.log list).1, ())
    | state, .flush size => (state.setLog (appftlLogFlushBuffer env state.host.env.log size).1, ())
    | state, .cpBegin =>
        let log := state.host.env.log
        match state.running with
        | some _ => (state, ())
        | none =>
            ({ state with
                running := some
                  { head := log.phyLogTail, pos := tailPos log, copied := fun _ => none } }, ())
    | state, .cpCopy lbas =>
        let copy : RunningCp → RunningCp := fun running =>
          { running with
            copied := fun lba =>
              if lbas lba then some (state.host.env.map lba) else running.copied lba }
        ({ state with running := state.running.map copy }, ())
    | state, .cpEnd =>
        match state.running with
        | none => (state, ())
        | some running =>
            let store := state.host.env
            let head := if running.head = 0 then store.log.phyLogHead else running.head
            ({ state.setLog { store.log with phyLogHead := head } with
                last :=
                  { head := running.head
                    pos := running.pos
                    tables :=
                      { map := running.map store.map
                        mapMd := store.mapMd
                        blocks := store.blocks
                        log := () } }
                running := none }, ())

/-- What the callers promise: transactions have new timestamps, entries get a sector
once, and a table that is flushed appends records of its type. -/
def CpOp.Proper (state : CpState) : CpOp → Prop
  | .new lbas =>
      lbas ≠ [] ∧ ∀ lba ∈ lbas, state.clock < lba.2
  | .alloc ent ppas =>
      ent.length % geo.secPerPlPg = 0 ∧ ent.length = ppas.length ∧
        (ent.filterMap id).Nodup ∧ (∀ ppa ∈ ppas, ppa ≠ 0) ∧
        ∀ ref ∈ ent.filterMap id, ∃ entry ∈ entryAt state.host.used ref, entry.ppa = 0
  | .append list => ∀ entry ∈ list,
      (entry.type = .map ∨ entry.type = .blkMd ∨ entry.type = .mapMd) ∧ entry.ts ≠ 0
  | _ => True

instance instDecidableCpProper (state : CpState) : ∀ op : CpOp, Decidable (op.Proper geo state)
  | .new _ | .alloc _ _ => inferInstanceAs (Decidable (_ ∧ _))
  | .append _ => inferInstanceAs (Decidable (∀ entry ∈ _, _))
  | .mark _ _ | .commit | .abort _ | .flush _ | .cpBegin | .cpCopy _ | .cpEnd =>
      inferInstanceAs (Decidable True)

/-! ## The condition on the head -/

/-- A write record of the transaction for the LBA is among the records. -/
def Logged (records : List LogEntry) (tid lba : Nat) : Prop :=
  ∃ entry ∈ records, isWriteOf tid entry ∧ entry.lba = lba

instance (records : List LogEntry) (tid lba : Nat) : Decidable (Logged records tid lba) :=
  inferInstanceAs (Decidable (∃ entry ∈ records, isWriteOf tid entry ∧ entry.lba = lba))

/-- A replay of the records writes the LBA. -/
def Replays (records : List LogEntry) (lba : Nat) : Prop :=
  ∃ entry ∈ committedWrites records, entry.lba = lba

/-- The head of the log stays out of the way of transactions.  When a transaction is
committed, its write records lie at or after the head of the last checkpoint.  They lie
at or after the head of a running checkpoint too, or their LBAs have not been copied and
no record from that head on makes an earlier write of them effective.  When a checkpoint
takes the tail as its head and a commit record from the tail on has a write record before
the tail, the records from the tail up to the commit record make no write of that LBA
effective. -/
def CpOp.HeadSafe (state : CpState) : CpOp → Prop
  | .commit => ∀ tr ∈ state.host.used.head?, tr.committed → ∀ entry ∈ tr.entries,
      Logged (recordsFrom state.host.env.log state.last.pos) tr.ts entry.lba ∧
        ∀ running ∈ state.running,
          Logged (recordsFrom state.host.env.log running.pos) tr.ts entry.lba ∨
            running.copied entry.lba = none ∧
              ¬ Replays (recordsFrom state.host.env.log running.pos) entry.lba
  | .cpBegin =>
      let log := state.host.env.log
      ∀ records commit, records ++ [commit] <+: recordsFrom log (tailPos log) →
        isCommit commit → ∀ write ∈ recordsBefore log (tailPos log),
          isWriteOf commit.ts write → ¬ Replays records write.lba
  | _ => True

/-! ## The property -/

/-- The sector was written for the LBA by transaction number `i` or a later one. -/
def Latest (committed : List Tr) (i lba : Nat) (ppa : Ppa) : Prop :=
  ∃ j tr, i ≤ j ∧ committed[j]? = some tr ∧ ∃ entry ∈ tr.entries, entry.lba = lba ∧ entry.ppa = ppa

end OxCtrl.Recovery
