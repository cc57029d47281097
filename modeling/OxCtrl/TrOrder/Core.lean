import OxCtrl.Lib.System
import OxCtrl.Transaction

/-!
# The order of commits

Transactions live in slots that are reused.  `app_transaction_new` moves a slot from the
free to the used list and initialises it afterwards; `app_transaction_commit` marks it;
`app_transaction_ordered_commit` commits the marked slots at the head of the used list.
Here any number of threads run these functions.  The list operations, the ordered commit
and the recycling are atomic; everything else is interleaved.
-/

namespace OxCtrl.TrOrder

open OxCtrl.Lib OxCtrl.Log OxCtrl.Transaction

/-! ## Calls of the other modules -/

/-- A mapping update or a log record. -/
inductive TrEvent where
  | upsert (lba : Nat) (ppa : Ppa)
  | record (entry : LogEntry)
  deriving DecidableEq, Repr

/-- Modules that never fail and keep the calls.  The addresses that are replaced are those
of an arbitrary mapping. -/
def recorder (geo : Geometry) (old : List TrEvent → Nat → Ppa) : TrApp (List TrEvent) where
  geo := geo
  upsertFn env lba ppa _ := (env ++ [.upsert lba ppa], old env lba, 0)
  upsertMdFn env _ _ _ := (env, 0)
  getBlk _ _ := {}
  setBlk env _ _ := env
  markFn env _ := env
  invalidateFn env _ _ := env
  closeBlkFn env _ _ := (env, 0)
  putBlkFn env _ := (env, 0)
  appendFn env entries := (env ++ entries.map .record, 0)
  flushFn env := (env, 0)

/-! ## Slots and threads -/

/-- Where a thread stands. -/
inductive Pc where
  | idle
  /-- `app_transaction_new`, behind the list operation. -/
  | newInit (slot : Nat) (lbas : List (Nat × Nat)) (type : TrType)
  /-- `app_transaction_alloc_list`, with the records that were prepared. -/
  | alloc (records : List LogEntry)
  /-- `app_transaction_commit`, behind the check of the entries. -/
  | commitMark (slot id : Nat) (flush : Bool)
  /-- `app_transaction_abort`, before the slot is recycled. -/
  | abortRecycle (slot id : Nat)
  /-- Before `app_transaction_ordered_commit`. -/
  | drain
  deriving DecidableEq, Repr

/-- What was done to the log, one item for each step that appended records. -/
inductive Hist where
  | alloc (records : List LogEntry)
  | commit (id : Nat) (tr : Tr)
  deriving DecidableEq, Repr

/-- The slots, the two lists and the threads.  The other fields only keep what happened:
transactions are numbered in the order of their creation. -/
structure TrSlots where
  env : List TrEvent
  slots : Nat → Tr
  free : List Nat
  used : List Nat
  pc : Nat → Pc
  ids : Nat → Nat
  next : Nat
  made : Nat → TrType × List Nat
  window : List Nat
  marked : List Nat
  aborted : List Nat
  history : List Hist

/-- Steps of the threads. -/
inductive TrOp where
  | new (thread clock : Nat) (lbas : List (Nat × Nat)) (type : TrType)
  | init (thread : Nat)
  | allocEntry (thread slot idx : Nat) (ppa : Ppa) (type : TrType)
  | allocAppend (thread : Nat)
  | commit (thread slot id : Nat) (flush : Bool)
  | mark (thread : Nat)
  | abort (thread slot id : Nat)
  | recycle (thread : Nat)
  | drain (thread : Nat)
  deriving DecidableEq, Repr

namespace TrSlots

/-- Move a thread. -/
def setPc (state : TrSlots) (thread : Nat) (pc : Pc) : TrSlots :=
  { state with pc := Function.update state.pc thread pc }

/-- Store into a slot. -/
def setSlot (state : TrSlots) (slot : Nat) (tr : Tr) : TrSlots :=
  { state with slots := Function.update state.slots slot tr }

/-- The list operation of `app_transaction_new`. -/
def takeSlot (state : TrSlots) (slot clock : Nat) (lbas : List (Nat × Nat)) (type : TrType) :
    TrSlots :=
  { state with
    slots := Function.update state.slots slot { state.slots slot with ts := clock }
    free := state.free.tail
    used := state.used ++ [slot]
    ids := Function.update state.ids slot state.next
    next := state.next + 1
    made := Function.update state.made state.next (type, lbas.map Prod.fst)
    window := slot :: state.window }

/-- `app_transaction_recycle`. -/
def recycleSlot (state : TrSlots) (slot : Nat) : TrSlots :=
  { state with
    slots := Function.update state.slots slot
      { state.slots slot with allocated := 0, committed := false, entries := [], ts := 0 }
    used := state.used.erase slot
    free := state.free ++ [slot] }

@[simp]
theorem setPc_self (state : TrSlots) (thread : Nat) (pc : Pc) :
    (state.setPc thread pc).pc thread = pc :=
  Function.update_self ..

theorem setPc_of_ne (state : TrSlots) {thread other : Nat} (ne : other ≠ thread) (pc : Pc) :
    (state.setPc thread pc).pc other = state.pc other :=
  Function.update_of_ne ne ..

@[simp]
theorem setSlot_self (state : TrSlots) (slot : Nat) (tr : Tr) :
    (state.setSlot slot tr).slots slot = tr :=
  Function.update_self ..

theorem setSlot_of_ne (state : TrSlots) {slot other : Nat} (ne : other ≠ slot) (tr : Tr) :
    (state.setSlot slot tr).slots other = state.slots other :=
  Function.update_of_ne ne ..

end TrSlots

/-- The fields of a new transaction. -/
def initTr (lbas : List (Nat × Nat)) (type : TrType) : Tr :=
  let entries : List TrLog := lbas.map fun lba => { lba := lba.1, ts := lba.2 }
  { ts := (entries.getLast?.map TrLog.ts).getD 0, type := type, entries := entries }

variable (app : TrApp (List TrEvent))

/-- `app_transaction_ordered_commit`, for at most `rounds` transactions. -/
def drainLoop : Nat → TrSlots → TrSlots
  | 0, state => state
  | rounds + 1, state =>
      match state.used with
      | [] => state
      | slot :: _ =>
          if (state.slots slot).committed then
            match commitTr app state.env (state.slots slot) with
            | (env, true) =>
                drainLoop rounds
                  (({ state with
                      env := env
                      history := state.history ++
                        [.commit (state.ids slot) (state.slots slot)] } : TrSlots).recycleSlot slot)
            | (env, false) => { state with env := env }
          else state

/-- One step of a thread; a step that the thread cannot take does nothing. -/
def trStep (state : TrSlots) : TrOp → TrSlots
  | .new thread clock lbas type =>
      if state.pc thread = .idle ∧ lbas.length ≤ appTransactionLogCount then
        match state.free with
        | [] => state
        | slot :: _ =>
            (state.takeSlot slot clock lbas type).setPc thread (.newInit slot lbas type)
      else state
  | .init thread =>
      match state.pc thread with
      | .newInit slot lbas type =>
          { (state.setSlot slot (initTr lbas type)).setPc thread .idle with
            window := state.window.erase slot }
      | _ => state
  | .allocEntry thread slot idx ppa type =>
      let record := fun entry : TrLog =>
        LogEntry.ofWrite type.logType entry.ts (state.slots slot).ts entry.lba ppa 0
      match state.pc thread, (state.slots slot).entries[idx]? with
      | .idle, some entry =>
          (state.setSlot slot ((state.slots slot).allocate idx ppa)).setPc thread
            (.alloc [record entry])
      | .alloc records, some entry =>
          (state.setSlot slot ((state.slots slot).allocate idx ppa)).setPc thread
            (.alloc (records ++ [record entry]))
      | _, _ => state
  | .allocAppend thread =>
      match state.pc thread with
      | .alloc records =>
          ({ state with
              env := (app.appendFn state.env records).1
              history := state.history ++ [.alloc records] } : TrSlots).setPc thread .idle
      | _ => state
  | .commit thread slot id flush =>
      if state.pc thread = .idle ∧ (state.slots slot).allocated = (state.slots slot).entries.length
      then state.setPc thread (.commitMark slot id flush)
      else state
  | .mark thread =>
      match state.pc thread with
      | .commitMark slot id flush =>
          { (state.setSlot slot
              { state.slots slot with committed := true, flushCommit := flush }).setPc thread .drain
            with marked := id :: state.marked }
      | _ => state
  | .abort thread slot id =>
      if state.pc thread = .idle then state.setPc thread (.abortRecycle slot id) else state
  | .recycle thread =>
      match state.pc thread with
      | .abortRecycle slot id =>
          { (state.recycleSlot slot).setPc thread .drain with aborted := id :: state.aborted }
      | _ => state
  | .drain thread =>
      if state.pc thread = .drain then
        (drainLoop app state.used.length state).setPc thread .idle
      else state

/-- Runs of the threads. -/
def trSystem : System TrSlots TrOp Unit where
  step state op := (trStep app state op, ())

/-- `app_transaction_init`: the memory of the slots is not initialised. -/
def appTransactionInit (slots : Nat → Tr) (count : Nat) : TrSlots where
  env := []
  slots := slots
  free := List.range count
  used := []
  pc := fun _ => .idle
  ids := fun _ => 0
  next := 0
  made := fun _ => (.lbaNs, [])
  window := []
  marked := []
  aborted := []
  history := []

/-! ## Order and exactly-once -/

/-- Updates of the mapping that a transaction stands for. -/
def trUpdates (tr : Tr) : List TrEvent :=
  if tr.type = .lbaNs then tr.entries.map fun entry => .upsert entry.lba entry.ppa else []

/-- The calls behind an item of the history: the updates of a transaction stand directly
before its commit record. -/
def Hist.render : Hist → List TrEvent
  | .alloc records => records.map .record
  | .commit _ tr => trUpdates tr ++ [.record tr.commitEntry]

/-- The committed transactions, oldest commit first. -/
def commitIds (history : List Hist) : List Nat :=
  history.filterMap fun
    | .alloc _ => none
    | .commit id _ => some id

/-- What the order of the commits asks of a state. -/
structure Ordered (state : TrSlots) : Prop where
  /-- The log and the mapping got the calls of the history and nothing else. -/
  calls : state.env = state.history.flatMap Hist.render
  /-- Commits come in the order of creation, and no transaction is committed twice. -/
  order : (commitIds state.history).Pairwise (· < ·)
  /-- Only transactions that asked for it are committed, with the type and the blocks they
  were created with. -/
  asked : ∀ id tr, .commit id tr ∈ state.history →
    id ∈ state.marked ∧ (tr.type, tr.entries.map TrLog.lba) = state.made id
  /-- Allocations append no commit record. -/
  writes : ∀ records, .alloc records ∈ state.history → ∀ entry ∈ records, entry.type ≠ .commit
  /-- An aborted transaction is not committed. -/
  aborted : ∀ id ∈ state.aborted, id ∉ commitIds state.history
  /-- A transaction that was marked is committed, aborted or waits in the list. -/
  kept : ∀ id ∈ state.marked, id ∈ commitIds state.history ∨ id ∈ state.aborted ∨
    ∃ slot ∈ state.used, state.ids slot = id ∧ (state.slots slot).committed
  /-- It waits behind a transaction that is not marked, unless a thread is about to drain. -/
  drained : (∃ thread, state.pc thread = .drain) ∨
    ∀ slot ∈ state.used.head?, (state.slots slot).committed = false

/-- A slot holds a transaction that was created, was initialised and was not recycled. -/
def Live (state : TrSlots) (slot id : Nat) : Prop :=
  slot ∈ state.used ∧ state.ids slot = id ∧ slot ∉ state.window

instance (state : TrSlots) (slot id : Nat) : Decidable (Live state slot id) :=
  inferInstanceAs (Decidable (_ ∧ _ ∧ _))

/-- The transaction that a thread is about to mark. -/
def Pc.marks : Pc → Option (Nat × Nat)
  | .commitMark slot id _ => some (slot, id)
  | _ => none

/-- The transaction that a thread is about to abort. -/
def Pc.aborts : Pc → Option (Nat × Nat)
  | .abortRecycle slot id => some (slot, id)
  | _ => none

/-- Abort recycles only transactions that were not recycled yet. -/
def AbortLive (state : TrSlots) : TrOp → Prop
  | .recycle thread => ∀ target ∈ (state.pc thread).aborts, Live state target.1 target.2
  | _ => True

/-- Commit marks only transactions that were not recycled, and the flag of a slot is clear
when it enters the list. -/
def FlagClear (state : TrSlots) : TrOp → Prop
  | .new _ _ _ _ => ∀ slot ∈ state.free.head?, (state.slots slot).committed = false
  | .mark thread => ∀ target ∈ (state.pc thread).marks, Live state target.1 target.2
  | _ => True

instance (state : TrSlots) (op : TrOp) : Decidable (AbortLive state op) := by
  cases op <;> unfold AbortLive <;> infer_instance

instance (state : TrSlots) (op : TrOp) : Decidable (FlagClear state op) := by
  cases op <;> unfold FlagClear <;> infer_instance

end OxCtrl.TrOrder
