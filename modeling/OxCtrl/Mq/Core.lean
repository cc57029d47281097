import Mathlib.Logic.Function.Basic
import OxCtrl.Lib.System
import OxCtrl.Lib.Tailq
import OxCtrl.Lib.Tally

/-!
# The multi-queue

Entries of `ox-mq` go round between the lists of a queue: a submission takes a free entry to
`sq_used`, the submission thread moves it to `sq_wait` and calls `sq_fn`, and a completion takes
it back to `sq_free` while an entry of the completion side carries the user's pointer to `cq_fn`.
The timeout thread takes late entries from `sq_wait` for good and puts new ones in their place.

Calls and rounds of the threads that are in progress form a list of tasks.  A step is a section
under the mutex of a list, or an access to a field of an entry in between.
-/

namespace OxCtrl.Mq

open OxCtrl.Lib

/-- `status` of an entry; `unset` is what `memset` leaves. -/
inductive Status where
  | unset
  | free
  | queued
  | waiting
  | timeout
  | timeoutCompleted
  | timeoutBack
  deriving DecidableEq, Repr

/-- `struct ox_mq_entry`.  In place of the user's pointer, `opaqueOf` has the number of the
submission that has passed it, or nothing for a null pointer. -/
structure Entry where
  opaqueOf : Option Nat := none
  qid : Nat := 0
  status : Status := .unset
  isExt : Bool := false
  deriving DecidableEq, Repr

/-- `ox_mq_reset_entry`. -/
def Entry.reset (entry : Entry) : Entry :=
  { entry with status := .free, opaqueOf := none, qid := 0 }

/-- `struct ox_mq_queue`: lists of entries with their counters in `stats`. -/
structure Queue where
  qid : Nat
  sqFree : Tailq Nat
  sqUsed : Tailq Nat
  sqWait : Tailq Nat
  cqFree : Tailq Nat
  cqUsed : Tailq Nat
  deriving DecidableEq, Repr

/-- `n_queues`, `q_size` and the flag `OX_MQ_TO_COMPLETE` of `struct ox_mq_config`. -/
structure Config where
  nQueues : Nat
  qSize : Nat
  toComplete : Bool

/-- Who calls `ox_mq_complete_req`: the user, or the timeout thread with these entries left. -/
inductive Caller where
  | user
  | timeout (rest : List Nat)
  deriving DecidableEq, Repr

/-- What is left of a call or of a round of a thread. -/
inductive Task where
  /-- `ox_mq_submit_req` behind the removal from `sq_free`. -/
  | submitTook (qid entry : Nat) (opaqueOf : Option Nat)
  /-- `ox_mq_submit_req` in front of `sq_used_mutex`. -/
  | submitFilled (qid entry : Nat)
  /-- `ox_mq_sq_thread` behind the removal from `sq_used`. -/
  | sqTook (qid entry : Nat)
  /-- `ox_mq_sq_thread` behind the new status. -/
  | sqMarked (qid entry : Nat)
  /-- `ox_mq_sq_thread` in front of `sq_fn`. -/
  | sqQueued (qid entry : Nat)
  /-- `ox_mq_cq_thread` behind the removal from `cq_used`. -/
  | cqTook (qid entry : Nat)
  /-- `ox_mq_cq_thread` in front of `cq_fn`. -/
  | cqFreed (qid : Nat) (opaqueOf : Option Nat)
  /-- `ox_mq_complete_req` in front of `cq_free_mutex`. -/
  | checked (caller : Caller) (qid entry : Nat)
  /-- `ox_mq_complete_req` in front of the second `entry_mutex`. -/
  | took (caller : Caller) (qid entry cqEntry : Nat)
  /-- `ox_mq_complete_req` has found `OX_MQ_WAITING` and holds `entry_mutex`. -/
  | removing (caller : Caller) (qid entry cqEntry : Nat)
  /-- `ox_mq_complete_req` behind the removal from `sq_wait`, with `entry_mutex`. -/
  | removed (caller : Caller) (qid entry cqEntry : Nat)
  /-- `ox_mq_complete_req` in front of `cq_used_mutex`. -/
  | posting (caller : Caller) (qid entry cqEntry : Nat)
  /-- `ox_mq_check_queue_to` in the loop over `sq_wait`, with `sq_wait_mutex`; the late entries
  it has found stand in the order of their completion. -/
  | scanning (qid : Nat) (rest late : List Nat)
  /-- `ox_mq_process_to_entry` in front of `sq_free_mutex`. -/
  | replacing (qid : Nat) (rest late : List Nat) (new : Nat)
  /-- `ox_mq_check_queue_to` in front of `to_fn`. -/
  | timedOut (late : List Nat)
  /-- `ox_mq_check_queue_to` in the loop over the late entries. -/
  | completing (late : List Nat)
  /-- `ox_mq_check_queue_to` in front of the last status of an entry. -/
  | marking (entry : Nat) (rest : List Nat)
  deriving DecidableEq, Repr

namespace Task

/-- The task is a round of the submission thread of this queue. -/
def isSqRound (qid : Nat) : Task → Bool
  | sqTook q _ | sqMarked q _ | sqQueued q _ => q = qid
  | _ => false

/-- The task is a round of the completion thread of this queue. -/
def isCqRound (qid : Nat) : Task → Bool
  | cqTook q _ | cqFreed q _ => q = qid
  | _ => false

/-- The task is a round of the timeout thread. -/
def isToRound : Task → Bool
  | checked (.timeout _) _ _ | took (.timeout _) _ _ _ | removing (.timeout _) _ _ _
  | removed (.timeout _) _ _ _ | posting (.timeout _) _ _ _ | scanning _ _ _
  | replacing _ _ _ _ | timedOut _ | completing _ | marking _ _ => true
  | _ => false

/-- The task holds `entry_mutex` of this entry. -/
def locksEntry (entry : Nat) : Task → Bool
  | removing _ _ e _ | removed _ _ e _ => e = entry
  | _ => false

/-- The task holds `sq_wait_mutex` of this queue. -/
def locksWait (qid : Nat) : Task → Bool
  | scanning q _ _ | replacing q _ _ _ => q = qid
  | _ => false

end Task

/-- `struct ox_mq`, its entries, the tasks, and what the user sees: the entries that `sq_fn` has
handed out and that the user has not completed, and the submissions `cq_fn` was called for. -/
structure MqState where
  entries : Nat → Entry
  queues : List Queue
  tasks : List Task := []
  extList : List Nat := []
  nSubmitted : Nat := 0
  handed : List Nat := []
  completed : List Nat := []

namespace MqState

/-- Change a queue. -/
def setQueue (mq : MqState) (queue : Queue) : MqState :=
  { mq with queues := mq.queues.set queue.qid queue }

/-- Change an entry. -/
def setEntry (mq : MqState) (entry : Nat) (value : Entry) : MqState :=
  { mq with entries := Function.update mq.entries entry value }

/-- A task goes on. -/
def become (mq : MqState) (task : Nat) (left : List Task) : MqState :=
  { mq with tasks := replaceAt mq.tasks task left }

/-- A task begins. -/
def start (mq : MqState) (task : Task) : MqState :=
  { mq with tasks := mq.tasks ++ [task] }

/-- `entry_mutex` is taken. -/
def entryLocked (mq : MqState) (entry : Nat) : Bool :=
  mq.tasks.any (Task.locksEntry entry)

/-- `sq_wait_mutex` is taken. -/
def waitLocked (mq : MqState) (qid : Nat) : Bool :=
  mq.tasks.any (Task.locksWait qid)

end MqState

/-- The arrays `sq_entries` and `cq_entries` of all queues. -/
def Config.nStatic (conf : Config) : Nat :=
  conf.nQueues * (2 * conf.qSize)

/-- The memory is in use: `ox_malloc` does not return it. -/
def Allocated (conf : Config) (mq : MqState) (entry : Nat) : Prop :=
  entry < conf.nStatic ∨ entry ∈ mq.extList

instance instDecidableAllocated (conf : Config) (mq : MqState) (entry : Nat) :
    Decidable (Allocated conf mq entry) :=
  inferInstanceAs (Decidable (_ ∨ _))

/-- `ox_mq_init_queue`. -/
def oxMqInitQueue (conf : Config) (qid : Nat) : Queue where
  qid := qid
  sqFree := ⟨List.range' (qid * (2 * conf.qSize)) conf.qSize, conf.qSize⟩
  sqUsed := ⟨[], 0⟩
  sqWait := ⟨[], 0⟩
  cqFree := ⟨List.range' (qid * (2 * conf.qSize) + conf.qSize) conf.qSize, conf.qSize⟩
  cqUsed := ⟨[], 0⟩

/-- `ox_mq_init`. -/
def oxMqInit (conf : Config) : MqState where
  entries _ := {}
  queues := (List.range conf.nQueues).map (oxMqInitQueue conf)

/-- `ox_mq_submit_req` up to the end of `sq_free_mutex`. -/
def oxMqSubmitReq (mq : MqState) (qid : Nat) (null : Bool) : MqState :=
  match mq.queues[qid]? with
  | none => mq
  | some queue =>
      match queue.sqFree.entries with
      | [] => mq
      | entry :: _ =>
          { mq.setQueue { queue with sqFree := queue.sqFree.removeHead } with
            tasks := mq.tasks ++
              [.submitTook qid entry (if null then none else some mq.nSubmitted)]
            nSubmitted := mq.nSubmitted + 1 }

/-- The first section of `ox_mq_complete_req` under `entry_mutex`: the queue, or nothing when the
request is refused. -/
def checkReq (mq : MqState) (req : Nat) : MqState × Option Nat :=
  let entry := mq.entries req
  if entry.opaqueOf = none ∨ entry.status = .timeoutBack then (mq, none)
  else if entry.status = .timeoutCompleted then
    -- `ox_mq_free_entry`
    ({ mq.setEntry req { entry with status := .timeoutBack } with
        extList := if entry.isExt then mq.extList.erase req else mq.extList }, none)
  else (mq, some entry.qid)

/-- `ox_mq_complete_req`, called by the user. -/
def oxMqCompleteReq (mq : MqState) (req : Nat) : MqState :=
  if mq.entryLocked req then mq
  else
    let (after, result) := checkReq mq req
    { after with
      tasks := after.tasks ++ (result.toList.map fun qid => .checked .user qid req)
      handed := after.handed.erase req }

/-- `ox_mq_complete_req` returns. -/
def Caller.done (req : Nat) : Caller → List Task
  | .user => []
  | .timeout rest => [.marking req rest]

/-- The submission thread takes an entry. -/
def oxMqSqThread (mq : MqState) (qid : Nat) : MqState :=
  match mq.queues[qid]? with
  | none => mq
  | some queue =>
      if mq.tasks.any (Task.isSqRound qid) then mq
      else
        match queue.sqUsed.entries with
        | [] => mq
        | entry :: _ =>
            (mq.setQueue { queue with sqUsed := queue.sqUsed.removeHead }).start
              (.sqTook qid entry)

/-- The completion thread takes an entry. -/
def oxMqCqThread (mq : MqState) (qid : Nat) : MqState :=
  match mq.queues[qid]? with
  | none => mq
  | some queue =>
      if mq.tasks.any (Task.isCqRound qid) then mq
      else
        match queue.cqUsed.entries with
        | [] => mq
        | entry :: _ =>
            (mq.setQueue { queue with cqUsed := queue.cqUsed.removeHead }).start
              (.cqTook qid entry)

/-- The timeout thread locks `sq_wait` in `ox_mq_check_queue_to`. -/
def oxMqCheckQueueTo (mq : MqState) (qid : Nat) : MqState :=
  match mq.queues[qid]? with
  | none => mq
  | some queue =>
      if mq.tasks.any Task.isToRound then mq
      else mq.start (.scanning qid queue.sqWait.entries [])

/-- `ox_mq_process_to_entry` up to `sq_free_mutex`, with the entry of `ox_mq_create_ext_entry`. -/
def oxMqProcessToEntry (mq : MqState) (queue : Queue) (req new : Nat) : MqState :=
  { ((mq.setQueue { queue with sqWait := queue.sqWait.remove req }).setEntry req
      { mq.entries req with status := .timeout }).setEntry new
      { status := .free, isExt := true } with
    extList := new :: mq.extList }

/-- The next step of a task of a queue. -/
def queueStep (conf : Config) (mq : MqState) (index : Nat) (late : Bool) (new : Nat)
    (queue : Queue) :
    Task → MqState
  | .submitFilled _ req =>
      ((mq.setEntry req { mq.entries req with status := .queued }).setQueue
        { queue with sqUsed := queue.sqUsed.insertTail req }).become index []
  | .sqMarked qid req =>
      if mq.waitLocked qid then mq
      else
        (mq.setQueue { queue with sqWait := queue.sqWait.insertTail req }).become index
          [.sqQueued qid req]
  | .cqTook qid req =>
      ((mq.setEntry req (mq.entries req).reset).setQueue
        { queue with cqFree := queue.cqFree.insertTail req }).become index
          [.cqFreed qid (mq.entries req).opaqueOf]
  | .checked caller qid req =>
      match queue.cqFree.entries with
      -- the queue is full
      | [] => mq.become index (caller.done req)
      | cqReq :: _ =>
          (mq.setQueue { queue with cqFree := queue.cqFree.removeHead }).become index
            [.took caller qid req cqReq]
  | .removing caller qid req cqReq =>
      if mq.waitLocked qid then mq
      else
        (mq.setQueue { queue with sqWait := queue.sqWait.remove req }).become index
          [.removed caller qid req cqReq]
  | .removed caller qid req cqReq =>
      ((mq.setEntry req (mq.entries req).reset).setQueue
        { queue with sqFree := queue.sqFree.insertTail req }).become index
          [.posting caller qid req cqReq]
  | .posting caller _ req cqReq =>
      ((mq.setEntry cqReq { mq.entries cqReq with status := .queued }).setQueue
        { queue with cqUsed := queue.cqUsed.insertTail cqReq }).become index (caller.done req)
  | .scanning qid (req :: rest) lates =>
      if late then
        if Allocated conf mq new then mq
        else
          (oxMqProcessToEntry mq queue req new).become index
          [.replacing qid rest (req :: lates) new]
      else mq.become index [.scanning qid rest lates]
  | .replacing qid rest lates newReq =>
      (mq.setQueue { queue with sqFree := queue.sqFree.insertTail newReq }).become index
        [.scanning qid rest lates]
  | _ => mq

/-- The next step of a task: `late` says whether an entry has waited too long, and `new` is the
memory that `ox_malloc` returns. -/
def taskStep (conf : Config) (mq : MqState) (index : Nat) (late : Bool) (new : Nat) (task : Task) :
    MqState :=
  match task with
  | .submitTook qid req opaqueOf =>
      (mq.setEntry req { mq.entries req with opaqueOf := opaqueOf, qid := qid }).become index
        [.submitFilled qid req]
  | .sqTook qid req =>
      (mq.setEntry req { mq.entries req with status := .waiting }).become index [.sqMarked qid req]
  | .sqQueued _ req => { mq.become index [] with handed := mq.handed ++ [req] }
  | .cqFreed _ opaqueOf =>
      { mq.become index [] with completed := mq.completed ++ opaqueOf.toList }
  | .took caller qid req cqReq =>
      if mq.entryLocked req then mq
      else
        (mq.setEntry cqReq { mq.entries cqReq with
          opaqueOf := (mq.entries req).opaqueOf, qid := (mq.entries req).qid }).become index
          [if (mq.entries req).status = .waiting then .removing caller qid req cqReq
            else .posting caller qid req cqReq]
  | .scanning _ [] lates => mq.become index (if lates = [] then [] else [.timedOut lates])
  | .timedOut lates => mq.become index [.completing lates]
  | .completing [] => mq.become index []
  | .completing (req :: rest) =>
      if conf.toComplete then
        if mq.entryLocked req then mq
        else
          let (after, result) := checkReq mq req
          after.become index
            (match result with
              | some qid => [.checked (.timeout rest) qid req]
              | none => [.marking req rest])
      else mq.become index [.marking req rest]
  | .marking req rest =>
      (mq.setEntry req { mq.entries req with status := .timeoutCompleted }).become index
        [.completing rest]
  | .submitFilled qid _ | .sqMarked qid _ | .cqTook qid _ | .checked _ qid _
  | .removing _ qid _ _ | .removed _ qid _ _ | .posting _ qid _ _ | .scanning qid _ _
  | .replacing qid _ _ _ =>
      match mq.queues[qid]? with
      | none => mq
      | some queue => queueStep conf mq index late new queue task

/-- What can happen next. -/
inductive Op where
  | submit (qid : Nat) (null : Bool)
  | complete (req : Nat)
  | sqThread (qid : Nat)
  | cqThread (qid : Nat)
  | toThread (qid : Nat)
  | next (index : Nat) (late : Bool) (new : Nat)
  deriving DecidableEq, Repr

/-- One step of the multi-queue; a step that is not possible changes nothing. -/
def step (conf : Config) (mq : MqState) : Op → MqState
  | .submit qid null => oxMqSubmitReq mq qid null
  | .complete req => oxMqCompleteReq mq req
  | .sqThread qid => oxMqSqThread mq qid
  | .cqThread qid => oxMqCqThread mq qid
  | .toThread qid => oxMqCheckQueueTo mq qid
  | .next index late new =>
      match mq.tasks[index]? with
      | none => mq
      | some task => taskStep conf mq index late new task

/-- All interleavings. -/
def mqSystem (conf : Config) : System MqState Op Unit where
  step mq op := (step conf mq op, ())

end OxCtrl.Mq
