import OxCtrl.Mq.Once

/-!
# The way of a submission

A submission goes through the multi-queue in stages: it is on the way to `sq_wait`, it waits there,
the timeout thread finds it late or the user answers it, and a completion entry takes it to `cq_fn`.
A step moves a submission to the next stage or leaves it where it is.  So `sq_fn` is called once for
a submission, and `cq_fn` only behind an answer.
-/

namespace OxCtrl.Mq

open OxCtrl.Lib

/-- How far a submission is.  While `sq_fn` is to be called for it, it may be at other stages, too.
It is told of when the user completes its entry, or when `to_fn` was called for it. -/
inductive Stage where
  | early
  | calling
  | waiting
  | late
  | told
  | answered
  deriving DecidableEq, Repr

/-- What has a submission: an entry, or a task beside its entries. -/
inductive Carrier where
  | entry (req : Nat)
  | held (n : Nat)
  deriving DecidableEq, Repr

/-- The submission. -/
def Carrier.submission (entries : Nat → Entry) : Carrier → Option Nat
  | .entry req => (entries req).opaqueOf
  | .held n => some n

/-- Entries whose submissions are at a stage. -/
def Stage.entries (stage : Stage) (reqs : List Nat) : List (Stage × Carrier) :=
  reqs.map fun req => (stage, .entry req)

/-- A submission at a stage that a task has beside its entries. -/
def Stage.held (stage : Stage) (opaqueOf : Option Nat) : List (Stage × Carrier) :=
  opaqueOf.toList.map fun n => (stage, .held n)

namespace Task

/-- What a task has, and how far the submissions are. -/
def stages : Task → List (Stage × Carrier)
  | submitTook _ _ opaqueOf => Stage.early.held opaqueOf
  | submitFilled _ req | sqTook _ req | sqMarked _ req => Stage.early.entries [req]
  | sqQueued _ req => Stage.calling.entries [req]
  | cqTook _ req => Stage.answered.entries [req]
  | cqFreed _ opaqueOf => Stage.answered.held opaqueOf
  | checked caller _ req | took caller _ req _ | removing caller _ req _ =>
      Stage.told.entries (req :: caller.rest)
  | removed caller _ _ cqReq | posting caller _ _ cqReq =>
      Stage.answered.entries [cqReq] ++ Stage.told.entries caller.rest
  | scanning _ _ lates | replacing _ _ lates _ | timedOut lates => Stage.late.entries lates
  | completing rest | marking _ rest => Stage.told.entries rest

/-- What a task takes to the next stage. -/
def enters (entries : Nat → Entry) : Task → List (Stage × Carrier)
  | submitTook _ req _ => Stage.early.entries [req]
  | sqMarked _ req => Stage.calling.entries [req] ++ Stage.waiting.entries [req]
  | cqTook _ req => Stage.answered.held (entries req).opaqueOf
  | took _ _ _ cqReq | removing _ _ _ cqReq => Stage.answered.entries [cqReq]
  | scanning _ (req :: _) _ => Stage.late.entries [req]
  | timedOut lates => Stage.told.entries lates
  | _ => []

end Task

/-- The entries in the lists of a queue, and how far their submissions are. -/
def Queue.stages (queue : Queue) : List (Stage × Carrier) :=
  Stage.early.entries queue.sqUsed.entries ++ Stage.waiting.entries queue.sqWait.entries ++
    Stage.answered.entries queue.cqUsed.entries

/-- Somebody has a submission at this stage. -/
def MqState.Staged (mq : MqState) (item : Stage × Carrier) : Prop :=
  (∃ task ∈ mq.tasks, item ∈ task.stages) ∨ ∃ queue ∈ mq.queues, item ∈ queue.stages

/-- A submission is at this stage. -/
def MqState.At (mq : MqState) (stage : Stage) (n : Nat) : Prop :=
  ∃ carrier, mq.Staged (stage, carrier) ∧ n ∈ carrier.submission mq.entries

/-- What a step takes to the next stage. -/
def MqState.enters (mq : MqState) : Op → List (Stage × Carrier)
  | .submit _ _ => Stage.early.held (some mq.nSubmitted)
  | .complete req => Stage.told.entries [req]
  | .next index _ _ => mq.tasks[index]?.elim [] (Task.enters mq.entries)
  | _ => []

/-! ## Steps -/

section Staged

variable {conf : Config} {mq after : MqState} {index : Nat} {late : Bool} {new : Nat} {task : Task}
  {item : Stage × Carrier}

/-- Where a submission comes from behind a step of a task. -/
theorem staged_next {entered : List (Stage × Carrier)} (staged : after.Staged item)
    (get : mq.tasks[index]? = some task) {left : List Task}
    (tasks : after.tasks = replaceAt mq.tasks index left)
    (leftOk : ∀ other ∈ left, item ∈ other.stages → item ∈ task.stages ∨ item ∈ entered)
    (queues : ∀ queue ∈ after.queues, item ∈ queue.stages → mq.Staged item ∨ item ∈ entered) :
    mq.Staged item ∨ item ∈ entered := by
  rcases staged with ⟨other, mem, own⟩ | ⟨queue, mem, own⟩
  · rw [tasks] at mem
    rcases mem_replaceAt mem with old | isNew
    · exact Or.inl (Or.inl ⟨other, old, own⟩)
    · exact (leftOk other isNew own).imp_left fun kept =>
        Or.inl ⟨task, List.mem_of_getElem? get, kept⟩
  · exact queues queue mem own

/-- A task goes on, and the lists of the queues stay. -/
theorem staged_task {entered : List (Stage × Carrier)} (staged : after.Staged item)
    (get : mq.tasks[index]? = some task) {left : List Task}
    (tasks : after.tasks = replaceAt mq.tasks index left) (queues : after.queues = mq.queues)
    (leftOk : ∀ other ∈ left, item ∈ other.stages → item ∈ task.stages ∨ item ∈ entered) :
    mq.Staged item ∨ item ∈ entered := by
  refine staged_next staged get tasks leftOk fun queue mem own => ?_
  rw [queues] at mem
  exact Or.inl (Or.inr ⟨queue, mem, own⟩)

/-- A task goes on, and one queue changes. -/
theorem staged_queue {entered : List (Stage × Carrier)} (staged : after.Staged item)
    (get : mq.tasks[index]? = some task) {left : List Task}
    (tasks : after.tasks = replaceAt mq.tasks index left) {qid : Nat} {queue changed : Queue}
    (found : mq.queues[qid]? = some queue)
    (queues : after.queues = mq.queues.set changed.qid changed)
    (leftOk : ∀ other ∈ left, item ∈ other.stages → item ∈ task.stages ∨ item ∈ entered)
    (lists : item ∈ changed.stages → item ∈ queue.stages ∨ mq.Staged item ∨ item ∈ entered) :
    mq.Staged item ∨ item ∈ entered := by
  refine staged_next staged get tasks leftOk fun other mem own => ?_
  rw [queues] at mem
  rcases List.mem_or_eq_of_mem_set mem with old | rfl
  · exact Or.inl (Or.inr ⟨other, old, own⟩)
  · rcases lists own with old | isNew
    · exact Or.inl (Or.inr ⟨queue, List.mem_of_getElem? found, old⟩)
    · exact isNew

theorem staged_nil {entered : List (Stage × Carrier)} :
    ∀ other ∈ ([] : List Task), item ∈ other.stages → item ∈ task.stages ∨ item ∈ entered :=
  fun _ mem => absurd mem List.not_mem_nil

theorem staged_one {entered : List (Stage × Carrier)} {next : Task}
    (own : item ∈ next.stages → item ∈ task.stages ∨ item ∈ entered) :
    ∀ other ∈ [next], item ∈ other.stages → item ∈ task.stages ∨ item ∈ entered :=
  List.forall_mem_singleton.mpr own

section Lists

variable {queue : Queue} {req : Nat}

theorem mem_stages_sqUsed
    (own : item ∈ Queue.stages { queue with sqUsed := queue.sqUsed.insertTail req }) :
    item ∈ queue.stages ∨ item = (.early, .entry req) := by
  simp only [Queue.stages, Stage.entries, Tailq.insertTail, List.map_append, List.mem_append,
    List.map_singleton, List.mem_singleton] at own ⊢
  tauto

theorem mem_stages_sqWait
    (own : item ∈ Queue.stages { queue with sqWait := queue.sqWait.insertTail req }) :
    item ∈ queue.stages ∨ item = (.waiting, .entry req) := by
  simp only [Queue.stages, Stage.entries, Tailq.insertTail, List.map_append, List.mem_append,
    List.map_singleton, List.mem_singleton] at own ⊢
  tauto

theorem mem_stages_cqUsed
    (own : item ∈ Queue.stages { queue with cqUsed := queue.cqUsed.insertTail req }) :
    item ∈ queue.stages ∨ item = (.answered, .entry req) := by
  simp only [Queue.stages, Stage.entries, Tailq.insertTail, List.map_append, List.mem_append,
    List.map_singleton, List.mem_singleton] at own ⊢
  tauto

theorem mem_stages_remove
    (own : item ∈ Queue.stages { queue with sqWait := queue.sqWait.remove req }) :
    item ∈ queue.stages := by
  simp only [Queue.stages, Stage.entries, Tailq.remove, List.mem_append, List.mem_map] at own ⊢
  rcases own with (own | ⟨other, mem, eq⟩) | own
  · exact Or.inl (Or.inl own)
  · exact Or.inl (Or.inr ⟨other, List.mem_of_mem_erase mem, eq⟩)
  · exact Or.inr own

theorem mem_stages_sqUsed_tail
    (own : item ∈ Queue.stages { queue with sqUsed := queue.sqUsed.removeHead }) :
    item ∈ queue.stages := by
  simp only [Queue.stages, Stage.entries, Tailq.removeHead, List.mem_append, List.mem_map] at own ⊢
  rcases own with (⟨other, mem, eq⟩ | own) | own
  · exact Or.inl (Or.inl ⟨other, List.mem_of_mem_tail mem, eq⟩)
  · exact Or.inl (Or.inr own)
  · exact Or.inr own

theorem mem_stages_cqUsed_tail
    (own : item ∈ Queue.stages { queue with cqUsed := queue.cqUsed.removeHead }) :
    item ∈ queue.stages := by
  simp only [Queue.stages, Stage.entries, Tailq.removeHead, List.mem_append, List.mem_map] at own ⊢
  rcases own with (own | own) | ⟨other, mem, eq⟩
  · exact Or.inl (Or.inl own)
  · exact Or.inl (Or.inr own)
  · exact Or.inr ⟨other, List.mem_of_mem_tail mem, eq⟩

end Lists

theorem mem_stages_done {caller : Caller} {req : Nat} {other : Task} (mem : other ∈ caller.done req)
    (own : item ∈ other.stages) : item ∈ Stage.told.entries caller.rest := by
  cases caller with
  | user => exact absurd mem List.not_mem_nil
  | timeout rest =>
      rw [List.mem_singleton.mp mem] at own
      exact own

/-- A task of a queue takes a submission to its next stage, or to none. -/
theorem queueStep_staged {qid : Nat} {queue : Queue} (get : mq.tasks[index]? = some task)
    (found : mq.queues[qid]? = some queue)
    (staged : (queueStep conf mq index late new queue task).Staged item) :
    mq.Staged item ∨ item ∈ task.enters mq.entries := by
  have own (mem : item ∈ task.stages) : mq.Staged item :=
    Or.inl ⟨task, List.mem_of_getElem? get, mem⟩
  cases task with
  | submitFilled taskQid req =>
      refine staged_queue staged get rfl found rfl staged_nil fun mem => ?_
      refine (mem_stages_sqUsed mem).imp_right fun eq => Or.inl (own ?_)
      rw [eq]
      exact List.mem_cons_self
  | sqMarked taskQid req =>
      rw [queueStep] at staged
      split at staged
      · exact Or.inl staged
      · refine staged_queue staged get rfl found rfl
          (staged_one fun mem => Or.inr (List.mem_append_left _ mem)) fun mem => ?_
        refine (mem_stages_sqWait mem).imp_right fun eq => Or.inr (List.mem_append_right _ ?_)
        rw [eq]
        exact List.mem_cons_self
  | cqTook taskQid req =>
      exact staged_queue staged get rfl found rfl (staged_one Or.inr) Or.inl
  | checked caller taskQid req =>
      rw [queueStep] at staged
      split at staged
      · refine staged_task staged get rfl rfl fun other mem stage => Or.inl ?_
        exact List.mem_cons_of_mem _ (mem_stages_done mem stage)
      · exact staged_queue staged get rfl found rfl (staged_one Or.inl) Or.inl
  | removing caller taskQid req cqReq =>
      rw [queueStep] at staged
      split at staged
      · exact Or.inl staged
      · refine staged_queue staged get rfl found rfl (staged_one fun mem => ?_)
          fun mem => Or.inl (mem_stages_remove mem)
        rcases List.mem_cons.mp mem with eq | rest
        · exact Or.inr (List.mem_singleton.mpr eq)
        · exact Or.inl (List.mem_cons_of_mem _ rest)
  | removed caller taskQid req cqReq =>
      exact staged_queue staged get rfl found rfl (staged_one Or.inl) Or.inl
  | posting caller taskQid req cqReq =>
      refine staged_queue staged get rfl found rfl
        (fun other mem stage => Or.inl (List.mem_cons_of_mem _ (mem_stages_done mem stage)))
        fun mem => ?_
      refine (mem_stages_cqUsed mem).imp_right fun eq => Or.inl (own ?_)
      rw [eq]
      exact List.mem_cons_self
  | scanning taskQid rest lates =>
      cases rest with
      | nil => exact Or.inl staged
      | cons req rest =>
          rw [queueStep] at staged
          split at staged
          · split at staged
            · exact Or.inl staged
            · refine staged_queue staged get rfl found rfl (staged_one fun mem => ?_)
                fun mem => Or.inl (mem_stages_remove mem)
              rcases List.mem_cons.mp mem with eq | rest
              · exact Or.inr (List.mem_singleton.mpr eq)
              · exact Or.inl rest
          · exact staged_task staged get rfl rfl (staged_one Or.inl)
  | replacing taskQid rest lates newReq =>
      exact staged_queue staged get rfl found rfl (staged_one Or.inl) Or.inl
  | _ => exact Or.inl staged

/-- A task that looks its queue up. -/
theorem taskStep_onQueue {qid : Nat}
    (eq : taskStep conf mq index late new task =
      match mq.queues[qid]? with
      | none => mq
      | some queue => queueStep conf mq index late new queue task) :
    taskStep conf mq index late new task = mq ∨ ∃ queue, mq.queues[qid]? = some queue ∧
      taskStep conf mq index late new task = queueStep conf mq index late new queue task := by
  cases found : mq.queues[qid]? with
  | none => exact Or.inl (by rw [eq, found])
  | some queue => exact Or.inr ⟨queue, rfl, by rw [eq, found]⟩

/-- A task takes a submission to its next stage, or to none. -/
theorem taskStep_staged (get : mq.tasks[index]? = some task)
    (staged : (taskStep conf mq index late new task).Staged item) :
    mq.Staged item ∨ item ∈ task.enters mq.entries := by
  have onQueue {qid : Nat} (either : taskStep conf mq index late new task = mq ∨
      ∃ queue, mq.queues[qid]? = some queue ∧
        taskStep conf mq index late new task = queueStep conf mq index late new queue task) :
      mq.Staged item ∨ item ∈ task.enters mq.entries := by
    rcases either with same | ⟨queue, found, same⟩
    · exact Or.inl (by rwa [same] at staged)
    · exact queueStep_staged get found (by rwa [same] at staged)
  cases task with
  | submitTook qid req opaqueOf => exact staged_task staged get rfl rfl (staged_one Or.inr)
  | sqTook qid req => exact staged_task staged get rfl rfl (staged_one Or.inl)
  | sqQueued | cqFreed => exact staged_task staged get rfl rfl staged_nil
  | took caller qid req cqReq =>
      rw [taskStep] at staged
      split at staged
      · exact Or.inl staged
      · refine staged_task staged get rfl rfl (staged_one fun mem => ?_)
        split at mem
        · exact Or.inl mem
        · rcases List.mem_cons.mp mem with eq | rest
          · exact Or.inr (List.mem_singleton.mpr eq)
          · exact Or.inl (List.mem_cons_of_mem _ rest)
  | timedOut lates => exact staged_task staged get rfl rfl (staged_one Or.inr)
  | completing lates =>
      cases lates with
      | nil => exact staged_task staged get rfl rfl staged_nil
      | cons req rest =>
          have tail (mem : item ∈ Task.stages (.marking req rest)) :
              item ∈ Task.stages (.completing (req :: rest)) :=
            List.mem_cons_of_mem _ mem
          rw [taskStep] at staged
          split at staged
          · split at staged
            · exact Or.inl staged
            · refine staged_task staged get (congrArg (replaceAt · _ _) (checkReq_tasks mq req).2)
                (checkReq_tasks mq req).1 fun other mem stage => Or.inl ?_
              split at mem
              · rw [List.mem_singleton.mp mem] at stage
                exact stage
              · rw [List.mem_singleton.mp mem] at stage
                exact tail stage
          · exact staged_task staged get rfl rfl (staged_one fun mem => Or.inl (tail mem))
  | marking req rest => exact staged_task staged get rfl rfl (staged_one Or.inl)
  | scanning qid rest lates =>
      cases rest with
      | nil =>
          refine staged_task staged get rfl rfl fun other mem stage => Or.inl ?_
          split at mem
          · exact absurd mem List.not_mem_nil
          · rw [List.mem_singleton.mp mem] at stage
            exact stage
      | cons => exact onQueue (taskStep_onQueue rfl)
  | submitFilled | sqMarked | cqTook | checked | removing | removed | posting | replacing =>
      exact onQueue (taskStep_onQueue rfl)

/-- A round or a call takes an entry from a list. -/
theorem staged_start {entered : List (Stage × Carrier)} (staged : after.Staged item)
    {started : Task}
    (tasks : after.tasks = mq.tasks ++ [started]) {qid : Nat} {queue changed : Queue}
    (found : mq.queues[qid]? = some queue)
    (queues : after.queues = mq.queues.set changed.qid changed)
    (own : item ∈ started.stages → item ∈ queue.stages ∨ item ∈ entered)
    (lists : item ∈ changed.stages → item ∈ queue.stages) : mq.Staged item ∨ item ∈ entered := by
  have onQueue (stage : item ∈ queue.stages) : mq.Staged item :=
    Or.inr ⟨queue, List.mem_of_getElem? found, stage⟩
  rcases staged with ⟨other, memTask, stage⟩ | ⟨other, memQueue, stage⟩
  · rw [tasks] at memTask
    rcases List.mem_append.mp memTask with old | isNew
    · exact Or.inl (Or.inl ⟨other, old, stage⟩)
    · rw [List.mem_singleton.mp isNew] at stage
      exact (own stage).imp_left onQueue
  · rw [queues] at memQueue
    rcases List.mem_or_eq_of_mem_set memQueue with old | rfl
    · exact Or.inl (Or.inr ⟨other, old, stage⟩)
    · exact Or.inl (onQueue (lists stage))

/-- Where a submission comes from. -/
theorem step_staged (op : Op) (staged : (step conf mq op).Staged item) :
    mq.Staged item ∨ item ∈ mq.enters op := by
  cases op with
  | submit qid null =>
      rw [step, oxMqSubmitReq] at staged
      split at staged
      · exact Or.inl staged
      · rename_i queue found
        split at staged
        · exact Or.inl staged
        · refine staged_start staged rfl found rfl (fun mem => Or.inr ?_) id
          cases null with
          | true => exact absurd mem List.not_mem_nil
          | false => exact mem
  | complete req =>
      rw [step, oxMqCompleteReq] at staged
      split at staged
      · exact Or.inl staged
      · rcases staged with ⟨other, mem, own⟩ | ⟨queue, mem, own⟩
        · dsimp only at mem
          rw [(checkReq_tasks mq req).2] at mem
          rcases List.mem_append.mp mem with old | isNew
          · exact Or.inl (Or.inl ⟨other, old, own⟩)
          · obtain ⟨qid, _, rfl⟩ := List.mem_map.mp isNew
            exact Or.inr own
        · dsimp only at mem
          rw [(checkReq_tasks mq req).1] at mem
          exact Or.inl (Or.inr ⟨queue, mem, own⟩)
  | sqThread qid =>
      rw [step, oxMqSqThread] at staged
      split at staged
      · exact Or.inl staged
      · rename_i queue found
        split at staged
        · exact Or.inl staged
        · split at staged
          · exact Or.inl staged
          · rename_i req rest first
            refine staged_start staged rfl found rfl (fun mem => Or.inl ?_) mem_stages_sqUsed_tail
            rw [List.mem_singleton.mp mem]
            refine List.mem_append_left _ (List.mem_append_left _ (List.mem_map_of_mem ?_))
            rw [first]
            exact List.mem_cons_self
  | cqThread qid =>
      rw [step, oxMqCqThread] at staged
      split at staged
      · exact Or.inl staged
      · rename_i queue found
        split at staged
        · exact Or.inl staged
        · split at staged
          · exact Or.inl staged
          · rename_i req rest first
            refine staged_start staged rfl found rfl (fun mem => Or.inl ?_) mem_stages_cqUsed_tail
            rw [List.mem_singleton.mp mem]
            refine List.mem_append_right _ (List.mem_map_of_mem ?_)
            rw [first]
            exact List.mem_cons_self
  | toThread qid =>
      rw [step, oxMqCheckQueueTo] at staged
      split at staged
      · exact Or.inl staged
      · rename_i queue found
        split at staged
        · exact Or.inl staged
        · rcases staged with ⟨other, mem, own⟩ | staged
          · rcases List.mem_append.mp mem with old | isNew
            · exact Or.inl (Or.inl ⟨other, old, own⟩)
            · rw [List.mem_singleton.mp isNew] at own
              exact absurd own List.not_mem_nil
          · exact Or.inl (Or.inr staged)
  | next index late new =>
      rw [step] at staged
      split at staged
      · exact Or.inl staged
      · rename_i task get
        refine (taskStep_staged get staged).imp_right fun entered => ?_
        rw [MqState.enters, get]
        exact entered

end Staged

/-! ## Submissions of entries -/

/-- The entry whose `opaque` a step writes, and what it writes. -/
def opaqueWrite (conf : Config) (mq : MqState) : Op → Option (Nat × Option Nat)
  | .next index _ new =>
      match mq.tasks[index]? with
      | some (.submitTook _ req opaqueOf) => some (req, opaqueOf)
      | some (.cqTook _ req) | some (.removed _ _ req _) => some (req, none)
      | some (.took _ _ req cqReq) => some (cqReq, (mq.entries req).opaqueOf)
      | some (.scanning _ (_ :: _) _) => if Allocated conf mq new then none else some (new, none)
      | _ => none
  | _ => none

section Opaque

variable {conf : Config} {mq : MqState} {index : Nat} {late : Bool} {new req : Nat} {task : Task}

theorem opaque_update {entries : Nat → Entry} {changed : Nat} {value : Entry}
    (kept : value.opaqueOf = (entries changed).opaqueOf) :
    (Function.update entries changed value req).opaqueOf = (entries req).opaqueOf := by
  by_cases eq : req = changed
  · rw [eq, Function.update_self, kept]
  · rw [Function.update_of_ne eq]

theorem opaque_written {entries : Nat → Entry} {changed : Nat} {value : Entry} :
    (Function.update entries changed value req).opaqueOf = (entries req).opaqueOf ∨
      some (changed, value.opaqueOf) =
        some (req, (Function.update entries changed value req).opaqueOf) := by
  by_cases eq : req = changed
  · rw [eq, Function.update_self]
    exact Or.inr rfl
  · rw [Function.update_of_ne eq]
    exact Or.inl rfl

theorem checkReq_opaqueOf (mq : MqState) (entry : Nat) :
    (((checkReq mq entry).1.entries) req).opaqueOf = (mq.entries req).opaqueOf := by
  simp only [checkReq]
  split
  · rfl
  · split
    · exact opaque_update rfl
    · rfl

theorem queueStep_opaqueOf (queue : Queue) (get : mq.tasks[index]? = some task) :
    ((queueStep conf mq index late new queue task).entries req).opaqueOf =
        (mq.entries req).opaqueOf ∨
      opaqueWrite conf mq (.next index late new) =
        some (req, ((queueStep conf mq index late new queue task).entries req).opaqueOf) := by
  rw [opaqueWrite, get]
  cases task with
  | submitFilled taskQid entry => exact Or.inl (opaque_update rfl)
  | sqMarked taskQid entry =>
      rw [queueStep]
      split <;> exact Or.inl rfl
  | cqTook taskQid entry => exact opaque_written
  | checked caller taskQid entry =>
      rw [queueStep]
      split <;> exact Or.inl rfl
  | removing caller taskQid entry cqReq =>
      rw [queueStep]
      split <;> exact Or.inl rfl
  | removed caller taskQid entry cqReq => exact opaque_written
  | posting caller taskQid entry cqReq => exact Or.inl (opaque_update rfl)
  | scanning taskQid rest lates =>
      cases rest with
      | nil => exact Or.inl rfl
      | cons entry rest =>
          rw [queueStep]
          split
          · split
            · exact Or.inl rfl
            · have taken : (Function.update mq.entries entry
                  { mq.entries entry with status := .timeout } req).opaqueOf =
                    (mq.entries req).opaqueOf := opaque_update rfl
              rw [← taken]
              exact opaque_written
          · exact Or.inl rfl
  | _ => exact Or.inl rfl

/-- A step writes the `opaque` of one entry at most. -/
theorem step_opaqueOf (op : Op) :
    ((step conf mq op).entries req).opaqueOf = (mq.entries req).opaqueOf ∨
      opaqueWrite conf mq op = some (req, ((step conf mq op).entries req).opaqueOf) := by
  cases op with
  | submit qid null =>
      rw [step, oxMqSubmitReq]
      split
      · exact Or.inl rfl
      · split <;> exact Or.inl rfl
  | complete entry =>
      rw [step, oxMqCompleteReq]
      split
      · exact Or.inl rfl
      · exact Or.inl (checkReq_opaqueOf mq entry)
  | sqThread qid =>
      rw [step, oxMqSqThread]
      split
      · exact Or.inl rfl
      · split
        · exact Or.inl rfl
        · split <;> exact Or.inl rfl
  | cqThread qid =>
      rw [step, oxMqCqThread]
      split
      · exact Or.inl rfl
      · split
        · exact Or.inl rfl
        · split <;> exact Or.inl rfl
  | toThread qid =>
      rw [step, oxMqCheckQueueTo]
      split
      · exact Or.inl rfl
      · split <;> exact Or.inl rfl
  | next index late new =>
      rw [step]
      split
      · exact Or.inl rfl
      · rename_i task get
        have onQueue {qid : Nat} (either : taskStep conf mq index late new task = mq ∨
            ∃ queue, mq.queues[qid]? = some queue ∧
              taskStep conf mq index late new task = queueStep conf mq index late new queue task) :
            ((taskStep conf mq index late new task).entries req).opaqueOf =
                (mq.entries req).opaqueOf ∨
              opaqueWrite conf mq (.next index late new) =
                some (req, ((taskStep conf mq index late new task).entries req).opaqueOf) := by
          rcases either with same | ⟨queue, found, same⟩
          · rw [same]
            exact Or.inl rfl
          · rw [same]
            exact queueStep_opaqueOf queue get
        cases task with
        | submitTook qid entry opaqueOf =>
            rw [opaqueWrite, get]
            exact opaque_written
        | took caller qid entry cqReq =>
            rw [taskStep]
            split
            · exact Or.inl rfl
            · rw [opaqueWrite, get]
              exact opaque_written
        | sqTook | marking => exact Or.inl (opaque_update rfl)
        | completing lates =>
            cases lates with
            | nil => exact Or.inl rfl
            | cons entry rest =>
                rw [taskStep]
                split
                · split
                  · exact Or.inl rfl
                  · exact Or.inl (checkReq_opaqueOf mq entry)
                · exact Or.inl rfl
        | scanning qid rest lates =>
            cases rest with
            | nil => exact Or.inl rfl
            | cons => exact onQueue (taskStep_onQueue rfl)
        | submitFilled | sqMarked | cqTook | checked | removing | removed | posting | replacing =>
            exact onQueue (taskStep_onQueue rfl)
        | _ => exact Or.inl rfl

end Opaque

/-! ## Stages -/

/-- What the user hears from a step. -/
inductive Callback where
  | sqFn (req : Nat)
  | toFn (opaques : List (Option Nat))
  | cqFn (n : Nat)
  deriving DecidableEq, Repr

/-- The function of the user that a step calls. -/
def callback (mq : MqState) : Op → Option Callback
  | .next index _ _ =>
      match mq.tasks[index]? with
      | some (.sqQueued _ req) => some (.sqFn req)
      | some (.timedOut lates) => some (.toFn (lates.map fun req => (mq.entries req).opaqueOf))
      | some (.cqFreed _ (some n)) => some (.cqFn n)
      | _ => none
  | _ => none

/-- What happens to a submission before the eyes of the user: `sq_fn` is called for it, the user
completes its entry, `to_fn` is called for it, and `cq_fn`. -/
inductive Seen where
  | called (n : Nat)
  | returned (n : Nat)
  | timedOut (n : Nat)
  | completed (n : Nat)
  deriving DecidableEq, Repr

/-- The submissions of a callback. -/
def Callback.seen (entries : Nat → Entry) : Callback → List Seen
  | .sqFn req => ((entries req).opaqueOf.map .called).toList
  | .toFn opaques => opaques.reduceOption.map .timedOut
  | .cqFn n => [.completed n]

/-- The submission that the user completes in a step. -/
def returns (mq : MqState) : Op → Option Nat
  | .complete req => if mq.entryLocked req then none else (mq.entries req).opaqueOf
  | _ => none

/-- What the user sees of a step. -/
def seen (mq : MqState) (op : Op) : List Seen :=
  ((returns mq op).map .returned).toList ++ (callback mq op).elim [] (Callback.seen mq.entries)

/-- The user completes the entry of a submission, or `to_fn` is called for it. -/
def Answers (mq : MqState) (op : Op) (n : Nat) : Prop :=
  .returned n ∈ seen mq op ∨ .timedOut n ∈ seen mq op

/-- What takes a submission to a stage. -/
def Origin (mq : MqState) (op : Op) (n : Nat) : Stage → Prop
  | .early => n = mq.nSubmitted
  | .calling | .waiting => mq.At .early n
  | .late => mq.At .waiting n
  | .told => Answers mq op n
  | .answered => mq.At .told n

section Origin

variable {conf : Config} {mq : MqState} {op : Op} {stage : Stage} {req n : Nat}

theorem mem_entries {reqs : List Nat} {carrier : Carrier} {other : Stage}
    (mem : (stage, carrier) ∈ other.entries reqs) :
    stage = other ∧ ∃ req ∈ reqs, carrier = .entry req := by
  obtain ⟨req, own, eq⟩ := List.mem_map.mp mem
  cases eq
  exact ⟨rfl, req, own, rfl⟩

theorem mem_held {opaqueOf : Option Nat} {carrier : Carrier} {other : Stage}
    (mem : (stage, carrier) ∈ other.held opaqueOf) :
    stage = other ∧ ∃ n, opaqueOf = some n ∧ carrier = .held n := by
  obtain ⟨n, own, eq⟩ := List.mem_map.mp mem
  cases eq
  exact ⟨rfl, n, Option.mem_toList.mp own, rfl⟩

theorem entry_mem {reqs : List Nat} (mem : req ∈ reqs) :
    (stage, Carrier.entry req) ∈ stage.entries reqs :=
  List.mem_map_of_mem mem

theorem held_mem : (stage, Carrier.held n) ∈ stage.held (some n) :=
  List.mem_singleton_self _

/-- A place of an entry that has a submission. -/
def MqState.Live (mq : MqState) (req : Nat) : Prop :=
  ∃ place : Place, (place, req) ∈ mq.placed ∧ place.live = true

theorem live_late {task : Task} (mem : task ∈ mq.tasks) {others : Multiset (Place × Nat)}
    {reqs : List Nat} (places : task.places = others + inPlace .late reqs) (isLate : req ∈ reqs) :
    mq.Live req := by
  refine ⟨.late, mem_placed mem ?_, rfl⟩
  rw [places]
  exact Multiset.mem_add.mpr (Or.inr (mem_inPlace.mpr ⟨rfl, isLate⟩))

theorem live_one {task : Task} (mem : task ∈ mq.tasks) {place : Place}
    {others : Multiset (Place × Nat)}
    (places : task.places = inPlace place [req] + others) (live : place.live = true) :
    mq.Live req := by
  refine ⟨place, mem_placed mem ?_, live⟩
  rw [places]
  exact Multiset.mem_add.mpr (Or.inl (mem_inPlace_self place req))

/-- An entry that a completion has is in `sq_wait`, or late. -/
theorem live_told {caller : Caller} (qid : Nat) {other : Nat} {task : Task}
    (mem : task ∈ mq.tasks) {others : Multiset (Place × Nat)}
    (places : task.places = others + inPlace .late (caller.late other))
    (wait : caller = .user → (.sq qid .wait, other) ∈ mq.placed)
    (own : req ∈ other :: caller.rest) : mq.Live req := by
  cases caller with
  | user =>
      rw [List.mem_singleton.mp own]
      exact ⟨_, wait rfl, rfl⟩
  | timeout rest => exact live_late mem places own

/-- An entry with a submission is in a place where entries have one, unless the submission has left
the entry behind. -/
theorem OnceInv.staged_live (once : OnceInv conf mq) (staged : mq.Staged (stage, .entry req))
    (past : stage ≠ .calling) : mq.Live req := by
  rcases staged with ⟨task, mem, own⟩ | ⟨queue, mem, own⟩
  · have ok := once.tasks task mem
    cases task with
    | submitTook qid entry opaqueOf =>
        obtain ⟨_, n, _, eq⟩ := mem_held own
        cases eq
    | cqFreed qid opaqueOf =>
        obtain ⟨_, n, _, eq⟩ := mem_held own
        cases eq
    | sqQueued qid entry => exact absurd (mem_entries own).1 past
    | submitFilled | sqTook | sqMarked | cqTook =>
        obtain ⟨_, entry, memEntry, eq⟩ := mem_entries own
        cases eq
        rw [List.mem_singleton.mp memEntry]
        exact live_one mem (add_zero _).symm rfl
    | checked caller qid entry =>
        obtain ⟨_, other, memEntry, eq⟩ := mem_entries own
        cases eq
        refine live_told qid mem (zero_add _).symm (fun user => ?_) memEntry
        subst user
        exact ok
    | took caller qid entry cqReq =>
        obtain ⟨_, other, memEntry, eq⟩ := mem_entries own
        cases eq
        refine live_told qid mem rfl (fun user => ?_) memEntry
        subst user
        exact ok
    | removing caller qid entry cqReq =>
        obtain ⟨_, other, memEntry, eq⟩ := mem_entries own
        cases eq
        refine live_told qid mem rfl (fun _ => ?_) memEntry
        exact once.base.waits _ _ (mem_locks.mpr ⟨_, cqReq, mem⟩)
    | removed caller qid entry cqReq | posting caller qid entry cqReq =>
        rcases List.mem_append.mp own with answered | told
        · obtain ⟨_, other, memEntry, eq⟩ := mem_entries answered
          cases eq
          rw [List.mem_singleton.mp memEntry]
          exact live_one mem (add_assoc ..) rfl
        · obtain ⟨_, other, memEntry, eq⟩ := mem_entries told
          cases eq
          exact live_late mem rfl memEntry
    | scanning | timedOut | completing =>
        obtain ⟨_, other, memEntry, eq⟩ := mem_entries own
        cases eq
        exact live_late mem (zero_add _).symm memEntry
    | replacing | marking =>
        obtain ⟨_, other, memEntry, eq⟩ := mem_entries own
        cases eq
        exact live_late mem rfl memEntry
  · have placed {place : Place} (held : (place, req) ∈ queue.places) : (place, req) ∈ mq.placed :=
      Multiset.mem_add.mpr (Or.inl (mem_sum_map.mpr ⟨queue, mem, held⟩))
    rcases List.mem_append.mp own with own | answered
    · rcases List.mem_append.mp own with early | waiting
      · obtain ⟨_, other, memEntry, eq⟩ := mem_entries early
        cases eq
        refine ⟨.sq queue.qid .used, placed ?_, rfl⟩
        simp only [Queue.places, Multiset.mem_add, mem_inPlace, memEntry, and_self,
          true_or, or_true]
      · obtain ⟨_, other, memEntry, eq⟩ := mem_entries waiting
        cases eq
        refine ⟨.sq queue.qid .wait, placed ?_, rfl⟩
        simp only [Queue.places, Multiset.mem_add, mem_inPlace, memEntry, and_self,
          true_or, or_true]
    · obtain ⟨_, other, memEntry, eq⟩ := mem_entries answered
      cases eq
      refine ⟨.cq queue.qid .used, placed ?_, rfl⟩
      simp only [Queue.places, Multiset.mem_add, mem_inPlace, memEntry, and_self, or_true]

theorem InHands.allocated (inHands : InHands conf mq req) (once : OnceInv conf mq) :
    Allocated conf mq req := by
  rcases inHands with ⟨qid, wait⟩ | isLate | settled | ⟨_, alloc⟩
  · exact (once.base.placed.entries _ _ wait).2
  · exact (once.base.placed.entries _ _ isLate).2
  · exact (once.base.placed.entries _ _ settled).2
  · exact alloc

/-- An entry whose `opaque` a step writes is not with the user. -/
theorem written_place {value : Option Nat}
    (write : opaqueWrite conf mq op = some (req, value)) :
    ¬ Allocated conf mq req ∧ value = none ∨
      ∃ place : Place, (place, req) ∈ mq.placed ∧ place.withUser = false ∧
        (place.live = true → value = none) := by
  cases op with
  | next index late new =>
      simp only [opaqueWrite] at write
      split at write
      · rename_i qid entry opaqueOf get
        cases write
        exact Or.inr ⟨_, mem_placed (List.mem_of_getElem? get) (mem_inPlace_self _ req), rfl, nofun⟩
      · rename_i qid entry get
        cases write
        exact Or.inr ⟨_, mem_placed (List.mem_of_getElem? get) (mem_inPlace_self _ req), rfl,
          fun _ => rfl⟩
      · rename_i caller qid entry cqReq get
        cases write
        refine Or.inr ⟨.sq qid .out, mem_placed (List.mem_of_getElem? get) ?_, rfl, fun _ => rfl⟩
        exact Multiset.mem_add.mpr (Or.inl (Multiset.mem_add.mpr (Or.inr (mem_inPlace_self _ req))))
      · rename_i caller qid source cqReq get
        cases write
        refine Or.inr ⟨.cq qid .taken, mem_placed (List.mem_of_getElem? get) ?_, rfl, nofun⟩
        exact Multiset.mem_add.mpr (Or.inl (mem_inPlace_self _ req))
      · split at write
        · cases write
        · rename_i unused
          cases write
          exact Or.inl ⟨unused, rfl⟩
      · cases write
  | _ => cases write

/-- An entry in such a place keeps its submission, or loses it. -/
theorem OnceInv.live_opaqueOf (once : OnceInv conf mq) (live : mq.Live req)
    (own : n ∈ ((Mq.step conf mq op).entries req).opaqueOf) : n ∈ (mq.entries req).opaqueOf := by
  rcases step_opaqueOf op with same | write
  · rw [same] at own
    exact own
  · obtain ⟨place, placed, isLive⟩ := live
    rw [Option.mem_def.mp own] at write
    rcases written_place write with ⟨_, none⟩ | ⟨other, memOther, _, loses⟩
    · cases none
    · rw [once.base.placed.unique placed memOther] at isLive
      cases loses isLive

/-- An entry of the user keeps its submission. -/
theorem OnceInv.hands_opaqueOf (once : OnceInv conf mq) (inHands : InHands conf mq req) :
    ((Mq.step conf mq op).entries req).opaqueOf = (mq.entries req).opaqueOf := by
  rcases step_opaqueOf op with same | write
  · exact same
  · rcases written_place write with ⟨unused, _⟩ | ⟨place, placed, notUser, _⟩
    · exact absurd (inHands.allocated once) unused
    · rw [inHands.place once.base placed] at notUser
      cases notUser

/-- A step that writes no `opaque`. -/
theorem opaque_of_not_written (none : opaqueWrite conf mq op = none) :
    ((Mq.step conf mq op).entries req).opaqueOf = (mq.entries req).opaqueOf := by
  rcases step_opaqueOf op with same | write
  · exact same
  · rw [none] at write
    cases write

theorem at_of_task {task : Task} {carrier : Carrier} (mem : task ∈ mq.tasks)
    (own : (stage, carrier) ∈ task.stages) (has : n ∈ carrier.submission mq.entries) :
    mq.At stage n :=
  ⟨carrier, Or.inl ⟨task, mem, own⟩, has⟩

/-- An entry of `sq_wait` has a submission that waits. -/
theorem OnceInv.at_waiting (once : OnceInv conf mq) {qid : Nat}
    (wait : (.sq qid .wait, req) ∈ mq.placed) (own : n ∈ (mq.entries req).opaqueOf) :
    mq.At .waiting n := by
  obtain ⟨queue, get, mem⟩ := (mem_wait once.base).mp wait
  refine ⟨.entry req, Or.inr ⟨queue, List.mem_of_getElem? get, ?_⟩, own⟩
  exact List.mem_append_left _ (List.mem_append_right _ (entry_mem mem))

/-- A task takes a submission to the next stage. -/
theorem OnceInv.enters_origin (once : OnceInv conf mq) {index : Nat} {late : Bool} {new : Nat}
    {task : Task} (get : mq.tasks[index]? = some task) {carrier : Carrier}
    (entered : (stage, carrier) ∈ task.enters mq.entries)
    (staged : (Mq.step conf mq (.next index late new)).Staged (stage, carrier))
    (own : n ∈ carrier.submission (Mq.step conf mq (.next index late new)).entries) :
    mq.At stage n ∨ Origin mq (.next index late new) n stage := by
  have mem := List.mem_of_getElem? get
  have kept {req : Nat} (none : opaqueWrite conf mq (.next index late new) = none)
      (has : n ∈ ((Mq.step conf mq (.next index late new)).entries req).opaqueOf) :
      n ∈ (mq.entries req).opaqueOf := by
    rw [← opaque_of_not_written none]
    exact has
  cases task with
  | submitTook qid req opaqueOf =>
      obtain ⟨rfl, entry, memEntry, rfl⟩ := mem_entries entered
      obtain rfl := List.mem_singleton.mp memEntry
      have value : ((Mq.step conf mq (.next index late new)).entries entry).opaqueOf =
        opaqueOf := by
        simp only [Mq.step, get, taskStep, MqState.become, MqState.setEntry, Function.update_self]
      rw [Carrier.submission, value] at own
      obtain rfl := Option.mem_def.mp own
      exact Or.inl (at_of_task mem held_mem rfl)
  | sqMarked qid req =>
      have early (has : n ∈ ((Mq.step conf mq (.next index late new)).entries req).opaqueOf) :
          mq.At .early n := by
        refine at_of_task mem (entry_mem (List.mem_singleton_self _)) (kept ?_ has)
        rw [opaqueWrite, get]
      rcases List.mem_append.mp entered with entered | entered
      · obtain ⟨rfl, entry, memEntry, rfl⟩ := mem_entries entered
        obtain rfl := List.mem_singleton.mp memEntry
        exact Or.inr (early own)
      · obtain ⟨rfl, entry, memEntry, rfl⟩ := mem_entries entered
        obtain rfl := List.mem_singleton.mp memEntry
        exact Or.inr (early own)
  | cqTook qid req =>
      obtain ⟨rfl, m, has, rfl⟩ := mem_held entered
      obtain rfl := Option.some.inj own
      exact Or.inl (at_of_task mem (entry_mem (List.mem_singleton_self _)) has)
  | took caller qid req cqReq =>
      obtain ⟨rfl, entry, memEntry, rfl⟩ := mem_entries entered
      obtain rfl := List.mem_singleton.mp memEntry
      by_cases locked : mq.entryLocked req = true
      · have same : Mq.step conf mq (.next index late new) = mq := by
          simp only [Mq.step, get, taskStep, locked, if_true]
        rw [same] at staged own
        exact Or.inl ⟨_, staged, own⟩
      · have value : ((Mq.step conf mq (.next index late new)).entries entry).opaqueOf =
            (mq.entries req).opaqueOf := by
          simp only [Mq.step, get, taskStep, if_neg locked, MqState.become, MqState.setEntry,
            Function.update_self]
        rw [Carrier.submission, value] at own
        exact Or.inr (at_of_task mem (entry_mem List.mem_cons_self) own)
  | removing caller qid req cqReq =>
      obtain ⟨rfl, entry, memEntry, rfl⟩ := mem_entries entered
      obtain rfl := List.mem_singleton.mp memEntry
      have copied : (mq.entries entry).opaqueOf = (mq.entries req).opaqueOf := once.tasks _ mem
      have has : n ∈ (mq.entries entry).opaqueOf := kept (by rw [opaqueWrite, get]) own
      rw [copied] at has
      exact Or.inr (at_of_task mem (entry_mem List.mem_cons_self) has)
  | scanning qid rest lates =>
      cases rest with
      | nil => exact absurd entered List.not_mem_nil
      | cons req rest =>
          obtain ⟨rfl, entry, memEntry, rfl⟩ := mem_entries entered
          obtain rfl := List.mem_singleton.mp memEntry
          have wait : (.sq qid .wait, entry) ∈ mq.placed :=
            once.base.scanned _ _ (mem_sum_map.mpr ⟨_, mem, List.mem_cons_self⟩)
          exact Or.inr (once.at_waiting wait (once.live_opaqueOf ⟨_, wait, rfl⟩ own))
  | timedOut lates =>
      obtain ⟨rfl, entry, memEntry, rfl⟩ := mem_entries entered
      have has : n ∈ (mq.entries entry).opaqueOf := kept (by rw [opaqueWrite, get]) own
      refine Or.inr (Or.inr ?_)
      simp only [seen, callback, get, Option.elim_some, Callback.seen]
      refine List.mem_append_right _ (List.mem_map_of_mem ?_)
      exact List.reduceOption_mem_iff.mpr (List.mem_map.mpr ⟨entry, memEntry, has⟩)
  | _ => exact absurd entered List.not_mem_nil

/-- `sq_fn` is to be called with an entry. -/
theorem calling_task {carrier : Carrier} (staged : mq.Staged (.calling, carrier)) :
    ∃ qid req, carrier = .entry req ∧ Task.sqQueued qid req ∈ mq.tasks := by
  rcases staged with ⟨task, mem, own⟩ | ⟨queue, mem, own⟩
  · cases task with
    | sqQueued qid entry =>
        obtain ⟨_, other, memEntry, eq⟩ := mem_entries own
        obtain rfl := List.mem_singleton.mp memEntry
        exact ⟨qid, other, eq, mem⟩
    | submitTook | cqFreed => cases (mem_held own).1
    | removed | posting =>
        rcases List.mem_append.mp own with own | own <;> cases (mem_entries own).1
    | _ => cases (mem_entries own).1
  · rcases List.mem_append.mp own with own | own
    · rcases List.mem_append.mp own with own | own <;> cases (mem_entries own).1
    · cases (mem_entries own).1

/-- The user has the entry with which `sq_fn` is to be called. -/
theorem OnceInv.inHands_calling (once : OnceInv conf mq)
    (staged : mq.Staged (.calling, .entry req)) : InHands conf mq req := by
  obtain ⟨qid, entry, eq, mem⟩ := calling_task staged
  cases eq
  exact once.tasks _ mem

/-- A submission comes from the stage in front. -/
theorem OnceInv.stage_origin (once : OnceInv conf mq) (isAt : (Mq.step conf mq op).At stage n) :
    mq.At stage n ∨ Origin mq op n stage := by
  obtain ⟨carrier, staged, own⟩ := isAt
  rcases step_staged op staged with old | entered
  · refine Or.inl ⟨carrier, old, ?_⟩
    cases carrier with
    | held m => exact own
    | entry req =>
        by_cases past : stage = .calling
        · subst past
          rw [Carrier.submission, once.hands_opaqueOf (once.inHands_calling old)] at own
          exact own
        · exact once.live_opaqueOf (once.staged_live old past) own
  · cases op with
    | submit qid null =>
        obtain ⟨rfl, m, has, rfl⟩ := mem_held entered
        cases has
        exact Or.inr (Option.some.inj own).symm
    | complete req =>
        obtain ⟨rfl, entry, memEntry, rfl⟩ := mem_entries entered
        obtain rfl := List.mem_singleton.mp memEntry
        by_cases locked : mq.entryLocked entry = true
        · have same : Mq.step conf mq (.complete entry) = mq := by
            rw [Mq.step, oxMqCompleteReq, if_pos locked]
          rw [same] at staged own
          exact Or.inl ⟨_, staged, own⟩
        · rw [Carrier.submission, opaque_of_not_written rfl] at own
          refine Or.inr (Or.inl ?_)
          rw [seen, returns, if_neg locked]
          exact List.mem_append_left _ (Option.mem_toList.mpr (Option.mem_map_of_mem _ own))
    | next index late new =>
        cases get : mq.tasks[index]? with
        | none =>
            rw [MqState.enters, get] at entered
            exact absurd entered List.not_mem_nil
        | some task =>
            rw [MqState.enters, get] at entered
            exact once.enters_origin get entered staged own
    | _ => exact absurd entered List.not_mem_nil

end Origin

end OxCtrl.Mq
