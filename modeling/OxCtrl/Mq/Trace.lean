import OxCtrl.Lib.History
import OxCtrl.Mq.Stages

/-!
# What the user sees

The multi-queue tells its user about a submission by `sq_fn`, by `to_fn` and by `cq_fn`, and the
user tells it by `ox_mq_complete_req`.  In every interleaving `sq_fn` is called once at most for a
submission, the user completes it once at most and behind that call, and `cq_fn` is called once at
most and behind a completion by the user or a call of `to_fn`.
-/

namespace OxCtrl.Mq

open OxCtrl.Lib

/-- The multi-queue and what the user sees of it. -/
def seenSystem (conf : Config) : System MqState Op (List Seen) where
  step mq op := (step conf mq op, seen mq op)

/-- What the user may see next. -/
def Follows (before : List Seen) : Seen → Prop
  | .called n => .called n ∉ before
  | .returned n => .called n ∈ before ∧ .returned n ∉ before
  | .timedOut _ => True
  | .completed n => (.returned n ∈ before ∨ .timedOut n ∈ before) ∧ .completed n ∉ before

/-- The user has the entry, or `sq_fn` is to be called with it. -/
def MqState.Given (mq : MqState) (req : Nat) : Prop :=
  mq.Staged (.calling, .entry req) ∨ req ∈ mq.handed

/-- What holds in every state of a timely run, with what the user has seen. -/
structure SeenInv (conf : Config) (mq : MqState) (log : List Seen) : Prop where
  once : OnceInv conf mq
  apart : ∀ req other n, mq.Given req → mq.Given other → n ∈ (mq.entries req).opaqueOf →
    n ∈ (mq.entries other).opaqueOf → req = other
  early : ∀ n, mq.At .calling n ∨ .called n ∈ log → ¬ mq.At .early n ∧ n < mq.nSubmitted
  calling : ∀ n, .called n ∈ log → ¬ mq.At .calling n
  handed : ∀ req ∈ mq.handed, ∀ n ∈ (mq.entries req).opaqueOf, .called n ∈ log ∧ .returned n ∉ log
  returned : ∀ n, .returned n ∈ log → .called n ∈ log
  told : ∀ n, mq.At .told n ∨ mq.At .answered n → .returned n ∈ log ∨ .timedOut n ∈ log
  completed : ∀ n, .completed n ∈ log ↔ n ∈ mq.completed
  keeps : Keeps Follows log

/-! ## What a step changes for the user -/

section User

variable {conf : Config} {mq : MqState} {index : Nat} {late : Bool} {new req n : Nat} {op : Op}

/-- The user's side of a state stays. -/
def SameUser (mq after : MqState) : Prop :=
  after.handed = mq.handed ∧ after.completed = mq.completed ∧ after.nSubmitted = mq.nSubmitted

theorem checkReq_user (mq : MqState) (entry : Nat) : SameUser mq (checkReq mq entry).1 := by
  simp only [checkReq]
  split
  · exact ⟨rfl, rfl, rfl⟩
  · split <;> exact ⟨rfl, rfl, rfl⟩

theorem queueStep_user (queue : Queue) (task : Task) :
    SameUser mq (queueStep conf mq index late new queue task) := by
  cases task with
  | sqMarked | removing | checked =>
      rw [queueStep]
      split <;> exact ⟨rfl, rfl, rfl⟩
  | scanning qid rest lates =>
      cases rest with
      | nil => exact ⟨rfl, rfl, rfl⟩
      | cons req rest =>
          rw [queueStep]
          split
          · split <;> exact ⟨rfl, rfl, rfl⟩
          · exact ⟨rfl, rfl, rfl⟩
  | _ => exact ⟨rfl, rfl, rfl⟩

/-- A task that calls neither `sq_fn` nor `cq_fn`. -/
theorem taskStep_user (task : Task) (noCall : ∀ qid req, task ≠ .sqQueued qid req)
    (noDone : ∀ qid opaqueOf, task ≠ .cqFreed qid opaqueOf) :
    SameUser mq (taskStep conf mq index late new task) := by
  have onQueue {qid : Nat} (either : taskStep conf mq index late new task = mq ∨
      ∃ queue, mq.queues[qid]? = some queue ∧
        taskStep conf mq index late new task = queueStep conf mq index late new queue task) :
      SameUser mq (taskStep conf mq index late new task) := by
    rcases either with same | ⟨queue, found, same⟩
    · rw [same]
      exact ⟨rfl, rfl, rfl⟩
    · rw [same]
      exact queueStep_user queue task
  cases task with
  | sqQueued qid req => exact absurd rfl (noCall qid req)
  | cqFreed qid opaqueOf => exact absurd rfl (noDone qid opaqueOf)
  | took =>
      rw [taskStep]
      split <;> exact ⟨rfl, rfl, rfl⟩
  | completing lates =>
      cases lates with
      | nil => exact ⟨rfl, rfl, rfl⟩
      | cons req rest =>
          rw [taskStep]
          split
          · split
            · exact ⟨rfl, rfl, rfl⟩
            · exact checkReq_user mq req
          · exact ⟨rfl, rfl, rfl⟩
  | scanning qid rest lates =>
      cases rest with
      | nil => exact ⟨rfl, rfl, rfl⟩
      | cons => exact onQueue (taskStep_onQueue rfl)
  | submitFilled | sqMarked | cqTook | checked | removing | removed | posting | replacing =>
      exact onQueue (taskStep_onQueue rfl)
  | _ => exact ⟨rfl, rfl, rfl⟩

/-- What a step changes for the user. -/
theorem step_user (op : Op) :
    (∀ req ∈ (step conf mq op).handed, req ∈ mq.handed ∨ callback mq op = some (.sqFn req)) ∧
      (∀ n, n ∈ (step conf mq op).completed ↔
        n ∈ mq.completed ∨ callback mq op = some (.cqFn n)) ∧
      ((step conf mq op).nSubmitted = mq.nSubmitted ∨
        (∃ qid null, op = .submit qid null) ∧
          (step conf mq op).nSubmitted = mq.nSubmitted + 1) := by
  have same {after : MqState} (user : SameUser mq after)
    (quiet : ∀ n, callback mq op ≠ some (.cqFn n)) :
      (∀ req ∈ after.handed, req ∈ mq.handed ∨ callback mq op = some (.sqFn req)) ∧
        (∀ n, n ∈ after.completed ↔ n ∈ mq.completed ∨ callback mq op = some (.cqFn n)) ∧
          (after.nSubmitted = mq.nSubmitted ∨
            (∃ qid null, op = .submit qid null) ∧ after.nSubmitted = mq.nSubmitted + 1) := by
    refine ⟨fun req mem => Or.inl (user.1 ▸ mem), fun n => ?_, Or.inl user.2.2⟩
    rw [user.2.1]
    exact ⟨Or.inl, fun either => either.resolve_right (quiet n)⟩
  cases op with
  | submit qid null =>
      rw [step, oxMqSubmitReq]
      split
      · exact same ⟨rfl, rfl, rfl⟩ (by simp [callback])
      · split
        · exact same ⟨rfl, rfl, rfl⟩ (by simp [callback])
        · refine ⟨fun req => Or.inl, fun n => ⟨Or.inl, fun either => ?_⟩,
            Or.inr ⟨⟨qid, null, rfl⟩, rfl⟩⟩
          exact either.resolve_right (by simp [callback])
  | complete req =>
      rw [step, oxMqCompleteReq]
      split
      · exact same ⟨rfl, rfl, rfl⟩ (by simp [callback])
      · obtain ⟨handed, completed, submitted⟩ := checkReq_user mq req
        refine ⟨fun other mem => Or.inl ?_, fun n => ?_, Or.inl submitted⟩
        · dsimp only at mem
          rw [handed] at mem
          exact List.mem_of_mem_erase mem
        · dsimp only
          rw [completed]
          exact ⟨Or.inl, fun either => either.resolve_right (by simp [callback])⟩
  | sqThread qid | cqThread qid =>
      simp only [step, oxMqSqThread, oxMqCqThread]
      split
      · exact same ⟨rfl, rfl, rfl⟩ (by simp [callback])
      · split
        · exact same ⟨rfl, rfl, rfl⟩ (by simp [callback])
        · split <;> exact same ⟨rfl, rfl, rfl⟩ (by simp [callback])
  | toThread qid =>
      rw [step, oxMqCheckQueueTo]
      split
      · exact same ⟨rfl, rfl, rfl⟩ (by simp [callback])
      · split <;> exact same ⟨rfl, rfl, rfl⟩ (by simp [callback])
  | next index late new =>
      rw [step]
      split
      · rename_i none
        exact same ⟨rfl, rfl, rfl⟩ (by simp [callback, none])
      · rename_i task get
        cases task with
        | sqQueued qid req =>
            have called : callback mq (.next index late new) = some (.sqFn req) := by
              rw [callback, get]
            refine ⟨fun other mem => ?_, fun n => ⟨Or.inl, fun either => ?_⟩, Or.inl rfl⟩
            · refine (List.mem_append.mp mem).imp_right fun isNew => ?_
              rw [List.mem_singleton.mp isNew, called]
            · exact either.resolve_right (by simp [called])
        | cqFreed qid opaqueOf =>
            refine ⟨fun other => Or.inl, fun n => ?_, Or.inl rfl⟩
            change n ∈ mq.completed ++ opaqueOf.toList ↔ _
            rw [List.mem_append, callback, get]
            cases opaqueOf with
            | none => simp
            | some m => simp [eq_comm]
        | _ =>
            refine same (taskStep_user _ (fun _ _ eq => by cases eq) fun _ _ eq => by cases eq)
              (by simp [callback, get])

theorem step_nSubmitted (op : Op) : mq.nSubmitted ≤ (step conf mq op).nSubmitted := by
  rcases (@step_user conf mq op).2.2 with same | ⟨_, more⟩
  · exact same.ge
  · rw [more]
    exact Nat.le_succ _

/-- `sq_fn` gives the user an entry, and only a completion takes one back. -/
theorem step_handed (op : Op) (noReturn : ∀ req, op ≠ .complete req) :
    (∀ req, callback mq op = some (.sqFn req) →
        (step conf mq op).handed = mq.handed ++ [req]) ∧
      ((∀ req, callback mq op ≠ some (.sqFn req)) → (step conf mq op).handed = mq.handed) := by
  have same {after : MqState} (handed : after.handed = mq.handed)
      (quiet : ∀ req, callback mq op ≠ some (.sqFn req)) :
      (∀ req, callback mq op = some (.sqFn req) → after.handed = mq.handed ++ [req]) ∧
        ((∀ req, callback mq op ≠ some (.sqFn req)) → after.handed = mq.handed) :=
    ⟨fun req call => absurd call (quiet req), fun _ => handed⟩
  cases op with
  | submit qid null =>
      rw [step, oxMqSubmitReq]
      split
      · exact same rfl (by simp [callback])
      · split <;> exact same rfl (by simp [callback])
  | complete req => exact absurd rfl (noReturn req)
  | sqThread qid | cqThread qid =>
      simp only [step, oxMqSqThread, oxMqCqThread]
      split
      · exact same rfl (by simp [callback])
      · split
        · exact same rfl (by simp [callback])
        · split <;> exact same rfl (by simp [callback])
  | toThread qid =>
      rw [step, oxMqCheckQueueTo]
      split
      · exact same rfl (by simp [callback])
      · split <;> exact same rfl (by simp [callback])
  | next index late new =>
      rw [step]
      split
      · rename_i none
        exact same rfl (by simp [callback, none])
      · rename_i task get
        cases task with
        | sqQueued qid req =>
            refine ⟨fun other call => ?_, fun quiet => absurd ?_ (quiet req)⟩
            · rw [callback, get] at call
              cases call
              rfl
            · rw [callback, get]
        | cqFreed qid opaqueOf => exact same rfl (by cases opaqueOf <;> simp [callback, get])
        | _ =>
            refine same (taskStep_user _ (fun _ _ eq => by cases eq) fun _ _ eq => by cases eq).1
              (by simp [callback, get])

end User

section Seen

variable {conf : Config} {mq : MqState} {op : Op} {log : List Seen} {stage : Stage} {req n : Nat}

/-- A submission that no entry has. -/
theorem staged_held (staged : mq.Staged (stage, .held n)) : ∃ task ∈ mq.tasks, n ∈ task.held := by
  rcases staged with ⟨task, mem, own⟩ | ⟨queue, _, own⟩
  · refine ⟨task, mem, ?_⟩
    cases task with
    | submitTook | cqFreed =>
        obtain ⟨_, m, eq, same⟩ := mem_held own
        cases same
        rw [Task.held, eq]
        exact Multiset.mem_singleton_self n
    | removed | posting =>
        rcases List.mem_append.mp own with own | own
        · obtain ⟨_, _, _, eq⟩ := mem_entries own
          cases eq
        · obtain ⟨_, _, _, eq⟩ := mem_entries own
          cases eq
    | _ =>
        obtain ⟨_, _, _, eq⟩ := mem_entries own
        cases eq
  · rcases List.mem_append.mp own with own | own
    · rcases List.mem_append.mp own with own | own
      · obtain ⟨_, _, _, eq⟩ := mem_entries own
        cases eq
      · obtain ⟨_, _, _, eq⟩ := mem_entries own
        cases eq
    · obtain ⟨_, _, _, eq⟩ := mem_entries own
      cases eq

/-- An entry on the way to `sq_wait` is not with the user. -/
theorem staged_early (staged : mq.Staged (.early, .entry req)) :
    ∃ place : Place, (place, req) ∈ mq.placed ∧ place.live = true ∧ place.withUser = false := by
  rcases staged with ⟨task, mem, own⟩ | ⟨queue, mem, own⟩
  · cases task with
    | submitFilled | sqTook | sqMarked =>
        obtain ⟨_, entry, memEntry, eq⟩ := mem_entries own
        cases eq
        rw [List.mem_singleton.mp memEntry]
        exact ⟨_, mem_placed mem (mem_inPlace_self _ _), rfl, rfl⟩
    | submitTook =>
        obtain ⟨_, _, _, eq⟩ := mem_held own
        cases eq
    | cqFreed => cases (mem_held own).1
    | removed | posting =>
        rcases List.mem_append.mp own with own | own <;> cases (mem_entries own).1
    | _ => cases (mem_entries own).1
  · rcases List.mem_append.mp own with own | own
    · rcases List.mem_append.mp own with own | own
      · obtain ⟨_, entry, memEntry, eq⟩ := mem_entries own
        cases eq
        refine ⟨.sq queue.qid .used, ?_, rfl, rfl⟩
        refine Multiset.mem_add.mpr (Or.inl (mem_sum_map.mpr ⟨queue, mem, ?_⟩))
        simp only [Queue.places, Multiset.mem_add, mem_inPlace, memEntry, and_self,
          true_or, or_true]
      · cases (mem_entries own).1
    · cases (mem_entries own).1

/-- A submission at a stage is on its way. -/
theorem OnceInv.at_carried (once : OnceInv conf mq) (isAt : mq.At stage n)
    (past : stage ≠ .calling) :
    n ∈ carried mq.entries mq.placed + (mq.tasks.map Task.held).sum := by
  obtain ⟨carrier, staged, own⟩ := isAt
  cases carrier with
  | entry req =>
      obtain ⟨place, placed, live⟩ := once.staged_live staged past
      refine Multiset.mem_add.mpr (Or.inl ?_)
      refine Multiset.mem_bind.mpr ⟨_, placed, ?_⟩
      rw [Place.carry, if_pos live]
      exact Option.mem_toList.mpr own
  | held m =>
      obtain rfl := Option.some.inj own
      obtain ⟨task, mem, held⟩ := staged_held staged
      exact Multiset.mem_add.mpr (Or.inr (mem_sum_map.mpr ⟨task, mem, held⟩))

theorem OnceInv.at_pending (once : OnceInv conf mq) (isAt : mq.At stage n)
    (past : stage ≠ .calling) : n ∈ mq.pending :=
  Multiset.mem_add.mpr (Or.inl (once.at_carried isAt past))

/-- The callback of a submission at a stage has not come. -/
theorem OnceInv.at_not_completed (once : OnceInv conf mq) (isAt : mq.At stage n)
    (past : stage ≠ .calling) : n ∉ mq.completed := by
  have nodup := once.pending
  rw [MqState.pending] at nodup
  exact Multiset.disjoint_left.mp (Multiset.nodup_add.mp nodup).2.2 (once.at_carried isAt past)

/-- A submission that is early is in no list of waiting entries. -/
theorem OnceInv.early_apart (once : OnceInv conf mq) {qid : Nat}
    (wait : (.sq qid .wait, req) ∈ mq.placed) (own : n ∈ (mq.entries req).opaqueOf) :
    ¬ mq.At .early n := by
  rintro ⟨carrier, staged, has⟩
  have nodup := once.pending
  rw [MqState.pending] at nodup
  have parts := Multiset.nodup_add.mp (Multiset.nodup_add.mp nodup).1
  have carries {entry : Nat} {place : Place} (placed : (place, entry) ∈ mq.placed)
      (live : place.live = true) (has : n ∈ (mq.entries entry).opaqueOf) :
      n ∈ place.carry (mq.entries entry) := by
    rw [Place.carry, if_pos live]
    exact Option.mem_toList.mpr has
  cases carrier with
  | entry other =>
      obtain ⟨place, placed, live, notUser⟩ := staged_early staged
      cases eq_of_mem_bind parts.1 wait placed (carries wait rfl own) (carries placed live has)
      cases notUser
  | held m =>
      obtain rfl := Option.some.inj has
      obtain ⟨task, mem, held⟩ := staged_held staged
      refine Multiset.disjoint_left.mp parts.2.2 ?_ (mem_sum_map.mpr ⟨task, mem, held⟩)
      exact Multiset.mem_bind.mpr ⟨_, wait, carries wait rfl own⟩

/-! ## Callbacks -/

theorem of_callback_sqFn (call : callback mq op = some (.sqFn req)) :
    ∃ index late new qid, op = .next index late new ∧
      mq.tasks[index]? = some (.sqQueued qid req) := by
  cases op with
  | next index late new =>
      rw [callback] at call
      split at call
      · rename_i qid entry get
        cases call
        exact ⟨index, late, new, qid, rfl, get⟩
      all_goals cases call
  | _ => cases call

theorem of_callback_cqFn (call : callback mq op = some (.cqFn n)) :
    ∃ index late new qid, op = .next index late new ∧
      mq.tasks[index]? = some (.cqFreed qid (some n)) := by
  cases op with
  | next index late new =>
      rw [callback] at call
      split at call
      · cases call
      · cases call
      · rename_i qid m get
        cases call
        exact ⟨index, late, new, qid, rfl, get⟩
      · cases call
  | _ => cases call

theorem of_returns (back : n ∈ returns mq op) :
    ∃ req, op = .complete req ∧ ¬ mq.entryLocked req = true ∧ n ∈ (mq.entries req).opaqueOf := by
  cases op with
  | complete req =>
      rw [returns] at back
      split at back
      · cases back
      · rename_i unlocked
        exact ⟨req, rfl, unlocked, back⟩
  | _ => cases back

theorem mem_seen {event : Seen} (mem : event ∈ seen mq op) :
    (∃ n ∈ returns mq op, event = .returned n) ∨
      ∃ call, callback mq op = some call ∧ event ∈ call.seen mq.entries := by
  rcases List.mem_append.mp mem with back | heard
  · obtain ⟨n, own, eq⟩ := Option.mem_map.mp (Option.mem_toList.mp back)
    exact Or.inl ⟨n, own, eq.symm⟩
  · cases called : callback mq op with
    | none =>
        rw [called] at heard
        exact absurd heard List.not_mem_nil
    | some call =>
        rw [called] at heard
        exact Or.inr ⟨call, rfl, heard⟩

theorem mem_seen_returned : .returned n ∈ seen mq op ↔ n ∈ returns mq op := by
  refine ⟨fun mem => ?_, fun own => ?_⟩
  · rcases mem_seen mem with ⟨m, own, eq⟩ | ⟨call, _, heard⟩
    · cases eq
      exact own
    · cases call <;> simp [Callback.seen] at heard
  · exact List.mem_append_left _ (Option.mem_toList.mpr (Option.mem_map_of_mem _ own))

theorem mem_seen_called (mem : .called n ∈ seen mq op) :
    ∃ req, callback mq op = some (.sqFn req) ∧ n ∈ (mq.entries req).opaqueOf := by
  rcases mem_seen mem with ⟨m, _, eq⟩ | ⟨call, called, heard⟩
  · cases eq
  · cases call with
    | sqFn req => exact ⟨req, called, by simpa [Callback.seen] using heard⟩
    | toFn | cqFn => simp [Callback.seen] at heard

theorem mem_seen_completed : .completed n ∈ seen mq op ↔ callback mq op = some (.cqFn n) := by
  refine ⟨fun mem => ?_, fun called => ?_⟩
  · rcases mem_seen mem with ⟨m, _, eq⟩ | ⟨call, called, heard⟩
    · cases eq
    · cases call with
      | cqFn m =>
          cases List.mem_singleton.mp heard
          exact called
      | sqFn | toFn => simp [Callback.seen] at heard
  · rw [seen, called]
    exact List.mem_append_right _ (List.mem_singleton_self _)

theorem seen_called (called : callback mq op = some (.sqFn req))
    (own : n ∈ (mq.entries req).opaqueOf) : .called n ∈ seen mq op := by
  rw [seen, called]
  exact List.mem_append_right _ (Option.mem_toList.mpr (Option.mem_map_of_mem _ own))

theorem returns_of_callback {call : Callback} (called : callback mq op = some call) :
    returns mq op = none := by
  cases op with
  | complete => cases called
  | _ => rfl

/-! ## Steps -/

theorem OnceInv.inHands_given (once : OnceInv conf mq) (given : mq.Given req) :
    InHands conf mq req := by
  rcases given with calling | handed
  · exact once.inHands_calling calling
  · exact once.handed req handed

/-- A step puts an entry in `sq_wait`. -/
def Marks (mq after : MqState) (op : Op) (req : Nat) : Prop :=
  ∃ index late new qid, op = .next index late new ∧ mq.tasks[index]? = some (.sqMarked qid req) ∧
    (.sq qid .wait, req) ∈ after.placed

theorem Inv.sqMarked_wait (inv : Inv conf mq) {index : Nat} {late : Bool} {new qid : Nat}
    (get : mq.tasks[index]? = some (.sqMarked qid req)) :
    Mq.step conf mq (.next index late new) = mq ∨
      ∃ queue ∈ (Mq.step conf mq (.next index late new)).queues[qid]?,
        req ∈ queue.sqWait.entries := by
  simp only [Mq.step, get, taskStep]
  split
  · exact Or.inl rfl
  · rename_i queue found
    obtain ⟨rfl, _, _⟩ := inv.found found
    rw [queueStep]
    split
    · exact Or.inl rfl
    · refine Or.inr ⟨{ queue with sqWait := queue.sqWait.insertTail req }, ?_, ?_⟩
      · exact List.getElem?_set_self (List.getElem?_eq_some_iff.mp found).1
      · exact List.mem_append_right _ (List.mem_singleton_self req)

theorem enters_calling {task : Task} {carrier : Carrier}
    (entered : (.calling, carrier) ∈ task.enters mq.entries) :
    ∃ qid req, task = .sqMarked qid req ∧ carrier = .entry req := by
  cases task with
  | sqMarked qid entry =>
      rcases List.mem_append.mp entered with entered | entered
      · obtain ⟨_, other, mem, eq⟩ := mem_entries entered
        obtain rfl := List.mem_singleton.mp mem
        exact ⟨qid, other, rfl, eq⟩
      · cases (mem_entries entered).1
  | submitTook | took | removing | timedOut => cases (mem_entries entered).1
  | scanning qid rest lates =>
      cases rest with
      | nil => exact absurd entered List.not_mem_nil
      | cons => cases (mem_entries entered).1
  | cqTook => cases (mem_held entered).1
  | _ => exact absurd entered List.not_mem_nil

/-- The user has an entry from its way to `sq_wait` on. -/
theorem OnceInv.given_step (once : OnceInv conf mq) (timely : Timely mq op)
    (given : (Mq.step conf mq op).Given req) :
    mq.Given req ∨ Marks mq (Mq.step conf mq op) op req := by
  rcases given with calling | handed
  · rcases step_staged op calling with old | entered
    · exact Or.inl (Or.inl old)
    · cases op with
      | submit => cases (mem_held entered).1
      | complete => cases (mem_entries entered).1
      | next index late new =>
          rw [MqState.enters] at entered
          cases get : mq.tasks[index]? with
          | none =>
              rw [get] at entered
              exact absurd entered List.not_mem_nil
          | some task =>
              rw [get] at entered
              obtain ⟨qid, entry, rfl, eq⟩ := enters_calling entered
              cases eq
              rcases once.base.sqMarked_wait get with same | wait
              · rw [same] at calling
                exact Or.inl (Or.inl calling)
              · refine Or.inr ⟨index, late, new, qid, rfl, get, ?_⟩
                exact (mem_wait (once.step _ timely).base).mpr wait
      | _ => exact absurd entered List.not_mem_nil
  · rcases (step_user op).1 req handed with old | call
    · exact Or.inl (Or.inr old)
    · obtain ⟨index, late, new, qid, rfl, get⟩ := of_callback_sqFn call
      refine Or.inl (Or.inl (Or.inl ⟨_, List.mem_of_getElem? get, ?_⟩))
      exact entry_mem (List.mem_singleton_self _)

/-- The submission of such an entry was early. -/
theorem Marks.early {after : MqState} (marks : Marks mq after op req)
    (own : n ∈ ((Mq.step conf mq op).entries req).opaqueOf) : mq.At .early n := by
  obtain ⟨index, late, new, qid, rfl, get, _⟩ := marks
  rw [opaque_of_not_written (by rw [opaqueWrite, get])] at own
  exact at_of_task (List.mem_of_getElem? get) (entry_mem (List.mem_singleton_self _)) own

/-- One step puts one entry in `sq_wait`. -/
theorem Marks.unique {after : MqState} {other : Nat} (marks : Marks mq after op req)
    (marksOther : Marks mq after op other) : req = other := by
  obtain ⟨index, late, new, qid, rfl, get, _⟩ := marks
  obtain ⟨index', late', new', qid', eq, get', _⟩ := marksOther
  cases eq
  rw [get] at get'
  cases get'
  rfl

/-- Behind the call of `sq_fn` the entry is not to be handed out again. -/
theorem OnceInv.not_calling (once : OnceInv conf mq) (handed : req ∈ mq.handed) :
    ¬ mq.Staged (.calling, .entry req) := by
  intro staged
  obtain ⟨qid, entry, eq, mem⟩ := calling_task staged
  cases eq
  refine Multiset.disjoint_left.mp (Multiset.nodup_add.mp once.claims).2.2 handed ?_
  exact mem_sum_map.mpr ⟨_, mem, Multiset.mem_singleton_self _⟩

/-- A completion takes the entry from the user. -/
theorem OnceInv.not_handed (once : OnceInv conf mq) (unlocked : ¬ mq.entryLocked req = true) :
    req ∉ (Mq.step conf mq (.complete req)).handed := by
  have nodup : mq.handed.Nodup := Multiset.coe_nodup.mp (Multiset.nodup_add.mp once.claims).1
  rw [Mq.step, oxMqCompleteReq, if_neg unlocked]
  dsimp only
  rw [(checkReq_user mq req).1]
  exact fun mem => (List.Nodup.mem_erase_iff nodup).mp mem |>.1 rfl

/-! ## Runs -/

namespace SeenInv

/-- An entry that the user has keeps its submission. -/
theorem opaque_given (inv : SeenInv conf mq log) (given : mq.Given req)
    (own : n ∈ ((Mq.step conf mq op).entries req).opaqueOf) : n ∈ (mq.entries req).opaqueOf := by
  rw [← inv.once.hands_opaqueOf (inv.once.inHands_given given)]
  exact own

/-- The submission of an entry that the user has is not early. -/
theorem given_early (inv : SeenInv conf mq log) (given : mq.Given req)
    (own : n ∈ (mq.entries req).opaqueOf) : ¬ mq.At .early n := by
  rcases given with calling | handed
  · exact (inv.early n (Or.inl ⟨_, calling, own⟩)).1
  · exact (inv.early n (Or.inr (inv.handed req handed n own).1)).1

theorem apart_step (inv : SeenInv conf mq log) (timely : Timely mq op) {other : Nat}
    (given : (Mq.step conf mq op).Given req) (givenOther : (Mq.step conf mq op).Given other)
    (own : n ∈ ((Mq.step conf mq op).entries req).opaqueOf)
    (ownOther : n ∈ ((Mq.step conf mq op).entries other).opaqueOf) : req = other := by
  rcases inv.once.given_step timely given with old | marks
  · have had := inv.opaque_given old own
    rcases inv.once.given_step timely givenOther with oldOther | marks
    · exact inv.apart req other n old oldOther had (inv.opaque_given oldOther ownOther)
    · exact absurd (marks.early ownOther) (inv.given_early old had)
  · rcases inv.once.given_step timely givenOther with oldOther | marksOther
    · have had := inv.opaque_given oldOther ownOther
      exact absurd (marks.early own) (inv.given_early oldOther had)
    · exact marks.unique marksOther

/-- A submission for which `sq_fn` is or was called was so before, or it is marked in this step. -/
theorem called_step (inv : SeenInv conf mq log) (timely : Timely mq op)
    (called : (Mq.step conf mq op).At .calling n ∨ .called n ∈ log ++ seen mq op) :
    (mq.At .calling n ∨ .called n ∈ log) ∨ ∃ req, Marks mq (Mq.step conf mq op) op req ∧
      n ∈ ((Mq.step conf mq op).entries req).opaqueOf := by
  rcases called with ⟨carrier, staged, own⟩ | mem
  · obtain ⟨_, req, rfl, _⟩ := calling_task staged
    rcases inv.once.given_step timely (Or.inl staged) with old | marks
    · have had := inv.opaque_given old own
      rcases old with calling | handed
      · exact Or.inl (Or.inl ⟨_, calling, had⟩)
      · exact Or.inl (Or.inr (inv.handed req handed n had).1)
    · exact Or.inr ⟨req, marks, own⟩
  · rcases List.mem_append.mp mem with old | isNew
    · exact Or.inl (Or.inr old)
    · obtain ⟨req, call, own⟩ := mem_seen_called isNew
      obtain ⟨_, _, _, _, _, get⟩ := of_callback_sqFn call
      exact Or.inl (Or.inl (at_of_task (List.mem_of_getElem? get)
        (entry_mem (List.mem_singleton_self _)) own))

theorem early_step (inv : SeenInv conf mq log) (timely : Timely mq op)
    (called : (Mq.step conf mq op).At .calling n ∨ .called n ∈ log ++ seen mq op) :
    ¬ (Mq.step conf mq op).At .early n ∧ n < (Mq.step conf mq op).nSubmitted := by
  have more : mq.nSubmitted ≤ (Mq.step conf mq op).nSubmitted := step_nSubmitted op
  rcases inv.called_step timely called with old | ⟨req, marks, own⟩
  · obtain ⟨notEarly, lt⟩ := inv.early n old
    refine ⟨fun isAt => ?_, lt_of_lt_of_le lt more⟩
    rcases inv.once.stage_origin isAt with before | fresh
    · exact notEarly before
    · exact absurd fresh (ne_of_lt lt)
  · have next := inv.once.step op timely
    have lt := inv.once.numbers n (inv.once.at_pending (marks.early own) (by decide))
    obtain ⟨_, _, _, qid, _, _, wait⟩ := marks
    exact ⟨next.early_apart wait own, lt_of_lt_of_le lt more⟩

theorem calling_step (inv : SeenInv conf mq log) (timely : Timely mq op)
    (called : .called n ∈ log ++ seen mq op) : ¬ (Mq.step conf mq op).At .calling n := by
  rintro isAt
  rcases List.mem_append.mp called with old | isNew
  · rcases inv.once.stage_origin isAt with before | early
    · exact inv.calling n old before
    · exact (inv.early n (Or.inr old)).1 early
  · obtain ⟨req, call, own⟩ := mem_seen_called isNew
    have next := inv.once.step op timely
    obtain ⟨index, late, new, qid, rfl, get⟩ := of_callback_sqFn call
    obtain ⟨carrier, staged, has⟩ := isAt
    obtain ⟨_, other, rfl, _⟩ := calling_task staged
    have handed : req ∈ (Mq.step conf mq (.next index late new)).handed := by
      simp only [Mq.step, get, taskStep]
      exact List.mem_append_right _ (List.mem_singleton_self req)
    have given : mq.Given req :=
      Or.inl (Or.inl ⟨_, List.mem_of_getElem? get, entry_mem (List.mem_singleton_self _)⟩)
    have kept : n ∈ ((Mq.step conf mq (.next index late new)).entries req).opaqueOf := by
      rw [inv.once.hands_opaqueOf (inv.once.inHands_given given)]
      exact own
    obtain rfl := inv.apart_step timely (Or.inr handed) (Or.inl staged) kept has
    exact next.not_calling handed staged

theorem handed_step (inv : SeenInv conf mq log) (timely : Timely mq op)
    (handed : req ∈ (Mq.step conf mq op).handed)
    (own : n ∈ ((Mq.step conf mq op).entries req).opaqueOf) :
    .called n ∈ log ++ seen mq op ∧ .returned n ∉ log ++ seen mq op := by
  rcases (step_user op).1 req handed with old | call
  · have had := inv.opaque_given (Or.inr old) own
    obtain ⟨called, notReturned⟩ := inv.handed req old n had
    refine ⟨List.mem_append_left _ called, fun mem => ?_⟩
    rcases List.mem_append.mp mem with before | back
    · exact notReturned before
    · obtain ⟨other, rfl, unlocked, ownOther⟩ := of_returns (mem_seen_returned.mp back)
      have has : other ∈ mq.handed := timely.1
      obtain rfl := inv.apart req other n (Or.inr old) (Or.inr has) had ownOther
      exact inv.once.not_handed unlocked handed
  · obtain ⟨index, late, new, qid, rfl, get⟩ := of_callback_sqFn call
    have staged : mq.Staged (.calling, .entry req) :=
      Or.inl ⟨_, List.mem_of_getElem? get, entry_mem (List.mem_singleton_self _)⟩
    have had := inv.opaque_given (Or.inl staged) own
    refine ⟨List.mem_append_right _ (seen_called call had), fun mem => ?_⟩
    rcases List.mem_append.mp mem with before | back
    · exact inv.calling n (inv.returned n before) ⟨_, staged, had⟩
    · rw [mem_seen_returned, returns_of_callback call] at back
      cases back

theorem told_step (inv : SeenInv conf mq log)
    (told : (Mq.step conf mq op).At .told n ∨ (Mq.step conf mq op).At .answered n) :
    .returned n ∈ log ++ seen mq op ∨ .timedOut n ∈ log ++ seen mq op := by
  have before (isAt : mq.At .told n ∨ mq.At .answered n) :
      .returned n ∈ log ++ seen mq op ∨ .timedOut n ∈ log ++ seen mq op :=
    (inv.told n isAt).imp (List.mem_append_left _) (List.mem_append_left _)
  rcases told with told | answered
  · rcases inv.once.stage_origin told with old | answers
    · exact before (Or.inl old)
    · exact answers.imp (List.mem_append_right _) (List.mem_append_right _)
  · rcases inv.once.stage_origin answered with old | told
    · exact before (Or.inr old)
    · exact before (Or.inl told)

/-- What the user sees of a step may follow what it has seen. -/
theorem keeps_step (inv : SeenInv conf mq log) (timely : Timely mq op) :
    Keeps Follows (log ++ seen mq op) := by
  cases called : callback mq op with
  | none =>
      have eq : seen mq op = ((returns mq op).map .returned).toList := by
        rw [seen, called, Option.elim_none, List.append_nil]
      rw [eq]
      refine inv.keeps.append_toList fun event mem => ?_
      obtain ⟨n, back, rfl⟩ := Option.mem_map.mp mem
      obtain ⟨req, rfl, _, own⟩ := of_returns back
      exact inv.handed req timely.1 n own
  | some call =>
      have eq : seen mq op = call.seen mq.entries := by
        rw [seen, called, returns_of_callback called]
        rfl
      rw [eq]
      cases call with
      | sqFn req =>
          refine inv.keeps.append_toList fun event mem => ?_
          obtain ⟨n, own, rfl⟩ := Option.mem_map.mp mem
          obtain ⟨_, _, _, _, _, get⟩ := of_callback_sqFn called
          exact fun old => inv.calling n old (at_of_task (List.mem_of_getElem? get)
            (entry_mem (List.mem_singleton_self _)) own)
      | toFn opaques =>
          refine inv.keeps.append fun before event mem => ?_
          obtain ⟨n, _, rfl⟩ := List.mem_map.mp mem
          trivial
      | cqFn n =>
          obtain ⟨_, _, _, qid, _, get⟩ := of_callback_cqFn called
          have mem := List.mem_of_getElem? get
          refine inv.keeps.snoc ⟨inv.told n (Or.inr (at_of_task mem held_mem rfl)), fun old => ?_⟩
          have nodup := inv.once.pending
          rw [MqState.pending] at nodup
          refine Multiset.disjoint_left.mp (Multiset.nodup_add.mp nodup).2.2 ?_
            ((inv.completed n).mp old)
          refine Multiset.mem_add.mpr (Or.inr (mem_sum_map.mpr ⟨_, mem, ?_⟩))
          exact Multiset.mem_singleton_self n

theorem step (inv : SeenInv conf mq log) (timely : Timely mq op) :
    SeenInv conf (Mq.step conf mq op) (log ++ seen mq op) where
  once := inv.once.step op timely
  apart _ _ _ := inv.apart_step timely
  early _ := inv.early_step timely
  calling _ := inv.calling_step timely
  handed _ mem _ := inv.handed_step timely mem
  returned n mem := by
    rcases List.mem_append.mp mem with old | back
    · exact List.mem_append_left _ (inv.returned n old)
    · obtain ⟨req, rfl, _, own⟩ := of_returns (mem_seen_returned.mp back)
      exact List.mem_append_left _ (inv.handed req timely.1 n own).1
  told _ := inv.told_step
  completed n := by
    rw [List.mem_append, inv.completed, mem_seen_completed]
    exact ((step_user op).2.1 n).symm
  keeps := inv.keeps_step timely

theorem init (conf : Config) : SeenInv conf (oxMqInit conf) [] := by
  have noStage {item : Stage × Carrier} (staged : (oxMqInit conf).Staged item) : False := by
    rcases staged with ⟨task, mem, _⟩ | ⟨queue, mem, own⟩
    · exact absurd mem List.not_mem_nil
    · obtain ⟨qid, _, rfl⟩ := List.mem_map.mp mem
      exact absurd own List.not_mem_nil
  exact {
    once := OnceInv.init conf
    apart := fun req other n given => by
      rcases given with staged | handed
      · exact (noStage staged).elim
      · exact absurd handed List.not_mem_nil
    early := fun n known => by
      rcases known with ⟨_, staged, _⟩ | mem
      · exact (noStage staged).elim
      · exact absurd mem List.not_mem_nil
    calling := fun n mem => absurd mem List.not_mem_nil
    handed := fun req mem => absurd mem List.not_mem_nil
    returned := fun n mem => absurd mem List.not_mem_nil
    told := fun n known => by
      rcases known with ⟨_, staged, _⟩ | ⟨_, staged, _⟩ <;> exact (noStage staged).elim
    completed := fun n =>
      ⟨fun mem => absurd mem List.not_mem_nil, fun mem => absurd mem List.not_mem_nil⟩
    keeps := Keeps.nil }

end SeenInv

/-- In every interleaving whose steps are timely, what the user sees of a submission comes in order:
one call of `sq_fn` at most, one completion by the user at most and behind that call, and one call
of `cq_fn` at most, behind a completion by the user or a call of `to_fn`. -/
theorem seen_in_order (conf : Config) (ops : List Op)
    (timely : (seenSystem conf).Allowed Timely (oxMqInit conf) ops) :
    Keeps Follows ((seenSystem conf).results (oxMqInit conf) ops).flatten := by
  have init : SeenInv conf (oxMqInit conf) ([] : List (List Seen)).flatten := SeenInv.init conf
  have inv := (seenSystem conf).run_results_invariant Timely
    (fun mq results => SeenInv conf mq results.flatten) (fun mq results op timely inv => by
      rw [List.flatten_append, List.flatten_singleton]
      exact inv.step timely) init timely
  rw [List.nil_append] at inv
  exact inv.keeps

theorem seen_in_order_timeout :
    Keeps Follows ((seenSystem smallConf).results (oxMqInit smallConf) timeoutRun).flatten :=
  seen_in_order smallConf timeoutRun (by decide +kernel)

end Seen

end OxCtrl.Mq
