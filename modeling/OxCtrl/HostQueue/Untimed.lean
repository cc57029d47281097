import OxCtrl.HostQueue.Answers

/-!
# Runs without timeouts

As long as the timeout thread takes no round, no command is completed behind the back of the host:
what is under way for a command is under way in front of its callback.  So every callback brings the
answer to its own command whatever the order of the steps.
-/

namespace OxCtrl.HostQueue

open OxCtrl.Lib OxCtrl.Mq OxCtrl.Fabrics

/-- The timeout thread takes no round, and a pair other than 0 sends its capsules.  The multi-queue
has no user but the host. -/
def HostOp.Untimed (qid : Nat) : HostOp → Prop
  | .mq (.toThread _) | .mq (.complete _) => False
  | .next _ ok => ok = true ∨ qid = 0
  | _ => True

/-- The timeout thread has taken no round. -/
structure Calm (mq : MqState) : Prop where
  tasks : ∀ task ∈ mq.tasks, task.isToRound = false
  status : ∀ req, (mq.entries req).status ≠ .timeout ∧ (mq.entries req).status ≠ .timeoutCompleted

section Mq

variable {conf : Config} {mq after : MqState} {index : Nat} {late : Bool} {new : Nat}

theorem Calm.next (calm : Calm mq) {left : List Task}
    (tasks : after.tasks = replaceAt mq.tasks index left)
    (leftCalm : ∀ task ∈ left, task.isToRound = false)
    (status : ∀ req, (after.entries req).status ≠ .timeout ∧
      (after.entries req).status ≠ .timeoutCompleted) : Calm after where
  tasks task mem := by
    rw [tasks] at mem
    rcases mem_replaceAt mem with old | isNew
    · exact calm.tasks task old
    · exact leftCalm task isNew
  status := status

theorem Calm.start (calm : Calm mq) {started : List Task}
    (tasks : after.tasks = mq.tasks ++ started)
    (startedCalm : ∀ task ∈ started, task.isToRound = false)
    (status : ∀ req, (after.entries req).status ≠ .timeout ∧
      (after.entries req).status ≠ .timeoutCompleted) : Calm after where
  tasks task mem := by
    rw [tasks] at mem
    rcases List.mem_append.mp mem with old | isNew
    · exact calm.tasks task old
    · exact startedCalm task isNew
  status := status

/-- An entry gets a status. -/
theorem Calm.update (calm : Calm mq) {changed : Nat} {value : Entry}
    (timeout : value.status ≠ .timeout) (completed : value.status ≠ .timeoutCompleted) (req : Nat) :
    (Function.update mq.entries changed value req).status ≠ .timeout ∧
      (Function.update mq.entries changed value req).status ≠ .timeoutCompleted := by
  by_cases eq : req = changed
  · rw [eq, Function.update_self]
    exact ⟨timeout, completed⟩
  · rw [Function.update_of_ne eq]
    exact calm.status req

theorem one_calm {task : Task} (calm : task.isToRound = false) :
    ∀ other ∈ [task], other.isToRound = false :=
  List.forall_mem_singleton.mpr calm

theorem none_calm : ∀ other ∈ ([] : List Task), other.isToRound = false :=
  fun _ mem => absurd mem List.not_mem_nil

theorem Calm.checkReq (calm : Calm mq) (entry req : Nat) :
    (((checkReq mq entry).1.entries) req).status ≠ .timeout ∧
      (((checkReq mq entry).1.entries) req).status ≠ .timeoutCompleted := by
  simp only [Mq.checkReq]
  split
  · exact calm.status req
  · split
    · exact calm.update (by simp) (by simp) req
    · exact calm.status req

theorem Calm.queueStep (calm : Calm mq) (queue : Queue) {task : Task}
    (noRound : task.isToRound = false) : Calm (queueStep conf mq index late new queue task) := by
  cases task with
  | submitFilled qid req =>
      exact calm.next rfl none_calm fun other => calm.update (by simp) (by simp) other
  | sqMarked qid req =>
      rw [Mq.queueStep]
      split
      · exact calm
      · exact calm.next rfl (one_calm rfl) calm.status
  | cqTook qid req =>
      exact calm.next rfl (one_calm rfl) fun other => calm.update (by simp [Entry.reset])
        (by simp [Entry.reset]) other
  | checked caller qid req =>
      cases caller with
      | timeout => cases noRound
      | user =>
          rw [Mq.queueStep]
          split
          · exact calm.next rfl none_calm calm.status
          · exact calm.next rfl (one_calm rfl) calm.status
  | removing caller qid req cqReq =>
      cases caller with
      | timeout => cases noRound
      | user =>
          rw [Mq.queueStep]
          split
          · exact calm
          · exact calm.next rfl (one_calm rfl) calm.status
  | removed caller qid req cqReq =>
      cases caller with
      | timeout => cases noRound
      | user =>
          exact calm.next rfl (one_calm rfl) fun other =>
            calm.update (by simp [Entry.reset]) (by simp [Entry.reset]) other
  | posting caller qid req cqReq =>
      cases caller with
      | timeout => cases noRound
      | user => exact calm.next rfl none_calm fun other => calm.update (by simp) (by simp) other
  | scanning | replacing => cases noRound
  | _ => exact calm

theorem Calm.taskStep (calm : Calm mq) {task : Task} (noRound : task.isToRound = false) :
    Calm (taskStep conf mq index late new task) := by
  have onQueue {qid : Nat} (either : Mq.taskStep conf mq index late new task = mq ∨
      ∃ queue, mq.queues[qid]? = some queue ∧
        Mq.taskStep conf mq index late new task = Mq.queueStep conf mq index late new queue task) :
      Calm (Mq.taskStep conf mq index late new task) := by
    rcases either with same | ⟨queue, found, same⟩
    · rw [same]
      exact calm
    · rw [same]
      exact calm.queueStep queue noRound
  cases task with
  | submitTook qid req opaqueOf =>
      exact calm.next rfl (one_calm rfl) fun other =>
        calm.update (by exact (calm.status req).1) (by exact (calm.status req).2) other
  | sqTook qid req =>
      exact calm.next rfl (one_calm rfl) fun other => calm.update (by simp) (by simp) other
  | sqQueued | cqFreed => exact calm.next rfl none_calm calm.status
  | took caller qid req cqReq =>
      cases caller with
      | timeout => cases noRound
      | user =>
          rw [Mq.taskStep]
          split
          · exact calm
          · refine calm.next rfl (one_calm ?_) fun other =>
              calm.update (by exact (calm.status cqReq).1) (by exact (calm.status cqReq).2) other
            split <;> rfl
  | scanning | replacing | timedOut | completing | marking => cases noRound
  | submitFilled | sqMarked | cqTook | checked | removing | removed | posting =>
      exact onQueue (taskStep_onQueue rfl)

theorem Calm.step (calm : Calm mq) (op : Op) (untimed : ∀ qid, op ≠ .toThread qid) :
    Calm (step conf mq op) := by
  cases op with
  | submit qid null =>
      rw [Mq.step, oxMqSubmitReq]
      split
      · exact calm
      · split
        · exact calm
        · exact calm.start rfl (one_calm rfl) calm.status
  | complete req =>
      rw [Mq.step, oxMqCompleteReq]
      split
      · exact calm
      · refine calm.start (congrArg (· ++ _) (checkReq_tasks mq req).2) (fun task mem => ?_)
          (calm.checkReq req)
        obtain ⟨qid, _, rfl⟩ := List.mem_map.mp mem
        rfl
  | sqThread qid | cqThread qid =>
      simp only [Mq.step, oxMqSqThread, oxMqCqThread]
      split
      · exact calm
      · split
        · exact calm
        · split
          · exact calm
          · exact calm.start rfl (one_calm rfl) calm.status
  | toThread qid => exact absurd rfl (untimed qid)
  | next index late new =>
      rw [Mq.step]
      split
      · exact calm
      · rename_i task get
        exact calm.taskStep (calm.tasks task (List.mem_of_getElem? get))

/-- The user has an entry of `sq_wait`. -/
theorem Calm.hands_wait (calm : Calm mq) (once : OnceInv conf mq) {req : Nat}
    (inHands : InHands conf mq req) : ∃ qid, (.sq qid .wait, req) ∈ mq.placed := by
  rcases inHands with wait | isLate | settled | ⟨done, _⟩
  · exact wait
  · exact absurd (once.base.placed.entries _ _ isLate).1 (calm.status req).1
  · exact absurd (once.base.placed.entries _ _ settled).1 (calm.status req).1
  · exact absurd done (calm.status req).2

theorem Calm.hands_fresh (calm : Calm mq) (once : OnceInv conf mq) {req n : Nat}
    (inHands : InHands conf mq req) (own : n ∈ (mq.entries req).opaqueOf) : n ∉ mq.completed := by
  obtain ⟨qid, wait⟩ := calm.hands_wait once inHands
  exact fun completed => once.not_wait own completed wait

end Mq

section Host

variable {qid : Nat} {host : Host} {seen : List Seen} {log : List Event}

/-- What is under way for a command is in front of its callback. -/
theorem HostInv.fresh (inv : HostInv qid host seen log) (calm : Calm host.mq) {n slot req : Nat}
    (handed : req ∈ host.mq.handed) (token : TokenOf host n slot req) : n ∉ host.mq.completed :=
  calm.hands_fresh inv.mq.once (inv.mq.once.handed req handed) token.1

theorem HostInv.mq_timely (inv : HostInv qid host seen log) (calm : Calm host.mq) {op : Op}
    (untimed : (HostOp.mq op).Untimed qid) : HostTimely qid host (.mq op) := by
  refine ⟨?_, fun call called => ?_⟩
  · cases op with
    | next index late new =>
        intro task get
        have noRound := calm.tasks task (List.mem_of_getElem? get)
        cases task with
        | scanning => cases noRound
        | _ => trivial
    | complete | toThread => exact untimed.elim
    | _ => trivial
  · cases call with
    | sqFn req =>
        intro n own
        obtain ⟨_, _, _, _, _, get⟩ := of_callback_sqFn called
        exact calm.hands_fresh inv.mq.once (inv.mq.once.tasks _ (List.mem_of_getElem? get)) own
    | _ => trivial

/-- Without timeouts every step is timely. -/
theorem HostInv.timely (inv : HostInv qid host seen log) (calm : Calm host.mq)
    (sends : ∀ n req, .aborting n req ∈ host.tasks → qid = 0) {op : HostOp}
    (untimed : op.Untimed qid) : HostTimely qid host op := by
  cases op with
  | submitIo => trivial
  | next index ok =>
      intro task get
      have mem := List.mem_of_getElem? get
      have ok := inv.tokens.tasks task mem
      cases task with
      | sending n slot req =>
          exact inv.fresh calm (inv.tokens.task_handed mem (Multiset.mem_singleton_self req)) ok
      | aborting n req => exact ⟨sends n req mem, (calm.status req).1⟩
      | received n slot req =>
          have fresh :=
            inv.fresh calm (inv.tokens.task_handed mem (Multiset.mem_singleton_self req)) ok
          exact ⟨fresh, fun other _ => (calm.status other).1⟩
      | _ => trivial
  | mq op => exact inv.mq_timely calm untimed
  | receive index reply =>
      intro capsule get
      have mem := List.mem_of_getElem? get
      obtain ⟨slot, token, _⟩ := inv.tokens.wire capsule mem
      exact inv.fresh calm (inv.tokens.wire_handed mem) token

theorem oxfHostCallback_mq (after : MqState) (call : Callback) :
    (oxfHostCallback host after call).1.mq = after ∧
      ∀ n req, .aborting n req ∈ (oxfHostCallback host after call).1.tasks →
        .aborting n req ∈ host.tasks := by
  cases call with
  | sqFn req =>
      rw [oxfHostCallback]
      split
      · exact ⟨rfl, fun _ _ mem => mem⟩
      · split
        · exact ⟨rfl, fun _ _ mem => mem⟩
        · exact ⟨rfl, fun _ _ mem => (List.mem_append.mp mem).resolve_right (by simp)⟩
  | toFn numbers => exact ⟨rfl, fun _ _ mem => mem⟩
  | cqFn n =>
      rw [oxfHostCallback]
      split
      · exact ⟨rfl, fun _ _ mem => mem⟩
      · exact ⟨rfl, fun _ _ mem => (List.mem_append.mp mem).resolve_right (by simp)⟩

/-- What a step does to the multi-queue, and to the requests given up. -/
structure Calmly (qid : Nat) (host after : Host) : Prop where
  mq : after.mq = host.mq ∨ ∃ op : Op, after.mq = Mq.step hostConf host.mq op ∧
    ∀ qid, op ≠ .toThread qid
  aborting : ∀ n req, .aborting n req ∈ after.tasks → .aborting n req ∈ host.tasks ∨ qid = 0

theorem Calmly.refl : Calmly qid host host :=
  ⟨Or.inl rfl, fun _ _ mem => Or.inl mem⟩

theorem Calmly.next {after : Host} {index : Nat} (left : List HostTask)
    (mq : after.mq = host.mq ∨ ∃ op : Op, after.mq = Mq.step hostConf host.mq op ∧
      ∀ qid, op ≠ .toThread qid)
    (tasks : after.tasks = replaceAt host.tasks index left)
    (none : ∀ n req, .aborting n req ∈ left → qid = 0) : Calmly qid host after where
  mq := mq
  aborting n req mem := by
    rw [tasks] at mem
    exact (mem_replaceAt mem).imp_right (none n req)

theorem completeReq_calmly (index req : Nat) : Calmly qid host (completeReq host index req) := by
  rw [completeReq]
  split
  · exact Calmly.refl
  · exact Calmly.next [] (Or.inr ⟨.complete req, rfl, by simp⟩) rfl (by simp)

theorem hostTaskStep_calmly {index : Nat} {ok : Bool} (sends : ok = true ∨ qid = 0)
    (task : HostTask) : Calmly qid host (hostTaskStep qid host index ok task).1 := by
  cases task with
  | filling call slot command =>
      simp only [hostTaskStep, fillSlot]
      split
      · exact Calmly.refl
      · split <;> exact Calmly.next _ (Or.inl rfl) rfl (by simp)
  | submitting call slot =>
      simp only [hostTaskStep, submitSlot]
      split
      · exact Calmly.next [] (Or.inr ⟨.submit 0 false, rfl, by simp⟩) rfl (by simp)
      · exact Calmly.next _ (Or.inl rfl) rfl (by simp)
  | refusing | calledBack => exact Calmly.next [] (Or.inl rfl) rfl (by simp)
  | sending n slot req =>
      rw [hostTaskStep, sendSlot]
      split
      · exact Calmly.next [] (Or.inl rfl) rfl (by simp)
      · rename_i failed
        have zero := sends.resolve_left failed
        split
        · exact Calmly.refl
        · split
          · exact Calmly.refl
          · exact Calmly.next _ (Or.inl rfl) rfl fun _ _ _ => zero
  | aborting n req => exact completeReq_calmly index req
  | received n slot req =>
      rw [hostTaskStep]
      split
      · exact Calmly.refl
      · exact completeReq_calmly index _

theorem hostStep_calmly {op : HostOp} (untimed : op.Untimed qid) :
    Calmly qid host (hostStep qid host op).1 := by
  have more {after : Host} (left : List HostTask) (mq : after.mq = host.mq)
      (tasks : after.tasks = host.tasks ++ left) (none : ∀ n req, .aborting n req ∉ left) :
      Calmly qid host after := by
    refine ⟨Or.inl mq, fun n req mem => Or.inl ?_⟩
    rw [tasks] at mem
    exact (List.mem_append.mp mem).resolve_right (none n req)
  cases op with
  | submitIo command lastRound =>
      rw [hostStep, oxfHostSubmitIo]
      split
      · exact more [] rfl (List.append_nil _).symm (by simp)
      · split
        · split
          · exact more [] rfl (List.append_nil _).symm (by simp)
          · exact Calmly.refl
        · exact more _ rfl rfl (by simp)
  | next index ok =>
      rw [hostStep]
      split
      · exact Calmly.refl
      · exact hostTaskStep_calmly untimed _
  | mq op =>
      have own (noRound : ∀ qid, op ≠ .toThread qid)
          (either : (Mq.callback host.mq op = none ∧
              hostMqStep host op = ({ host with mq := Mq.step hostConf host.mq op }, [])) ∨
            ∃ call, Mq.callback host.mq op = some call ∧
              hostMqStep host op = oxfHostCallback host (Mq.step hostConf host.mq op) call) :
          Calmly qid host (hostMqStep host op).1 := by
        rcases either with ⟨_, eq⟩ | ⟨call, _, eq⟩
        · rw [eq]
          exact ⟨Or.inr ⟨op, rfl, noRound⟩, fun _ _ mem => Or.inl mem⟩
        · rw [eq]
          obtain ⟨same, aborting⟩ := @oxfHostCallback_mq host (Mq.step hostConf host.mq op) call
          exact ⟨Or.inr ⟨op, same, noRound⟩, fun n req mem => Or.inl (aborting n req mem)⟩
      cases op with
      | submit | complete => exact Calmly.refl
      | toThread => exact untimed.elim
      | _ => exact own (by simp) (hostMqStep_either rfl)
  | receive index reply =>
      rw [hostStep]
      split
      · exact Calmly.refl
      · simp only [oxfHostRcvFn]
        split
        · exact more [] rfl (List.append_nil _).symm (by simp)
        · split
          · exact more _ rfl rfl (by simp)
          · split
            · exact more _ rfl rfl (by simp)
            · exact more _ rfl rfl (by simp)

/-- Without timeouts, whatever the order of the steps, the user's function is called once at most
for a command and with the answer to it, each call of `oxf_host_submit_io` returns once, and a
capsule is sent once and as it was submitted. -/
theorem answers_in_order_untimed (qid : Nat) (narrow : qid < 32) (mem : Nat → UInt8)
    (ops : List HostOp) (untimed : ∀ op ∈ ops, op.Untimed qid) :
    Keeps HostFollows ((hostSystem qid).results (oxfHostCreateQueue mem) ops).flatten := by
  have init : ∃ seen, HostInv qid (oxfHostCreateQueue mem) seen ([] : List (List Event)).flatten ∧
      Calm (oxfHostCreateQueue mem).mq ∧
        ∀ n req, .aborting n req ∈ (oxfHostCreateQueue mem).tasks → qid = 0 := by
    refine ⟨[], HostInv.init mem, ⟨fun _ mem => absurd mem List.not_mem_nil, fun _ => ?_⟩,
      fun _ _ mem => absurd mem List.not_mem_nil⟩
    exact ⟨(by decide : Status.unset ≠ .timeout), (by decide : Status.unset ≠ .timeoutCompleted)⟩
  have inv := (hostSystem qid).run_results_invariant (fun _ op => op.Untimed qid)
    (fun host results => ∃ seen, HostInv qid host seen results.flatten ∧ Calm host.mq ∧
      ∀ n req, .aborting n req ∈ host.tasks → qid = 0)
    (fun host results op untimed inv => by
      obtain ⟨seen, inv, calm, sends⟩ := inv
      obtain ⟨more, next⟩ := inv.step narrow op (inv.timely calm sends untimed)
      have calmly : Calmly qid host (hostStep qid host op).1 := hostStep_calmly untimed
      rw [List.flatten_append, List.flatten_singleton]
      refine ⟨_, next, ?_, fun n req mem => ?_⟩
      · rcases calmly.mq with same | ⟨mqOp, same, noRound⟩
        · exact same ▸ calm
        · exact same ▸ calm.step mqOp noRound
      · exact (calmly.aborting n req mem).elim (sends n req) id)
    init ((hostSystem qid).allowed_of_forall_mem untimed _)
  obtain ⟨_, inv, _⟩ := inv
  rw [List.nil_append] at inv
  exact inv.keeps

end Host

instance instDecidableUntimed (qid : Nat) : (op : HostOp) → Decidable (op.Untimed qid)
  | .mq (.toThread _) | .mq (.complete _) => isFalse id
  | .next _ _ => inferInstanceAs (Decidable (_ ∨ _))
  | .submitIo _ _ | .receive _ _ | .mq (.submit _ _) | .mq (.sqThread _) | .mq (.cqThread _)
  | .mq (.next _ _ _) => isTrue trivial

theorem answers_in_order_untimed_read :
    Keeps HostFollows ((hostSystem 1).results (oxfHostCreateQueue fun _ => 0) readRun).flatten :=
  answers_in_order_untimed 1 (by decide) _ readRun (by decide +kernel)

end OxCtrl.HostQueue
