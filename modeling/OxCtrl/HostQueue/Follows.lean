import OxCtrl.HostQueue.Slots

/-!
# What may happen to a command

A command is submitted or refused once, its capsule is sent once, and its callback comes once, with
an answer.  The steps are timely when nothing of a command is under way behind its callback.  In
such runs the slots hold the commands of the submissions whose callbacks have not come, and the
multi-queue waits for the requests that the host has to complete.
-/

namespace OxCtrl.HostQueue

open OxCtrl.Lib OxCtrl.Mq OxCtrl.Fabrics

/-! ## What the user may see -/

/-- The capsule of a call is sent or given up. -/
def Left (log : List Event) (call : Nat) : Prop :=
  (∃ capsule, .sent call capsule ∈ log) ∨ .aborted call ∈ log

/-- A completion entry that answers a call. -/
def Answer (log : List Event) (call : Nat) (cqe : Cqe) : Prop :=
  (∃ data, .received call cqe data ∈ log) ∨
    (cqe.status = nvmeHostTimeout ∧ .timedOut call ∈ log) ∨
      cqe.status = nvmeNotSubmitted ∧ .aborted call ∈ log

/-- `oxf_host_submit_io` has not returned. -/
def Unreturned (log : List Event) (call : Nat) : Prop :=
  .refused call ∉ log ∧ ∀ isWrite capsule, .submitted call isWrite capsule ∉ log

/-- What may happen next to a call. -/
def HostFollows (before : List Event) : Event → Prop
  | .submitted call _ _ | .refused call => Unreturned before call
  | .sent call capsule =>
      (∃ isWrite, .submitted call isWrite capsule ∈ before) ∧ ¬ Left before call
  | .aborted call => (∃ isWrite capsule, .submitted call isWrite capsule ∈ before) ∧
      ¬ Left before call
  | .received call _ _ =>
      (∃ capsule, .sent call capsule ∈ before) ∧ ∀ cqe data, .received call cqe data ∉ before
  | .stored call sgl data =>
      (∃ capsule, .submitted call false capsule ∈ before ∧ sgl = capsule.capsule.sgl) ∧
        ∃ cqe, .received call cqe data ∈ before
  | .timedOut call => ∃ isWrite capsule, .submitted call isWrite capsule ∈ before
  | .called call cqe => Answer before call cqe ∧ ∀ other, .called call other ∉ before

/-! ## Steps in time -/

/-- A task goes on before the callback of its command, and completes no request that the timeout
thread has.  An aborted request is one of pair 0. -/
def TimelyHostTask (qid : Nat) (host : Host) : HostTask → Prop
  | .sending n _ _ => n ∉ host.mq.completed
  | .aborting _ req => qid = 0 ∧ (host.mq.entries req).status ≠ .timeout
  | .received n slot _ =>
      n ∉ host.mq.completed ∧
        ∀ req ∈ (host.slots slot).mqReq, (host.mq.entries req).status ≠ .timeout
  | _ => True

/-- `sq_fn` is called before the callback of the command. -/
def TimelyCallback (mq : MqState) : Callback → Prop
  | .sqFn req => ∀ n ∈ (mq.entries req).opaqueOf, n ∉ mq.completed
  | _ => True

/-- The next step is timely: nothing of a command is under way when its callback has come. -/
def HostTimely (qid : Nat) (host : Host) : HostOp → Prop
  | .submitIo _ _ => True
  | .next index _ => ∀ task ∈ host.tasks[index]?, TimelyHostTask qid host task
  | .mq op => Timely host.mq op ∧ ∀ call ∈ callback host.mq op, TimelyCallback host.mq call
  | .receive index _ => ∀ capsule ∈ host.wire[index]?, capsule.n ∉ host.mq.completed

instance instDecidableTimelyHostTask (qid : Nat) (host : Host) :
    (task : HostTask) → Decidable (TimelyHostTask qid host task)
  | .sending _ _ _ => inferInstanceAs (Decidable (_ ∉ _))
  | .aborting _ _ => inferInstanceAs (Decidable (_ ∧ _))
  | .received _ _ _ => inferInstanceAs (Decidable (_ ∧ _))
  | .filling _ _ _ | .submitting _ _ | .refusing _ _ | .calledBack _ => isTrue trivial

instance instDecidableTimelyCallback (mq : MqState) :
    (call : Callback) → Decidable (TimelyCallback mq call)
  | .sqFn _ => inferInstanceAs (Decidable (∀ _ ∈ _, _))
  | .toFn _ | .cqFn _ => isTrue trivial

instance instDecidableHostTimely (qid : Nat) (host : Host) :
    (op : HostOp) → Decidable (HostTimely qid host op)
  | .submitIo _ _ => isTrue trivial
  | .next _ _ => inferInstanceAs (Decidable (∀ _ ∈ _, _))
  | .mq _ => inferInstanceAs (Decidable (_ ∧ _))
  | .receive _ _ => inferInstanceAs (Decidable (∀ _ ∈ _, _))

/-! ## The invariant -/

/-- What the user wrote into a slot. -/
structure QueueCmd.Filled (qid slot call : Nat) (cmd : QueueCmd) : Prop where
  ctx : cmd.ctx = some call
  cid : cmd.capsule.capsule.cmd.cid = UInt16.ofNat (slotCid qid slot)

/-- Slots hold the commands of their calls. -/
structure Owned (qid : Nat) (host : Host) (log : List Event) : Prop where
  preparing : ∀ call slot, .submitting call slot ∈ host.tasks →
    (host.slots slot).Filled qid slot call
  live : ∀ n pointer, host.Live n pointer →
    (host.slots pointer.slot).Filled qid pointer.slot pointer.call ∧
      .submitted pointer.call (host.slots pointer.slot).isWrite (host.slots pointer.slot).capsule ∈
        log
  every : ∀ pointer ∈ host.opaques, ∃ isWrite capsule, .submitted pointer.call isWrite capsule ∈ log

/-- A request of the multi-queue that the host has to complete. -/
def HostTask.token : HostTask → Multiset Nat
  | sending _ _ req | aborting _ req | received _ _ req => {req}
  | _ => 0

/-- The entry has the submission, and the slot of the submission has the entry. -/
def TokenOf (host : Host) (n slot req : Nat) : Prop :=
  n ∈ (host.mq.entries req).opaqueOf ∧ ∃ pointer, host.opaques[n]? = some pointer ∧
    pointer.slot = slot ∧ (n ∉ host.mq.completed → (host.slots slot).mqReq = some req)

/-- What a task relies on. -/
def TokenOk (host : Host) : HostTask → Prop
  | .sending n slot req | .received n slot req => TokenOf host n slot req
  | .aborting n req => ∃ slot, TokenOf host n slot req
  | _ => True

/-- The requests that the host has to complete are distinct, and the multi-queue waits for them. -/
structure Tokens (qid : Nat) (host : Host) : Prop where
  handed : (host.tasks.map HostTask.token).sum + ↑(host.wire.map OnWire.req) ≤
    (↑host.mq.handed : Multiset Nat)
  tasks : ∀ task ∈ host.tasks, TokenOk host task
  wire : ∀ item ∈ host.wire, ∃ slot, TokenOf host item.n slot item.req ∧ item.cid = wireCid qid slot

/-- The multi-queue has an answer for the submission, or will get it. -/
def Due (host : Host) (n : Nat) : Prop :=
  host.mq.At .told n ∨ host.mq.At .answered n ∨
    (∃ slot req, .received n slot req ∈ host.tasks) ∨ ∃ req, .aborting n req ∈ host.tasks

/-- How far the calls are. -/
structure Progress (host : Host) (seen : List Seen) (log : List Event) : Prop where
  due : ∀ n pointer, host.Live n pointer → Due host n →
    Answer log pointer.call (host.slots pointer.slot).cqe
  sending : ∀ n slot req pointer, .sending n slot req ∈ host.tasks →
    host.opaques[n]? = some pointer → ¬ Left log pointer.call
  left : ∀ call, Left log call → ∃ n pointer, host.opaques[n]? = some pointer ∧
    pointer.call = call ∧ .called n ∈ seen
  wire : ∀ item ∈ host.wire, ∀ pointer, host.opaques[item.n]? = some pointer →
    (∃ capsule, .sent pointer.call capsule ∈ log) ∧
      ∀ cqe data, .received pointer.call cqe data ∉ log
  received : ∀ call cqe data, .received call cqe data ∈ log → Left log call
  called : ∀ call cqe, .called call cqe ∈ log → ∃ n pointer, host.opaques[n]? = some pointer ∧
    pointer.call = call ∧ n ∈ host.mq.completed
  refused : ∀ call, .refused call ∈ log → call < host.nCalls ∧ call ∉ host.calls
  submitted : ∀ call isWrite capsule, .submitted call isWrite capsule ∈ log →
    ∃ pointer ∈ host.opaques, pointer.call = call

/-- What holds in every state of a timely run, with what has happened. -/
structure HostInv (qid : Nat) (host : Host) (seen : List Seen) (log : List Event) : Prop where
  mq : SeenInv hostConf host.mq seen
  accounts : Accounts host
  numbered : Numbered host
  owned : Owned qid host log
  tokens : Tokens qid host
  progress : Progress host seen log
  keeps : Keeps HostFollows log

/-! ## Frames -/

section Frame

variable {qid : Nat} {host after : Host} {seen : List Seen} {log new : List Event}

/-- Both have the same command. -/
def QueueCmd.Same (cmd other : QueueCmd) : Prop :=
  cmd.ctx = other.ctx ∧ cmd.isWrite = other.isWrite ∧ cmd.capsule = other.capsule

theorem QueueCmd.Same.filled {cmd other : QueueCmd} (same : cmd.Same other) {slot call : Nat}
    (filled : other.Filled qid slot call) : cmd.Filled qid slot call := by
  obtain ⟨ctx, _, capsule⟩ := same
  exact ⟨by rw [ctx, filled.ctx], by rw [capsule, filled.cid]⟩

/-- No slot gets another command, and no submission comes. -/
theorem Owned.keep (owned : Owned qid host log) (opaques : after.opaques = host.opaques)
    (completed : ∀ n ∈ host.mq.completed, n ∈ after.mq.completed)
    (slots : ∀ slot, (after.slots slot).Same (host.slots slot))
    (tasks : ∀ call slot,
      .submitting call slot ∈ after.tasks → .submitting call slot ∈ host.tasks) :
    Owned qid after (log ++ new) where
  preparing call slot mem := (slots slot).filled (owned.preparing call slot (tasks call slot mem))
  live n pointer live := by
    obtain ⟨_, isWrite, capsule⟩ := slots pointer.slot
    rw [Host.Live, opaques] at live
    obtain ⟨filled, submitted⟩ := owned.live n pointer ⟨live.1, fun mem => live.2 (completed n mem)⟩
    rw [isWrite, capsule]
    exact ⟨(slots pointer.slot).filled filled, List.mem_append_left _ submitted⟩
  every pointer mem := by
    rw [opaques] at mem
    obtain ⟨isWrite, capsule, submitted⟩ := owned.every pointer mem
    exact ⟨isWrite, capsule, List.mem_append_left _ submitted⟩

/-- The slot of the submission keeps its entry. -/
theorem TokenOf.keep {n slot req : Nat} (token : TokenOf host n slot req)
    (opaques : ∀ pointer, host.opaques[n]? = some pointer → after.opaques[n]? = some pointer)
    (entry : (after.mq.entries req).opaqueOf = (host.mq.entries req).opaqueOf)
    (completed : n ∈ host.mq.completed → n ∈ after.mq.completed)
    (slots : n ∉ after.mq.completed → (after.slots slot).mqReq = (host.slots slot).mqReq) :
    TokenOf after n slot req := by
  obtain ⟨own, pointer, get, eq, has⟩ := token
  refine ⟨by rwa [entry], pointer, opaques pointer get, eq, fun fresh => ?_⟩
  rw [slots fresh]
  exact has fun mem => fresh (completed mem)

theorem TokenOk.keep {task : HostTask} (ok : TokenOk host task)
    (keep : ∀ n slot req, req ∈ task.token → TokenOf host n slot req → TokenOf after n slot req) :
    TokenOk after task := by
  cases task with
  | sending n slot req | received n slot req =>
      exact keep n slot req (Multiset.mem_singleton_self _) ok
  | aborting n req =>
      obtain ⟨slot, token⟩ := ok
      exact ⟨slot, keep n slot req (Multiset.mem_singleton_self _) token⟩
  | _ => trivial

theorem Tokens.task_handed (tokens : Tokens qid host) {task : HostTask} (mem : task ∈ host.tasks)
    {req : Nat} (own : req ∈ task.token) : req ∈ host.mq.handed := by
  rw [← Multiset.mem_coe]
  exact Multiset.mem_of_le tokens.handed
    (Multiset.mem_add.mpr (Or.inl (mem_sum_map.mpr ⟨task, mem, own⟩)))

theorem Tokens.wire_handed (tokens : Tokens qid host) {item : OnWire} (mem : item ∈ host.wire) :
    item.req ∈ host.mq.handed := by
  rw [← Multiset.mem_coe]
  exact Multiset.mem_of_le tokens.handed
    (Multiset.mem_add.mpr (Or.inr (Multiset.mem_coe.mpr (List.mem_map_of_mem mem))))

/-- The host goes on with its requests. -/
theorem Tokens.step (tokens : Tokens qid host)
    (handed : (after.tasks.map HostTask.token).sum + ↑(after.wire.map OnWire.req) ≤
      (↑after.mq.handed : Multiset Nat))
    (keep : ∀ n slot req, req ∈ host.mq.handed → TokenOf host n slot req → TokenOf after n slot req)
    (tasks : ∀ task ∈ after.tasks, task ∈ host.tasks ∨ TokenOk after task)
    (wire : ∀ item ∈ after.wire, item ∈ host.wire ∨
      ∃ slot, TokenOf after item.n slot item.req ∧ item.cid = wireCid qid slot) :
    Tokens qid after where
  handed := handed
  tasks task mem := by
    rcases tasks task mem with old | isNew
    · refine (tokens.tasks task old).keep fun n slot req own => ?_
      exact keep n slot req (tokens.task_handed old own)
    · exact isNew
  wire item mem := by
    rcases wire item mem with old | isNew
    · obtain ⟨slot, token, cid⟩ := tokens.wire item old
      exact ⟨slot, keep item.n slot item.req (tokens.wire_handed old) token, cid⟩
    · exact isNew

/-- How far the calls are behind a step. -/
theorem Progress.step (progress : Progress host seen log) {more : List Seen}
    (opaques : ∀ (n : Nat) (pointer : Opaque), host.opaques[n]? = some pointer →
      after.opaques[n]? = some pointer)
    (completed : ∀ n ∈ host.mq.completed, n ∈ after.mq.completed)
    (due : ∀ n pointer, after.Live n pointer → Due after n →
      (host.Live n pointer ∧ Due host n ∧
          (after.slots pointer.slot).cqe = (host.slots pointer.slot).cqe) ∨
        Answer (log ++ new) pointer.call (after.slots pointer.slot).cqe)
    (sending : ∀ n slot req pointer, .sending n slot req ∈ after.tasks →
      after.opaques[n]? = some pointer → ¬ Left log pointer.call ∧ ¬ Left new pointer.call)
    (left : ∀ call, Left new call → ∃ n pointer, after.opaques[n]? = some pointer ∧
      pointer.call = call ∧ .called n ∈ seen ++ more)
    (wire : ∀ item ∈ after.wire, ∀ pointer, after.opaques[item.n]? = some pointer →
      (∃ capsule, .sent pointer.call capsule ∈ log ++ new) ∧
        ∀ cqe data, .received pointer.call cqe data ∉ log ++ new)
    (received : ∀ call cqe data, .received call cqe data ∈ new → Left log call)
    (called : ∀ call cqe, .called call cqe ∈ new → ∃ n pointer, after.opaques[n]? = some pointer ∧
      pointer.call = call ∧ n ∈ after.mq.completed)
    (refused : ∀ call, .refused call ∈ new → call < after.nCalls ∧ call ∉ after.calls)
    (calls : host.nCalls ≤ after.nCalls)
    (older : ∀ call ∈ after.calls, call < host.nCalls → call ∈ host.calls)
    (submitted : ∀ call isWrite capsule, .submitted call isWrite capsule ∈ new →
      ∃ pointer ∈ after.opaques, pointer.call = call) :
    Progress after (seen ++ more) (log ++ new) where
  due n pointer live isDue := by
    rcases due n pointer live isDue with ⟨was, old, same⟩ | isNew
    · rw [same]
      rcases progress.due n pointer was old with ⟨data, mem⟩ | ⟨status, mem⟩ | ⟨status, mem⟩
      · exact Or.inl ⟨data, List.mem_append_left _ mem⟩
      · exact Or.inr (Or.inl ⟨status, List.mem_append_left _ mem⟩)
      · exact Or.inr (Or.inr ⟨status, List.mem_append_left _ mem⟩)
    · exact isNew
  sending n slot req pointer mem get := by
    obtain ⟨old, isNew⟩ := sending n slot req pointer mem get
    rintro (⟨capsule, own⟩ | own)
    · rcases List.mem_append.mp own with own | own
      · exact old (Or.inl ⟨capsule, own⟩)
      · exact isNew (Or.inl ⟨capsule, own⟩)
    · rcases List.mem_append.mp own with own | own
      · exact old (Or.inr own)
      · exact isNew (Or.inr own)
  left call has := by
    have either : Left log call ∨ Left new call := by
      rcases has with ⟨capsule, own⟩ | own
      · exact (List.mem_append.mp own).imp (fun mem => Or.inl ⟨capsule, mem⟩)
          fun mem => Or.inl ⟨capsule, mem⟩
      · exact (List.mem_append.mp own).imp Or.inr Or.inr
    rcases either with old | isNew
    · obtain ⟨n, pointer, get, eq, mem⟩ := progress.left call old
      exact ⟨n, pointer, opaques n pointer get, eq, List.mem_append_left _ mem⟩
    · exact left call isNew
  wire := wire
  received call cqe data mem := by
    have old : Left log call := by
      rcases List.mem_append.mp mem with old | isNew
      · exact progress.received call cqe data old
      · exact received call cqe data isNew
    exact old.imp (fun ⟨capsule, own⟩ => ⟨capsule, List.mem_append_left _ own⟩)
      (List.mem_append_left _)
  called call cqe mem := by
    rcases List.mem_append.mp mem with old | isNew
    · obtain ⟨n, pointer, get, eq, done⟩ := progress.called call cqe old
      exact ⟨n, pointer, opaques n pointer get, eq, completed n done⟩
    · exact called call cqe isNew
  refused call mem := by
    rcases List.mem_append.mp mem with old | isNew
    · obtain ⟨lt, notMem⟩ := progress.refused call old
      exact ⟨lt_of_lt_of_le lt calls, fun own => notMem (older call own lt)⟩
    · exact refused call isNew
  submitted call isWrite capsule mem := by
    rcases List.mem_append.mp mem with old | isNew
    · obtain ⟨pointer, own, eq⟩ := progress.submitted call isWrite capsule old
      obtain ⟨n, get⟩ := List.getElem?_of_mem own
      exact ⟨pointer, List.mem_of_getElem? (opaques n pointer get), eq⟩
    · exact submitted call isWrite capsule isNew

/-- The event says nothing of sending, replies and callbacks. -/
def Event.quiet : Event → Bool
  | timedOut _ | stored _ _ _ => true
  | _ => false

/-- A step that brings no submission, and no event but quiet ones. -/
theorem Progress.keep (progress : Progress host seen log) {more : List Seen}
    (opaques : after.opaques = host.opaques)
    (completed : ∀ n ∈ host.mq.completed, n ∈ after.mq.completed)
    (due : ∀ n pointer, after.Live n pointer → Due after n →
      (host.Live n pointer ∧ Due host n ∧
          (after.slots pointer.slot).cqe = (host.slots pointer.slot).cqe) ∨
        Answer (log ++ new) pointer.call (after.slots pointer.slot).cqe)
    (sending : ∀ n slot req, .sending n slot req ∈ after.tasks →
      .sending n slot req ∈ host.tasks ∨
        ∀ pointer, host.opaques[n]? = some pointer → ¬ Left log pointer.call)
    (wire : after.wire = host.wire) (calls : host.nCalls ≤ after.nCalls)
    (older : ∀ call ∈ after.calls, call < host.nCalls → call ∈ host.calls)
    (quiet : ∀ event ∈ new, event.quiet = true) : Progress after (seen ++ more) (log ++ new) := by
  have loud {event : Event} {P : Prop} (mem : event ∈ new) (isLoud : event.quiet = false) : P := by
    rw [quiet event mem] at isLoud
    cases isLoud
  refine progress.step (fun n pointer get => by rwa [opaques]) completed due
    (fun n slot req pointer mem get => ⟨?_, ?_⟩) (fun call has => ?_)
    (fun item mem pointer get => ?_)
    (fun call cqe data mem => loud mem rfl) (fun call cqe mem => loud mem rfl)
    (fun call mem => loud mem rfl) calls older fun call isWrite capsule mem => loud mem rfl
  · rw [opaques] at get
    rcases sending n slot req mem with old | fresh
    · exact progress.sending n slot req pointer old get
    · exact fresh pointer get
  · rintro (⟨capsule, own⟩ | own)
    · exact loud own rfl
    · exact loud own rfl
  · rcases has with ⟨capsule, own⟩ | own
    · exact loud own rfl
    · exact loud own rfl
  · rw [wire] at mem
    rw [opaques] at get
    obtain ⟨⟨capsule, sent⟩, unheard⟩ := progress.wire item mem pointer get
    refine ⟨⟨capsule, List.mem_append_left _ sent⟩, fun cqe data own => ?_⟩
    rcases List.mem_append.mp own with old | isNew
    · exact unheard cqe data old
    · exact loud isNew rfl

end Frame

end OxCtrl.HostQueue
