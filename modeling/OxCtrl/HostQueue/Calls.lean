import OxCtrl.HostQueue.Follows

/-!
# Calls of the user

A call of `oxf_host_submit_io` has its slot to itself until `ox_mq_submit_req` has taken it, and the
call of `cq_fn` behind the callback.
-/

namespace OxCtrl.HostQueue

open OxCtrl.Lib OxCtrl.Mq OxCtrl.Fabrics

section Step

variable {qid : Nat} {host after : Host} {seen : List Seen} {log : List Event} {index : Nat}
  {task : HostTask} {left : List HostTask}

theorem sum_next_le (f : HostTask → Multiset Nat) (get : host.tasks[index]? = some task)
    (tasks : after.tasks = replaceAt host.tasks index left) (le : (left.map f).sum ≤ f task) :
    (after.tasks.map f).sum ≤ (host.tasks.map f).sum := by
  have sum := sum_next f get tasks
  refine le_of_add_le_add_right (a := f task) ?_
  rw [sum]
  exact add_le_add_right le _

/-- No call begins. -/
theorem calls_older (opaques : after.opaques = host.opaques)
    (fewer : (after.tasks.map HostTask.call).sum ≤ (host.tasks.map HostTask.call).sum) :
    ∀ call ∈ after.calls, call < host.nCalls → call ∈ host.calls := by
  intro call mem _
  refine Multiset.mem_of_le ?_ mem
  rw [Host.calls, Host.calls, opaques]
  exact add_le_add_left fewer _

/-- The task will complete a request. -/
def HostTask.answers : HostTask → Bool
  | received _ _ _ | aborting _ _ => true
  | _ => false

theorem Due.of_tasks {n : Nat} (due : Due after n) (mq : after.mq = host.mq)
    (tasks : ∀ task ∈ after.tasks, task ∈ host.tasks ∨ task.answers = false) : Due host n := by
  rcases due with told | answered | ⟨slot, req, mem⟩ | ⟨req, mem⟩
  · exact Or.inl (mq ▸ told)
  · exact Or.inr (Or.inl (mq ▸ answered))
  · refine Or.inr (Or.inr (Or.inl ⟨slot, req, ?_⟩))
    exact (tasks _ mem).resolve_right (by simp [HostTask.answers])
  · refine Or.inr (Or.inr (Or.inr ⟨req, ?_⟩))
    exact (tasks _ mem).resolve_right (by simp [HostTask.answers])

/-- The call has not returned. -/
theorem HostInv.unreturned (inv : HostInv qid host seen log) (mem : task ∈ host.tasks) {call : Nat}
    (own : call ∈ task.call) : Unreturned log call := by
  have inTasks : call ∈ (host.tasks.map HostTask.call).sum := mem_sum_map.mpr ⟨task, mem, own⟩
  refine ⟨fun refused => ?_, fun isWrite capsule submitted => ?_⟩
  · exact (inv.progress.refused call refused).2 (Multiset.mem_add.mpr (Or.inl inTasks))
  · obtain ⟨pointer, memPointer, eq⟩ := inv.progress.submitted call isWrite capsule submitted
    refine Multiset.disjoint_left.mp (Multiset.nodup_add.mp inv.numbered.calls).2.2 inTasks ?_
    exact Multiset.mem_coe.mpr (eq ▸ List.mem_map_of_mem memPointer)

theorem HostInv.same (inv : HostInv qid host seen log) :
    ∃ more, HostInv qid host (seen ++ more) (log ++ []) :=
  ⟨[], by rwa [List.append_nil, List.append_nil]⟩

/-- A call that has no slot is refused. -/
theorem HostInv.refusedAtOnce (inv : HostInv qid host seen log) :
    HostInv qid { host with nCalls := host.nCalls + 1 } (seen ++ [])
      (log ++ [.refused host.nCalls]) := by
  have fresh : host.nCalls ∉ host.calls := fun mem => lt_irrefl _ (inv.numbered.few _ mem)
  have progress : Progress { host with nCalls := host.nCalls + 1 } (seen ++ [])
      (log ++ [.refused host.nCalls]) := by
    refine inv.progress.step (fun _ _ get => get) (fun _ mem => mem)
      (fun n pointer live isDue => Or.inl ⟨live, isDue, rfl⟩)
      (fun n slot req pointer mem get => ⟨inv.progress.sending n slot req pointer mem get, ?_⟩)
      (fun call has => ?_) (fun item mem pointer get => ?_) (by simp) (by simp) (fun call mem => ?_)
      (Nat.le_succ _) (fun call mem _ => mem) (by simp)
    · simp [Left]
    · simp [Left] at has
    · obtain ⟨⟨capsule, sent⟩, unheard⟩ := inv.progress.wire item mem pointer get
      exact ⟨⟨capsule, List.mem_append_left _ sent⟩, by simpa using unheard⟩
    · obtain rfl : call = host.nCalls := by simpa using mem
      exact ⟨Nat.lt_succ_self _, fresh⟩
  exact {
    mq := by
      rw [List.append_nil]
      exact inv.mq
    accounts := inv.accounts.pass rfl rfl rfl
    numbered := inv.numbered.take rfl rfl rfl (Multiset.le_add_right _ _)
    owned := inv.owned.keep rfl (fun _ mem => mem) (fun _ => ⟨rfl, rfl, rfl⟩) fun _ _ mem => mem
    tokens := ⟨inv.tokens.handed, inv.tokens.tasks, inv.tokens.wire⟩
    progress := progress
    keeps := by
      refine inv.keeps.snoc ⟨fun refused => ?_, fun isWrite capsule submitted => ?_⟩
      · exact lt_irrefl _ (inv.progress.refused _ refused).1
      · obtain ⟨pointer, mem, eq⟩ := inv.progress.submitted _ isWrite capsule submitted
        refine fresh (Multiset.mem_add.mpr (Or.inr (Multiset.mem_coe.mpr ?_)))
        exact eq ▸ List.mem_map_of_mem mem }

/-- A call of the user, or of `cq_fn` behind its callback, goes on with its own slot. -/
structure Local (qid : Nat) (host after : Host) (index : Nat) (task : HostTask)
    (left : List HostTask) : Prop where
  get : host.tasks[index]? = some task
  tasks : after.tasks = replaceAt host.tasks index left
  mq : after.mq = host.mq
  opaques : after.opaques = host.opaques
  wire : after.wire = host.wire
  calls : after.nCalls = host.nCalls
  slots : ∀ slot, slot ∉ task.slot → after.slots slot = host.slots slot
  call : (left.map HostTask.call).sum ≤ task.call
  quiet : ∀ other ∈ left, other.token = 0
  filled : ∀ call slot, .submitting call slot ∈ left → (after.slots slot).Filled qid slot call

theorem Local.due (step : Local qid host after index task left) {n : Nat} (due : Due after n) :
    Due host n := by
  refine due.of_tasks step.mq fun other mem => ?_
  rw [step.tasks] at mem
  refine (mem_replaceAt mem).imp_right fun isNew => ?_
  have quiet := step.quiet other isNew
  cases other with
  | sending | aborting | received => exact absurd quiet (Multiset.singleton_ne_zero _)
  | _ => rfl

theorem Local.live (step : Local qid host after index task left) {n : Nat} {pointer : Opaque}
    (live : after.Live n pointer) : host.Live n pointer := by
  rw [Host.Live, step.opaques, step.mq] at live
  exact live

theorem HostInv.live_slot (inv : HostInv qid host seen log)
    (step : Local qid host after index task left) {n : Nat} {pointer : Opaque}
    (live : host.Live n pointer) : after.slots pointer.slot = host.slots pointer.slot :=
  step.slots _ (inv.accounts.task_apart live (List.mem_of_getElem? step.get))

/-- Nobody but the call relies on its slot. -/
theorem HostInv.local (inv : HostInv qid host seen log)
    (step : Local qid host after index task left)
    (accounts : Accounts after) {new : List Event} (keeps : Keeps HostFollows (log ++ new))
    (progress : Progress after (seen ++ []) (log ++ new)) :
    HostInv qid after (seen ++ []) (log ++ new) where
  mq := by
    rw [List.append_nil, step.mq]
    exact inv.mq
  accounts := accounts
  numbered := by
    refine inv.numbered.keep step.opaques (by rw [step.mq]) step.calls ?_
      (sum_next_le HostTask.call step.get step.tasks step.call)
    rw [step.mq]
    exact inv.numbered.completed
  owned := {
    preparing := fun call slot mem => by
      rw [step.tasks] at mem
      rcases perm_of_mem_replaceAt step.get mem with isNew | ⟨others, perm⟩
      · exact step.filled call slot isNew
      · rw [step.slots slot]
        · refine inv.owned.preparing call slot (perm.mem_iff.mpr ?_)
          exact List.mem_cons_of_mem _ List.mem_cons_self
        · exact fun own => inv.accounts.tasks_apart perm own (Multiset.mem_singleton_self slot)
    live := fun n pointer live => by
      have old := step.live live
      obtain ⟨filled, submitted⟩ := inv.owned.live n pointer old
      rw [inv.live_slot step old]
      exact ⟨filled, List.mem_append_left _ submitted⟩
    every := fun pointer mem => by
      rw [step.opaques] at mem
      obtain ⟨isWrite, capsule, submitted⟩ := inv.owned.every pointer mem
      exact ⟨isWrite, capsule, List.mem_append_left _ submitted⟩ }
  tokens := by
    have none : (left.map HostTask.token).sum = 0 := by
      refine List.sum_eq_zero fun tokens mem => ?_
      obtain ⟨other, own, rfl⟩ := List.mem_map.mp mem
      exact step.quiet other own
    refine inv.tokens.step ?_ (fun n slot req _ token => ?_) (fun other mem => ?_)
      fun item mem => Or.inl (step.wire ▸ mem)
    · rw [step.wire, step.mq]
      refine le_trans (add_le_add_left ?_ _) inv.tokens.handed
      refine sum_next_le HostTask.token step.get step.tasks ?_
      rw [none]
      exact Multiset.zero_le _
    · obtain ⟨own, pointer, get, eq, has⟩ := token
      refine TokenOf.keep ⟨own, pointer, get, eq, has⟩ (fun other get => by rwa [step.opaques])
        (by rw [step.mq]) (by rw [step.mq]; exact id) fun fresh => ?_
      rw [step.mq] at fresh
      rw [← eq, inv.live_slot step ⟨get, fresh⟩]
    · rw [step.tasks] at mem
      refine (mem_replaceAt mem).imp_right fun isNew => ?_
      have quiet := step.quiet other isNew
      cases other with
      | sending | aborting | received => exact absurd quiet (Multiset.singleton_ne_zero _)
      | _ => trivial
  progress := progress
  keeps := keeps

/-- Such a step changes nothing for the calls that wait for an answer. -/
theorem HostInv.local_due (inv : HostInv qid host seen log)
    (step : Local qid host after index task left) {new : List Event} {n : Nat} {pointer : Opaque}
    (live : after.Live n pointer) (due : Due after n) :
    (host.Live n pointer ∧ Due host n ∧
        (after.slots pointer.slot).cqe = (host.slots pointer.slot).cqe) ∨
      Answer (log ++ new) pointer.call (after.slots pointer.slot).cqe :=
  Or.inl ⟨step.live live, step.due due, by rw [inv.live_slot step (step.live live)]⟩

theorem Local.sending (step : Local qid host after index task left) {n slot req : Nat}
    (mem : .sending n slot req ∈ after.tasks) : .sending n slot req ∈ host.tasks := by
  rw [step.tasks] at mem
  refine (mem_replaceAt mem).resolve_right fun isNew => ?_
  exact absurd (step.quiet _ isNew) (Multiset.singleton_ne_zero _)

/-- The call does not return yet. -/
theorem HostInv.local_quiet (inv : HostInv qid host seen log) (left : List HostTask)
    (step : Local qid host after index task left) (accounts : Accounts after) :
    HostInv qid after (seen ++ []) (log ++ []) := by
  refine inv.local step accounts (by rw [List.append_nil]; exact inv.keeps) ?_
  refine inv.progress.keep step.opaques (by rw [step.mq]; exact fun _ mem => mem)
    (fun n pointer live due => inv.local_due step live due)
    (fun n slot req mem => Or.inl (step.sending mem)) step.wire step.calls.ge
    (calls_older step.opaques (sum_next_le HostTask.call step.get step.tasks step.call)) (by simp)

theorem oxfHostPrepareSqCapsule_cmd {mem : Nat → UInt8} {data : List UInt8} {cmd : NvmeCmd}
    {descs : List SglDesc} {isWrite : Bool} {capsule : HostCapsule}
    (prepared : oxfHostPrepareSqCapsule mem data cmd descs isWrite = some capsule) :
    capsule.capsule.cmd = cmd := by
  rw [oxfHostPrepareSqCapsule] at prepared
  split at prepared
  · obtain ⟨packed, _, eq⟩ := Option.bind_eq_some_iff.mp prepared
    cases eq
    rfl
  · cases prepared

/-- A call takes a free slot. -/
theorem HostInv.take (inv : HostInv qid host seen log) {slot : Nat} {rest : List Nat}
    {command : Command} (first : host.free = slot :: rest) (free : after.free = rest)
    (used : after.used = host.used ++ [slot])
    (tasks : after.tasks = host.tasks ++ [.filling host.nCalls slot command])
    (calls : after.nCalls = host.nCalls + 1) (mq : after.mq = host.mq)
    (slots : after.slots = host.slots) (opaques : after.opaques = host.opaques)
    (wire : after.wire = host.wire) : HostInv qid after (seen ++ []) (log ++ []) := by
  have mem_tasks {task : HostTask} (mem : task ∈ after.tasks) :
      task ∈ host.tasks ∨ task = .filling host.nCalls slot command := by
    rw [tasks] at mem
    exact (List.mem_append.mp mem).imp_right List.mem_singleton.mp
  have completed : ∀ n ∈ host.mq.completed, n ∈ after.mq.completed := by
    rw [mq]
    exact fun _ mem => mem
  have live {n : Nat} {pointer : Opaque} (live : after.Live n pointer) : host.Live n pointer := by
    rw [Host.Live, opaques, mq] at live
    exact live
  refine ⟨?_, ?_, ?_, ?_, ?_, ?_, ?_⟩
  · rw [List.append_nil, mq]
    exact inv.mq
  · refine inv.accounts.take first rfl tasks free used (live_same opaques ?_)
    rw [mq]
    exact fun _ => Iff.rfl
  · exact inv.numbered.take opaques mq calls (le_of_eq (sum_start HostTask.call tasks))
  · refine inv.owned.keep opaques completed (fun _ => by rw [slots]; exact ⟨rfl, rfl, rfl⟩)
      fun call other mem => ?_
    exact (mem_tasks mem).resolve_right (by simp)
  · refine inv.tokens.step ?_ (fun n other req _ token => ?_) (fun task mem => ?_)
      fun item mem => Or.inl (wire ▸ mem)
    · rw [sum_start_zero HostTask.token tasks rfl, wire, mq]
      exact inv.tokens.handed
    · exact token.keep (fun pointer get => by rwa [opaques]) (by rw [mq]) (by rw [mq]; exact id)
        fun _ => by rw [slots]
    · refine (mem_tasks mem).imp_right fun eq => ?_
      rw [eq]
      trivial
  · refine inv.progress.keep opaques completed
      (fun n pointer isLive due => Or.inl ⟨live isLive, ?_, by rw [slots]⟩)
      (fun n other req mem => Or.inl ((mem_tasks mem).resolve_right (by simp))) wire
      (by rw [calls]; exact Nat.le_succ _) (fun call mem lt => ?_) (by simp)
    · refine due.of_tasks mq fun task mem => (mem_tasks mem).imp_right fun eq => ?_
      rw [eq]
      rfl
    · rw [Host.calls, sum_start HostTask.call tasks, opaques] at mem
      rcases Multiset.mem_add.mp mem with mem | mem
      · rcases Multiset.mem_add.mp mem with mem | mem
        · exact Multiset.mem_add.mpr (Or.inl mem)
        · rw [Multiset.mem_singleton.mp mem] at lt
          exact absurd lt (lt_irrefl _)
      · exact Multiset.mem_add.mpr (Or.inr mem)
  · rw [List.append_nil]
    exact inv.keeps

theorem HostInv.submitIo (inv : HostInv qid host seen log) (command : Command) (lastRound : Bool) :
    ∃ more, HostInv qid (oxfHostSubmitIo host command lastRound).1 (seen ++ more)
      (log ++ (oxfHostSubmitIo host command lastRound).2) := by
  rw [oxfHostSubmitIo]
  split
  · exact ⟨[], inv.refusedAtOnce⟩
  · split
    · split
      · exact ⟨[], inv.refusedAtOnce⟩
      · exact inv.same
    · rename_i slot rest first
      exact ⟨[], inv.take first rfl rfl rfl rfl rfl rfl rfl rfl⟩

/-- The user's command is written into the slot. -/
theorem HostInv.filling (inv : HostInv qid host seen log) {call slot : Nat} {command : Command}
    (get : host.tasks[index]? = some (.filling call slot command)) :
    ∃ more, HostInv qid (fillSlot qid host index call slot command) (seen ++ more) (log ++ []) := by
  simp only [fillSlot]
  split
  · exact inv.same
  · rename_i capsule prepared
    have written {value : QueueCmd} (other : Nat)
        (ne : other ∉ HostTask.slot (.filling call slot command)) :
        Function.update host.slots slot value other = host.slots other :=
      Function.update_of_ne (fun eq => ne (Multiset.mem_singleton.mpr eq)) _ _
    split
    · refine ⟨[], inv.local_quiet _
        ⟨get, rfl, rfl, rfl, rfl, rfl, written, le_refl _, by simp [HostTask.token], by simp⟩
        (inv.accounts.next get rfl rfl rfl rfl rfl)⟩
    · refine ⟨[], inv.local_quiet _
        ⟨get, rfl, rfl, rfl, rfl, rfl, written, le_refl _, by simp [HostTask.token],
          fun other place mem => ?_⟩
        (inv.accounts.next get rfl rfl rfl rfl rfl)⟩
      cases List.mem_singleton.mp mem
      change (Function.update host.slots slot _ slot).Filled qid slot call
      rw [Function.update_self]
      exact ⟨rfl, by rw [oxfHostPrepareSqCapsule_cmd prepared]; rfl⟩

/-- `oxf_host_submit_io` returns an error. -/
theorem HostInv.refusing (inv : HostInv qid host seen log) {call slot : Nat}
    (get : host.tasks[index]? = some (.refusing call slot)) :
    HostInv qid (putSlot host index slot) (seen ++ []) (log ++ [.refused call]) := by
  have mem := List.mem_of_getElem? get
  have step : Local qid host (putSlot host index slot) index (.refusing call slot) [] :=
    ⟨get, rfl, rfl, rfl, rfl, rfl, fun _ _ => rfl, Multiset.zero_le _, by simp, by simp⟩
  have own : call ∈ HostTask.call (.refusing call slot) := Multiset.mem_singleton_self call
  have known : call ∈ host.calls :=
    Multiset.mem_add.mpr (Or.inl (mem_sum_map.mpr ⟨_, mem, own⟩))
  refine inv.local step (inv.accounts.put get rfl rfl rfl rfl rfl)
    (inv.keeps.snoc (inv.unreturned mem own)) ?_
  refine inv.progress.step (fun _ _ get => get) (fun _ mem => mem)
    (fun n pointer live due => inv.local_due step live due)
    (fun n slot req pointer mem get =>
      ⟨inv.progress.sending n slot req pointer (step.sending mem) get, by simp [Left]⟩)
    (fun call has => by simp [Left] at has) (fun item mem pointer get => ?_) (by simp) (by simp)
    (fun other mem => ?_) (le_refl _)
    (calls_older rfl (sum_next_le HostTask.call get step.tasks step.call)) (by simp)
  · obtain ⟨⟨capsule, sent⟩, unheard⟩ := inv.progress.wire item mem pointer get
    exact ⟨⟨capsule, List.mem_append_left _ sent⟩, by simpa using unheard⟩
  · obtain rfl : other = call := by simpa using mem
    refine ⟨inv.numbered.few _ known, fun has => ?_⟩
    have sum := sum_next HostTask.call get step.tasks
    rw [List.map_nil, List.sum_nil, add_zero] at sum
    have nodup := inv.numbered.calls
    rw [Host.calls, ← sum, add_right_comm] at nodup
    exact Multiset.disjoint_left.mp (Multiset.nodup_add.mp nodup).2.2 has own

/-- `oxf_host_process_cq` frees the slot. -/
theorem HostInv.calledBack (inv : HostInv qid host seen log) {slot : Nat}
    (get : host.tasks[index]? = some (.calledBack slot)) :
    HostInv qid (putSlot host index slot) (seen ++ []) (log ++ []) :=
  inv.local_quiet []
    ⟨get, rfl, rfl, rfl, rfl, rfl, fun _ _ => rfl, Multiset.zero_le _, by simp, by simp⟩
    (inv.accounts.put get rfl rfl rfl rfl rfl)

/-- The multi-queue has an answer for a submission from an answer on. -/
theorem told_origin (once : OnceInv hostConf host.mq) {op : Op} {n : Nat}
    (quiet : ¬ Answers host.mq op n)
    (told : (Mq.step hostConf host.mq op).At .told n ∨
      (Mq.step hostConf host.mq op).At .answered n) :
    host.mq.At .told n ∨ host.mq.At .answered n := by
  rcases told with told | answered
  · exact Or.inl ((once.stage_origin told).resolve_right quiet)
  · exact (once.stage_origin answered).symm

/-- A submission that is due is known. -/
theorem HostInv.due_known (inv : HostInv qid host seen log) {n : Nat} (due : Due host n) :
    n < host.opaques.length := by
  have known {slot req : Nat} (token : TokenOf host n slot req) : n < host.opaques.length := by
    obtain ⟨_, pointer, get, _⟩ := token
    exact (List.getElem?_eq_some_iff.mp get).1
  rcases due with told | answered | ⟨slot, req, mem⟩ | ⟨req, mem⟩
  · rw [inv.numbered.opaques]
    exact inv.mq.once.numbers n (inv.mq.once.at_pending told (by decide))
  · rw [inv.numbered.opaques]
    exact inv.mq.once.numbers n (inv.mq.once.at_pending answered (by decide))
  · exact known (inv.tokens.tasks _ mem)
  · obtain ⟨slot, token⟩ := inv.tokens.tasks _ mem
    exact known token

theorem submit_same (mq : MqState) :
    (oxMqSubmitReq mq 0 false).completed = mq.completed ∧
      (oxMqSubmitReq mq 0 false).handed = mq.handed ∧
        (oxMqSubmitReq mq 0 false).entries = mq.entries := by
  rw [oxMqSubmitReq]
  split
  · exact ⟨rfl, rfl, rfl⟩
  · split <;> exact ⟨rfl, rfl, rfl⟩

/-- `ox_mq_submit_req` takes the slot. -/
theorem HostInv.submitted (inv : HostInv qid host seen log) {call slot : Nat}
    (get : host.tasks[index]? = some (.submitting call slot))
    (submitted : (oxMqSubmitReq host.mq 0 false).nSubmitted = host.mq.nSubmitted + 1)
    (tasks : after.tasks = replaceAt host.tasks index [])
    (mq : after.mq = oxMqSubmitReq host.mq 0 false)
    (opaques : after.opaques = host.opaques ++ [⟨slot, call⟩]) (slots : after.slots = host.slots)
    (free : after.free = host.free) (used : after.used = host.used) (wire : after.wire = host.wire)
    (calls : after.nCalls = host.nCalls) :
    HostInv qid after (seen ++ Mq.seen host.mq (.submit 0 false))
      (log ++ [.submitted call (host.slots slot).isWrite (host.slots slot).capsule]) := by
  have mem := List.mem_of_getElem? get
  have own : call ∈ HostTask.call (.submitting call slot) := Multiset.mem_singleton_self call
  obtain ⟨completed, handed, entries⟩ := submit_same host.mq
  rw [← mq] at completed handed entries submitted
  have older (n : Nat) (pointer : Opaque) (get : host.opaques[n]? = some pointer) :
      after.opaques[n]? = some pointer := by
    rw [opaques, List.getElem?_append_left (List.getElem?_eq_some_iff.mp get).1, get]
  have live {n : Nat} {pointer : Opaque} (live : after.Live n pointer) :
      host.Live n pointer ∨ n = host.opaques.length ∧ pointer = ⟨slot, call⟩ := by
    rw [Host.Live, opaques, completed] at live
    rcases Nat.lt_trichotomy n host.opaques.length with lt | rfl | gt
    · rw [List.getElem?_append_left lt] at live
      exact Or.inl live
    · rw [List.getElem?_concat_length] at live
      exact Or.inr ⟨rfl, (Option.some.inj live.1).symm⟩
    · rw [List.getElem?_eq_none (by rw [List.length_append]; exact gt)] at live
      cases live.1
  have taskOld {task : HostTask} (mem : task ∈ after.tasks) : task ∈ host.tasks := by
    rw [tasks] at mem
    exact (mem_replaceAt mem).resolve_right List.not_mem_nil
  have step : after.mq = Mq.step hostConf host.mq (.submit 0 false) := mq
  have same : after.calls = host.calls := calls_submit get rfl tasks opaques
  have known {n place req : Nat} {pointer : Opaque} (token : TokenOf host n place req)
      (get : after.opaques[n]? = some pointer) : host.opaques[n]? = some pointer := by
    obtain ⟨_, other, getOther, _⟩ := token
    rw [older n other getOther] at get
    rw [← get, getOther]
  have due {n : Nat} (isDue : Due after n) : Due host n := by
    have quiet : ¬ Answers host.mq (.submit 0 false) n := by
      simp [Answers, Mq.seen, returns, callback]
    rcases isDue with told | answered | ⟨place, req, mem⟩ | ⟨req, mem⟩
    · rw [step] at told
      exact (told_origin inv.mq.once quiet (Or.inl told)).imp_right Or.inl
    · rw [step] at answered
      exact (told_origin inv.mq.once quiet (Or.inr answered)).imp_right Or.inl
    · exact Or.inr (Or.inr (Or.inl ⟨place, req, taskOld mem⟩))
    · exact Or.inr (Or.inr (Or.inr ⟨req, taskOld mem⟩))
  refine ⟨?_, ?_, ?_, ?_, ?_, ?_, ?_⟩
  · rw [step]
    exact inv.mq.step trivial
  · exact inv.accounts.submit get rfl tasks free used (live_submit inv.numbered opaques completed)
  · exact inv.numbered.submit same opaques submitted completed calls
  · refine ⟨fun other place mem => ?_, fun n pointer isLive => ?_, fun pointer mem => ?_⟩
    · rw [slots]
      exact inv.owned.preparing other place (taskOld mem)
    · rw [slots]
      rcases live isLive with old | ⟨_, rfl⟩
      · obtain ⟨filled, submitted⟩ := inv.owned.live n pointer old
        exact ⟨filled, List.mem_append_left _ submitted⟩
      · exact ⟨inv.owned.preparing call slot mem,
          List.mem_append_right _ (List.mem_singleton_self _)⟩
    · rw [opaques] at mem
      rcases List.mem_append.mp mem with old | isNew
      · obtain ⟨isWrite, capsule, submitted⟩ := inv.owned.every pointer old
        exact ⟨isWrite, capsule, List.mem_append_left _ submitted⟩
      · rw [List.mem_singleton.mp isNew]
        exact ⟨_, _, List.mem_append_right _ (List.mem_singleton_self _)⟩
  · refine inv.tokens.step ?_ (fun n place req _ token => ?_)
      (fun other mem => Or.inl (taskOld mem))
      fun item mem => Or.inl (wire ▸ mem)
    · rw [wire, handed]
      refine le_trans (add_le_add_left ?_ _) inv.tokens.handed
      exact sum_next_le HostTask.token get tasks (Multiset.zero_le _)
    · exact token.keep (older n) (by rw [entries]) (by rw [completed]; exact id)
        fun _ => by rw [slots]
  · refine inv.progress.step older (by rw [completed]; exact fun _ mem => mem)
      (fun n pointer isLive isDue => ?_) (fun n place req pointer mem get => ⟨?_, by simp [Left]⟩)
      (fun call has => by simp [Left] at has) (fun item mem pointer get => ?_) (by simp) (by simp)
      (by simp) calls.ge ?_ ?_
    · rcases live isLive with old | ⟨rfl, _⟩
      · exact Or.inl ⟨old, due isDue, by rw [slots]⟩
      · exact absurd (inv.due_known (due isDue)) (lt_irrefl _)
    · have old := taskOld mem
      exact inv.progress.sending n place req pointer old (known (inv.tokens.tasks _ old) get)
    · rw [wire] at mem
      obtain ⟨place, token, _⟩ := inv.tokens.wire item mem
      obtain ⟨⟨capsule, sent⟩, unheard⟩ := inv.progress.wire item mem pointer (known token get)
      exact ⟨⟨capsule, List.mem_append_left _ sent⟩, by simpa using unheard⟩
    · rw [same]
      exact fun call mem _ => mem
    · intro other isWrite capsule mem
      obtain ⟨rfl, _⟩ : other = call ∧ _ := by simpa using mem
      exact ⟨_, opaques ▸ List.mem_append_right _ (List.mem_singleton_self _), rfl⟩
  · exact inv.keeps.snoc (inv.unreturned mem own)

theorem HostInv.submitting (inv : HostInv qid host seen log) {call slot : Nat}
    (get : host.tasks[index]? = some (.submitting call slot)) :
    ∃ more, HostInv qid (submitSlot host index call slot).1 (seen ++ more)
      (log ++ (submitSlot host index call slot).2) := by
  simp only [submitSlot]
  split
  · rename_i lt
    have user := (@step_user hostConf host.mq (.submit 0 false)).2.2
    have submitted := (user.resolve_left (Nat.ne_of_gt lt)).2
    exact ⟨_, inv.submitted get submitted rfl rfl rfl rfl rfl rfl rfl rfl⟩
  · exact ⟨[], inv.local_quiet [.refusing call slot]
      ⟨get, rfl, rfl, rfl, rfl, rfl, fun _ _ => rfl, le_refl _, by simp [HostTask.token], by simp⟩
      (inv.accounts.next get rfl rfl rfl rfl rfl)⟩

end Step

end OxCtrl.HostQueue
