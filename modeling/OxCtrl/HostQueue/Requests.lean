import OxCtrl.HostQueue.Calls

/-!
# Requests of the host

`oxf_host_process_sq` sends the capsule of a request or gives it up.  A reply, or the end of the
attempts, leads to one call of `ox_mq_complete_req` for the request.
-/

namespace OxCtrl.HostQueue

open OxCtrl.Lib OxCtrl.Mq OxCtrl.Fabrics

section Step

variable {qid : Nat} {host after : Host} {seen : List Seen} {log : List Event} {index : Nat}
  {task : HostTask} {left : List HostTask}

/-! ## Steps of `oxf_host_process_sq` -/

theorem HostInv.tokens_nodup (inv : HostInv qid host seen log) :
    ((host.tasks.map HostTask.token).sum + (↑(host.wire.map OnWire.req) : Multiset Nat)).Nodup :=
  Multiset.nodup_of_le inv.tokens.handed (Multiset.nodup_add.mp inv.mq.once.claims).1

/-- Two requests do not have one submission. -/
theorem HostInv.req_unique (inv : HostInv qid host seen log) {n req other slot place : Nat}
    (mem : req ∈ host.mq.handed) (memOther : other ∈ host.mq.handed)
    (token : TokenOf host n slot req)
    (tokenOther : TokenOf host n place other) : req = other :=
  inv.mq.apart req other n (Or.inr mem) (Or.inr memOther) token.1 tokenOther.1

/-- Two tasks do not send the capsule of one submission. -/
theorem HostInv.sending_apart (inv : HostInv qid host seen log) {n slot req : Nat}
    (get : host.tasks[index]? = some (.sending n slot req))
    (none : ∀ n slot req, .sending n slot req ∉ left) {m place other : Nat}
    (mem : .sending m place other ∈ replaceAt host.tasks index left) : m ≠ n := by
  rintro rfl
  rcases perm_of_mem_replaceAt get mem with isNew | ⟨others, perm⟩
  · exact none _ _ _ isNew
  · have memFirst : .sending m slot req ∈ host.tasks := List.mem_of_getElem? get
    have memSecond : .sending m place other ∈ host.tasks :=
      perm.mem_iff.mpr (List.mem_cons_of_mem _ List.mem_cons_self)
    have eq : req = other := inv.req_unique
      (inv.tokens.task_handed memFirst (Multiset.mem_singleton_self req))
      (inv.tokens.task_handed memSecond (Multiset.mem_singleton_self other))
      (inv.tokens.tasks _ memFirst) (inv.tokens.tasks _ memSecond)
    have total : (host.tasks.map HostTask.token).sum =
        {req} + ({other} + (others.map HostTask.token).sum) :=
      (perm.map HostTask.token).sum_eq
    have nodup := (Multiset.nodup_add.mp inv.tokens_nodup).1
    rw [total] at nodup
    refine Multiset.disjoint_left.mp (Multiset.nodup_add.mp nodup).2.2
      (Multiset.mem_singleton_self req) (Multiset.mem_add.mpr (Or.inl ?_))
    exact Multiset.mem_singleton.mpr eq

/-- The capsule of a submission is sent or given up now. -/
theorem HostInv.unleft (inv : HostInv qid host seen log) {n slot req : Nat} {pointer : Opaque}
    (get : host.tasks[index]? = some (.sending n slot req))
    (pointed : host.opaques[n]? = some pointer)
    (tasks : after.tasks = replaceAt host.tasks index left)
    (none : ∀ n slot req, .sending n slot req ∉ left) {new : List Event}
    (leaves : ∀ call, Left new call → call = pointer.call) {m place other : Nat} {second : Opaque}
    (mem : .sending m place other ∈ after.tasks) (getSecond : host.opaques[m]? = some second) :
    ¬ Left log second.call ∧ ¬ Left new second.call := by
  rw [tasks] at mem
  have ne := inv.sending_apart get none mem
  have old : .sending m place other ∈ host.tasks := (mem_replaceAt mem).resolve_right (none _ _ _)
  refine ⟨inv.progress.sending m place other second old getSecond, fun has => ?_⟩
  exact ne (inv.numbered.call_unique getSecond pointed (leaves _ has))

/-- The capsule is given to the connection. -/
theorem HostInv.sent (inv : HostInv qid host seen log) {n slot req : Nat}
    (get : host.tasks[index]? = some (.sending n slot req)) (fresh : n ∉ host.mq.completed)
    (tasks : after.tasks = replaceAt host.tasks index []) (mq : after.mq = host.mq)
    (wire : after.wire =
      host.wire ++ [⟨n, req, (host.slots slot).capsule.capsule.cmd.cid.toNat⟩])
    (opaques : after.opaques = host.opaques) (slots : after.slots = host.slots)
    (free : after.free = host.free) (used : after.used = host.used)
    (calls : after.nCalls = host.nCalls) :
    HostInv qid after (seen ++ [])
      (log ++ (host.callOf n).map fun call => .sent call (host.slots slot).capsule) := by
  have mem := List.mem_of_getElem? get
  obtain ⟨own, pointer, pointed, rfl, has⟩ := inv.tokens.tasks _ mem
  have live : host.Live n pointer := ⟨pointed, fresh⟩
  obtain ⟨filled, submitted⟩ := inv.owned.live n pointer live
  have handed : req ∈ host.mq.handed :=
    inv.tokens.task_handed mem (Multiset.mem_singleton_self req)
  have unsent : ¬ Left log pointer.call := inv.progress.sending n _ req pointer mem pointed
  have callOf : host.callOf n = [pointer.call] := by
    rw [Host.callOf, pointed]
    rfl
  rw [callOf, List.map_singleton]
  have taskOld {task : HostTask} (mem : task ∈ after.tasks) : task ∈ host.tasks := by
    rw [tasks] at mem
    exact (mem_replaceAt mem).resolve_right List.not_mem_nil
  have completed : ∀ n ∈ host.mq.completed, n ∈ after.mq.completed := by
    rw [mq]
    exact fun _ mem => mem
  have token {m place other : Nat} (token : TokenOf host m place other) :
      TokenOf after m place other :=
    token.keep (fun _ get => by rwa [opaques]) (by rw [mq]) (completed m) fun _ => by rw [slots]
  have leaves (call : Nat)
    (has : Left [.sent pointer.call (host.slots pointer.slot).capsule] call) :
      call = pointer.call := by
    simpa [Left] using has
  refine ⟨?_, ?_, ?_, ?_, ?_, ?_, ?_⟩
  · rw [List.append_nil, mq]
    exact inv.mq
  · exact inv.accounts.next get tasks rfl free used
      (live_same opaques (by rw [mq]; exact fun _ => Iff.rfl))
  · refine inv.numbered.keep opaques (by rw [mq]) calls ?_
      (sum_next_le HostTask.call get tasks (le_refl _))
    rw [mq]
    exact inv.numbered.completed
  · exact inv.owned.keep opaques completed (fun _ => by rw [slots]; exact ⟨rfl, rfl, rfl⟩)
      fun _ _ mem => taskOld mem
  · refine inv.tokens.step ?_ (fun _ _ _ _ => token) (fun other mem => Or.inl (taskOld mem))
      fun item mem => ?_
    · refine le_trans (le_of_eq ?_) (mq ▸ inv.tokens.handed)
      have sum := sum_next HostTask.token get tasks
      rw [List.map_nil, List.sum_nil, add_zero] at sum
      rw [← sum, wire, List.map_append, ← Multiset.coe_add, List.map_singleton,
        Multiset.coe_singleton, HostTask.token]
      abel
    · rw [wire] at mem
      refine (List.mem_append.mp mem).imp_right fun isNew => ?_
      rw [List.mem_singleton.mp isNew]
      refine ⟨pointer.slot, token (inv.tokens.tasks _ (List.mem_of_getElem? get)), ?_⟩
      rw [filled.cid, UInt16.toNat_ofNat']
      rfl
  · refine inv.progress.step (fun m second get => by rwa [opaques]) completed
      (fun m second isLive isDue => Or.inl ⟨?_, ?_, by rw [slots]⟩)
      (fun m place other second mem get => ?_) (fun call has => ?_) (fun item mem second get => ?_)
      (by simp) (by simp) (by simp) calls.ge
      (calls_older opaques (sum_next_le HostTask.call get tasks (le_refl _))) (by simp)
    · rwa [Host.Live, opaques, mq] at isLive
    · exact isDue.of_tasks mq fun task mem => Or.inl (taskOld mem)
    · rw [opaques] at get
      exact inv.unleft ‹_› pointed tasks (by simp) leaves mem get
    · rw [leaves call has, opaques]
      refine ⟨n, pointer, pointed, rfl, ?_⟩
      rw [List.append_nil]
      exact (inv.mq.handed req handed n own).1
    · rw [opaques] at get
      rw [wire] at mem
      rcases List.mem_append.mp mem with old | isNew
      · obtain ⟨⟨capsule, sent⟩, unheard⟩ := inv.progress.wire item old second get
        exact ⟨⟨capsule, List.mem_append_left _ sent⟩, by simpa using unheard⟩
      · rw [List.mem_singleton.mp isNew] at get
        obtain rfl : pointer = second := Option.some.inj (pointed.symm.trans get)
        refine ⟨⟨_, List.mem_append_right _ (List.mem_singleton_self _)⟩, fun cqe data heard => ?_⟩
        rcases List.mem_append.mp heard with old | isNew
        · exact unsent (inv.progress.received _ cqe data old)
        · simp at isNew
  · exact inv.keeps.snoc ⟨⟨_, submitted⟩, unsent⟩

/-- `send` has failed, and the status is written. -/
theorem HostInv.aborted (inv : HostInv qid host seen log) {n slot req : Nat}
    (get : host.tasks[index]? = some (.sending n slot req)) (fresh : n ∉ host.mq.completed)
    {pointer : Opaque} (pointed : host.opaques[n]? = some pointer)
    (tasks : after.tasks = replaceAt host.tasks index [.aborting n req]) (mq : after.mq = host.mq)
    (wire : after.wire = host.wire) (opaques : after.opaques = host.opaques)
    (slots : after.slots = Function.update host.slots pointer.slot
      { host.slots pointer.slot with
        cqe := { (host.slots pointer.slot).cqe with status := nvmeNotSubmitted } })
    (free : after.free = host.free) (used : after.used = host.used)
    (calls : after.nCalls = host.nCalls) :
    HostInv qid after (seen ++ []) (log ++ [.aborted pointer.call]) := by
  have mem := List.mem_of_getElem? get
  have token := inv.tokens.tasks _ mem
  have live : host.Live n pointer := ⟨pointed, fresh⟩
  obtain ⟨filled, submitted⟩ := inv.owned.live n pointer live
  have handed : req ∈ host.mq.handed :=
    inv.tokens.task_handed mem (Multiset.mem_singleton_self req)
  have unsent : ¬ Left log pointer.call := inv.progress.sending n _ req pointer mem pointed
  have taskOld {task : HostTask} (mem : task ∈ after.tasks) :
      task ∈ host.tasks ∨ task = .aborting n req := by
    rw [tasks] at mem
    exact (mem_replaceAt mem).imp_right List.mem_singleton.mp
  have completed : ∀ n ∈ host.mq.completed, n ∈ after.mq.completed := by
    rw [mq]
    exact fun _ mem => mem
  have same (place : Nat) : (after.slots place).Same (host.slots place) ∧
      (after.slots place).mqReq = (host.slots place).mqReq := by
    rw [slots]
    by_cases eq : place = pointer.slot
    · rw [eq, Function.update_self]
      exact ⟨⟨rfl, rfl, rfl⟩, rfl⟩
    · rw [Function.update_of_ne eq]
      exact ⟨⟨rfl, rfl, rfl⟩, rfl⟩
  have keep {m place other : Nat} (token : TokenOf host m place other) :
      TokenOf after m place other :=
    token.keep (fun _ get => by rwa [opaques]) (by rw [mq]) (completed m) fun _ => (same place).2
  have leaves (call : Nat) (has : Left [.aborted pointer.call] call) : call = pointer.call := by
    simpa [Left] using has
  refine ⟨?_, ?_, ?_, ?_, ?_, ?_, ?_⟩
  · rw [List.append_nil, mq]
    exact inv.mq
  · exact inv.accounts.next get tasks rfl free used
      (live_same opaques (by rw [mq]; exact fun _ => Iff.rfl))
  · refine inv.numbered.keep opaques (by rw [mq]) calls ?_
      (sum_next_le HostTask.call get tasks (le_refl _))
    rw [mq]
    exact inv.numbered.completed
  · exact inv.owned.keep opaques completed (fun place => (same place).1)
      fun _ _ mem => (taskOld mem).resolve_right (by simp)
  · refine inv.tokens.step ?_ (fun _ _ _ _ => keep) (fun other mem => ?_)
      fun item mem => Or.inl (wire ▸ mem)
    · rw [wire, mq]
      refine le_trans (add_le_add_left ?_ _) inv.tokens.handed
      exact sum_next_le HostTask.token get tasks (le_refl _)
    · refine (taskOld mem).imp_right fun eq => ?_
      rw [eq]
      exact ⟨slot, keep token⟩
  · refine inv.progress.step (fun m second get => by rwa [opaques]) completed
      (fun m second isLive isDue => ?_) (fun m place other second mem get => ?_)
      (fun call has => ?_) (fun item mem second get => ?_)
      (by simp) (by simp) (by simp) calls.ge
      (calls_older opaques (sum_next_le HostTask.call get tasks (le_refl _))) (by simp)
    · rw [Host.Live, opaques, mq] at isLive
      by_cases eq : m = n
      · subst eq
        obtain rfl : pointer = second := Option.some.inj (pointed.symm.trans isLive.1)
        refine Or.inr (Or.inr (Or.inr ⟨?_, List.mem_append_right _ (List.mem_singleton_self _)⟩))
        rw [slots, Function.update_self]
      · refine Or.inl ⟨isLive, ?_, ?_⟩
        · rcases isDue with told | answered | ⟨place, other, mem⟩ | ⟨other, mem⟩
          · exact Or.inl (mq ▸ told)
          · exact Or.inr (Or.inl (mq ▸ answered))
          · exact Or.inr (Or.inr (Or.inl ⟨place, other, (taskOld mem).resolve_right (by simp)⟩))
          · refine Or.inr (Or.inr (Or.inr ⟨other, (taskOld mem).resolve_right fun same => eq ?_⟩))
            cases same
            rfl
        · rw [slots, Function.update_of_ne fun place => eq ?_]
          exact inv.accounts.live_apart isLive live place
    · rw [opaques] at get
      exact inv.unleft ‹_› pointed tasks (by simp) leaves mem get
    · rw [leaves call has, opaques]
      refine ⟨n, pointer, pointed, rfl, ?_⟩
      rw [List.append_nil]
      exact (inv.mq.handed req handed n token.1).1
    · rw [opaques] at get
      rw [wire] at mem
      obtain ⟨⟨capsule, sent⟩, unheard⟩ := inv.progress.wire item mem second get
      exact ⟨⟨capsule, List.mem_append_left _ sent⟩, by simpa using unheard⟩
  · exact inv.keeps.snoc ⟨⟨_, _, submitted⟩, unsent⟩

theorem HostInv.sending (inv : HostInv qid host seen log) {n slot req : Nat} {ok : Bool}
    (get : host.tasks[index]? = some (.sending n slot req)) (fresh : n ∉ host.mq.completed) :
    ∃ more, HostInv qid (sendSlot host index n slot req ok).1 (seen ++ more)
      (log ++ (sendSlot host index n slot req ok).2) := by
  rw [sendSlot]
  split
  · exact ⟨[], inv.sent get fresh rfl rfl rfl rfl rfl rfl rfl rfl⟩
  · obtain ⟨own, pointer, pointed, _⟩ := inv.tokens.tasks _ (List.mem_of_getElem? get)
    rw [Option.mem_def.mp own]
    simp only [pointed]
    exact ⟨[], inv.aborted get fresh pointed rfl rfl rfl rfl rfl rfl rfl rfl⟩

/-! ## Completions -/

/-- The host completes a request. -/
theorem HostInv.complete (inv : HostInv qid host seen log) {n slot req : Nat}
    (get : host.tasks[index]? = some task) (own : task.token = {req})
    (slotless : task.slot = 0) (token : TokenOf host n slot req) (isDue : Due host n)
    (timely : (host.mq.entries req).status ≠ .timeout) (unlocked : ¬ host.mq.entryLocked req = true)
    (tasks : after.tasks = replaceAt host.tasks index [])
    (mq : after.mq = oxMqCompleteReq host.mq req) (wire : after.wire = host.wire)
    (opaques : after.opaques = host.opaques) (slots : after.slots = host.slots)
    (free : after.free = host.free) (used : after.used = host.used)
    (calls : after.nCalls = host.nCalls) :
    HostInv qid after (seen ++ Mq.seen host.mq (.complete req)) (log ++ []) := by
  have handed : req ∈ host.mq.handed :=
    inv.tokens.task_handed (List.mem_of_getElem? get) (own ▸ Multiset.mem_singleton_self req)
  have step : after.mq = Mq.step hostConf host.mq (.complete req) := mq
  have user := @step_user hostConf host.mq (.complete req)
  have completed (m : Nat) : m ∈ after.mq.completed ↔ m ∈ host.mq.completed := by
    rw [step]
    exact (user.2.1 m).trans ⟨fun either => either.resolve_right (by simp [callback]), Or.inl⟩
  have submitted : after.mq.nSubmitted = host.mq.nSubmitted := by
    rw [step]
    exact user.2.2.resolve_right (by simp)
  have back : after.mq.handed = host.mq.handed.erase req := by
    rw [mq, oxMqCompleteReq, if_neg unlocked]
    dsimp only
    rw [(checkReq_user host.mq req).1]
  have taskOld {task : HostTask} (mem : task ∈ after.tasks) : task ∈ host.tasks := by
    rw [tasks] at mem
    exact (mem_replaceAt mem).resolve_right List.not_mem_nil
  refine ⟨?_, ?_, ?_, ?_, ?_, ?_, ?_⟩
  · rw [step]
    exact inv.mq.step ⟨handed, timely⟩
  · exact inv.accounts.next get tasks slotless.symm free used (live_same opaques completed)
  · refine inv.numbered.keep opaques submitted calls (fun m mem => ?_)
      (sum_next_le HostTask.call get tasks (Multiset.zero_le _))
    exact inv.numbered.completed m ((completed m).mp mem)
  · exact inv.owned.keep opaques (fun m => (completed m).mpr)
      (fun _ => by rw [slots]; exact ⟨rfl, rfl, rfl⟩) fun _ _ mem => taskOld mem
  · refine inv.tokens.step ?_ (fun m place other mem token => ?_)
      (fun other mem => Or.inl (taskOld mem))
      fun item mem => Or.inl (wire ▸ mem)
    · have sum := sum_next HostTask.token get tasks
      rw [own, List.map_nil, List.sum_nil, add_zero] at sum
      have le := inv.tokens.handed
      rw [← sum, add_right_comm, add_comm, Multiset.singleton_add] at le
      have fewer := Multiset.erase_le_erase req le
      rw [Multiset.erase_cons_head, Multiset.coe_erase] at fewer
      rw [wire, back]
      exact fewer
    · refine token.keep (fun _ get => by rwa [opaques]) ?_ (completed m).mpr fun _ => by rw [slots]
      rw [step]
      exact inv.mq.once.hands_opaqueOf (inv.mq.once.handed other mem)
  · refine inv.progress.keep opaques (fun m => (completed m).mpr)
      (fun m second isLive due => Or.inl ⟨?_, ?_, by rw [slots]⟩)
      (fun m place other mem => Or.inl (taskOld mem)) wire calls.ge
      (calls_older opaques (sum_next_le HostTask.call get tasks (Multiset.zero_le _))) (by simp)
    · rw [Host.Live, opaques] at isLive
      exact ⟨isLive.1, fun mem => isLive.2 ((completed m).mpr mem)⟩
    · by_cases eq : m = n
      · rw [eq]
        exact isDue
      · have quiet : ¬ Answers host.mq (.complete req) m := by
          rintro (back | late)
          · obtain ⟨entry, same, _, has⟩ := of_returns (mem_seen_returned.mp back)
            cases same
            exact eq (Option.some.inj ((Option.mem_def.mp has).symm.trans token.1))
          · simp [Mq.seen, callback] at late
        rcases due with told | answered | ⟨place, other, mem⟩ | ⟨other, mem⟩
        · rw [step] at told
          exact (told_origin inv.mq.once quiet (Or.inl told)).imp_right Or.inl
        · rw [step] at answered
          exact (told_origin inv.mq.once quiet (Or.inr answered)).imp_right Or.inl
        · exact Or.inr (Or.inr (Or.inl ⟨place, other, taskOld mem⟩))
        · exact Or.inr (Or.inr (Or.inr ⟨other, taskOld mem⟩))
  · rw [List.append_nil]
    exact inv.keeps

theorem HostInv.aborting (inv : HostInv qid host seen log) {n req : Nat}
    (get : host.tasks[index]? = some (.aborting n req))
    (timely : (host.mq.entries req).status ≠ .timeout) :
    ∃ more, HostInv qid (completeReq host index req) (seen ++ more) (log ++ []) := by
  have mem := List.mem_of_getElem? get
  obtain ⟨slot, token⟩ := inv.tokens.tasks _ mem
  rw [completeReq]
  split
  · exact inv.same
  · rename_i unlocked
    exact ⟨_, inv.complete get rfl rfl token (Or.inr (Or.inr (Or.inr ⟨req, mem⟩))) timely unlocked
      rfl rfl rfl rfl rfl rfl rfl rfl⟩

theorem HostInv.received (inv : HostInv qid host seen log) {n slot req : Nat} {ok : Bool}
    (get : host.tasks[index]? = some (.received n slot req)) (fresh : n ∉ host.mq.completed)
    (timely : ∀ req ∈ (host.slots slot).mqReq, (host.mq.entries req).status ≠ .timeout) :
    ∃ more, HostInv qid (hostTaskStep qid host index ok (.received n slot req)).1 (seen ++ more)
      (log ++ (hostTaskStep qid host index ok (.received n slot req)).2) := by
  have mem := List.mem_of_getElem? get
  have token := inv.tokens.tasks _ mem
  obtain ⟨_, pointer, _, _, has⟩ := inv.tokens.tasks _ mem
  rw [hostTaskStep, has fresh]
  dsimp only
  rw [completeReq]
  split
  · exact inv.same
  · rename_i unlocked
    exact ⟨_, inv.complete get rfl rfl token (Or.inr (Or.inr (Or.inl ⟨slot, req, mem⟩)))
      (timely req (has fresh)) unlocked rfl rfl rfl rfl rfl rfl rfl rfl⟩

end Step

end OxCtrl.HostQueue
