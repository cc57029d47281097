import OxCtrl.HostQueue.Callbacks

/-!
# Answers of a queue pair

As long as nothing of a command is under way when its callback has come, every callback brings the
answer to its own command: the completion entry of the reply to it, or the status that the command
was late or could not be sent.  The capsule that is sent is the one that was submitted, and the data
of a reply goes where the command says.
-/

namespace OxCtrl.HostQueue

open OxCtrl.Lib OxCtrl.Mq OxCtrl.Fabrics

section Step

variable {qid : Nat} {host after : Host} {seen : List Seen} {log : List Event} {index : Nat}
  {task : HostTask} {left : List HostTask}

/-! ## Replies -/

theorem Accounts.slot_lt (accounts : Accounts host) {n : Nat} {pointer : Opaque}
    (live : host.Live n pointer) : pointer.slot < oxfQueueSize := by
  have used : pointer.slot ∈ host.used := by
    rw [← Multiset.mem_coe, ← accounts.slots]
    exact Multiset.mem_add.mpr (Or.inr (Multiset.mem_coe.mpr live.mem))
  exact List.mem_range.mp (accounts.lists.mem_iff.mp (List.mem_append_right _ used))

/-- A reply finds the slot of its command. -/
theorem replySlot_wire (narrow : qid < 32) {slot : Nat} (lt : slot < oxfQueueSize) :
    (replySlot (processCapsuleSqId (wireCid qid slot)) (wireCid qid slot)).2 = slot := by
  have small : qid < oxfMaxQueues := Nat.lt_trans narrow (by decide)
  have routed := HostSlot.routed_of_fits ((queue_fits_iff small).mpr narrow slot lt)
  exact congrArg Prod.snd routed.reply

theorem wire_perm {capsule : OnWire} (get : host.wire[index]? = some capsule) :
    (capsule :: host.wire.eraseIdx index).Perm host.wire := by
  obtain ⟨lt, rfl⟩ := List.getElem?_eq_some_iff.mp get
  exact List.getElem_cons_eraseIdx_perm lt

/-- The capsules on their way belong to distinct submissions. -/
theorem HostInv.wire_apart (inv : HostInv qid host seen log) {capsule item : OnWire}
    (get : host.wire[index]? = some capsule) (mem : item ∈ host.wire.eraseIdx index) :
    item.n ≠ capsule.n := by
  intro same
  have perm := wire_perm get
  have memFirst : capsule ∈ host.wire := List.mem_of_getElem? get
  have memSecond : item ∈ host.wire := perm.mem_iff.mp (List.mem_cons_of_mem _ mem)
  obtain ⟨slot, token, _⟩ := inv.tokens.wire capsule memFirst
  obtain ⟨place, tokenOther, _⟩ := inv.tokens.wire item memSecond
  rw [same] at tokenOther
  have eq := inv.req_unique (inv.tokens.wire_handed memFirst)
    (inv.tokens.wire_handed memSecond) token tokenOther
  have nodup := Multiset.coe_nodup.mp (Multiset.nodup_add.mp inv.tokens_nodup).2.1
  rw [← (perm.map OnWire.req).nodup_iff, List.map_cons, List.nodup_cons, eq] at nodup
  exact nodup.1 (List.mem_map_of_mem mem)

/-- A reply takes a capsule from the way. -/
structure RcvStep (host after : Host) (index : Nat) (capsule : OnWire) (left : List HostTask) :
    Prop where
  get : host.wire[index]? = some capsule
  wire : after.wire = host.wire.eraseIdx index
  tasks : after.tasks = host.tasks ++ left
  mq : after.mq = host.mq
  opaques : after.opaques = host.opaques
  free : after.free = host.free
  used : after.used = host.used
  calls : after.nCalls = host.nCalls

/-- The request of the capsule passes to the task, or is left to the timeout thread. -/
theorem HostInv.reply (inv : HostInv qid host seen log) {capsule : OnWire}
    (step : RcvStep host after index capsule left) {slot : Nat}
    (token : TokenOf host capsule.n slot capsule.req)
    (passes : left = [] ∨ left = [.received capsule.n slot capsule.req])
    (same : ∀ place, (after.slots place).Same (host.slots place) ∧
      (after.slots place).mqReq = (host.slots place).mqReq) {new : List Event}
    (unsent : ∀ call, ¬ Left new call)
    (heard : ∀ call cqe data, .received call cqe data ∈ new →
      ∃ pointer, host.opaques[capsule.n]? = some pointer ∧ pointer.call = call)
    (uncalled : ∀ call cqe, .called call cqe ∉ new) (unrefused : ∀ call, .refused call ∉ new)
    (unsubmitted : ∀ call isWrite capsule, .submitted call isWrite capsule ∉ new)
    (due : ∀ m pointer, host.Live m pointer →
      Answer (log ++ new) pointer.call (after.slots pointer.slot).cqe ∨
        (m = capsule.n → left = []) ∧
          (after.slots pointer.slot).cqe = (host.slots pointer.slot).cqe)
    (keeps : Keeps HostFollows (log ++ new)) : HostInv qid after (seen ++ []) (log ++ new) := by
  have completed : ∀ n ∈ host.mq.completed, n ∈ after.mq.completed := by
    rw [step.mq]
    exact fun _ mem => mem
  have mem_left {task : HostTask} (mem : task ∈ left) :
      task = .received capsule.n slot capsule.req := by
    rcases passes with none | one
    · exact absurd (none ▸ mem) List.not_mem_nil
    · exact List.mem_singleton.mp (one ▸ mem)
  have mem_tasks {task : HostTask} (mem : task ∈ after.tasks) :
      task ∈ host.tasks ∨ task = .received capsule.n slot capsule.req := by
    rw [step.tasks] at mem
    exact (List.mem_append.mp mem).imp_right mem_left
  have zero (f : HostTask → Multiset Nat) (none : f (.received capsule.n slot capsule.req) = 0) :
      (after.tasks.map f).sum = (host.tasks.map f).sum := by
    rw [sum_start f step.tasks]
    refine (congrArg _ (List.sum_eq_zero fun value mem => ?_)).trans (add_zero _)
    obtain ⟨task, own, rfl⟩ := List.mem_map.mp mem
    rw [mem_left own, none]
  have keep {m place other : Nat} (token : TokenOf host m place other) :
      TokenOf after m place other :=
    token.keep (fun _ get => by rwa [step.opaques]) (by rw [step.mq]) (completed m)
      fun _ => (same place).2
  have perm := wire_perm step.get
  refine ⟨?_, ?_, ?_, ?_, ?_, ?_, keeps⟩
  · rw [List.append_nil, step.mq]
    exact inv.mq
  · refine inv.accounts.pass step.free step.used ?_
    rw [zero HostTask.slot rfl, live_same step.opaques (by rw [step.mq]; exact fun _ => Iff.rfl)]
  · refine inv.numbered.keep step.opaques (by rw [step.mq]) step.calls ?_
      (zero HostTask.call rfl).le
    rw [step.mq]
    exact inv.numbered.completed
  · exact inv.owned.keep step.opaques completed (fun place => (same place).1)
      fun _ _ mem => (mem_tasks mem).resolve_right (by simp)
  · refine inv.tokens.step ?_ (fun _ _ _ _ => keep) (fun task mem => ?_) fun item mem => ?_
    · have le : (left.map HostTask.token).sum ≤ {capsule.req} := by
        rcases passes with rfl | rfl
        · exact Multiset.zero_le _
        · exact (List.sum_singleton).le
      refine le_trans ?_ (step.mq ▸ inv.tokens.handed)
      rw [sum_start HostTask.token step.tasks, step.wire,
        ← Multiset.coe_eq_coe.mpr (perm.map OnWire.req), List.map_cons, ← Multiset.cons_coe,
        ← Multiset.singleton_add, add_assoc]
      exact add_le_add_right (add_le_add_left le _) _
    · refine (mem_tasks mem).imp_right fun eq => ?_
      rw [eq]
      exact keep token
    · rw [step.wire] at mem
      exact Or.inl (List.mem_of_mem_eraseIdx mem)
  · refine inv.progress.step (fun m second get => by rwa [step.opaques]) completed
      (fun m second isLive isDue => ?_)
      (fun m place req second mem get => ⟨?_, unsent second.call⟩)
      (fun call has => absurd has (unsent call)) (fun item mem second get => ?_)
      (fun call cqe data mem => ?_) (fun call cqe mem => absurd mem (uncalled call cqe))
      (fun call mem => absurd mem (unrefused call)) step.calls.ge
      (calls_older step.opaques (zero HostTask.call rfl).le)
      fun call isWrite bytes mem => absurd mem (unsubmitted call isWrite bytes)
    · rw [Host.Live, step.opaques, step.mq] at isLive
      rcases due m second isLive with answer | ⟨none, cqe⟩
      · exact Or.inr answer
      · refine Or.inl ⟨isLive, ?_, cqe⟩
        rcases isDue with told | answered | ⟨place, other, mem⟩ | ⟨other, mem⟩
        · exact Or.inl (step.mq ▸ told)
        · exact Or.inr (Or.inl (step.mq ▸ answered))
        · rw [step.tasks] at mem
          rcases List.mem_append.mp mem with old | isNew
          · exact Or.inr (Or.inr (Or.inl ⟨place, other, old⟩))
          · have eq : m = capsule.n := by
              cases mem_left isNew
              rfl
            rw [none eq] at isNew
            exact absurd isNew List.not_mem_nil
        · exact Or.inr (Or.inr (Or.inr ⟨other, (mem_tasks mem).resolve_right (by simp)⟩))
    · rw [step.opaques] at get
      exact inv.progress.sending m place req second ((mem_tasks mem).resolve_right (by simp)) get
    · rw [step.opaques] at get
      rw [step.wire] at mem
      obtain ⟨⟨bytes, sent⟩, unheard⟩ :=
        inv.progress.wire item (List.mem_of_mem_eraseIdx mem) second get
      refine ⟨⟨bytes, List.mem_append_left _ sent⟩, fun cqe data own => ?_⟩
      rcases List.mem_append.mp own with old | isNew
      · exact unheard cqe data old
      · obtain ⟨pointer, pointed, eq⟩ := heard _ cqe data isNew
        exact inv.wire_apart step.get mem (inv.numbered.call_unique get pointed eq.symm)
    · obtain ⟨pointer, pointed, rfl⟩ := heard call cqe data mem
      exact Or.inl (inv.progress.wire capsule (List.mem_of_getElem? step.get) pointer pointed).1

/-- The reply is in the slot of its command, and the data of a read in the memory of the user. -/
theorem HostInv.heard (inv : HostInv qid host seen log) {capsule : OnWire} {pointer : Opaque}
    (step : RcvStep host after index capsule left) (live : host.Live capsule.n pointer)
    (token : TokenOf host capsule.n pointer.slot capsule.req)
    (passes : left = [] ∨ left = [.received capsule.n pointer.slot capsule.req]) {cqe : Cqe}
    {data : List UInt8}
    (slots : after.slots = Function.update host.slots pointer.slot
      { host.slots pointer.slot with cqe := cqe, data := data })
    {stored : List Event}
    (read : stored = [] ∨ (host.slots pointer.slot).isWrite = false ∧
      stored = [.stored pointer.call (host.slots pointer.slot).capsule.capsule.sgl data]) :
    HostInv qid after (seen ++ []) (log ++ ([.received pointer.call cqe data] ++ stored)) := by
  obtain ⟨_, submitted⟩ := inv.owned.live capsule.n pointer live
  obtain ⟨sent, unheard⟩ := inv.progress.wire capsule (List.mem_of_getElem? step.get) pointer live.1
  have mem_new {event : Event} (mem : event ∈ [.received pointer.call cqe data] ++ stored) :
      event = .received pointer.call cqe data ∨
        event = .stored pointer.call (host.slots pointer.slot).capsule.capsule.sgl data := by
    refine (List.mem_append.mp mem).imp List.mem_singleton.mp fun own => ?_
    rcases read with none | ⟨_, one⟩
    · exact absurd (none ▸ own) List.not_mem_nil
    · exact List.mem_singleton.mp (one ▸ own)
  refine inv.reply step token passes (fun place => ?_) (fun call has => ?_)
    (fun call other bytes mem => ?_)
    (fun call other mem => ?_) (fun call mem => ?_) (fun call isWrite bytes mem => ?_)
    (fun m second isLive => ?_) ?_
  · rw [slots]
    by_cases eq : place = pointer.slot
    · rw [eq, Function.update_self]
      exact ⟨⟨rfl, rfl, rfl⟩, rfl⟩
    · rw [Function.update_of_ne eq]
      exact ⟨⟨rfl, rfl, rfl⟩, rfl⟩
  · rcases has with ⟨bytes, mem⟩ | mem
    · exact (mem_new mem).elim (by simp) (by simp)
    · exact (mem_new mem).elim (by simp) (by simp)
  · have eq := (mem_new mem).resolve_right (by simp)
    cases eq
    exact ⟨pointer, live.1, rfl⟩
  · exact (mem_new mem).elim (by simp) (by simp)
  · exact (mem_new mem).elim (by simp) (by simp)
  · exact (mem_new mem).elim (by simp) (by simp)
  · by_cases eq : m = capsule.n
    · rw [eq] at isLive
      obtain rfl : pointer = second := Option.some.inj (live.1.symm.trans isLive.1)
      refine Or.inl (Or.inl ⟨data, List.mem_append_right _ (List.mem_append_left _ ?_)⟩)
      rw [slots, Function.update_self]
      exact List.mem_singleton_self _
    · refine Or.inr ⟨fun same => absurd same eq, ?_⟩
      rw [slots, Function.update_of_ne fun place => eq ?_]
      exact inv.accounts.live_apart isLive live place
  · have first : HostFollows log (.received pointer.call cqe data) := ⟨sent, unheard⟩
    rw [← List.append_assoc]
    refine (inv.keeps.snoc first).append fun before event mem => ?_
    rcases read with none | ⟨isRead, one⟩
    · exact absurd (none ▸ mem) List.not_mem_nil
    · rw [one] at mem
      rw [List.mem_singleton.mp mem]
      rw [isRead] at submitted
      have known : .submitted pointer.call false (host.slots pointer.slot).capsule ∈
          log ++ [.received pointer.call cqe data] ++ before :=
        List.mem_append_left _ (List.mem_append_left _ submitted)
      refine ⟨⟨_, known, rfl⟩, cqe, ?_⟩
      exact List.mem_append_left _ (List.mem_append_right _ (List.mem_singleton_self _))

/-- A reply comes before the callback of its command. -/
theorem HostInv.receive (inv : HostInv qid host seen log) (narrow : qid < 32) {capsule : OnWire}
    (get : host.wire[index]? = some capsule) (fresh : capsule.n ∉ host.mq.completed)
    (reply : Reply) :
    ∃ more, HostInv qid (oxfHostRcvFn host index capsule reply).1 (seen ++ more)
      (log ++ (oxfHostRcvFn host index capsule reply).2) := by
  obtain ⟨slot, token, cid⟩ := inv.tokens.wire capsule (List.mem_of_getElem? get)
  obtain ⟨_, pointer, pointed, eq, _⟩ := id token
  subst eq
  have live : host.Live capsule.n pointer := ⟨pointed, fresh⟩
  have found : (replySlot (processCapsuleSqId capsule.cid) capsule.cid).2 = pointer.slot := by
    rw [cid]
    exact replySlot_wire narrow (inv.accounts.slot_lt live)
  have callOf : host.callOf capsule.n = [pointer.call] := by
    rw [Host.callOf, pointed]
    rfl
  simp only [oxfHostRcvFn, found, callOf, List.map_singleton]
  split
  · have step : RcvStep host { host with wire := host.wire.eraseIdx index } index capsule [] :=
      ⟨get, rfl, (List.append_nil _).symm, rfl, rfl, rfl, rfl, rfl⟩
    exact ⟨[], inv.reply step token (Or.inl rfl) (fun _ => ⟨⟨rfl, rfl, rfl⟩, rfl⟩)
      (by simp [Left]) (by simp) (by simp) (by simp) (by simp)
      (fun _ _ _ => Or.inr ⟨fun _ => rfl, rfl⟩)
      (by rw [List.append_nil]; exact inv.keeps)⟩
  · split
    · refine ⟨[], inv.heard (?_ : RcvStep host _ index capsule _) live token (Or.inr rfl) ?_
        (Or.inl rfl)⟩
      · exact ⟨get, rfl, rfl, rfl, rfl, rfl, rfl, rfl⟩
      · rfl
    · rename_i isRead
      have read := Bool.eq_false_iff.mpr isRead
      split
      · refine ⟨[], inv.heard (?_ : RcvStep host _ index capsule _) live token (Or.inr rfl) ?_
          (Or.inr ⟨read, rfl⟩)⟩
        · exact ⟨get, rfl, rfl, rfl, rfl, rfl, rfl, rfl⟩
        · rfl
      · refine ⟨[], inv.heard (?_ : RcvStep host _ index capsule []) live token (Or.inl rfl) ?_
          (Or.inr ⟨read, rfl⟩)⟩
        · exact ⟨get, rfl, rfl, rfl, rfl, rfl, rfl, rfl⟩
        · rfl

/-! ## Runs -/

theorem HostInv.step (inv : HostInv qid host seen log) (narrow : qid < 32) (op : HostOp)
    (timely : HostTimely qid host op) :
    ∃ more, HostInv qid (hostStep qid host op).1 (seen ++ more)
      (log ++ (hostStep qid host op).2) := by
  cases op with
  | submitIo command lastRound => exact inv.submitIo command lastRound
  | mq op => exact inv.mqStep timely
  | next index ok =>
      rw [hostStep]
      split
      · exact inv.same
      · rename_i task get
        have inTime := timely task get
        cases task with
        | filling call slot command => exact inv.filling get
        | submitting call slot => exact inv.submitting get
        | refusing call slot => exact ⟨[], inv.refusing get⟩
        | sending n slot req => exact inv.sending get inTime
        | aborting n req => exact inv.aborting get inTime.2
        | received n slot req => exact inv.received get inTime.1 inTime.2
        | calledBack slot => exact ⟨[], inv.calledBack get⟩
  | receive index reply =>
      rw [hostStep]
      split
      · exact inv.same
      · rename_i capsule get
        exact inv.receive narrow get (timely capsule get) reply

theorem Accounts.init (mem : Nat → UInt8) : Accounts (oxfHostCreateQueue mem) where
  lists := by rw [oxfHostCreateQueue, List.append_nil]
  slots := rfl

theorem HostInv.init (mem : Nat → UInt8) : HostInv qid (oxfHostCreateQueue mem) [] [] where
  mq := SeenInv.init hostConf
  accounts := Accounts.init mem
  numbered := ⟨rfl, Multiset.nodup_zero, fun _ mem => absurd mem (Multiset.notMem_zero _),
    fun _ mem => absurd mem List.not_mem_nil⟩
  owned := {
    preparing := fun _ _ mem => absurd mem List.not_mem_nil
    live := fun _ _ live => by cases live.1
    every := fun _ mem => absurd mem List.not_mem_nil }
  tokens := ⟨Multiset.zero_le _, fun _ mem => absurd mem List.not_mem_nil,
    fun _ mem => absurd mem List.not_mem_nil⟩
  progress := {
    due := fun _ _ live => by cases live.1
    sending := fun _ _ _ _ mem => absurd mem List.not_mem_nil
    left := fun _ has => by simp [Left] at has
    wire := fun _ mem => absurd mem List.not_mem_nil
    received := fun _ _ _ mem => absurd mem List.not_mem_nil
    called := fun _ _ mem => absurd mem List.not_mem_nil
    refused := fun _ mem => absurd mem List.not_mem_nil
    submitted := fun _ _ _ mem => absurd mem List.not_mem_nil }
  keeps := Keeps.nil

theorem hostInv_run (narrow : qid < 32) (mem : Nat → UInt8) (ops : List HostOp)
    (timely : (hostSystem qid).Allowed (HostTimely qid) (oxfHostCreateQueue mem) ops) :
    ∃ seen, HostInv qid ((hostSystem qid).run (oxfHostCreateQueue mem) ops) seen
      ((hostSystem qid).results (oxfHostCreateQueue mem) ops).flatten := by
  have init : ∃ seen, HostInv qid (oxfHostCreateQueue mem) seen ([] : List (List Event)).flatten :=
    ⟨[], HostInv.init mem⟩
  have inv := (hostSystem qid).run_results_invariant (HostTimely qid)
    (fun host results => ∃ seen, HostInv qid host seen results.flatten)
    (fun host results op timely inv => by
      obtain ⟨seen, inv⟩ := inv
      obtain ⟨more, next⟩ := inv.step narrow op timely
      rw [List.flatten_append, List.flatten_singleton]
      exact ⟨_, next⟩) init timely
  rwa [List.nil_append] at inv

/-- In every interleaving in which nothing of a command is under way when its callback has come, the
user's function is called once at most for a command and with the answer to it, each call of
`oxf_host_submit_io` returns once, and a capsule is sent once and as it was submitted. -/
theorem answers_in_order (qid : Nat) (narrow : qid < 32) (mem : Nat → UInt8) (ops : List HostOp)
    (timely : (hostSystem qid).Allowed (HostTimely qid) (oxfHostCreateQueue mem) ops) :
    Keeps HostFollows ((hostSystem qid).results (oxfHostCreateQueue mem) ops).flatten := by
  obtain ⟨_, inv⟩ := hostInv_run narrow mem ops timely
  exact inv.keeps

/-- In such an interleaving every slot is free, or one call or one submission whose callback has not
come has it. -/
theorem slots_accounted (qid : Nat) (narrow : qid < 32) (mem : Nat → UInt8) (ops : List HostOp)
    (timely : (hostSystem qid).Allowed (HostTimely qid) (oxfHostCreateQueue mem) ops) :
    Accounts ((hostSystem qid).run (oxfHostCreateQueue mem) ops) := by
  obtain ⟨_, inv⟩ := hostInv_run narrow mem ops timely
  exact inv.accounts

end Step

/-- A read of 4 KB. -/
def readCommand : Command where
  cmd := NvmeCmd.ofBytes [0x02]
  descs := [{ SglDesc.zero with word := 4096 }]

/-- The multi-queue takes its first task further. -/
def mqNext : HostOp := .mq (.next 0 false 0)

/-- A read from its submission to its callback. -/
def readRun : List HostOp :=
  [.submitIo readCommand false, .next 0 true, .next 0 true, mqNext, mqNext, .mq (.sqThread 0),
    mqNext, mqNext, mqNext, .next 0 true, .receive 0 { size := 19, cqe := {}, data := [] },
    .next 0 true, mqNext, mqNext,
    mqNext, mqNext, mqNext, .mq (.cqThread 0), mqNext, mqNext, .next 0 true]

theorem answers_in_order_read :
    Keeps HostFollows ((hostSystem 1).results (oxfHostCreateQueue fun _ => 0) readRun).flatten :=
  answers_in_order 1 (by decide) _ readRun (by decide +kernel)

theorem slots_accounted_read :
    Accounts ((hostSystem 1).run (oxfHostCreateQueue fun _ => 0) readRun) :=
  slots_accounted 1 (by decide) _ readRun (by decide +kernel)

end OxCtrl.HostQueue
