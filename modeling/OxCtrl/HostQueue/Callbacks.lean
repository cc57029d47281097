import OxCtrl.HostQueue.Requests

/-!
# Functions that the multi-queue calls

`sq_fn` writes the entry into the slot, `to_fn` the status of late commands, and `cq_fn` calls the
user's function with what the slot holds.
-/

namespace OxCtrl.HostQueue

open OxCtrl.Lib OxCtrl.Mq OxCtrl.Fabrics

section Step

variable {qid : Nat} {host after : Host} {seen : List Seen} {log : List Event} {index : Nat}
  {task : HostTask} {left : List HostTask}

/-! ## Steps of the multi-queue -/

/-- The multi-queue takes a step of its own. -/
structure MqStep (host after : Host) (op : Op) : Prop where
  timely : Timely host.mq op
  noSubmit : ∀ qid null, op ≠ .submit qid null
  noReturn : ∀ req, op ≠ .complete req
  mq : after.mq = Mq.step hostConf host.mq op
  opaques : after.opaques = host.opaques
  wire : after.wire = host.wire
  free : after.free = host.free
  used : after.used = host.used
  calls : after.nCalls = host.nCalls

namespace MqStep

variable {op : Op}

theorem submitted (step : MqStep host after op) : after.mq.nSubmitted = host.mq.nSubmitted := by
  rw [step.mq]
  refine (@step_user hostConf _ op).2.2.resolve_right fun more => ?_
  obtain ⟨⟨qid, null, eq⟩, _⟩ := more
  exact step.noSubmit qid null eq

theorem completed (step : MqStep host after op) (n : Nat) :
    n ∈ after.mq.completed ↔ n ∈ host.mq.completed ∨ callback host.mq op = some (.cqFn n) := by
  rw [step.mq]
  exact (step_user op).2.1 n

theorem completed_mono (step : MqStep host after op) :
    ∀ n ∈ host.mq.completed, n ∈ after.mq.completed :=
  fun n mem => (step.completed n).mpr (Or.inl mem)

theorem live (step : MqStep host after op) {n : Nat} {pointer : Opaque}
    (live : after.Live n pointer) : host.Live n pointer := by
  rw [Host.Live, step.opaques] at live
  exact ⟨live.1, fun mem => live.2 (step.completed_mono n mem)⟩

/-- A submission that is due was due, or it is answered in this step. -/
theorem due (step : MqStep host after op) (inv : HostInv qid host seen log) {n : Nat}
    (tasks : ∀ task ∈ after.tasks, task ∈ host.tasks ∨ task.answers = false) (due : Due after n)
    (quiet : ¬ Answers host.mq op n) : Due host n := by
  rcases due with told | answered | ⟨place, other, mem⟩ | ⟨other, mem⟩
  · rw [step.mq] at told
    exact (told_origin inv.mq.once quiet (Or.inl told)).imp_right Or.inl
  · rw [step.mq] at answered
    exact (told_origin inv.mq.once quiet (Or.inr answered)).imp_right Or.inl
  · exact Or.inr (Or.inr (Or.inl
      ⟨place, other, (tasks _ mem).resolve_right (by simp [HostTask.answers])⟩))
  · exact Or.inr (Or.inr (Or.inr ⟨other, (tasks _ mem).resolve_right (by simp [HostTask.answers])⟩))

theorem handed (step : MqStep host after op) :
    (↑host.mq.handed : Multiset Nat) ≤ ↑after.mq.handed := by
  obtain ⟨more, same⟩ := @step_handed hostConf host.mq op step.noReturn
  rw [step.mq]
  by_cases call : ∃ req, callback host.mq op = some (.sqFn req)
  · obtain ⟨req, call⟩ := call
    rw [more req call, ← Multiset.coe_add]
    exact Multiset.le_add_right _ _
  · rw [same fun req eq => call ⟨req, eq⟩]

/-- The host's requests keep their submissions, and their slots keep them. -/
theorem token (step : MqStep host after op) (inv : HostInv qid host seen log) {n slot req : Nat}
    (mem : req ∈ host.mq.handed) (token : TokenOf host n slot req)
    (slots : n ∉ after.mq.completed → (after.slots slot).mqReq = (host.slots slot).mqReq) :
    TokenOf after n slot req := by
  refine token.keep (fun _ get => by rwa [step.opaques]) ?_ (step.completed_mono n) slots
  rw [step.mq]
  exact inv.mq.once.hands_opaqueOf (inv.mq.once.handed req mem)

theorem numbered (step : MqStep host after op) (inv : HostInv qid host seen log)
    (calls : (after.tasks.map HostTask.call).sum = (host.tasks.map HostTask.call).sum) :
    Numbered after := by
  refine inv.numbered.keep step.opaques step.submitted step.calls (fun n mem => ?_) calls.le
  have next : OnceInv hostConf after.mq := by
    rw [step.mq]
    exact inv.mq.once.step op step.timely
  rw [← step.submitted]
  exact next.numbers n (Multiset.mem_add.mpr (Or.inr (Multiset.mem_coe.mpr mem)))

theorem quiet {call : Callback} (called : callback host.mq op = some call) {n : Nat}
    (late : .timedOut n ∉ call.seen host.mq.entries) : ¬ Answers host.mq op n := by
  rintro (back | isLate)
  · rw [mem_seen_returned, returns_of_callback called] at back
    cases back
  · rcases mem_seen isLate with ⟨m, _, eq⟩ | ⟨other, get, mem⟩
    · cases eq
    · rw [called] at get
      cases get
      exact late mem

end MqStep

/-- The multi-queue calls no function, or one that finds no slot. -/
theorem HostInv.mqQuiet (inv : HostInv qid host seen log) {op : Op} (step : MqStep host after op)
    (noDone : ∀ n, callback host.mq op ≠ some (.cqFn n)) (quiet : ∀ n, ¬ Answers host.mq op n)
    (tasks : after.tasks = host.tasks) (slots : after.slots = host.slots) :
    HostInv qid after (seen ++ Mq.seen host.mq op) (log ++ []) := by
  have same (n : Nat) : n ∈ after.mq.completed ↔ n ∈ host.mq.completed :=
    (step.completed n).trans ⟨fun either => either.resolve_right (noDone n), Or.inl⟩
  refine ⟨?_, ?_, ?_, ?_, ?_, ?_, ?_⟩
  · rw [step.mq]
    exact inv.mq.step step.timely
  · exact inv.accounts.pass step.free step.used (by rw [tasks, live_same step.opaques same])
  · exact step.numbered inv (by rw [tasks])
  · exact inv.owned.keep step.opaques step.completed_mono
      (fun _ => by rw [slots]; exact ⟨rfl, rfl, rfl⟩) fun _ _ mem => tasks ▸ mem
  · refine inv.tokens.step ?_ (fun n slot req mem token => ?_)
      (fun task mem => Or.inl (tasks ▸ mem))
      fun item mem => Or.inl (step.wire ▸ mem)
    · rw [tasks, step.wire]
      exact le_trans inv.tokens.handed step.handed
    · exact step.token inv mem token fun _ => by rw [slots]
  · refine inv.progress.keep step.opaques step.completed_mono
      (fun n pointer live due => Or.inl ⟨step.live live, ?_, by rw [slots]⟩)
      (fun n slot req mem => Or.inl (tasks ▸ mem)) step.wire step.calls.ge
      (calls_older step.opaques (by rw [tasks])) (by simp)
    exact step.due inv (fun task mem => Or.inl (tasks ▸ mem)) due (quiet n)
  · rw [List.append_nil]
    exact inv.keeps

/-- `sq_fn` writes the entry into the slot. -/
theorem HostInv.callSq (inv : HostInv qid host seen log) {op : Op} (step : MqStep host after op)
    {req n : Nat} {pointer : Opaque} (called : callback host.mq op = some (.sqFn req))
    (own : n ∈ (host.mq.entries req).opaqueOf) (pointed : host.opaques[n]? = some pointer)
    (fresh : n ∉ host.mq.completed)
    (tasks : after.tasks = host.tasks ++ [.sending n pointer.slot req])
    (slots : after.slots = Function.update host.slots pointer.slot
      { host.slots pointer.slot with mqReq := some req }) :
    HostInv qid after (seen ++ Mq.seen host.mq op) (log ++ []) := by
  have live : host.Live n pointer := ⟨pointed, fresh⟩
  obtain ⟨_, _, _, _, _, get⟩ := of_callback_sqFn called
  have staged : host.mq.Staged (.calling, .entry req) :=
    Or.inl ⟨_, List.mem_of_getElem? get, entry_mem (List.mem_singleton_self req)⟩
  have given := inv.mq.once.inHands_calling staged
  have noDone (m : Nat) : callback host.mq op ≠ some (.cqFn m) := by simp [called]
  have same (m : Nat) : m ∈ after.mq.completed ↔ m ∈ host.mq.completed :=
    (step.completed m).trans ⟨fun either => either.resolve_right (noDone m), Or.inl⟩
  have kept (place : Nat) : (after.slots place).Same (host.slots place) ∧
      (after.slots place).cqe = (host.slots place).cqe := by
    rw [slots]
    by_cases eq : place = pointer.slot
    · rw [eq, Function.update_self]
      exact ⟨⟨rfl, rfl, rfl⟩, rfl⟩
    · rw [Function.update_of_ne eq]
      exact ⟨⟨rfl, rfl, rfl⟩, rfl⟩
  have mem_tasks {task : HostTask} (mem : task ∈ after.tasks) :
      task ∈ host.tasks ∨ task = .sending n pointer.slot req := by
    rw [tasks] at mem
    exact (List.mem_append.mp mem).imp_right List.mem_singleton.mp
  have handed : after.mq.handed = host.mq.handed ++ [req] := by
    rw [step.mq]
    exact (step_handed op step.noReturn).1 req called
  refine ⟨?_, ?_, ?_, ?_, ?_, ?_, ?_⟩
  · rw [step.mq]
    exact inv.mq.step step.timely
  · exact inv.accounts.start tasks rfl step.free step.used (live_same step.opaques same)
  · exact step.numbered inv (sum_start_zero HostTask.call tasks rfl)
  · exact inv.owned.keep step.opaques step.completed_mono (fun place => (kept place).1)
      fun call place mem => (mem_tasks mem).resolve_right (by simp)
  · refine inv.tokens.step ?_ (fun m place other mem token => ?_) (fun task mem => ?_)
      fun item mem => Or.inl (step.wire ▸ mem)
    · have one : HostTask.token (.sending n pointer.slot req) = {req} := rfl
      rw [sum_start HostTask.token tasks, step.wire, handed, List.map_singleton, List.sum_singleton,
        one, ← Multiset.coe_add, Multiset.coe_singleton, add_right_comm]
      exact add_le_add_left inv.tokens.handed _
    · refine step.token inv mem token fun notDone => ?_
      obtain ⟨has, second, getSecond, rfl, _⟩ := token
      rw [slots, Function.update_of_ne fun place => ?_]
      obtain rfl := inv.accounts.live_apart ⟨getSecond, fun done => notDone ((same m).mpr done)⟩
        live place
      obtain rfl := inv.mq.apart req other m (Or.inl staged) (Or.inr mem) own has
      exact inv.mq.once.not_calling mem staged
    · refine (mem_tasks mem).imp_right fun eq => ?_
      rw [eq]
      refine ⟨?_, pointer, step.opaques ▸ pointed, rfl, fun _ => ?_⟩
      · rw [step.mq, inv.mq.once.hands_opaqueOf given]
        exact own
      · rw [slots, Function.update_self]
  · refine inv.progress.keep step.opaques step.completed_mono
      (fun m second isLive due => Or.inl ⟨step.live isLive, ?_, (kept second.slot).2⟩)
      (fun m place other mem => (mem_tasks mem).imp_right fun eq second getSecond left => ?_)
      step.wire
      step.calls.ge (calls_older step.opaques (sum_start_zero HostTask.call tasks rfl).le) (by simp)
    · refine step.due inv (fun task mem => (mem_tasks mem).imp_right fun eq => ?_) due
        (MqStep.quiet called (by simp [Callback.seen]))
      rw [eq]
      rfl
    · cases eq
      obtain ⟨k, third, getThird, eq, known⟩ := inv.progress.left _ left
      obtain rfl := inv.numbered.call_unique getThird getSecond eq
      exact inv.mq.calling _ known ⟨_, staged, own⟩
  · rw [List.append_nil]
    exact inv.keeps

/-- `cq_fn` calls the user's function. -/
theorem HostInv.callCq (inv : HostInv qid host seen log) {op : Op} (step : MqStep host after op)
    {n : Nat} {pointer : Opaque} (called : callback host.mq op = some (.cqFn n))
    (pointed : host.opaques[n]? = some pointer)
    (tasks : after.tasks = host.tasks ++ [.calledBack pointer.slot])
    (slots : after.slots = host.slots) :
    HostInv qid after (seen ++ Mq.seen host.mq op)
      (log ++ (host.slots pointer.slot).ctx.toList.map fun call =>
        .called call (host.slots pointer.slot).cqe) := by
  obtain ⟨_, _, _, _, _, get⟩ := of_callback_cqFn called
  have answered : host.mq.At .answered n := at_of_task (List.mem_of_getElem? get) held_mem rfl
  have fresh : n ∉ host.mq.completed := inv.mq.once.at_not_completed answered (by decide)
  have live : host.Live n pointer := ⟨pointed, fresh⟩
  have completed (m : Nat) : m ∈ after.mq.completed ↔ m ∈ host.mq.completed ∨ m = n := by
    rw [step.completed, called]
    simp [eq_comm]
  have noSq (req : Nat) : callback host.mq op ≠ some (.sqFn req) := by simp [called]
  have mem_tasks {task : HostTask} (mem : task ∈ after.tasks) :
      task ∈ host.tasks ∨ task = .calledBack pointer.slot := by
    rw [tasks] at mem
    exact (List.mem_append.mp mem).imp_right List.mem_singleton.mp
  have due {m : Nat} (isDue : Due after m) : Due host m := by
    refine step.due inv (fun task mem => (mem_tasks mem).imp_right fun eq => ?_) isDue
      (MqStep.quiet called (by simp [Callback.seen]))
    rw [eq]
    rfl
  rw [(inv.owned.live n pointer live).1.ctx, Option.toList_some, List.map_singleton]
  refine ⟨?_, ?_, ?_, ?_, ?_, ?_, ?_⟩
  · rw [step.mq]
    exact inv.mq.step step.timely
  · exact inv.accounts.called tasks step.free step.used
      (live_called pointed step.opaques fresh completed)
  · exact step.numbered inv (sum_start_zero HostTask.call tasks rfl)
  · exact inv.owned.keep step.opaques step.completed_mono
      (fun _ => by rw [slots]; exact ⟨rfl, rfl, rfl⟩)
      fun call place mem => (mem_tasks mem).resolve_right (by simp)
  · refine inv.tokens.step ?_ (fun m place other mem token => ?_) (fun task mem => ?_)
      fun item mem => Or.inl (step.wire ▸ mem)
    · rw [sum_start_zero HostTask.token tasks rfl, step.wire]
      exact le_trans inv.tokens.handed step.handed
    · exact step.token inv mem token fun _ => by rw [slots]
    · refine (mem_tasks mem).imp_right fun eq => ?_
      rw [eq]
      trivial
  · refine inv.progress.step (fun m second get => by rwa [step.opaques]) step.completed_mono
      (fun m second isLive isDue => Or.inl ⟨step.live isLive, due isDue, by rw [slots]⟩)
      (fun m place req second mem get => ⟨?_, by simp [Left]⟩)
      (fun call has => by simp [Left] at has)
      (fun item mem second get => ?_) (by simp) (fun call cqe mem => ?_) (by simp) step.calls.ge
      (calls_older step.opaques (sum_start_zero HostTask.call tasks rfl).le) (by simp)
    · rw [step.opaques] at get
      exact inv.progress.sending m place req second ((mem_tasks mem).resolve_right (by simp)) get
    · rw [step.opaques] at get
      rw [step.wire] at mem
      obtain ⟨⟨capsule, sent⟩, unheard⟩ := inv.progress.wire item mem second get
      exact ⟨⟨capsule, List.mem_append_left _ sent⟩, by simpa using unheard⟩
    · obtain ⟨rfl, _⟩ : call = pointer.call ∧ _ := by simpa using mem
      exact ⟨n, pointer, step.opaques ▸ pointed, rfl, (completed n).mpr (Or.inr rfl)⟩
  · refine inv.keeps.snoc ⟨inv.progress.due n pointer live (Or.inr (Or.inl answered)),
      fun other old => ?_⟩
    obtain ⟨m, second, getSecond, eq, done⟩ := inv.progress.called _ other old
    obtain rfl := inv.numbered.call_unique getSecond pointed eq
    exact fresh done

theorem processTo_same (slots : Nat → QueueCmd) (pointers : List Opaque) (slot : Nat) :
    (oxfHostProcessTo slots pointers slot).Same (slots slot) ∧
      (oxfHostProcessTo slots pointers slot).mqReq = (slots slot).mqReq := by
  induction pointers with
  | nil => exact ⟨⟨rfl, rfl, rfl⟩, rfl⟩
  | cons pointer rest ih =>
      rw [oxfHostProcessTo]
      by_cases eq : slot = pointer.slot
      · rw [eq] at ih ⊢
        rw [Function.update_self]
        exact ih
      · rw [Function.update_of_ne eq]
        exact ih

/-- The status of a late command. -/
theorem processTo_status (slots : Nat → QueueCmd) {pointers : List Opaque} {pointer : Opaque}
    (mem : pointer ∈ pointers) :
    (oxfHostProcessTo slots pointers pointer.slot).cqe.status = nvmeHostTimeout := by
  induction pointers with
  | nil => exact absurd mem List.not_mem_nil
  | cons first rest ih =>
      rw [oxfHostProcessTo]
      by_cases eq : pointer.slot = first.slot
      · rw [eq, Function.update_self]
      · rw [Function.update_of_ne eq]
        refine ih ((List.mem_cons.mp mem).resolve_left fun same => eq ?_)
        rw [same]

theorem processTo_other (slots : Nat → QueueCmd) {pointers : List Opaque} {slot : Nat}
    (none : ∀ pointer ∈ pointers, slot ≠ pointer.slot) :
    oxfHostProcessTo slots pointers slot = slots slot := by
  induction pointers with
  | nil => rfl
  | cons first rest ih =>
      rw [oxfHostProcessTo, Function.update_of_ne (none first List.mem_cons_self)]
      exact ih fun pointer mem => none pointer (List.mem_cons_of_mem _ mem)

theorem mem_pointers {numbers : List (Option Nat)} {pointer : Opaque} :
    pointer ∈ host.pointers numbers ↔ ∃ n, some n ∈ numbers ∧ host.opaques[n]? = some pointer := by
  rw [Host.pointers, List.reduceOption_mem_iff, List.mem_map]
  constructor
  · rintro ⟨number, mem, eq⟩
    obtain ⟨n, rfl, get⟩ := Option.bind_eq_some_iff.mp eq
    exact ⟨n, mem, get⟩
  · rintro ⟨n, mem, get⟩
    exact ⟨some n, mem, get⟩

/-- `to_fn` is called for submissions whose callback has not come. -/
theorem late_fresh (once : OnceInv hostConf host.mq) {op : Op} {numbers : List (Option Nat)}
    (called : callback host.mq op = some (.toFn numbers)) {n : Nat} (mem : some n ∈ numbers) :
    n ∉ host.mq.completed := by
  cases op with
  | next index late new =>
      rw [callback] at called
      split at called
      · cases called
      · rename_i lates get
        cases called
        obtain ⟨req, isLate, own⟩ := List.mem_map.mp mem
        exact once.at_not_completed
          (at_of_task (List.mem_of_getElem? get) (entry_mem isLate) own) (by decide)
      · cases called
      · cases called
  | _ => cases called

/-- `to_fn` writes the status of late commands. -/
theorem HostInv.callTo (inv : HostInv qid host seen log) {op : Op} (step : MqStep host after op)
    {numbers : List (Option Nat)} (called : callback host.mq op = some (.toFn numbers))
    (tasks : after.tasks = host.tasks)
    (slots : after.slots = oxfHostProcessTo host.slots (host.pointers numbers)) :
    HostInv qid after (seen ++ Mq.seen host.mq op)
      (log ++ (host.pointers numbers).map fun pointer => .timedOut pointer.call) := by
  have same (n : Nat) : n ∈ after.mq.completed ↔ n ∈ host.mq.completed :=
    (step.completed n).trans ⟨fun either => either.resolve_right (by simp [called]), Or.inl⟩
  have kept (place : Nat) := processTo_same host.slots (host.pointers numbers) place
  refine ⟨?_, ?_, ?_, ?_, ?_, ?_, ?_⟩
  · rw [step.mq]
    exact inv.mq.step step.timely
  · exact inv.accounts.pass step.free step.used (by rw [tasks, live_same step.opaques same])
  · exact step.numbered inv (by rw [tasks])
  · exact inv.owned.keep step.opaques step.completed_mono (fun place => slots ▸ (kept place).1)
      fun _ _ mem => tasks ▸ mem
  · refine inv.tokens.step ?_ (fun n slot req mem token => ?_)
      (fun task mem => Or.inl (tasks ▸ mem))
      fun item mem => Or.inl (step.wire ▸ mem)
    · rw [tasks, step.wire]
      exact le_trans inv.tokens.handed step.handed
    · exact step.token inv mem token fun _ => slots ▸ (kept slot).2
  · refine inv.progress.keep step.opaques step.completed_mono (fun n pointer isLive due => ?_)
      (fun n slot req mem => Or.inl (tasks ▸ mem)) step.wire step.calls.ge
      (calls_older step.opaques (by rw [tasks])) fun event mem => ?_
    · have live := step.live isLive
      by_cases late : pointer ∈ host.pointers numbers
      · refine Or.inr (Or.inr (Or.inl ⟨?_, List.mem_append_right _ (List.mem_map_of_mem late)⟩))
        rw [slots]
        exact processTo_status host.slots late
      · refine Or.inl ⟨live, ?_, ?_⟩
        · refine step.due inv (fun task mem => Or.inl (tasks ▸ mem)) due (MqStep.quiet called ?_)
          intro mem
          obtain ⟨m, own, eq⟩ := List.mem_map.mp mem
          cases eq
          exact late (mem_pointers.mpr ⟨n, List.reduceOption_mem_iff.mp own, live.1⟩)
        · rw [slots, processTo_other]
          intro other mem place
          obtain ⟨m, own, getOther⟩ := mem_pointers.mp mem
          obtain rfl := inv.accounts.live_apart live
            ⟨getOther, late_fresh inv.mq.once called own⟩ place
          exact late (mem_pointers.mpr ⟨n, own, live.1⟩)
    · obtain ⟨pointer, _, rfl⟩ := List.mem_map.mp mem
      rfl
  · refine inv.keeps.append fun before event mem => ?_
    obtain ⟨pointer, own, rfl⟩ := List.mem_map.mp mem
    obtain ⟨n, _, get⟩ := mem_pointers.mp own
    obtain ⟨isWrite, capsule, submitted⟩ := inv.owned.every pointer (List.mem_of_getElem? get)
    exact ⟨isWrite, capsule, List.mem_append_left _ submitted⟩

theorem answers_of_no_callback {mq : MqState} {op : Op} (none : callback mq op = none)
    (noReturn : ∀ req, op ≠ .complete req) (n : Nat) : ¬ Answers mq op n := by
  rintro (back | late)
  · obtain ⟨req, eq, _⟩ := of_returns (mem_seen_returned.mp back)
    exact noReturn req eq
  · rcases mem_seen late with ⟨m, _, eq⟩ | ⟨call, called, _⟩
    · cases eq
    · rw [none] at called
      cases called

/-- A function that the multi-queue calls. -/
theorem HostInv.callback (inv : HostInv qid host seen log) {op : Op} {call : Callback}
    (called : Mq.callback host.mq op = some call) (timely : HostTimely qid host (.mq op))
    (noSubmit : ∀ qid null, op ≠ .submit qid null) (noReturn : ∀ req, op ≠ .complete req) :
    ∃ more, HostInv qid (oxfHostCallback host (Mq.step hostConf host.mq op) call).1 (seen ++ more)
      (log ++ (oxfHostCallback host (Mq.step hostConf host.mq op) call).2) := by
  have quiet : MqStep host { host with mq := Mq.step hostConf host.mq op } op :=
    ⟨timely.1, noSubmit, noReturn, rfl, rfl, rfl, rfl, rfl, rfl⟩
  cases call with
  | sqFn req =>
      have still : HostInv qid { host with mq := Mq.step hostConf host.mq op }
          (seen ++ Mq.seen host.mq op) (log ++ []) :=
        inv.mqQuiet quiet (by simp [called])
          (fun n => MqStep.quiet called (by simp [Callback.seen])) rfl rfl
      rw [oxfHostCallback]
      split
      · exact ⟨_, still⟩
      · rename_i n own
        split
        · exact ⟨_, still⟩
        · rename_i pointer pointed
          exact ⟨_, inv.callSq ⟨timely.1, noSubmit, noReturn, rfl, rfl, rfl, rfl, rfl, rfl⟩
            called own
            pointed (timely.2 _ called n own) rfl rfl⟩
  | toFn numbers =>
      have step : MqStep host
          (oxfHostCallback host (Mq.step hostConf host.mq op) (.toFn numbers)).1 op :=
        ⟨timely.1, noSubmit, noReturn, rfl, rfl, rfl, rfl, rfl, rfl⟩
      exact ⟨_, inv.callTo step called rfl rfl⟩
  | cqFn n =>
      obtain ⟨_, _, _, _, _, get⟩ := of_callback_cqFn called
      have answered : host.mq.At .answered n := at_of_task (List.mem_of_getElem? get) held_mem rfl
      have lt := inv.mq.once.numbers n (inv.mq.once.at_pending answered (by decide))
      rw [← inv.numbered.opaques] at lt
      obtain ⟨pointer, pointed⟩ : ∃ pointer, host.opaques[n]? = some pointer :=
        ⟨_, List.getElem?_eq_getElem lt⟩
      have step : MqStep host
          { host with
            mq := Mq.step hostConf host.mq op
            tasks := host.tasks ++ [.calledBack pointer.slot] } op :=
        ⟨timely.1, noSubmit, noReturn, rfl, rfl, rfl, rfl, rfl, rfl⟩
      rw [oxfHostCallback, pointed]
      exact ⟨_, inv.callCq step called pointed rfl rfl⟩

/-- A step of the multi-queue that is not the user's. -/
theorem hostMqStep_either {op : Op}
    (eq : hostMqStep host op =
      match Mq.callback host.mq op with
      | none => ({ host with mq := Mq.step hostConf host.mq op }, [])
      | some call => oxfHostCallback host (Mq.step hostConf host.mq op) call) :
    (Mq.callback host.mq op = none ∧
        hostMqStep host op = ({ host with mq := Mq.step hostConf host.mq op }, [])) ∨
      ∃ call, Mq.callback host.mq op = some call ∧
        hostMqStep host op = oxfHostCallback host (Mq.step hostConf host.mq op) call := by
  cases called : Mq.callback host.mq op with
  | none => exact Or.inl ⟨rfl, by rw [eq, called]⟩
  | some call => exact Or.inr ⟨call, rfl, by rw [eq, called]⟩

/-- The multi-queue takes a step. -/
theorem HostInv.mqStep (inv : HostInv qid host seen log) {op : Op}
    (timely : HostTimely qid host (.mq op)) :
    ∃ more, HostInv qid (hostMqStep host op).1 (seen ++ more) (log ++ (hostMqStep host op).2) := by
  have own (noSubmit : ∀ qid null, op ≠ .submit qid null) (noReturn : ∀ req, op ≠ .complete req)
      (either : (Mq.callback host.mq op = none ∧
          hostMqStep host op = ({ host with mq := Mq.step hostConf host.mq op }, [])) ∨
        ∃ call, Mq.callback host.mq op = some call ∧
          hostMqStep host op = oxfHostCallback host (Mq.step hostConf host.mq op) call) :
      ∃ more, HostInv qid (hostMqStep host op).1 (seen ++ more)
        (log ++ (hostMqStep host op).2) := by
    rcases either with ⟨none, same⟩ | ⟨call, called, same⟩
    · rw [same]
      exact ⟨_, inv.mqQuiet ⟨timely.1, noSubmit, noReturn, rfl, rfl, rfl, rfl, rfl, rfl⟩
        (by simp [none])
        (answers_of_no_callback none noReturn) rfl rfl⟩
    · rw [same]
      exact inv.callback called timely noSubmit noReturn
  cases op with
  | submit | complete => exact inv.same
  | _ => exact own (by simp) (by simp) (hostMqStep_either rfl)

end Step

end OxCtrl.HostQueue
