import OxCtrl.Mq.Capacity
import OxCtrl.Mq.Pending

/-!
# Completions of the multi-queue

The user and the timeout thread may both complete an entry.  As long as they do not have the same
entry at the same time, every step keeps each submission in one place, and `cq_fn` is called at most
once for it.
-/

namespace OxCtrl.Mq

open OxCtrl.Lib

/-! ## Steps that the user does not see -/

section Step

variable {conf : Config} {mq after : MqState} {index : Nat} {late : Bool} {new : Nat}
  {queue : Queue}

/-- A task moves an entry to a list. -/
theorem moved_to_list {task : Task} (get : mq.tasks[index]? = some task) (source : Place)
    (found : mq.queues[queue.qid]? = some queue) {changed : Queue} {target : Place} {req : Nat}
    (insert : changed.places = inPlace target [req] + queue.places)
    {common : Multiset (Place × Nat)} (places : task.places = inPlace source [req] + common)
    {left : List Task} (leftPlaces : (left.map Task.places).sum = common)
    (same : changed.qid = queue.qid) (queues : after.queues = mq.queues.set changed.qid changed)
    (tasks : after.tasks = replaceAt mq.tasks index left) :
    Moved mq after (inPlace source [req]) (inPlace target [req]) :=
  moved_insert get found same queues tasks insert places leftPlaces

/-- A task takes an entry from a list. -/
theorem moved_from_list {task : Task} (get : mq.tasks[index]? = some task) (target : Place)
    (found : mq.queues[queue.qid]? = some queue) {changed : Queue} {source : Place} {req : Nat}
    (remove : queue.places = inPlace source [req] + changed.places) {left : List Task}
    (leftPlaces : (left.map Task.places).sum = inPlace target [req] + task.places)
    (same : changed.qid = queue.qid) (queues : after.queues = mq.queues.set changed.qid changed)
    (tasks : after.tasks = replaceAt mq.tasks index left) :
    Moved mq after (inPlace source [req]) (inPlace target [req]) :=
  moved_remove get found same queues tasks remove rfl leftPlaces

theorem notMem_inPlace {place other : Place} (ne : other ≠ place) {req : Nat} {reqs : List Nat} :
    (other, req) ∉ inPlace place reqs :=
  fun mem => ne (mem_inPlace.mp mem).1

theorem single_ok {task : Task} (ok : TaskOk conf mq task) :
    ∀ other ∈ [task], TaskOk conf mq other :=
  List.forall_mem_singleton.mpr ok

theorem none_ok : ∀ other ∈ ([] : List Task), TaskOk conf mq other :=
  fun _ mem => absurd mem List.not_mem_nil

theorem OnceInv.submitTook (once : OnceInv conf mq) {qid req : Nat} {opaqueOf : Option Nat}
    (get : mq.tasks[index]? = some (.submitTook qid req opaqueOf)) :
    OnceInv conf (taskStep conf mq index late new (.submitTook qid req opaqueOf)) :=
  once.next_one (once.base.submitTook get)
    (moved_one get (.sq qid .new) (.sq qid .filled) (add_zero _).symm rfl rfl rfl)
    rfl rfl rfl get rfl (le_of_eq (add_comm ..)) rfl rfl rfl (le_refl _) (single_ok trivial)

theorem OnceInv.submitFilled (once : OnceInv conf mq) {req : Nat}
    (get : mq.tasks[index]? = some (.submitFilled queue.qid req))
    (found : mq.queues[queue.qid]? = some queue) (counted : queue.Counted) :
    OnceInv conf (queueStep conf mq index late new queue (.submitFilled queue.qid req)) :=
  once.next_one (once.base.submitFilled get found counted)
    (moved_to_list get (.sq queue.qid .filled) found (places_insert_sqUsed queue req)
      (add_zero _).symm rfl rfl rfl rfl) rfl rfl rfl
    get rfl (le_refl _) rfl rfl rfl (le_refl _) none_ok

theorem OnceInv.sqTook (once : OnceInv conf mq) {qid req : Nat}
    (get : mq.tasks[index]? = some (.sqTook qid req)) :
    OnceInv conf (taskStep conf mq index late new (.sqTook qid req)) :=
  once.next_one (once.base.sqTook get)
    (moved_one get (.sq qid .took) (.sq qid .marked) (add_zero _).symm rfl rfl rfl)
    rfl rfl rfl get rfl (le_refl _) rfl rfl rfl (le_refl _) (single_ok trivial)

theorem OnceInv.cqTook (once : OnceInv conf mq) {req : Nat}
    (get : mq.tasks[index]? = some (.cqTook queue.qid req))
    (found : mq.queues[queue.qid]? = some queue) (counted : queue.Counted) :
    OnceInv conf (queueStep conf mq index late new queue (.cqTook queue.qid req)) :=
  once.next_one (once.base.cqTook get found counted)
    (moved_to_list get (.cq queue.qid .full) found (places_insert_cqFree queue req)
      (add_zero _).symm rfl rfl rfl rfl) rfl rfl rfl
    get rfl (le_of_eq (zero_add _)) rfl rfl rfl (le_refl _) (single_ok trivial)

theorem OnceInv.cqFreed (once : OnceInv conf mq) {qid : Nat} {opaqueOf : Option Nat}
    (get : mq.tasks[index]? = some (.cqFreed qid opaqueOf)) :
    OnceInv conf (taskStep conf mq index late new (.cqFreed qid opaqueOf)) := by
  refine once.next_none (once.base.cqFreed get) rfl rfl rfl rfl get rfl ?_ rfl (le_refl _)
    (fun _ => Or.inl) none_ok
  change 0 + ↑(mq.completed ++ opaqueOf.toList) ≤ ↑opaqueOf.toList + (↑mq.completed : Multiset Nat)
  rw [zero_add, ← Multiset.coe_add, add_comm]

theorem OnceInv.removed (once : OnceInv conf mq) {caller : Caller} {req cqReq : Nat}
    (get : mq.tasks[index]? = some (.removed caller queue.qid req cqReq))
    (found : mq.queues[queue.qid]? = some queue) (counted : queue.Counted) :
    OnceInv conf
      (queueStep conf mq index late new queue (.removed caller queue.qid req cqReq)) := by
  obtain rfl : caller = .user := once.base.users _ (List.mem_of_getElem? get)
  have places : (Task.removed .user queue.qid req cqReq).places =
      inPlace (.sq queue.qid .out) [req] + inPlace (.cq queue.qid .full) [cqReq] := by
    simp only [Task.places, Caller.rest, inPlace_nil, add_zero]
    exact add_comm ..
  exact once.next_one (once.base.removed get found counted)
    (moved_to_list get (.sq queue.qid .out) found (places_insert_sqFree queue req) places
    (add_zero _)
      rfl rfl rfl) rfl rfl rfl
    get rfl (le_refl _) rfl rfl rfl (le_refl _) (single_ok trivial)

theorem held_done (caller : Caller) (req : Nat) :
    ((caller.done req).map Task.held).sum = 0 ∧ ((caller.done req).map Task.claim).sum = 0 := by
  cases caller with
  | user => exact ⟨rfl, rfl⟩
  | timeout rest => exact ⟨rfl, rfl⟩

theorem done_ok (caller : Caller) (req : Nat) :
    ∀ other ∈ caller.done req, TaskOk conf mq other := by
  cases caller with
  | user => exact none_ok
  | timeout rest => exact single_ok trivial

theorem OnceInv.posting (once : OnceInv conf mq) {caller : Caller} {req cqReq : Nat}
    (get : mq.tasks[index]? = some (.posting caller queue.qid req cqReq))
    (found : mq.queues[queue.qid]? = some queue) (counted : queue.Counted) :
    OnceInv conf
      (queueStep conf mq index late new queue (.posting caller queue.qid req cqReq)) := by
  obtain ⟨held, claim⟩ := held_done caller req
  refine once.next_one (once.base.posting get found counted)
    (moved_to_list get (.cq queue.qid .full) found (places_insert_cqUsed queue cqReq) (add_assoc ..)
      (places_done caller req) rfl rfl rfl) rfl rfl rfl get rfl ?_ rfl rfl rfl ?_
      (done_ok caller req)
  · rw [held]
    exact le_refl _
  · rw [claim]
    exact Multiset.zero_le _

theorem OnceInv.replacing (once : OnceInv conf mq) {rest lates : List Nat} {req : Nat}
    (get : mq.tasks[index]? = some (.replacing queue.qid rest lates req))
    (found : mq.queues[queue.qid]? = some queue) (counted : queue.Counted) :
    OnceInv conf (queueStep conf mq index late new queue (.replacing queue.qid rest lates req)) :=
  once.next_one (once.base.replacing get found counted)
    (moved_to_list get (.sq queue.qid .fresh) found (places_insert_sqFree queue req)
    rfl (add_zero _)
      rfl rfl rfl) rfl
    (mq.entries_self req) rfl get rfl (le_refl _) rfl rfl rfl (le_refl _) (single_ok trivial)

theorem OnceInv.timedOut (once : OnceInv conf mq) {lates : List Nat}
    (get : mq.tasks[index]? = some (.timedOut lates)) :
    OnceInv conf (taskStep conf mq index late new (.timedOut lates)) :=
  once.next_none (once.base.timedOut get) (add_zero _) rfl rfl rfl get rfl
    (le_refl _) rfl (le_refl _) (fun _ => Or.inl) (single_ok trivial)

theorem OnceInv.completing_nil (once : OnceInv conf mq)
    (get : mq.tasks[index]? = some (.completing [])) :
    OnceInv conf (taskStep conf mq index late new (.completing [])) :=
  once.next_none (once.base.completing_nil get) rfl rfl rfl rfl get rfl (le_refl _) rfl (le_refl _)
    (fun _ => Or.inl) none_ok

theorem OnceInv.scanning_nil (once : OnceInv conf mq) {qid : Nat} {lates : List Nat}
    (get : mq.tasks[index]? = some (.scanning qid [] lates)) :
    OnceInv conf (taskStep conf mq index late new (.scanning qid [] lates)) := by
  have base : Inv conf (taskStep conf mq index late new (.scanning qid [] lates)) :=
    once.base.scanning_nil get
  by_cases none : lates = []
  · subst none
    exact once.next_none base rfl rfl rfl rfl get rfl (le_refl _) rfl (le_refl _)
      (fun _ => Or.inl) none_ok
  · rw [taskStep, if_neg none] at base ⊢
    exact once.next_none base (add_zero _) rfl rfl rfl get rfl (le_refl _) rfl (le_refl _)
      (fun _ => Or.inl) (single_ok trivial)

theorem OnceInv.scanning_skip (once : OnceInv conf mq) {req : Nat} {rest lates : List Nat}
    (get : mq.tasks[index]? = some (.scanning queue.qid (req :: rest) lates))
    (base : Inv conf (mq.become index [.scanning queue.qid rest lates])) :
    OnceInv conf (mq.become index [.scanning queue.qid rest lates]) :=
  once.next_none base (add_zero _) rfl rfl rfl get rfl (le_refl _) rfl (le_refl _)
    (fun _ => Or.inl) (single_ok trivial)

/-- An entry that the user has, or completes, is with the user. -/
theorem OnceInv.inHands (once : OnceInv conf mq) {req : Nat} (claim : req ∈ mq.claims) :
    InHands conf mq req := by
  rcases Multiset.mem_add.mp claim with handed | task
  · exact once.handed req handed
  · obtain ⟨task, mem, own⟩ := mem_sum_map.mp task
    have ok := once.tasks task mem
    cases task with
    | sqQueued qid entry =>
        obtain rfl := Multiset.mem_singleton.mp own
        exact ok
    | checked caller qid entry =>
        cases caller with
        | user =>
            obtain rfl := Multiset.mem_singleton.mp own
            exact Or.inl ⟨qid, ok⟩
        | timeout => exact absurd own (Multiset.notMem_zero _)
    | took caller qid entry cqReq =>
        cases caller with
        | user =>
            obtain rfl := Multiset.mem_singleton.mp own
            exact Or.inl ⟨qid, ok⟩
        | timeout => exact absurd own (Multiset.notMem_zero _)
    | removing caller qid entry cqReq =>
        cases caller with
        | user =>
            obtain rfl := Multiset.mem_singleton.mp own
            exact Or.inl ⟨qid, once.base.waits _ _ (mem_locks.mpr ⟨_, cqReq, mem⟩)⟩
        | timeout => exact absurd own (Multiset.notMem_zero _)
    | _ => exact absurd own (Multiset.notMem_zero _)

/-- The entry is in `sq_wait`, and `sq_fn` has still to be called. -/
theorem OnceInv.marked (once : OnceInv conf mq) (base : Inv conf after) {qid req : Nat}
    (get : mq.tasks[index]? = some (.sqMarked qid req))
    (moved : Moved mq after (inPlace (.sq qid .marked) [req]) (inPlace (.sq qid .wait) [req]))
    (entries : after.entries = mq.entries) (ext : after.extList = mq.extList)
    (tasks : after.tasks = replaceAt mq.tasks index [.sqQueued qid req])
    (completed : after.completed = mq.completed) (handed : after.handed = mq.handed)
    (submitted : after.nSubmitted = mq.nSubmitted) : OnceInv conf after := by
  have change : Change conf mq after _ _ := Change.of_same moved entries ext
  have marked : (.sq qid .marked, req) ∈ mq.placed := moved.gone_mem (mem_inPlace_self _ req)
  have fewer : after.pending ≤ mq.pending := by
    refine change.pending_next once.base get tasks ?_
    rw [carried_one, carried_one, entries, completed]
    exact le_refl _
  have claims : after.claims = {req} + mq.claims := by
    obtain ⟨others, before, behind⟩ := sum_split Task.claim get
    have none : (Task.sqMarked qid req).claim = 0 := rfl
    have one : (Task.sqQueued qid req).claim = {req} := rfl
    rw [MqState.claims, MqState.claims, tasks, behind, before, handed, List.map_singleton,
      List.sum_singleton, none, one]
    abel
  refine once.of_quiet base change (quiet_inPlace rfl) (Multiset.nodup_of_le fewer once.pending)
    (fun n mem => ?_) ?_ (fun other mem => Or.inl (handed ▸ mem)) fun task mem => ?_
  · rw [submitted]
    exact once.numbers n (Multiset.mem_of_le fewer mem)
  · rw [claims, Multiset.singleton_add, Multiset.nodup_cons]
    exact ⟨fun claim => Bool.false_ne_true ((once.inHands claim).place once.base marked),
      once.claims⟩
  · rw [tasks] at mem
    rcases mem_replaceAt mem with old | isNew
    · exact Or.inl old
    · rw [List.mem_singleton.mp isNew]
      obtain ⟨rest, _, behind⟩ := moved
      refine Or.inr (Or.inl ⟨qid, ?_⟩)
      rw [behind]
      exact Multiset.mem_add.mpr (Or.inl (mem_inPlace_self _ req))

theorem OnceInv.sqMarked (once : OnceInv conf mq) {req : Nat}
    (get : mq.tasks[index]? = some (.sqMarked queue.qid req))
    (found : mq.queues[queue.qid]? = some queue) (counted : queue.Counted) :
    OnceInv conf (queueStep conf mq index late new queue (.sqMarked queue.qid req)) := by
  have base : Inv conf (queueStep conf mq index late new queue (.sqMarked queue.qid req)) :=
    once.base.sqMarked get found counted
  rw [queueStep] at base ⊢
  split
  · exact once
  · rename_i unlocked
    rw [if_neg unlocked] at base
    exact once.marked base get
      (moved_to_list get (.sq queue.qid .marked) found (places_insert_sqWait queue req)
        (add_zero _).symm rfl rfl rfl rfl) rfl rfl rfl rfl rfl rfl

/-- `sq_fn` is called. -/
theorem OnceInv.sqQueued (once : OnceInv conf mq) {qid req : Nat}
    (get : mq.tasks[index]? = some (.sqQueued qid req)) :
    OnceInv conf (taskStep conf mq index late new (.sqQueued qid req)) := by
  have own : InHands conf mq req := once.tasks _ (List.mem_of_getElem? get)
  have moved : Moved mq (taskStep conf mq index late new (.sqQueued qid req)) 0 0 :=
    moved_none get rfl rfl rfl
  have claim : req ∈ (taskStep conf mq index late new (.sqQueued qid req)).claims :=
    Multiset.mem_add.mpr (Or.inl (List.mem_append_right _ (List.mem_singleton_self req)))
  have kept := own.move claim (Change.of_same moved rfl rfl)
    fun _ isGone => absurd isGone (Multiset.notMem_zero _)
  refine once.next_none (once.base.sqQueued get) rfl rfl rfl rfl get rfl
    (le_refl _) rfl ?_ ?_ none_ok
  · change (↑(mq.handed ++ [req]) : Multiset Nat) + 0 ≤ ↑mq.handed + {req}
    rw [add_zero, ← Multiset.coe_add]
    exact le_refl _
  · intro other mem
    rcases List.mem_append.mp mem with old | isNew
    · exact Or.inl old
    · rw [List.mem_singleton.mp isNew]
      exact Or.inr kept

/-! ## Rounds that begin -/

/-- A round or a call takes an entry from a list. -/
theorem OnceInv.start_one (once : OnceInv conf mq) (base : Inv conf after)
    (found : mq.queues[queue.qid]? = some queue) {changed : Queue} (source target : Place)
    {req : Nat} (remove : queue.places = inPlace source [req] + changed.places)
    (same : changed.qid = queue.qid) (quiet : source.quiet = true) {task : Task}
    (places : task.places = inPlace target [req])
    (queues : after.queues = mq.queues.set changed.qid changed)
    (tasks : after.tasks = mq.tasks ++ [task]) (entries : after.entries = mq.entries)
    (ext : after.extList = mq.extList) (completed : after.completed = mq.completed)
    {extra : Multiset Nat}
    (pending : target.carry (mq.entries req) + task.held ≤ source.carry (mq.entries req) + extra)
    (nodup : (mq.pending + extra).Nodup) (numbers : ∀ n ∈ mq.pending + extra, n < after.nSubmitted)
    (handed : after.handed = mq.handed) (claim : task.claim = 0) (taskOk : TaskOk conf after task) :
    OnceInv conf after := by
  have moved : Moved mq after (inPlace source [req]) (inPlace target [req]) := by
    rw [← places]
    exact moved_begin found same queues tasks remove
  have change : Change conf mq after _ _ := Change.of_same moved entries ext
  have fewer : after.pending ≤ mq.pending + extra := by
    refine change.pending_start once.base tasks completed ?_
    rw [carried_one, carried_one, entries, List.map_singleton, List.sum_singleton]
    exact pending
  have claims : after.claims = mq.claims := by
    rw [MqState.claims, MqState.claims, tasks, handed, List.map_append, List.sum_append,
      List.map_singleton, List.sum_singleton, claim, add_zero]
  refine once.of_quiet base change (quiet_inPlace quiet) (Multiset.nodup_of_le fewer nodup)
    (fun n mem => numbers n (Multiset.mem_of_le fewer mem)) ?_
    (fun other mem => Or.inl (handed ▸ mem))
    fun other mem => ?_
  · rw [claims]
    exact once.claims
  · rw [tasks] at mem
    rcases List.mem_append.mp mem with old | isNew
    · exact Or.inl old
    · rw [List.mem_singleton.mp isNew]
      exact Or.inr taskOk

theorem OnceInv.numbers_zero (once : OnceInv conf mq) :
    ∀ n ∈ mq.pending + 0, n < mq.nSubmitted := by
  rw [add_zero]
  exact once.numbers

theorem OnceInv.pending_zero (once : OnceInv conf mq) : (mq.pending + 0).Nodup := by
  rw [add_zero]
  exact once.pending

/-- A submission has a number of its own. -/
theorem OnceInv.submit (once : OnceInv conf mq) (qid : Nat) (null : Bool) :
    OnceInv conf (oxMqSubmitReq mq qid null) := by
  have base := once.base.submit qid null
  have fresh : mq.nSubmitted ∉ mq.pending := fun mem => Nat.lt_irrefl _ (once.numbers _ mem)
  have nodup : (mq.pending + ↑(if null then none else some mq.nSubmitted).toList).Nodup := by
    cases null with
    | true => exact once.pending_zero
    | false =>
        rw [add_comm]
        exact Multiset.nodup_cons.mpr ⟨fresh, once.pending⟩
  have numbers : ∀ n ∈ mq.pending + ↑(if null then none else some mq.nSubmitted).toList,
      n < mq.nSubmitted + 1 := by
    intro n mem
    rcases Multiset.mem_add.mp mem with old | isNew
    · exact Nat.lt_succ_of_lt (once.numbers n old)
    · cases null with
      | true => exact absurd isNew (Multiset.notMem_zero _)
      | false =>
          rw [Multiset.mem_singleton.mp isNew]
          exact Nat.lt_succ_self _
  rw [oxMqSubmitReq] at base ⊢
  split at base
  · exact once
  · rename_i queue get
    obtain ⟨rfl, found, counted⟩ := once.base.found get
    split at base
    · exact once
    · rename_i req rest first
      exact once.start_one base found (.sq queue.qid .free) (.sq queue.qid .new)
        (places_remove_sqFree first) rfl rfl
        rfl rfl rfl rfl rfl rfl (le_refl _) nodup numbers rfl rfl trivial

theorem OnceInv.sqThread (once : OnceInv conf mq) (qid : Nat) :
    OnceInv conf (oxMqSqThread mq qid) := by
  have base := once.base.sqThread qid
  rw [oxMqSqThread] at base ⊢
  split at base
  · exact once
  · rename_i queue get
    obtain ⟨rfl, found, counted⟩ := once.base.found get
    revert base
    split
    · exact fun _ => once
    · split
      · exact fun _ => once
      · rename_i req rest first
        intro base
        exact once.start_one base found (.sq queue.qid .used) (.sq queue.qid .took)
          (places_remove_sqUsed first) rfl rfl rfl
          rfl rfl rfl rfl rfl (le_refl _) once.pending_zero once.numbers_zero rfl rfl trivial

theorem OnceInv.cqThread (once : OnceInv conf mq) (qid : Nat) :
    OnceInv conf (oxMqCqThread mq qid) := by
  have base := once.base.cqThread qid
  rw [oxMqCqThread] at base ⊢
  split at base
  · exact once
  · rename_i queue get
    obtain ⟨rfl, found, counted⟩ := once.base.found get
    revert base
    split
    · exact fun _ => once
    · split
      · exact fun _ => once
      · rename_i req rest first
        intro base
        exact once.start_one base found (.cq queue.qid .used) (.cq queue.qid .full)
          (places_remove_cqUsed first) rfl rfl rfl
          rfl rfl rfl rfl rfl (le_refl _) once.pending_zero once.numbers_zero rfl rfl trivial

/-- Tasks without an entry begin. -/
theorem OnceInv.start_none (once : OnceInv conf mq) (base : Inv conf after) {started : List Task}
    (places : ∀ task ∈ started, task.places = 0 ∧ task.held = 0)
    (queues : after.queues = mq.queues)
    (tasks : after.tasks = mq.tasks ++ started) (entries : after.entries = mq.entries)
    (ext : after.extList = mq.extList) (completed : after.completed = mq.completed)
    (submitted : after.nSubmitted = mq.nSubmitted)
    (claims : ↑after.handed + (started.map Task.claim).sum ≤ (↑mq.handed : Multiset Nat))
    (handed : ∀ req ∈ after.handed, req ∈ mq.handed)
    (taskOk : ∀ task ∈ started, TaskOk conf after task) : OnceInv conf after := by
  have placed : after.placed = mq.placed := by
    rw [MqState.placed, queues, tasks, List.map_append, List.sum_append,
      sum_eq_zero fun task mem => (places task mem).1, add_zero]
    rfl
  have moved : Moved mq after 0 0 :=
    ⟨mq.placed, (zero_add _).symm, by rw [placed, zero_add]⟩
  have pending : after.pending = mq.pending := by
    rw [MqState.pending, MqState.pending, placed, entries, completed, tasks, List.map_append,
      List.sum_append, sum_eq_zero fun task mem => (places task mem).2, add_zero]
  have fewer : after.claims ≤ mq.claims := by
    rw [MqState.claims, MqState.claims, tasks, List.map_append, List.sum_append, add_left_comm,
      add_comm (↑mq.handed : Multiset Nat)]
    exact add_le_add_right claims _
  refine once.of_quiet base (Change.of_same moved entries ext)
    (fun _ mem => absurd mem (Multiset.notMem_zero _)) ?_ ?_
    (Multiset.nodup_of_le fewer once.claims)
    (fun req mem => Or.inl (handed req mem)) fun task mem => ?_
  · rw [pending]
    exact once.pending
  · rw [pending, submitted]
    exact once.numbers
  · rw [tasks] at mem
    exact (List.mem_append.mp mem).imp_right (taskOk task)

theorem OnceInv.toThread (once : OnceInv conf mq) (qid : Nat) :
    OnceInv conf (oxMqCheckQueueTo mq qid) := by
  have base := once.base.toThread qid
  rw [oxMqCheckQueueTo] at base ⊢
  split at base
  · exact once
  · revert base
    split
    · exact fun _ => once
    · intro base
      exact once.start_none base (List.forall_mem_singleton.mpr ⟨rfl, rfl⟩) rfl rfl rfl rfl rfl rfl
        (le_of_eq (add_zero _)) (fun _ mem => mem) (single_ok trivial)

/-! ## Completions -/

section Beside

variable {task other : Task} {others : List Task}

/-- Two tasks do not hold the same entry. -/
theorem Inv.places_apart (inv : Inv conf mq) (perm : mq.tasks.Perm (task :: other :: others))
    {place otherPlace : Place} {req : Nat} (mem : (place, req) ∈ task.places)
    (memOther : (otherPlace, req) ∈ other.places) : False := by
  have total : (mq.tasks.map Task.places).sum =
      task.places + (other.places + (others.map Task.places).sum) :=
    (perm.map Task.places).sum_eq
  have nodup := inv.placed.nodup
  rw [MqState.placed, total, Multiset.map_add, Multiset.map_add, Multiset.map_add] at nodup
  have apart := (Multiset.nodup_add.mp (Multiset.nodup_add.mp nodup).2.1).2.2
  have own : req ∈ task.places.map Prod.snd := Multiset.mem_map_of_mem Prod.snd mem
  have ofOther : req ∈ other.places.map Prod.snd := Multiset.mem_map_of_mem Prod.snd memOther
  exact Multiset.disjoint_left.mp apart own (Multiset.mem_add.mpr (Or.inl ofOther))

/-- Two tasks do not complete the same entry. -/
theorem OnceInv.claims_apart (once : OnceInv conf mq)
    (perm : mq.tasks.Perm (task :: other :: others)) {req : Nat} (mem : req ∈ task.claim)
    (memOther : req ∈ other.claim) : False := by
  have total : (mq.tasks.map Task.claim).sum =
      task.claim + (other.claim + (others.map Task.claim).sum) :=
    (perm.map Task.claim).sum_eq
  have nodup := once.claims
  rw [MqState.claims, total] at nodup
  have apart := (Multiset.nodup_add.mp (Multiset.nodup_add.mp nodup).2.1).2.2
  exact Multiset.disjoint_left.mp apart mem (Multiset.mem_add.mpr (Or.inl memOther))

theorem claim_of_completes {req : Nat} (completes : task.completes req) : req ∈ task.claim := by
  cases task with
  | checked caller | took caller | removing caller =>
      cases caller with
      | user => exact Multiset.mem_singleton.mpr (of_decide_eq_true completes).symm
      | timeout => cases completes
  | _ => cases completes

end Beside

/-- A task goes on with entries on which others rely. -/
theorem OnceInv.next_loud {gone come : Multiset (Place × Nat)} (once : OnceInv conf mq)
    (base : Inv conf after) (change : Change conf mq after gone come) {task : Task}
    (get : mq.tasks[index]? = some task) {left : List Task}
    (tasks : after.tasks = replaceAt mq.tasks index left)
    (pending : carried after.entries come + (left.map Task.held).sum ≤
      carried mq.entries gone + task.held)
    (completed : after.completed = mq.completed) (submitted : after.nSubmitted = mq.nSubmitted)
    (handed : after.handed = mq.handed) (claims : (left.map Task.claim).sum ≤ task.claim)
    (hands : ∀ req ∈ after.claims, ∀ place, (place, req) ∈ gone → place.withUser = true →
      InHands conf after req)
    (unmoved : ∀ other others, mq.tasks.Perm (task :: other :: others) → Unmoved gone other)
    (leftOk : ∀ other ∈ left, TaskOk conf after other) : OnceInv conf after := by
  have fewer : after.pending ≤ mq.pending := by
    refine change.pending_next once.base get tasks ?_
    rw [completed]
    exact add_le_add_left pending _
  have claimsLe : after.claims ≤ mq.claims := by
    refine claims_next get tasks ?_
    rw [handed]
    exact add_le_add_right claims _
  refine once.of_change base change (Multiset.nodup_of_le fewer once.pending) ?_
    (Multiset.nodup_of_le claimsLe once.claims) (fun req claim inHands => ?_)
    (fun other mem => Or.inl (handed ▸ mem)) fun other mem => ?_
  · rw [submitted]
    exact fun n mem => once.numbers n (Multiset.mem_of_le fewer mem)
  · by_cases moves : ∃ place : Place, (place, req) ∈ gone ∧ place.withUser = true
    · obtain ⟨place, isGone, loud⟩ := moves
      exact hands req claim place isGone loud
    · refine inHands.move claim change fun place isGone => ?_
      exact Bool.eq_false_iff.mpr fun loud => moves ⟨place, isGone, loud⟩
  · rw [tasks] at mem
    rcases perm_of_mem_replaceAt get mem with isNew | ⟨others, perm⟩
    · exact Or.inr (leftOk other isNew)
    · refine Or.inl ⟨perm.mem_iff.mpr (List.mem_cons_of_mem _ List.mem_cons_self), ?_⟩
      exact unmoved other others perm

/-- The timeout thread has tried a completion. -/
theorem OnceInv.settle (once : OnceInv conf mq) (base : Inv conf after) {task : Task} {req : Nat}
    {rest : List Nat} (get : mq.tasks[index]? = some task)
    (places : task.places = inPlace .late (req :: rest)) (queues : after.queues = mq.queues)
    (tasks : after.tasks = replaceAt mq.tasks index [.marking req rest])
    (entries : after.entries = mq.entries) (ext : after.extList = mq.extList)
    (completed : after.completed = mq.completed) (submitted : after.nSubmitted = mq.nSubmitted)
    (handed : after.handed = mq.handed) : OnceInv conf after := by
  have moved : Moved mq after (inPlace .late [req]) (inPlace .settled [req]) :=
    moved_one get .late .settled (places.trans (inPlace_cons ..)) (add_zero _) queues tasks
  refine once.next_loud base (Change.of_same moved entries ext) get tasks ?_ completed
    submitted handed
    (Multiset.zero_le _) (fun other _ place isGone _ => ?_) (fun other others _ => ?_)
    (single_ok trivial)
  · rw [carried_one, carried_one]
    exact Multiset.zero_le _
  · obtain ⟨rest, _, behind⟩ := moved
    obtain ⟨rfl, eq⟩ := mem_inPlace.mp isGone
    rw [List.mem_singleton.mp eq, InHands, behind]
    exact Or.inr (Or.inr (Or.inl (Multiset.mem_add.mpr (Or.inl (mem_inPlace_self _ req)))))
  · exact ⟨fun _ _ _ isGone => absurd isGone (notMem_inPlace (by simp)),
      fun _ _ _ isGone => absurd isGone (notMem_inPlace (by simp))⟩

theorem OnceInv.checked (once : OnceInv conf mq) {caller : Caller} {req : Nat}
    (get : mq.tasks[index]? = some (.checked caller queue.qid req))
    (found : mq.queues[queue.qid]? = some queue) (counted : queue.Counted) :
    OnceInv conf (queueStep conf mq index late new queue (.checked caller queue.qid req)) := by
  have base : Inv conf (queueStep conf mq index late new queue (.checked caller queue.qid req)) :=
    once.base.checked get found counted
  rw [queueStep] at base ⊢
  revert base
  split
  · intro base
    cases caller with
    | user =>
        exact once.next_none base rfl rfl rfl rfl get rfl (le_refl _) rfl
          (add_le_add_right (Multiset.zero_le _) _) (fun _ => Or.inl) none_ok
    | timeout rest => exact once.settle base get rfl rfl rfl rfl rfl rfl rfl rfl
  · rename_i cqReq rest first
    intro base
    have moved : Moved mq
      ((mq.setQueue { queue with cqFree := queue.cqFree.removeHead }).become index
        [.took caller queue.qid req cqReq]) (inPlace (.cq queue.qid .free) [cqReq])
        (inPlace (.cq queue.qid .taken) [cqReq]) :=
      moved_from_list get (.cq queue.qid .taken) found (places_remove_cqFree first) (add_zero _) rfl
        rfl rfl
    have own : TaskOk conf mq (.checked caller queue.qid req) :=
      once.tasks _ (List.mem_of_getElem? get)
    refine once.next_one base moved rfl (mq.entries_self cqReq) rfl get rfl
      (le_refl _) rfl rfl rfl ?_ (single_ok ?_)
    · cases caller <;> exact le_refl _
    · cases caller with
      | user => exact moved.kept own fun isGone => absurd isGone (notMem_inPlace (by simp))
      | timeout => trivial

/-- The timeout thread completes a late entry. -/
theorem OnceInv.completing (once : OnceInv conf mq) {req : Nat} {rest : List Nat}
    (get : mq.tasks[index]? = some (.completing (req :: rest))) :
    OnceInv conf (taskStep conf mq index late new (.completing (req :: rest))) := by
  have base : Inv conf (taskStep conf mq index late new (.completing (req :: rest))) :=
    once.base.completing get
  have timeout : (mq.entries req).status = .timeout := by
    refine (once.base.placed.entries .late req (mem_placed (List.mem_of_getElem? get) ?_)).1
    exact mem_inPlace.mpr ⟨rfl, List.mem_cons_self⟩
  rw [taskStep] at base ⊢
  revert base
  split
  · split
    · exact fun _ => once
    · simp only [checkReq, timeout, reduceCtorEq, or_false, if_false]
      split
      · exact fun base => once.settle base get rfl rfl rfl rfl rfl rfl rfl rfl
      · exact fun base => once.next_none base (add_zero _) rfl rfl rfl get rfl (le_refl _) rfl
          (le_refl _) (fun _ => Or.inl) (single_ok trivial)
  · exact fun base => once.settle base get rfl rfl rfl rfl rfl rfl rfl rfl

/-- The timeout thread is done with an entry. -/
theorem OnceInv.marking (once : OnceInv conf mq) {req : Nat} {rest : List Nat}
    (get : mq.tasks[index]? = some (.marking req rest)) :
    OnceInv conf (taskStep conf mq index late new (.marking req rest)) := by
  have queues : (taskStep conf mq index late new (.marking req rest)).queues = mq.queues := rfl
  have moved : Moved mq (taskStep conf mq index late new (.marking req rest))
      (inPlace .settled [req]) 0 := by
    obtain ⟨others, before, behind⟩ := moved_task get [.completing rest] queues rfl
    refine ⟨inPlace .late rest + others, before.trans (add_assoc ..), ?_⟩
    rw [behind, zero_add, List.map_singleton, List.sum_singleton]
    rfl
  have settled : (.settled, req) ∈ mq.placed := moved.gone_mem (mem_inPlace_self _ req)
  refine once.next_loud (once.base.marking get)
    (Change.of_update once.base moved (mem_inPlace_snd _ req) rfl rfl) get rfl
    (Multiset.zero_le _) rfl
    rfl rfl (Multiset.zero_le _) (fun other _ place isGone _ => ?_) (fun other others _ => ?_)
    (single_ok trivial)
  · rw [List.mem_singleton.mp (mem_inPlace.mp isGone).2]
    refine Or.inr (Or.inr (Or.inr ⟨?_, (once.base.placed.entries _ _ settled).2⟩))
    have marked : (taskStep conf mq index late new (.marking req rest)).entries req =
        { mq.entries req with status := .timeoutCompleted } := Function.update_self ..
    rw [marked]
  · exact ⟨fun _ _ _ isGone => absurd isGone (notMem_inPlace (by simp)),
      fun _ _ _ isGone => absurd isGone (notMem_inPlace (by simp))⟩

section Took

variable {qid req cqReq : Nat}

/-- A completion of the user has found `OX_MQ_WAITING`. -/
theorem OnceInv.took_removing (once : OnceInv conf mq) (base : Inv conf after)
    (get : mq.tasks[index]? = some (.took .user qid req cqReq)) (queues : after.queues = mq.queues)
    (tasks : after.tasks = replaceAt mq.tasks index [.removing .user qid req cqReq])
    {value : Entry} (entries : after.entries = Function.update mq.entries cqReq value)
    (copied : value.opaqueOf = (mq.entries req).opaqueOf)
    (ext : after.extList = mq.extList) (completed : after.completed = mq.completed)
    (submitted : after.nSubmitted = mq.nSubmitted) (handed : after.handed = mq.handed) :
    OnceInv conf after := by
  have wait : (.sq qid .wait, req) ∈ mq.placed := once.tasks _ (List.mem_of_getElem? get)
  have own : (.cq qid .taken, cqReq) ∈ (Task.took .user qid req cqReq).places :=
    Multiset.mem_add.mpr (Or.inl (mem_inPlace_self _ cqReq))
  have differ : req ≠ cqReq := by
    rintro rfl
    cases once.base.placed.unique wait (mem_placed (List.mem_of_getElem? get) own)
  have moved : Moved mq after (inPlace (.cq qid .taken) [cqReq])
    (inPlace (.cq qid .taken) [cqReq]) :=
    moved_task get _ queues tasks
  refine once.next_loud base
    (Change.of_update once.base moved (mem_inPlace_snd _ cqReq) entries ext)
    get tasks ?_ completed submitted handed (le_refl _) (fun other _ place isGone loud => ?_)
    (fun other others perm => ⟨fun _ _ _ isGone => ?_, fun otherQid otherReq mem isGone => ?_⟩)
    (single_ok ?_)
  · rw [carried_one, carried_one]
    exact le_refl _
  · rw [(mem_inPlace.mp isGone).1] at loud
    cases loud
  · exact absurd isGone (notMem_inPlace (by simp))
  · rw [List.mem_singleton.mp (mem_inPlace.mp isGone).2] at mem
    exact once.base.places_apart perm own mem
  · rw [TaskOk, entries, Function.update_self, Function.update_of_ne differ]
    exact copied

/-- A completion of the timeout thread has found another status. -/
theorem OnceInv.took_posting (once : OnceInv conf mq) (base : Inv conf after) {rest : List Nat}
    (get : mq.tasks[index]? = some (.took (.timeout rest) qid req cqReq))
    (queues : after.queues = mq.queues)
    (tasks : after.tasks = replaceAt mq.tasks index [.posting (.timeout rest) qid req cqReq])
    {value : Entry} (entries : after.entries = Function.update mq.entries cqReq value)
    (copied : value.opaqueOf = (mq.entries req).opaqueOf)
    (ext : after.extList = mq.extList) (completed : after.completed = mq.completed)
    (submitted : after.nSubmitted = mq.nSubmitted) (handed : after.handed = mq.handed) :
    OnceInv conf after := by
  have own : (.cq qid .taken, cqReq) ∈ (Task.took (.timeout rest) qid req cqReq).places :=
    Multiset.mem_add.mpr (Or.inl (mem_inPlace_self _ cqReq))
  have moved : Moved mq after (inPlace (.cq qid .taken) [cqReq] + inPlace .late [req])
      (inPlace (.cq qid .full) [cqReq] + inPlace .settled [req]) := by
    obtain ⟨others, before, behind⟩ := moved_task get _ queues tasks
    refine ⟨inPlace .late rest + others, ?_, ?_⟩
    · rw [before, Task.places, late_eq]
      simp only [Caller.settled, Caller.rest]
      abel
    · rw [behind, List.map_singleton, List.sum_singleton, Task.places]
      simp only [Caller.settled, Caller.rest]
      abel
  have mem : cqReq ∈ (inPlace (.cq qid .taken) [cqReq] + inPlace .late [req]).map Prod.snd := by
    rw [Multiset.map_add]
    exact Multiset.mem_add.mpr (Or.inl (mem_inPlace_snd _ cqReq))
  refine once.next_loud base (Change.of_update once.base moved mem entries ext) get
    tasks ?_ completed submitted handed (le_refl _) (fun other _ place isGone loud => ?_)
    (fun other others perm => ⟨fun _ _ _ isGone => ?_, fun otherQid otherReq memOther isGone => ?_⟩)
    (single_ok trivial)
  · have full : (Place.cq qid .full).carry value = Place.late.carry (mq.entries req) :=
      congrArg (fun opaqueOf : Option Nat => (↑opaqueOf.toList : Multiset Nat)) copied
    rw [carried_add, carried_add, carried_one, carried_one, carried_one, carried_one, entries,
      Function.update_self, full, add_comm (Place.late.carry _)]
    exact le_refl _
  · rcases Multiset.mem_add.mp isGone with taken | isLate
    · rw [(mem_inPlace.mp taken).1] at loud
      cases loud
    · obtain ⟨others, _, behind⟩ := moved
      rw [List.mem_singleton.mp (mem_inPlace.mp isLate).2, InHands, behind]
      refine Or.inr (Or.inr (Or.inl (Multiset.mem_add.mpr (Or.inl ?_))))
      exact Multiset.mem_add.mpr (Or.inr (mem_inPlace_self _ req))
  · rcases Multiset.mem_add.mp isGone with taken | isLate
    · exact absurd taken (notMem_inPlace (by simp))
    · exact absurd isLate (notMem_inPlace (by simp))
  · rcases Multiset.mem_add.mp isGone with taken | isLate
    · rw [List.mem_singleton.mp (mem_inPlace.mp taken).2] at memOther
      exact once.base.places_apart perm own memOther
    · exact absurd isLate (notMem_inPlace (by simp))

theorem OnceInv.took (once : OnceInv conf mq) {caller : Caller}
    (get : mq.tasks[index]? = some (.took caller qid req cqReq))
    (base : Inv conf (taskStep conf mq index late new (.took caller qid req cqReq))) :
    OnceInv conf (taskStep conf mq index late new (.took caller qid req cqReq)) := by
  rw [taskStep] at base ⊢
  revert base
  split
  · exact fun _ => once
  · cases caller with
    | user =>
        have wait : (.sq qid .wait, req) ∈ mq.placed := once.tasks _ (List.mem_of_getElem? get)
        have waiting := (once.base.placed.entries _ _ wait).1.1
        rw [if_pos waiting]
        exact fun base => once.took_removing base get rfl rfl rfl rfl rfl rfl rfl rfl
    | timeout rest =>
        have isLate : (.late, req) ∈ mq.placed := by
          refine mem_placed (List.mem_of_getElem? get) (Multiset.mem_add.mpr (Or.inr ?_))
          exact mem_inPlace.mpr ⟨rfl, List.mem_cons_self⟩
        have timeout : (mq.entries req).status = .timeout :=
          (once.base.placed.entries _ _ isLate).1
        have other : (mq.entries req).status ≠ .waiting := by
          rw [timeout]
          decide
        rw [if_neg other]
        exact fun base => once.took_posting base get rfl rfl rfl rfl rfl rfl rfl rfl

/-- A completion of the user takes the entry from `sq_wait`. -/
theorem OnceInv.removing_wait (once : OnceInv conf mq) (base : Inv conf after)
    (get : mq.tasks[index]? = some (.removing .user queue.qid req cqReq))
    (found : mq.queues[queue.qid]? = some queue) {changed : Queue}
    (remove : changed = { queue with sqWait := queue.sqWait.remove req })
    (same : changed.qid = queue.qid) (queues : after.queues = mq.queues.set changed.qid changed)
    (tasks : after.tasks = replaceAt mq.tasks index [.removed .user queue.qid req cqReq])
    (entries : after.entries = mq.entries) (ext : after.extList = mq.extList)
    (completed : after.completed = mq.completed) (submitted : after.nSubmitted = mq.nSubmitted)
    (handed : after.handed = mq.handed) : OnceInv conf after := by
  have member := List.mem_of_getElem? get
  have waits : (.sq queue.qid .wait, req) ∈ mq.placed :=
    once.base.waits _ _ (mem_locks.mpr ⟨_, cqReq, member⟩)
  have mem := once.base.mem_sqWait found waits
  have copied : (mq.entries cqReq).opaqueOf = (mq.entries req).opaqueOf := once.tasks _ member
  have own : (.cq queue.qid .taken, cqReq) ∈ (Task.removing .user queue.qid req cqReq).places :=
    Multiset.mem_add.mpr (Or.inl (mem_inPlace_self _ cqReq))
  have claim : req ∈ (Task.removing .user queue.qid req cqReq).claim :=
    Multiset.mem_singleton_self req
  have moved : Moved mq after
      (inPlace (.sq queue.qid .wait) [req] + inPlace (.cq queue.qid .taken) [cqReq])
      (inPlace (.sq queue.qid .out) [req] + inPlace (.cq queue.qid .full) [cqReq]) := by
    obtain ⟨rest, before, behind⟩ := moved_queue get found same _ queues tasks
    refine ⟨changed.places + rest, ?_, ?_⟩
    · rw [before, places_remove_sqWait mem, remove, Task.places, Caller.late, inPlace_nil]
      abel
    · rw [behind, List.map_singleton, List.sum_singleton, Task.places, Caller.rest, inPlace_nil]
      abel
  refine once.next_loud base (Change.of_same moved entries ext) get tasks ?_ completed
    submitted handed (Multiset.zero_le _) (fun other memClaims place isGone loud => ?_)
    (fun other others perm => ⟨fun otherReq completes _ isGone => ?_,
    fun _ _ memOther isGone => ?_⟩) (single_ok trivial)
  · have full : (Place.cq queue.qid .full).carry (mq.entries cqReq) =
        (Place.sq queue.qid .wait).carry (mq.entries req) :=
      congrArg (fun opaqueOf : Option Nat => (↑opaqueOf.toList : Multiset Nat)) copied
    have out : (Place.sq queue.qid .out).carry (mq.entries req) = 0 := rfl
    have taken : (Place.cq queue.qid .taken).carry (mq.entries cqReq) = 0 := rfl
    rw [carried_add, carried_add, carried_one, carried_one, carried_one, carried_one, entries, full,
      out, taken, zero_add, add_zero]
    exact le_refl _
  · -- the claim of the task is gone
    rcases Multiset.mem_add.mp isGone with wait | taken
    · rw [List.mem_singleton.mp (mem_inPlace.mp wait).2] at memClaims
      obtain ⟨rest, before, behind⟩ := sum_split Task.claim get
      have nodup := once.claims
      have total : mq.claims = {req} + after.claims := by
        have left : ([Task.removed .user queue.qid req cqReq].map Task.claim).sum = 0 := rfl
        have one : (Task.removing .user queue.qid req cqReq).claim = {req} := rfl
        rw [MqState.claims, MqState.claims, before, tasks, behind, handed, left, one]
        abel
      rw [total, Multiset.singleton_add, Multiset.nodup_cons] at nodup
      exact absurd memClaims nodup.1
    · rw [(mem_inPlace.mp taken).1] at loud
      cases loud
  · rcases Multiset.mem_add.mp isGone with wait | taken
    · rw [List.mem_singleton.mp (mem_inPlace.mp wait).2] at completes
      exact once.claims_apart perm claim (claim_of_completes completes)
    · exact absurd taken (notMem_inPlace (by simp))
  · rcases Multiset.mem_add.mp isGone with wait | taken
    · exact absurd wait (notMem_inPlace (by simp))
    · rw [List.mem_singleton.mp (mem_inPlace.mp taken).2] at memOther
      exact once.base.places_apart perm own memOther

theorem OnceInv.removing (once : OnceInv conf mq) {caller : Caller}
    (get : mq.tasks[index]? = some (.removing caller queue.qid req cqReq))
    (found : mq.queues[queue.qid]? = some queue)
    (counted : queue.Counted) :
    OnceInv conf
      (queueStep conf mq index late new queue (.removing caller queue.qid req cqReq)) := by
  obtain rfl : caller = .user := once.base.users _ (List.mem_of_getElem? get)
  have base : Inv conf
      (queueStep conf mq index late new queue (.removing .user queue.qid req cqReq)) :=
    once.base.removing get found counted
  rw [queueStep] at base ⊢
  revert base
  split
  · exact fun _ => once
  · exact fun base => once.removing_wait base get found rfl rfl rfl rfl rfl rfl rfl rfl rfl

end Took

/-! ## Timeouts -/

/-- The timeout thread takes an entry that the user is not completing. -/
theorem OnceInv.scanning_late (once : OnceInv conf mq) (base : Inv conf after) {req : Nat}
    {rest lates : List Nat}
    (get : mq.tasks[index]? = some (.scanning queue.qid (req :: rest) lates))
    (timely : ∀ task ∈ mq.tasks, ¬ task.completes req)
    (found : mq.queues[queue.qid]? = some queue) (unused : ¬ Allocated conf mq new)
    {changed : Queue} (remove : changed = { queue with sqWait := queue.sqWait.remove req })
    (same : changed.qid = queue.qid) (queues : after.queues = mq.queues.set changed.qid changed)
    (tasks : after.tasks = replaceAt mq.tasks index [.replacing queue.qid rest (req :: lates) new])
    {lateEntry newEntry : Entry}
    (entries : after.entries =
      Function.update (Function.update mq.entries req lateEntry) new newEntry)
    (copied : lateEntry.opaqueOf = (mq.entries req).opaqueOf)
    (ext : after.extList = new :: mq.extList)
    (completed : after.completed = mq.completed) (submitted : after.nSubmitted = mq.nSubmitted)
    (handed : after.handed = mq.handed) : OnceInv conf after := by
  have wait : (.sq queue.qid .wait, req) ∈ mq.placed := by
    refine once.base.scanned _ _ (mem_sum_map.mpr ⟨_, List.mem_of_getElem? get, ?_⟩)
    exact List.mem_cons_self
  have mem := once.base.mem_sqWait found wait
  have moved : Moved mq after (inPlace (.sq queue.qid .wait) [req])
      (inPlace .late [req] + inPlace (.sq queue.qid .fresh) [new]) := by
    obtain ⟨others, before, behind⟩ := moved_queue get found same _ queues tasks
    refine ⟨changed.places + inPlace .late lates + others, ?_, ?_⟩
    · rw [before, places_remove_sqWait mem, remove, Task.places]
      abel
    · rw [behind, List.map_singleton, List.sum_singleton, Task.places,
        inPlace_cons .late req lates]
      abel
  have differ : ∀ {other : Nat}, Allocated conf mq other → other ≠ new := by
    rintro other alloc rfl
    exact unused alloc
  have change : Change conf mq after (inPlace (.sq queue.qid .wait) [req])
      (inPlace .late [req] + inPlace (.sq queue.qid .fresh) [new]) := by
    refine ⟨moved, fun place other placed stays => ?_, fun other _ done alloc => ?_⟩
    · have ne : other ≠ req := by
        rintro rfl
        exact stays (mem_inPlace_snd _ other)
      rw [entries, Function.update_of_ne (differ (once.base.placed.entries _ _ placed).2),
        Function.update_of_ne ne]
    · have ne : other ≠ req := by
        rintro rfl
        exact (once.base.placed.entries _ _ wait).1.not_timeoutCompleted done
      rw [entries, Function.update_of_ne (differ alloc), Function.update_of_ne ne]
      refine ⟨rfl, alloc.imp_right fun memExt => ?_⟩
      rw [ext]
      exact List.mem_cons_of_mem _ memExt
  refine once.next_loud base change get tasks ?_ completed submitted handed (le_refl _)
    (fun other _ place isGone _ => ?_)
    (fun other others perm => ⟨fun otherReq completes _ isGone => ?_, fun _ _ _ isGone => ?_⟩)
    (single_ok trivial)
  · have isLate : Place.late.carry lateEntry = (Place.sq queue.qid .wait).carry (mq.entries req) :=
      congrArg (fun opaqueOf : Option Nat => (↑opaqueOf.toList : Multiset Nat)) copied
    have fresh : (Place.sq queue.qid .fresh).carry newEntry = 0 := rfl
    rw [carried_add, carried_one, carried_one, carried_one, entries, Function.update_self,
      Function.update_of_ne (differ (once.base.placed.entries _ _ wait).2), Function.update_self,
      isLate, fresh, add_zero]
    exact le_refl _
  · obtain ⟨others, _, behind⟩ := moved
    rw [List.mem_singleton.mp (mem_inPlace.mp isGone).2, InHands, behind]
    refine Or.inr (Or.inl (Multiset.mem_add.mpr (Or.inl (Multiset.mem_add.mpr (Or.inl ?_)))))
    exact mem_inPlace_self _ req
  · rw [List.mem_singleton.mp (mem_inPlace.mp isGone).2] at completes
    exact timely other (perm.mem_iff.mpr (List.mem_cons_of_mem _ List.mem_cons_self)) completes
  · exact absurd isGone (notMem_inPlace (by simp))

theorem OnceInv.scanning_cons (once : OnceInv conf mq) {req : Nat} {rest lates : List Nat}
    (get : mq.tasks[index]? = some (.scanning queue.qid (req :: rest) lates))
    (timely : late = true → ∀ task ∈ mq.tasks, ¬ task.completes req)
    (found : mq.queues[queue.qid]? = some queue)
    (base : Inv conf
      (queueStep conf mq index late new queue (.scanning queue.qid (req :: rest) lates))) :
    OnceInv conf
      (queueStep conf mq index late new queue (.scanning queue.qid (req :: rest) lates)) := by
  rw [queueStep] at base ⊢
  revert base
  split
  · rename_i isLate
    split
    · exact fun _ => once
    · rename_i unused
      exact fun base => once.scanning_late base get (timely isLate) found unused rfl rfl rfl rfl rfl
        rfl rfl rfl rfl rfl
  · exact once.scanning_skip get

/-! ## The user -/

/-- The user gives back an entry that the timeout thread has completed. -/
theorem OnceInv.give_back (once : OnceInv conf mq) (base : Inv conf after) {req : Nat}
    (mem : req ∈ mq.handed) (done : (mq.entries req).status = .timeoutCompleted)
    (queues : after.queues = mq.queues) (tasks : after.tasks = mq.tasks) {value : Entry}
    (entries : after.entries = Function.update mq.entries req value)
    (ext : ∀ other ≠ req, other ∈ mq.extList → other ∈ after.extList)
    (completed : after.completed = mq.completed) (submitted : after.nSubmitted = mq.nSubmitted)
    (handed : after.handed = mq.handed.erase req) : OnceInv conf after := by
  have placed : after.placed = mq.placed := by rw [MqState.placed, queues, tasks, MqState.placed]
  have claims : mq.claims = {req} + after.claims := by
    have split : (↑mq.handed : Multiset Nat) = {req} + ↑(mq.handed.erase req) :=
      Multiset.coe_eq_coe.mpr (List.perm_cons_erase mem)
    rw [MqState.claims, MqState.claims, handed, tasks, split, add_assoc]
  have nodup := once.claims
  rw [claims, Multiset.singleton_add, Multiset.nodup_cons] at nodup
  have same : ∀ place other, (place, other) ∈ mq.placed →
    after.entries other = mq.entries other := by
    intro place other placed
    have ne : other ≠ req := by
      rintro rfl
      exact (once.base.placed.entries _ _ placed).1.not_timeoutCompleted done
    rw [entries, Function.update_of_ne ne]
  have change : Change conf mq after 0 0 := by
    refine ⟨⟨mq.placed, (zero_add _).symm, by rw [placed, zero_add]⟩,
      fun place other placed _ => same place other placed, fun other claim _ alloc => ?_⟩
    have ne : other ≠ req := by
      rintro rfl
      exact nodup.1 claim
    rw [entries, Function.update_of_ne ne]
    exact ⟨rfl, alloc.imp_right (ext other ne)⟩
  have pending : after.pending = mq.pending := by
    rw [MqState.pending, MqState.pending, placed, completed, tasks,
      carried_congr fun item mem => same item.1 item.2 mem]
  refine once.of_quiet base change (fun _ mem => absurd mem (Multiset.notMem_zero _)) ?_ ?_ nodup.2
    (fun other memAfter => Or.inl ?_) fun task memTask => Or.inl (tasks ▸ memTask)
  · rw [pending]
    exact once.pending
  · rw [pending, submitted]
    exact once.numbers
  · rw [handed] at memAfter
    exact List.mem_of_mem_erase memAfter

/-- A completion begins, or it is refused. -/
theorem OnceInv.complete_checked (once : OnceInv conf mq) {req : Nat} (mem : req ∈ mq.handed)
    (base : Inv conf after) {started : List Task}
    (tasks : after.tasks = mq.tasks ++ started) (queues : after.queues = mq.queues)
    (entries : after.entries = mq.entries) (ext : after.extList = mq.extList)
    (completed : after.completed = mq.completed) (submitted : after.nSubmitted = mq.nSubmitted)
    (handed : after.handed = mq.handed.erase req)
    (begins : started = [] ∨ ∃ qid, started = [.checked .user qid req] ∧
      (.sq qid .wait, req) ∈ mq.placed) : OnceInv conf after := by
  have split : (↑mq.handed : Multiset Nat) = ↑(mq.handed.erase req) + {req} := by
    rw [add_comm]
    exact Multiset.coe_eq_coe.mpr (List.perm_cons_erase mem)
  have fewer : ∀ other ∈ after.handed, other ∈ mq.handed := by
    intro other memAfter
    rw [handed] at memAfter
    exact List.mem_of_mem_erase memAfter
  rcases begins with rfl | ⟨qid, rfl, wait⟩
  · refine once.start_none base (fun _ mem => absurd mem List.not_mem_nil) queues tasks entries ext
      completed submitted ?_ fewer none_ok
    rw [handed, split]
    exact add_le_add_right (Multiset.zero_le _) _
  · refine once.start_none base (List.forall_mem_singleton.mpr ⟨rfl, rfl⟩) queues tasks entries ext
      completed submitted ?_ fewer (single_ok ?_)
    · rw [handed, split]
      exact le_refl _
    · have placed : after.placed = mq.placed := by
        rw [MqState.placed, queues, tasks, List.map_append, List.sum_append]
        exact congrArg _ (add_zero _)
      rw [TaskOk, placed]
      exact wait

/-- The user completes an entry that it has. -/
theorem OnceInv.complete (once : OnceInv conf mq) {req : Nat} (mem : req ∈ mq.handed)
    (timely : (mq.entries req).status ≠ .timeout) : OnceInv conf (oxMqCompleteReq mq req) := by
  have base := once.base.complete req
  rw [oxMqCompleteReq] at base ⊢
  revert base
  split
  · exact fun _ => once
  · dsimp only [checkReq]
    split
    · exact fun base => once.complete_checked mem base rfl rfl rfl rfl rfl rfl rfl (Or.inl rfl)
    · split
      · rename_i done
        refine fun base => once.give_back base mem done rfl (List.append_nil _) rfl ?_ rfl rfl rfl
        intro other ne memExt
        dsimp only
        split
        · exact (List.mem_erase_of_ne ne).mpr memExt
        · exact memExt
      · rename_i back
        refine fun base => once.complete_checked mem base rfl rfl rfl rfl rfl rfl rfl
          (Or.inr ⟨_, rfl, ?_⟩)
        rcases once.handed req mem with ⟨qid, wait⟩ | isLate | settled | ⟨done, _⟩
        · rw [(once.base.placed.entries _ _ wait).1.2]
          exact wait
        · exact absurd (once.base.placed.entries _ _ isLate).1 timely
        · exact absurd (once.base.placed.entries _ _ settled).1 timely
        · exact absurd done back

/-! ## All steps -/

/-- A timely step is orderly. -/
theorem OnceInv.orderly (once : OnceInv conf mq) {op : Op} (timely : Timely mq op) :
    Orderly mq op := by
  cases op with
  | next index late new =>
      intro task get
      have own : TimelyTask mq late task := timely task get
      have member := List.mem_of_getElem? get
      cases task with
      | scanning qid rest lates =>
          cases rest with
          | nil => trivial
          | cons req rest =>
              intro isLate other mem removes
              refine own isLate other mem ?_
              cases other with
              | removing caller =>
                  obtain rfl : caller = .user := once.base.users _ mem
                  exact removes
              | _ => cases removes
      | took caller qid req cqReq =>
          intro waiting
          cases caller with
          | user => exact (mem_wait once.base).mp (once.tasks _ member)
          | timeout rest =>
              have isLate : (.late, req) ∈ mq.placed :=
                mem_placed member (Multiset.mem_add.mpr (Or.inr
                  (mem_inPlace.mpr ⟨rfl, List.mem_cons_self⟩)))
              have timeout : (mq.entries req).status = .timeout :=
                (once.base.placed.entries _ _ isLate).1
              rw [timeout] at waiting
              cases waiting
      | _ => trivial
  | _ => trivial

/-- A task takes its next step. -/
theorem OnceInv.next (once : OnceInv conf mq) {task : Task} (get : mq.tasks[index]? = some task)
    (timely : Timely mq (.next index late new)) :
    OnceInv conf (taskStep conf mq index late new task) := by
  have own : TimelyTask mq late task := timely task get
  have base := once.base.next get (once.orderly timely)
  cases task with
  | submitTook => exact once.submitTook get
  | sqTook => exact once.sqTook get
  | sqQueued => exact once.sqQueued get
  | cqFreed => exact once.cqFreed get
  | took => exact once.took get base
  | timedOut => exact once.timedOut get
  | marking => exact once.marking get
  | completing lates =>
      cases lates with
      | nil => exact once.completing_nil get
      | cons => exact once.completing get
  | scanning qid rest lates =>
      cases rest with
      | nil => exact once.scanning_nil get
      | cons req rest =>
          refine once.base.onQueue once qid (fun none => ?_) fun queue eq found counted => ?_
          · simp only [taskStep, none]
          · subst eq
            simp only [taskStep, found] at base ⊢
            exact once.scanning_cons get own found base
  | submitFilled qid req =>
      refine once.base.onQueue once qid (fun none => ?_) fun queue eq found counted => ?_
      · rw [taskStep, none]
      · subst eq
        rw [taskStep, found]
        exact once.submitFilled get found counted
  | sqMarked qid req =>
      refine once.base.onQueue once qid (fun none => ?_) fun queue eq found counted => ?_
      · rw [taskStep, none]
      · subst eq
        rw [taskStep, found]
        exact once.sqMarked get found counted
  | cqTook qid req =>
      refine once.base.onQueue once qid (fun none => ?_) fun queue eq found counted => ?_
      · rw [taskStep, none]
      · subst eq
        rw [taskStep, found]
        exact once.cqTook get found counted
  | checked caller qid req =>
      refine once.base.onQueue once qid (fun none => ?_) fun queue eq found counted => ?_
      · rw [taskStep, none]
      · subst eq
        rw [taskStep, found]
        exact once.checked get found counted
  | removing caller qid req cqReq =>
      refine once.base.onQueue once qid (fun none => ?_) fun queue eq found counted => ?_
      · rw [taskStep, none]
      · subst eq
        rw [taskStep, found]
        exact once.removing get found counted
  | removed caller qid req cqReq =>
      refine once.base.onQueue once qid (fun none => ?_) fun queue eq found counted => ?_
      · rw [taskStep, none]
      · subst eq
        rw [taskStep, found]
        exact once.removed get found counted
  | posting caller qid req cqReq =>
      refine once.base.onQueue once qid (fun none => ?_) fun queue eq found counted => ?_
      · rw [taskStep, none]
      · subst eq
        rw [taskStep, found]
        exact once.posting get found counted
  | replacing qid rest lates newReq =>
      refine once.base.onQueue once qid (fun none => ?_) fun queue eq found counted => ?_
      · rw [taskStep, none]
      · subst eq
        rw [taskStep, found]
        exact once.replacing get found counted

theorem OnceInv.step (once : OnceInv conf mq) (op : Op) (timely : Timely mq op) :
    OnceInv conf (Mq.step conf mq op) := by
  cases op with
  | submit qid null => exact once.submit qid null
  | complete req => exact once.complete timely.1 timely.2
  | sqThread qid => exact once.sqThread qid
  | cqThread qid => exact once.cqThread qid
  | toThread qid => exact once.toThread qid
  | next index late new =>
      rw [Mq.step]
      split
      · exact once
      · rename_i task get
        exact once.next get timely

end Step

/-! ## Runs -/

theorem carried_init (conf : Config) :
    carried (oxMqInit conf).entries (oxMqInit conf).placed = 0 := by
  refine Multiset.eq_zero_of_forall_notMem fun n mem => ?_
  obtain ⟨item, memItem, own⟩ := Multiset.mem_bind.mp mem
  rw [Place.carry] at own
  split at own
  · exact absurd own (Multiset.notMem_zero n)
  · exact absurd own (Multiset.notMem_zero n)

theorem OnceInv.init (conf : Config) : OnceInv conf (oxMqInit conf) where
  base := Inv.init conf
  pending := by
    rw [MqState.pending, carried_init]
    exact Multiset.nodup_zero
  numbers n mem := by
    rw [MqState.pending, carried_init] at mem
    exact absurd mem (Multiset.notMem_zero n)
  claims := Multiset.nodup_zero
  handed _ mem := absurd mem List.not_mem_nil
  tasks _ mem := absurd mem List.not_mem_nil

/-- `cq_fn` is called once for a submission, and the user's completion of an entry whose submission
is completed, or which the timeout thread has taken from `sq_wait`, changes no list and begins
nothing. -/
structure CompletesOnce (mq : MqState) : Prop where
  once : mq.completed.Nodup
  discards : ∀ req ∈ mq.handed, (mq.entries req).status ≠ .timeout →
    (∃ n ∈ (mq.entries req).opaqueOf, n ∈ mq.completed) ∨
      (∀ queue ∈ mq.queues, req ∉ queue.sqWait.entries) →
    (oxMqCompleteReq mq req).tasks = mq.tasks ∧ (oxMqCompleteReq mq req).queues = mq.queues

variable {conf : Config} {mq : MqState}

/-- The submission of an entry in `sq_wait` is not completed. -/
theorem OnceInv.not_wait (once : OnceInv conf mq) {qid req n : Nat}
    (own : n ∈ (mq.entries req).opaqueOf) (completed : n ∈ mq.completed) :
    (.sq qid .wait, req) ∉ mq.placed := by
  intro wait
  have carries : n ∈ carried mq.entries mq.placed := by
    refine Multiset.mem_bind.mpr ⟨_, wait, ?_⟩
    exact Option.mem_toList.mpr own
  have nodup := once.pending
  rw [MqState.pending] at nodup
  exact Multiset.disjoint_left.mp (Multiset.nodup_add.mp nodup).2.2
    (Multiset.mem_add.mpr (Or.inl carries)) completed

theorem OnceInv.discards (once : OnceInv conf mq) {req : Nat} (mem : req ∈ mq.handed)
    (timely : (mq.entries req).status ≠ .timeout)
    (taken : ∀ qid, (.sq qid .wait, req) ∉ mq.placed) :
    (oxMqCompleteReq mq req).tasks = mq.tasks ∧ (oxMqCompleteReq mq req).queues = mq.queues := by
  have done : (mq.entries req).status = .timeoutCompleted := by
    rcases once.handed req mem with ⟨qid, wait⟩ | isLate | settled | ⟨done, _⟩
    · exact absurd wait (taken qid)
    · exact absurd (once.base.placed.entries _ _ isLate).1 timely
    · exact absurd (once.base.placed.entries _ _ settled).1 timely
    · exact done
  rw [oxMqCompleteReq]
  split
  · exact ⟨rfl, rfl⟩
  · simp only [checkReq, done]
    split
    · exact ⟨List.append_nil _, rfl⟩
    · exact ⟨List.append_nil _, rfl⟩

theorem OnceInv.completesOnce (once : OnceInv conf mq) : CompletesOnce mq where
  once := by
    have nodup := once.pending
    rw [MqState.pending] at nodup
    exact Multiset.coe_nodup.mp (Multiset.nodup_add.mp nodup).2.1
  discards req mem timely answered := by
    refine once.discards mem timely fun qid wait => ?_
    rcases answered with ⟨n, own, completed⟩ | taken
    · exact once.not_wait own completed wait
    · obtain ⟨queue, get, memWait⟩ := (mem_wait once.base).mp wait
      exact taken queue (List.mem_of_getElem? get) memWait

/-- In a run whose steps are timely, no submission is completed twice. -/
theorem completes_once (conf : Config) (ops : List Op)
    (timely : (mqSystem conf).Allowed Timely (oxMqInit conf) ops) :
    CompletesOnce ((mqSystem conf).run (oxMqInit conf) ops) :=
  ((mqSystem conf).run_invariant Timely (OnceInv conf) (fun _ op ok once => once.step op ok)
    (OnceInv.init conf) timely).completesOnce

theorem completes_once_timeout :
    CompletesOnce ((mqSystem smallConf).run (oxMqInit smallConf) timeoutRun) :=
  completes_once smallConf timeoutRun (by decide +kernel)

/-- The user completes an entry while the timeout thread does. -/
def twiceRun : List Op :=
  let go index := Op.next index false 0
  [.submit 0 false, go 0, go 0, .sqThread 0, go 0, go 0, go 0, .toThread 0, .next 0 true 4, go 0,
    go 0, go 0, .complete 0, go 1, go 1, go 1, go 0, go 0, go 0, go 0, go 0, go 0, .cqThread 0,
    go 0, go 0,
    .cqThread 0, go 0, go 0]

/-- `cq_fn` is called twice for the first submission. -/
theorem completed_twice :
    (mqSystem smallConf).Allowed Handed (oxMqInit smallConf) twiceRun ∧
      ((mqSystem smallConf).run (oxMqInit smallConf) twiceRun).completed = [0, 0] ∧
      ¬ CompletesOnce ((mqSystem smallConf).run (oxMqInit smallConf) twiceRun) := by
  have twice : ((mqSystem smallConf).run (oxMqInit smallConf) twiceRun).completed = [0, 0] := by
    decide +kernel
  refine ⟨by decide +kernel, twice, fun fine => ?_⟩
  have once := fine.once
  rw [twice] at once
  exact absurd once (by decide)

end OxCtrl.Mq
