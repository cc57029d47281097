import OxCtrl.HostQueue.Core
import OxCtrl.Lib.Outstanding

/-!
# Slots of a queue pair

A slot is free, or a call of the user or of `cq_fn` has it, or a submission whose callback has not
come.  Whatever comes late, no step loses a slot or gives it to two commands.
-/

namespace OxCtrl.HostQueue

open OxCtrl.Lib OxCtrl.Mq OxCtrl.Fabrics

namespace HostTask

/-- The slot that a call has to itself. -/
def slot : HostTask → Multiset Nat
  | filling _ slot _ | submitting _ slot | refusing _ slot | calledBack slot => {slot}
  | _ => 0

/-- The call of `oxf_host_submit_io` that has not returned. -/
def call : HostTask → Multiset Nat
  | filling call _ _ | submitting call _ | refusing call _ => {call}
  | _ => 0

end HostTask

/-- The slots of submissions whose callback has not come. -/
def Host.live (host : Host) : List Nat :=
  (outstanding host.mq.completed host.opaques 0).map Opaque.slot

/-- The calls of `oxf_host_submit_io` that have not returned an error. -/
def Host.calls (host : Host) : Multiset Nat :=
  (host.tasks.map HostTask.call).sum + ↑(host.opaques.map Opaque.call)

/-- Every slot is in one list, and a used one belongs to one task or submission. -/
structure Accounts (host : Host) : Prop where
  lists : (host.free ++ host.used).Perm (List.range oxfQueueSize)
  slots : (host.tasks.map HostTask.slot).sum + ↑host.live = (↑host.used : Multiset Nat)

/-- Submissions have numbers in their order, and every call submits once. -/
structure Numbered (host : Host) : Prop where
  opaques : host.opaques.length = host.mq.nSubmitted
  calls : host.calls.Nodup
  few : ∀ call ∈ host.calls, call < host.nCalls
  completed : ∀ n ∈ host.mq.completed, n < host.mq.nSubmitted

section Step

variable {qid : Nat} {host after : Host} {index : Nat} {task : HostTask} {left : List HostTask}

/-- What the tasks have behind a step of one. -/
theorem sum_next (f : HostTask → Multiset Nat) (get : host.tasks[index]? = some task)
    (tasks : after.tasks = replaceAt host.tasks index left) :
    (after.tasks.map f).sum + f task = (host.tasks.map f).sum + (left.map f).sum := by
  obtain ⟨others, before, behind⟩ := sum_split f get
  rw [tasks, before, behind]
  abel

theorem sum_start (f : HostTask → Multiset Nat) (tasks : after.tasks = host.tasks ++ left) :
    (after.tasks.map f).sum = (host.tasks.map f).sum + (left.map f).sum := by
  rw [tasks, List.map_append, List.sum_append]

theorem sum_start_zero (f : HostTask → Multiset Nat) (tasks : after.tasks = host.tasks ++ [task])
    (zero : f task = 0) : (after.tasks.map f).sum = (host.tasks.map f).sum := by
  rw [sum_start f tasks, List.map_singleton, List.sum_singleton, zero, add_zero]

/-! ## Slots in use -/

theorem live_same (opaques : after.opaques = host.opaques)
    (completed : ∀ n, n ∈ after.mq.completed ↔ n ∈ host.mq.completed) : after.live = host.live := by
  rw [Host.live, Host.live, opaques, outstanding_congr fun n _ => completed n]

theorem live_submit (numbered : Numbered host) {pointer : Opaque}
    (opaques : after.opaques = host.opaques ++ [pointer])
    (completed : after.mq.completed = host.mq.completed) :
    after.live = host.live ++ [pointer.slot] := by
  rw [Host.live, Host.live, opaques, completed, outstanding_snoc, List.map_append]
  · rfl
  · intro mem
    have lt := numbered.completed _ mem
    rw [Nat.zero_add, numbered.opaques] at lt
    exact lt_irrefl _ lt

theorem live_called {n : Nat} {pointer : Opaque} (get : host.opaques[n]? = some pointer)
    (opaques : after.opaques = host.opaques) (fresh : n ∉ host.mq.completed)
    (completed : ∀ m, m ∈ after.mq.completed ↔ m ∈ host.mq.completed ∨ m = n) :
    host.live.Perm (pointer.slot :: after.live) := by
  rw [Host.live, Host.live, opaques]
  exact (outstanding_gone get (by rwa [Nat.zero_add]) (by rwa [Nat.zero_add])).map Opaque.slot

/-- The slots change hands, and none is taken or freed. -/
theorem Accounts.pass (accounts : Accounts host) (free : after.free = host.free)
    (used : after.used = host.used)
    (slots : (after.tasks.map HostTask.slot).sum + (↑after.live : Multiset Nat) =
      (host.tasks.map HostTask.slot).sum + ↑host.live) : Accounts after where
  lists := by
    rw [free, used]
    exact accounts.lists
  slots := by
    rw [slots, used]
    exact accounts.slots

/-- A task goes on with its slot. -/
theorem Accounts.next (accounts : Accounts host) (get : host.tasks[index]? = some task)
    (tasks : after.tasks = replaceAt host.tasks index left)
    (slot : (left.map HostTask.slot).sum = task.slot) (free : after.free = host.free)
    (used : after.used = host.used) (live : after.live = host.live) : Accounts after := by
  refine accounts.pass free used ?_
  have sum := sum_next HostTask.slot get tasks
  rw [slot] at sum
  rw [add_right_cancel sum, live]

/-- A task begins without a slot. -/
theorem Accounts.start (accounts : Accounts host) (tasks : after.tasks = host.tasks ++ left)
    (slot : (left.map HostTask.slot).sum = 0) (free : after.free = host.free)
    (used : after.used = host.used) (live : after.live = host.live) : Accounts after := by
  refine accounts.pass free used ?_
  rw [sum_start HostTask.slot tasks, slot, add_zero, live]

/-- The slot of a submission passes from the call to the submission. -/
theorem Accounts.submit (accounts : Accounts host) (get : host.tasks[index]? = some task)
    {slot : Nat} (own : task.slot = {slot}) (tasks : after.tasks = replaceAt host.tasks index [])
    (free : after.free = host.free) (used : after.used = host.used)
    (live : after.live = host.live ++ [slot]) : Accounts after := by
  refine accounts.pass free used ?_
  have sum := sum_next HostTask.slot get tasks
  rw [own, List.map_nil, List.sum_nil, add_zero] at sum
  rw [← sum, live, ← Multiset.coe_add, Multiset.coe_singleton]
  abel

/-- The slot of a submission passes to the call of `cq_fn`. -/
theorem Accounts.called (accounts : Accounts host) {slot : Nat}
    (tasks : after.tasks = host.tasks ++ [.calledBack slot]) (free : after.free = host.free)
    (used : after.used = host.used) (live : host.live.Perm (slot :: after.live)) :
    Accounts after := by
  refine accounts.pass free used ?_
  rw [sum_start HostTask.slot tasks, Multiset.coe_eq_coe.mpr live, ← Multiset.cons_coe,
    ← Multiset.singleton_add, List.map_singleton, List.sum_singleton, HostTask.slot]
  abel

/-- A call takes a slot. -/
theorem Accounts.take (accounts : Accounts host) {slot : Nat} {rest : List Nat}
    (first : host.free = slot :: rest) (own : task.slot = {slot})
    (tasks : after.tasks = host.tasks ++ [task]) (free : after.free = rest)
    (used : after.used = host.used ++ [slot]) (live : after.live = host.live) : Accounts after where
  lists := by
    refine List.Perm.trans ?_ accounts.lists
    rw [free, used, first, List.cons_append, ← List.append_assoc]
    exact List.perm_append_singleton slot _
  slots := by
    have slots := accounts.slots
    rw [sum_start HostTask.slot tasks, used, live, ← Multiset.coe_add, ← slots, List.map_singleton,
      List.sum_singleton, own, Multiset.coe_singleton]
    abel

/-- A call frees its slot. -/
theorem Accounts.put (accounts : Accounts host) (get : host.tasks[index]? = some task) {slot : Nat}
    (own : task.slot = {slot}) (tasks : after.tasks = replaceAt host.tasks index [])
    (free : after.free = host.free ++ [slot]) (used : after.used = host.used.erase slot)
    (live : after.live = host.live) : Accounts after := by
  have sum := sum_next HostTask.slot get tasks
  rw [own, List.map_nil, List.sum_nil, add_zero] at sum
  have total := accounts.slots
  rw [← sum] at total
  have mem : slot ∈ host.used := by
    rw [← Multiset.mem_coe, ← total]
    exact Multiset.mem_add.mpr
      (Or.inl (Multiset.mem_add.mpr (Or.inr (Multiset.mem_singleton_self _))))
  refine ⟨?_, ?_⟩
  · refine List.Perm.trans ?_ accounts.lists
    rw [free, used, List.append_assoc, List.singleton_append]
    exact (List.perm_cons_erase mem).symm.append_left _
  · rw [used, live, ← Multiset.coe_erase, ← total, add_right_comm,
      add_comm _ ({slot} : Multiset Nat), Multiset.singleton_add, Multiset.erase_cons_head]

/-! ## Numbers -/

/-- No submission comes, and no call ends. -/
theorem Numbered.keep (numbered : Numbered host) (opaques : after.opaques = host.opaques)
    (submitted : after.mq.nSubmitted = host.mq.nSubmitted) (calls : after.nCalls = host.nCalls)
    (completed : ∀ n ∈ after.mq.completed, n < host.mq.nSubmitted)
    (fewer : (after.tasks.map HostTask.call).sum ≤ (host.tasks.map HostTask.call).sum) :
    Numbered after := by
  have le : after.calls ≤ host.calls := by
    rw [Host.calls, Host.calls, opaques]
    exact add_le_add_left fewer _
  exact {
    opaques := by rw [opaques, submitted, numbered.opaques]
    calls := Multiset.nodup_of_le le numbered.calls
    few := fun call mem => by
      rw [calls]
      exact numbered.few call (Multiset.mem_of_le le mem)
    completed := by rwa [submitted] }

/-- A call begins. -/
theorem Numbered.take (numbered : Numbered host) (opaques : after.opaques = host.opaques)
    (mq : after.mq = host.mq) (calls : after.nCalls = host.nCalls + 1)
    (tasks : (after.tasks.map HostTask.call).sum ≤
      (host.tasks.map HostTask.call).sum + {host.nCalls}) : Numbered after := by
  have le : after.calls ≤ host.nCalls ::ₘ host.calls := by
    rw [Host.calls, Host.calls, opaques, ← Multiset.singleton_add, ← add_assoc,
      add_comm ({host.nCalls} : Multiset Nat)]
    exact add_le_add_left tasks _
  have fresh : host.nCalls ∉ host.calls := fun mem => lt_irrefl _ (numbered.few _ mem)
  exact {
    opaques := by rw [opaques, mq, numbered.opaques]
    calls := Multiset.nodup_of_le le (Multiset.nodup_cons.mpr ⟨fresh, numbered.calls⟩)
    few := fun call mem => by
      rw [calls]
      rcases Multiset.mem_cons.mp (Multiset.mem_of_le le mem) with rfl | old
      · exact Nat.lt_succ_self _
      · exact Nat.lt_succ_of_lt (numbered.few call old)
    completed := by
      rw [mq]
      exact numbered.completed }

/-- A call passes to its submission. -/
theorem calls_submit (get : host.tasks[index]? = some task) {pointer : Opaque}
    (own : task.call = {pointer.call}) (tasks : after.tasks = replaceAt host.tasks index [])
    (opaques : after.opaques = host.opaques ++ [pointer]) : after.calls = host.calls := by
  have sum := sum_next HostTask.call get tasks
  rw [own, List.map_nil, List.sum_nil, add_zero] at sum
  rw [Host.calls, Host.calls, ← sum, opaques, List.map_append, ← Multiset.coe_add,
    List.map_singleton, Multiset.coe_singleton]
  abel

/-- A call submits its slot. -/
theorem Numbered.submit (numbered : Numbered host) {pointer : Opaque}
    (same : after.calls = host.calls) (opaques : after.opaques = host.opaques ++ [pointer])
    (submitted : after.mq.nSubmitted = host.mq.nSubmitted + 1)
    (completed : after.mq.completed = host.mq.completed) (calls : after.nCalls = host.nCalls) :
    Numbered after where
  opaques := by rw [opaques, submitted, List.length_append, numbered.opaques, List.length_singleton]
  calls := by
    rw [same]
    exact numbered.calls
  few call mem := by
    rw [same] at mem
    rw [calls]
    exact numbered.few call mem
  completed n mem := by
    rw [completed] at mem
    rw [submitted]
    exact Nat.lt_succ_of_lt (numbered.completed n mem)

/-! ## Slots apart -/

/-- The callback of this submission has not come. -/
def Host.Live (host : Host) (n : Nat) (pointer : Opaque) : Prop :=
  host.opaques[n]? = some pointer ∧ n ∉ host.mq.completed

theorem Accounts.used_nodup (accounts : Accounts host) : host.used.Nodup :=
  (List.nodup_append.mp (accounts.lists.nodup_iff.mpr List.nodup_range)).2.1

theorem Accounts.held_nodup (accounts : Accounts host) :
    ((host.tasks.map HostTask.slot).sum + (↑host.live : Multiset Nat)).Nodup := by
  rw [accounts.slots]
  exact Multiset.coe_nodup.mpr accounts.used_nodup

variable {n m : Nat} {pointer other : Opaque}

theorem Host.Live.mem (live : host.Live n pointer) : pointer.slot ∈ host.live := by
  refine List.mem_map_of_mem (mem_outstanding.mpr ⟨n, live.1, ?_⟩)
  rw [Nat.zero_add]
  exact live.2

/-- Two submissions do not have one slot. -/
theorem Accounts.live_apart (accounts : Accounts host) (live : host.Live n pointer)
    (liveOther : host.Live m other) (same : pointer.slot = other.slot) : n = m := by
  by_contra ne
  have gone : (outstanding host.mq.completed host.opaques 0).Perm
      (pointer :: outstanding (n :: host.mq.completed) host.opaques 0) :=
    outstanding_gone live.1 (by rw [Nat.zero_add]; exact live.2) (by simp [or_comm])
  have perm := gone.map Opaque.slot
  have nodup := Multiset.coe_nodup.mp (Multiset.nodup_add.mp accounts.held_nodup).2.1
  have apart := (List.nodup_cons.mp (perm.nodup_iff.mp nodup)).1
  rw [same] at apart
  refine apart (List.mem_map_of_mem (mem_outstanding.mpr ⟨m, liveOther.1, ?_⟩))
  rw [Nat.zero_add]
  exact fun mem => (List.mem_cons.mp mem).elim (fun eq => ne eq.symm) liveOther.2

/-- A submission and a task do not have one slot. -/
theorem Accounts.task_apart (accounts : Accounts host) (live : host.Live n pointer)
    (mem : task ∈ host.tasks) : pointer.slot ∉ task.slot := by
  intro own
  refine Multiset.disjoint_left.mp (Multiset.nodup_add.mp accounts.held_nodup).2.2 ?_
    (Multiset.mem_coe.mpr live.mem)
  exact mem_sum_map.mpr ⟨task, mem, own⟩

/-- Two tasks do not have one slot. -/
theorem Accounts.tasks_apart (accounts : Accounts host) {second : HostTask} {others : List HostTask}
    (perm : host.tasks.Perm (task :: second :: others)) {slot : Nat} (own : slot ∈ task.slot) :
    slot ∉ second.slot := by
  intro ownSecond
  have total : (host.tasks.map HostTask.slot).sum =
      task.slot + (second.slot + (others.map HostTask.slot).sum) :=
    (perm.map HostTask.slot).sum_eq
  have nodup := (Multiset.nodup_add.mp accounts.held_nodup).1
  rw [total] at nodup
  refine Multiset.disjoint_left.mp (Multiset.nodup_add.mp nodup).2.2 own ?_
  exact Multiset.mem_add.mpr (Or.inl ownSecond)

/-- A call submits once. -/
theorem Numbered.call_unique (numbered : Numbered host) (get : host.opaques[n]? = some pointer)
    (getOther : host.opaques[m]? = some other) (same : pointer.call = other.call) : n = m := by
  have nodup := Multiset.coe_nodup.mp (Multiset.nodup_add.mp numbered.calls).2.1
  have lt : n < (host.opaques.map Opaque.call).length := by
    rw [List.length_map]
    exact (List.getElem?_eq_some_iff.mp get).1
  refine (List.getElem?_inj lt nodup).mp ?_
  rw [List.getElem?_map, List.getElem?_map, get, getOther, Option.map_some, Option.map_some, same]

end Step

end OxCtrl.HostQueue
