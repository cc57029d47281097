import OxCtrl.Mq.Places

/-!
# Steps of the multi-queue

A completion tests the status of an entry under `entry_mutex` and removes the entry from `sq_wait`
later, and the timeout thread takes entries from `sq_wait` without that mutex.  As long as it
takes no entry in between, every entry stays in one place.
-/

namespace OxCtrl.Mq

open OxCtrl.Lib

/-- The queues and their counters. -/
structure QueuesOk (conf : Config) (queues : List Queue) : Prop where
  length : queues.length = conf.nQueues
  qids : ∀ (index : Nat) queue, queues[index]? = some queue → queue.qid = index
  counted : ∀ queue ∈ queues, queue.Counted

/-- A task that holds no mutex in a way that others rely on. -/
def Task.Plain (task : Task) : Prop :=
  task.locks = 0 ∧ task.scans = 0

/-- The timeout thread never finds `OX_MQ_WAITING`. -/
def Task.ByUser : Task → Prop
  | .removing caller _ _ _ | .removed caller _ _ _ => caller = .user
  | _ => True

/-- What holds in every state of an orderly run. -/
structure Inv (conf : Config) (mq : MqState) : Prop where
  queues : QueuesOk conf mq.queues
  placed : Placed conf mq
  locks : (mq.locks.map Prod.fst).Nodup
  waits : ∀ req qid, (req, qid, true) ∈ mq.locks → (.sq qid .wait, req) ∈ mq.placed
  scans : (mq.scans.map Prod.snd).Nodup
  scanned : ∀ qid req, (qid, req) ∈ mq.scans → (.sq qid .wait, req) ∈ mq.placed
  users : ∀ task ∈ mq.tasks, task.ByUser

/-- The task is about to remove this entry from `sq_wait`. -/
def Task.removes (req : Nat) : Task → Bool
  | removing _ _ entry _ => entry = req
  | _ => false

/-- The timeout thread takes no entry that a completion is about to remove, and a completion that
finds `OX_MQ_WAITING` finds the entry in `sq_wait`. -/
def OrderlyTask (mq : MqState) (late : Bool) : Task → Prop
  | .scanning _ (req :: _) _ => late = true → ∀ task ∈ mq.tasks, ¬ task.removes req
  | .took _ qid req _ =>
      (mq.entries req).status = .waiting → ∃ queue ∈ mq.queues[qid]?, req ∈ queue.sqWait.entries
  | _ => True

/-- The next step is orderly. -/
def Orderly (mq : MqState) : Op → Prop
  | .next index late _ => ∀ task ∈ mq.tasks[index]?, OrderlyTask mq late task
  | _ => True

instance instDecidableOrderlyTask (mq : MqState) (late : Bool) :
    (task : Task) → Decidable (OrderlyTask mq late task)
  | .scanning _ (_ :: _) _ | .took _ _ _ _ => inferInstanceAs (Decidable (_ → _))
  | .scanning _ [] _ | .submitTook _ _ _ | .submitFilled _ _ | .sqTook _ _ | .sqMarked _ _
  | .sqQueued _ _ | .cqTook _ _ | .cqFreed _ _ | .checked _ _ _ | .removing _ _ _ _
  | .removed _ _ _ _ | .posting _ _ _ _ | .replacing _ _ _ _ | .timedOut _ | .completing _
  | .marking _ _ => isTrue trivial

instance instDecidableOrderly (mq : MqState) : (op : Op) → Decidable (Orderly mq op)
  | .next _ _ _ => inferInstanceAs (Decidable (∀ _ ∈ _, _))
  | .submit _ _ | .complete _ | .sqThread _ | .cqThread _ | .toThread _ => isTrue trivial

theorem QueuesOk.set {conf : Config} {queues : List Queue} (ok : QueuesOk conf queues)
    {changed : Queue} (counted : changed.Counted) :
    QueuesOk conf (queues.set changed.qid changed) where
  length := by rw [List.length_set, ok.length]
  qids index other get := by
    rw [List.getElem?_set] at get
    split at get
    · rename_i eq
      split at get
      · cases get
        exact eq
      · cases get
    · exact ok.qids index other get
  counted other mem := by
    rcases List.mem_or_eq_of_mem_set mem with old | rfl
    · exact ok.counted other old
    · exact counted

section Step

variable {conf : Config} {mq after : MqState} {gone come : Multiset (Place × Nat)}

theorem Inv.found (inv : Inv conf mq) {qid : Nat} {queue : Queue}
    (get : mq.queues[qid]? = some queue) :
    queue.qid = qid ∧ mq.queues[queue.qid]? = some queue ∧ queue.Counted := by
  have eq := inv.queues.qids qid queue get
  exact ⟨eq, by rw [eq]; exact get, inv.queues.counted queue (List.mem_of_getElem? get)⟩

/-- A step that takes nothing from `sq_wait` and locks no entry. -/
theorem Inv.step_plain (inv : Inv conf mq) (queues : QueuesOk conf after.queues)
    (placed : Placed conf after) (moved : Moved mq after gone come)
    (noWait : ∀ qid req, (.sq qid .wait, req) ∉ gone) (locks : after.locks ≤ mq.locks)
    (scans : after.scans ≤ mq.scans) (users : ∀ task ∈ after.tasks, task.ByUser) :
    Inv conf after where
  queues := queues
  placed := placed
  locks := Multiset.nodup_of_le (Multiset.map_le_map locks) inv.locks
  waits req qid mem :=
    moved.kept (inv.waits req qid (Multiset.mem_of_le locks mem)) (noWait qid req)
  scans := Multiset.nodup_of_le (Multiset.map_le_map scans) inv.scans
  scanned qid req mem :=
    moved.kept (inv.scanned qid req (Multiset.mem_of_le scans mem)) (noWait qid req)
  users := users

theorem locks_replaceAt {index : Nat} {task : Task} (get : mq.tasks[index]? = some task)
    {left : List Task} (tasks : after.tasks = replaceAt mq.tasks index left) :
    ∃ rest, mq.locks = task.locks + rest ∧ after.locks = (left.map Task.locks).sum + rest := by
  obtain ⟨rest, before, behind⟩ := sum_split Task.locks get
  exact ⟨rest, before, by rw [MqState.locks, tasks, behind]⟩

theorem scans_replaceAt {index : Nat} {task : Task} (get : mq.tasks[index]? = some task)
    {left : List Task} (tasks : after.tasks = replaceAt mq.tasks index left) :
    ∃ rest, mq.scans = task.scans + rest ∧ after.scans = (left.map Task.scans).sum + rest := by
  obtain ⟨rest, before, behind⟩ := sum_split Task.scans get
  exact ⟨rest, before, by rw [MqState.scans, tasks, behind]⟩

/-- What is left of a task locks no other entry and has no other entry to look at. -/
structure Shrinks (task : Task) (left : List Task) : Prop where
  locks : (left.map Task.locks).sum ≤ task.locks
  scans : (left.map Task.scans).sum ≤ task.scans
  users : ∀ other ∈ left, other.ByUser

theorem sum_eq_zero {α : Type} {f : Task → Multiset α} {left : List Task}
    (zero : ∀ task ∈ left, f task = 0) : (left.map f).sum = 0 := by
  induction left with
  | nil => rfl
  | cons first rest ih =>
      rw [List.map_cons, List.sum_cons, zero first List.mem_cons_self,
        ih fun task mem => zero task (List.mem_cons_of_mem _ mem), zero_add]

theorem Task.Plain.byUser {task : Task} (plain : task.Plain) : task.ByUser := by
  cases task <;> simp_all [Task.Plain, Task.ByUser, Task.locks]

theorem Shrinks.of_plain {task : Task} {left : List Task} (plain : ∀ other ∈ left, other.Plain) :
    Shrinks task left where
  locks := by
    rw [sum_eq_zero fun other mem => (plain other mem).1]
    exact Multiset.zero_le _
  scans := by
    rw [sum_eq_zero fun other mem => (plain other mem).2]
    exact Multiset.zero_le _
  users other mem := (plain other mem).byUser

theorem Shrinks.nil {task : Task} : Shrinks task [] :=
  Shrinks.of_plain fun _ mem => absurd mem List.not_mem_nil

theorem Shrinks.of_one {task other : Task} (plain : other.Plain) : Shrinks task [other] :=
  Shrinks.of_plain (List.forall_mem_singleton.mpr plain)

theorem Shrinks.scanning {task : Task} {qid : Nat} {rest lates : List Nat}
    (less : ↑(rest.map fun req => (qid, req)) ≤ task.scans) :
    Shrinks task [.scanning qid rest lates] where
  locks := Multiset.zero_le _
  scans := by
    rw [List.map_singleton, List.sum_singleton]
    exact less
  users := List.forall_mem_singleton.mpr trivial

/-- A task goes on and leaves `sq_wait` alone. -/
theorem Inv.next_plain (inv : Inv conf mq) {index : Nat} {task : Task}
    (get : mq.tasks[index]? = some task) {left : List Task}
    (tasks : after.tasks = replaceAt mq.tasks index left) (less : Shrinks task left)
    (queues : QueuesOk conf after.queues) (placed : Placed conf after)
    (moved : Moved mq after gone come) (noWait : ∀ qid req, (.sq qid .wait, req) ∉ gone) :
    Inv conf after := by
  obtain ⟨locksRest, locksBefore, locksAfter⟩ := locks_replaceAt get tasks
  obtain ⟨scansRest, scansBefore, scansAfter⟩ := scans_replaceAt get tasks
  refine inv.step_plain queues placed moved noWait ?_ ?_ fun other mem => ?_
  · rw [locksBefore, locksAfter]
    exact add_le_add_left less.locks _
  · rw [scansBefore, scansAfter]
    exact add_le_add_left less.scans _
  · rw [tasks] at mem
    rcases mem_replaceAt mem with old | new
    · exact inv.users other old
    · exact less.users other new

/-- Tasks without a mutex begin. -/
theorem Inv.start_plain (inv : Inv conf mq) {started : List Task}
    (tasks : after.tasks = mq.tasks ++ started) (plain : ∀ task ∈ started, task.Plain)
    (queues : QueuesOk conf after.queues) (placed : Placed conf after)
    (moved : Moved mq after gone come) (noWait : ∀ qid req, (.sq qid .wait, req) ∉ gone) :
    Inv conf after := by
  refine inv.step_plain queues placed moved noWait (le_of_eq ?_) (le_of_eq ?_) fun other mem => ?_
  · rw [MqState.locks, tasks, List.map_append, List.sum_append,
      sum_eq_zero fun task mem => (plain task mem).1, add_zero]
    rfl
  · rw [MqState.scans, tasks, List.map_append, List.sum_append,
      sum_eq_zero fun task mem => (plain task mem).2, add_zero]
    rfl
  · rw [tasks] at mem
    rcases List.mem_append.mp mem with old | new
    · exact inv.users other old
    · exact (plain other new).byUser

/-- One entry moves, and only this entry changes. -/
theorem Placed.move_one (ok : Placed conf mq) {source target : Place} {req : Nat}
    (moved : Moved mq after (inPlace source [req]) (inPlace target [req]))
    (side : source.side = target.side) {value : Entry}
    (entries : after.entries = Function.update mq.entries req value)
    (kept : after.extList = mq.extList) (arrive : EntryOk value target) : Placed conf after := by
  refine ok.move moved (le_refl _) (fun other => ?_) (fun place other _ ne => ?_)
    (fun place other mem => ?_) fun place other mem => ?_
  · rw [countP_inPlace, countP_inPlace, side]
  · rw [entries]
    refine Function.update_of_ne (fun eq => ne ?_) value mq.entries
    rw [eq]
    exact Multiset.mem_singleton_self req
  · exact (ok.entries place other mem).2.of_eq kept
  · obtain ⟨rfl, eq⟩ := mem_inPlace.mp mem
    rw [List.mem_singleton.mp eq, entries, Function.update_self]
    exact arrive

theorem MqState.entries_self (mq : MqState) (req : Nat) :
    mq.entries = Function.update mq.entries req (mq.entries req) :=
  (Function.update_eq_self req mq.entries).symm

theorem Inv.entryOk (inv : Inv conf mq) (moved : Moved mq after gone come)
    {place : Place} {req : Nat}
    (mem : (place, req) ∈ gone) : EntryOk (mq.entries req) place :=
  (inv.placed.entries place req (moved.gone_mem mem)).1

theorem mem_inPlace_self (place : Place) (req : Nat) : (place, req) ∈ inPlace place [req] :=
  mem_inPlace.mpr ⟨rfl, List.mem_singleton_self req⟩

theorem noWait_inPlace {place : Place} (other : ∀ qid, place ≠ .sq qid .wait) (entries : List Nat)
    (qid req : Nat) : (.sq qid .wait, req) ∉ inPlace place entries :=
  fun mem => other qid (mem_inPlace.mp mem).1.symm

/-- A round or a call takes an entry from a list. -/
theorem Inv.begin_one (inv : Inv conf mq) (target : Place) {queue changed : Queue} {source : Place}
    {req : Nat}
    (found : mq.queues[queue.qid]? = some queue)
    (remove : queue.places = inPlace source [req] + changed.places)
    (same : changed.qid = queue.qid) (counted : changed.Counted) {task : Task}
    (places : task.places = inPlace target [req]) (plain : task.Plain)
    (noWait : ∀ qid, source ≠ .sq qid .wait) (side : source.side = target.side)
    (queues : after.queues = mq.queues.set changed.qid changed)
    (tasks : after.tasks = mq.tasks ++ [task]) (entries : after.entries = mq.entries)
    (ext : after.extList = mq.extList)
    (arrive : EntryOk (mq.entries req) source → EntryOk (mq.entries req) target) :
    Inv conf after := by
  have moved : Moved mq after (inPlace source [req]) task.places :=
    moved_begin found same queues tasks remove
  rw [places] at moved
  refine inv.start_plain tasks (List.forall_mem_singleton.mpr plain) ?_
    (inv.placed.move_one moved side
    (entries.trans (mq.entries_self req)) ext ?_) moved (noWait_inPlace noWait _)
  · rw [queues]
    exact inv.queues.set counted
  · exact arrive (inv.entryOk moved (mem_inPlace_self _ _))

/-- A task moves an entry to a list. -/
theorem Inv.insert_one (inv : Inv conf mq) {index : Nat} {task : Task}
    (get : mq.tasks[index]? = some task) (source : Place) {queue changed : Queue} {target : Place}
    {req : Nat} (found : mq.queues[queue.qid]? = some queue)
    (insert : changed.places = inPlace target [req] + queue.places)
    (same : changed.qid = queue.qid) (counted : changed.Counted)
    {common : Multiset (Place × Nat)} (places : task.places = inPlace source [req] + common)
    {left : List Task} (leftPlaces : (left.map Task.places).sum = common)
    (less : Shrinks task left) (noWait : ∀ qid, source ≠ .sq qid .wait)
    (side : source.side = target.side) (queues : after.queues = mq.queues.set changed.qid changed)
    (tasks : after.tasks = replaceAt mq.tasks index left) {value : Entry}
    (entries : after.entries = Function.update mq.entries req value)
    (ext : after.extList = mq.extList)
    (arrive : EntryOk (mq.entries req) source → EntryOk value target) : Inv conf after := by
  have moved : Moved mq after (inPlace source [req]) (inPlace target [req]) :=
    moved_insert get found same queues tasks insert places leftPlaces
  refine inv.next_plain get tasks less ?_ (inv.placed.move_one moved side entries ext ?_)
    moved (noWait_inPlace noWait _)
  · rw [queues]
    exact inv.queues.set counted
  · exact arrive (inv.entryOk moved (mem_inPlace_self _ _))

/-- A task takes an entry from a list. -/
theorem Inv.remove_one (inv : Inv conf mq) {index : Nat} {task : Task}
    (get : mq.tasks[index]? = some task) (target : Place) {queue changed : Queue} {source : Place}
    {req : Nat} (found : mq.queues[queue.qid]? = some queue)
    (remove : queue.places = inPlace source [req] + changed.places)
    (same : changed.qid = queue.qid) (counted : changed.Counted) {left : List Task}
    (leftPlaces : (left.map Task.places).sum = inPlace target [req] + task.places)
    (less : Shrinks task left) (noWait : ∀ qid, source ≠ .sq qid .wait)
    (side : source.side = target.side) (queues : after.queues = mq.queues.set changed.qid changed)
    (tasks : after.tasks = replaceAt mq.tasks index left) (entries : after.entries = mq.entries)
    (ext : after.extList = mq.extList)
    (arrive : EntryOk (mq.entries req) source → EntryOk (mq.entries req) target) :
    Inv conf after := by
  have moved : Moved mq after (inPlace source [req]) (inPlace target [req]) :=
    moved_remove get found same queues tasks remove rfl leftPlaces
  refine inv.next_plain get tasks less ?_ (inv.placed.move_one moved side
    (entries.trans (mq.entries_self req)) ext ?_) moved (noWait_inPlace noWait _)
  · rw [queues]
    exact inv.queues.set counted
  · exact arrive (inv.entryOk moved (mem_inPlace_self _ _))

/-- A task goes on with its entry. -/
theorem Inv.task_one (inv : Inv conf mq) {index : Nat} {task : Task}
    (get : mq.tasks[index]? = some task) (source target : Place) {req : Nat}
    {common : Multiset (Place × Nat)} (places : task.places = inPlace source [req] + common)
    {left : List Task} (leftPlaces : (left.map Task.places).sum = inPlace target [req] + common)
    (less : Shrinks task left) (noWait : ∀ qid, source ≠ .sq qid .wait)
    (side : source.side = target.side)
    (queues : after.queues = mq.queues) (tasks : after.tasks = replaceAt mq.tasks index left)
    {value : Entry} (entries : after.entries = Function.update mq.entries req value)
    (ext : after.extList = mq.extList)
    (arrive : EntryOk (mq.entries req) source → EntryOk value target) : Inv conf after := by
  have moved : Moved mq after (inPlace source [req]) (inPlace target [req]) :=
    moved_one get source target places leftPlaces queues tasks
  refine inv.next_plain get tasks less ?_ (inv.placed.move_one moved side entries ext ?_)
    moved (noWait_inPlace noWait _)
  · rw [queues]
    exact inv.queues
  · exact arrive (inv.entryOk moved (mem_inPlace_self _ _))

/-- A task goes on, and no entry moves or changes. -/
theorem Inv.task_none (inv : Inv conf mq) {index : Nat} {task : Task}
    (get : mq.tasks[index]? = some task) {left : List Task}
    (leftPlaces : (left.map Task.places).sum = task.places)
    (less : Shrinks task left) (queues : after.queues = mq.queues)
    (tasks : after.tasks = replaceAt mq.tasks index left)
    (frame : ∀ place req, (place, req) ∈ mq.placed →
      after.entries req = mq.entries req ∧ Allocated conf after req) :
    Inv conf after := by
  have moved : Moved mq after 0 0 := by
    obtain ⟨rest, before, behind⟩ := moved_task get left queues tasks
    rw [leftPlaces] at behind
    exact ⟨task.places + rest, by rw [before, zero_add], by rw [behind, zero_add]⟩
  refine inv.next_plain get tasks less ?_ (inv.placed.move moved (le_refl _)
    (fun _ => rfl) (fun place req mem _ => (frame place req mem).1)
    (fun place req mem => (frame place req mem).2)
      fun _ _ mem => absurd mem (Multiset.notMem_zero _)) moved fun _ _ mem => absurd mem
        (Multiset.notMem_zero _)
  rw [queues]
  exact inv.queues

/-- Tasks begin, and no entry moves or changes. -/
theorem Inv.start_none (inv : Inv conf mq) {started : List Task}
    (tasks : after.tasks = mq.tasks ++ started)
    (plain : ∀ task ∈ started, task.Plain ∧ task.places = 0) (queues : after.queues = mq.queues)
    (frame : ∀ place req, (place, req) ∈ mq.placed →
      after.entries req = mq.entries req ∧ Allocated conf after req) :
    Inv conf after := by
  have moved : Moved mq after 0 0 := by
    refine ⟨mq.placed, (zero_add _).symm, ?_⟩
    rw [MqState.placed, queues, tasks, List.map_append, List.sum_append,
      sum_eq_zero fun task mem => (plain task mem).2, add_zero, zero_add]
    rfl
  refine inv.start_plain tasks (fun task mem => (plain task mem).1) ?_
    (inv.placed.move moved (le_refl _) (fun _ => rfl)
    (fun place req mem _ => (frame place req mem).1)
      (fun place req mem => (frame place req mem).2)
      fun _ _ mem => absurd mem (Multiset.notMem_zero _)) moved
    fun _ _ mem => absurd mem (Multiset.notMem_zero _)
  rw [queues]
  exact inv.queues

/-! ## Submissions -/

theorem Inv.submit (inv : Inv conf mq) (qid : Nat) (null : Bool) :
    Inv conf (oxMqSubmitReq mq qid null) := by
  rw [oxMqSubmitReq]
  split
  · exact inv
  · rename_i queue get
    obtain ⟨rfl, found, counted⟩ := inv.found get
    split
    · exact inv
    · rename_i req rest first
      exact inv.begin_one (.sq queue.qid .new) found (places_remove_sqFree first) rfl
        ⟨counted.1.removeHead first, counted.2, counted.3, counted.4, counted.5⟩ rfl ⟨rfl, rfl⟩
        nofun rfl rfl rfl rfl rfl id

theorem Inv.sqThread (inv : Inv conf mq) (qid : Nat) : Inv conf (oxMqSqThread mq qid) := by
  rw [oxMqSqThread]
  split
  · exact inv
  · rename_i queue get
    obtain ⟨rfl, found, counted⟩ := inv.found get
    split
    · exact inv
    · split
      · exact inv
      · rename_i req rest first
        exact inv.begin_one (.sq queue.qid .took) found (places_remove_sqUsed first) rfl
          ⟨counted.1, counted.2.removeHead first, counted.3, counted.4, counted.5⟩ rfl ⟨rfl, rfl⟩
          nofun rfl rfl rfl rfl rfl id

theorem Inv.cqThread (inv : Inv conf mq) (qid : Nat) : Inv conf (oxMqCqThread mq qid) := by
  rw [oxMqCqThread]
  split
  · exact inv
  · rename_i queue get
    obtain ⟨rfl, found, counted⟩ := inv.found get
    split
    · exact inv
    · split
      · exact inv
      · rename_i req rest first
        exact inv.begin_one (.cq queue.qid .full) found (places_remove_cqUsed first) rfl
          ⟨counted.1, counted.2, counted.3, counted.4, counted.5.removeHead first⟩ rfl ⟨rfl, rfl⟩
          nofun rfl rfl rfl rfl rfl id

variable {index : Nat} {late : Bool} {new : Nat} {queue : Queue}

theorem Inv.submitTook (inv : Inv conf mq) {qid req : Nat} {opaqueOf : Option Nat}
    (get : mq.tasks[index]? = some (.submitTook qid req opaqueOf)) :
    Inv conf (taskStep conf mq index late new (.submitTook qid req opaqueOf)) :=
  inv.task_one get (.sq qid .new) (.sq qid .filled) (add_zero _).symm rfl
    (Shrinks.of_one ⟨rfl, rfl⟩) nofun rfl rfl rfl rfl rfl
    fun ok => ⟨ok, rfl⟩

theorem Inv.submitFilled (inv : Inv conf mq) {req : Nat}
    (get : mq.tasks[index]? = some (.submitFilled queue.qid req))
    (found : mq.queues[queue.qid]? = some queue) (counted : queue.Counted) :
    Inv conf (queueStep conf mq index late new queue (.submitFilled queue.qid req)) :=
  inv.insert_one get (.sq queue.qid .filled) found (places_insert_sqUsed queue req) rfl
    ⟨counted.1, counted.2.insertTail req, counted.3, counted.4, counted.5⟩ (add_zero _).symm rfl
    Shrinks.nil nofun rfl rfl rfl rfl rfl fun ok => ⟨nofun, ok.2⟩

theorem Inv.sqTook (inv : Inv conf mq) {qid req : Nat}
    (get : mq.tasks[index]? = some (.sqTook qid req)) :
    Inv conf (taskStep conf mq index late new (.sqTook qid req)) :=
  inv.task_one get (.sq qid .took) (.sq qid .marked) (add_zero _).symm rfl
    (Shrinks.of_one ⟨rfl, rfl⟩) nofun rfl rfl rfl rfl rfl fun ok => ⟨rfl, ok.2⟩

theorem Inv.sqMarked (inv : Inv conf mq) {req : Nat}
    (get : mq.tasks[index]? = some (.sqMarked queue.qid req))
    (found : mq.queues[queue.qid]? = some queue) (counted : queue.Counted) :
    Inv conf (queueStep conf mq index late new queue (.sqMarked queue.qid req)) := by
  rw [queueStep]
  split
  · exact inv
  · exact inv.insert_one get (.sq queue.qid .marked) found (places_insert_sqWait queue req) rfl
      ⟨counted.1, counted.2, counted.3.insertTail req, counted.4, counted.5⟩ (add_zero _).symm rfl
      (Shrinks.of_one ⟨rfl, rfl⟩) nofun rfl rfl rfl
      (mq.entries_self req) rfl fun ok => ok

theorem Inv.sqQueued (inv : Inv conf mq) {qid req : Nat}
    (get : mq.tasks[index]? = some (.sqQueued qid req)) :
    Inv conf (taskStep conf mq index late new (.sqQueued qid req)) :=
  inv.task_none get rfl Shrinks.nil rfl rfl fun place req mem =>
    ⟨rfl, (inv.placed.entries place req mem).2⟩

theorem Inv.cqTook (inv : Inv conf mq) {req : Nat}
    (get : mq.tasks[index]? = some (.cqTook queue.qid req))
    (found : mq.queues[queue.qid]? = some queue) (counted : queue.Counted) :
    Inv conf (queueStep conf mq index late new queue (.cqTook queue.qid req)) :=
  inv.insert_one get (.cq queue.qid .full) found (places_insert_cqFree queue req) rfl
    ⟨counted.1, counted.2, counted.3, counted.4.insertTail req, counted.5⟩ (add_zero _).symm rfl
    (Shrinks.of_one ⟨rfl, rfl⟩) nofun rfl rfl rfl rfl rfl fun _ => nofun

theorem Inv.cqFreed (inv : Inv conf mq) {qid : Nat} {opaqueOf : Option Nat}
    (get : mq.tasks[index]? = some (.cqFreed qid opaqueOf)) :
    Inv conf (taskStep conf mq index late new (.cqFreed qid opaqueOf)) :=
  inv.task_none get rfl Shrinks.nil rfl rfl fun place req mem =>
    ⟨rfl, (inv.placed.entries place req mem).2⟩

/-! ## Completions -/

theorem EntryOk.not_timeoutCompleted {entry : Entry} {place : Place} (ok : EntryOk entry place) :
    entry.status ≠ .timeoutCompleted := by
  intro done
  cases place with
  | sq _ spot => cases spot <;> simp_all [EntryOk, Entry.TimedOut]
  | cq => simp_all [EntryOk, Entry.TimedOut]
  | late | settled => simp_all [EntryOk]

theorem checkReq_tasks (mq : MqState) (req : Nat) :
    (checkReq mq req).1.queues = mq.queues ∧ (checkReq mq req).1.tasks = mq.tasks := by
  rw [checkReq]
  dsimp only
  split
  · exact ⟨rfl, rfl⟩
  · split
    · exact ⟨rfl, rfl⟩
    · exact ⟨rfl, rfl⟩

/-- The memory that a completion frees is not in use. -/
theorem Inv.checkReq_frame (inv : Inv conf mq) (req : Nat) {place : Place} {other : Nat}
    (mem : (place, other) ∈ mq.placed) :
    (checkReq mq req).1.entries other = mq.entries other ∧
      Allocated conf (checkReq mq req).1 other := by
  obtain ⟨ok, alloc⟩ := inv.placed.entries place other mem
  rw [checkReq]
  dsimp only
  split
  · exact ⟨rfl, alloc⟩
  · split
    · rename_i done
      have ne : other ≠ req := by
        rintro rfl
        exact ok.not_timeoutCompleted done
      refine ⟨Function.update_of_ne ne _ _, alloc.imp_right fun memExt => ?_⟩
      dsimp only
      split
      · exact (List.mem_erase_of_ne ne).mpr memExt
      · exact memExt
    · exact ⟨rfl, alloc⟩

theorem Inv.complete (inv : Inv conf mq) (req : Nat) : Inv conf (oxMqCompleteReq mq req) := by
  rw [oxMqCompleteReq]
  split
  · exact inv
  · obtain ⟨queues, tasks⟩ := checkReq_tasks mq req
    refine inv.start_none (congrArg (· ++ _) tasks) (fun task mem => ?_) queues
      fun place other mem => inv.checkReq_frame req mem
    obtain ⟨qid, _, rfl⟩ := List.mem_map.mp mem
    exact ⟨⟨rfl, rfl⟩, rfl⟩

/-- The timeout thread completes a late entry. -/
theorem Inv.completing (inv : Inv conf mq) {req : Nat} {rest : List Nat}
    (get : mq.tasks[index]? = some (.completing (req :: rest))) :
    Inv conf (taskStep conf mq index late new (.completing (req :: rest))) := by
  have marked : ∀ {after : MqState}, after.queues = mq.queues →
      after.tasks = replaceAt mq.tasks index [.marking req rest] → after.entries = mq.entries →
      after.extList = mq.extList → Inv conf after := fun queues tasks entries ext =>
    inv.task_one get .late .settled (inPlace_cons ..) (add_zero _) (Shrinks.of_one ⟨rfl, rfl⟩)
      nofun rfl queues tasks (entries.trans (mq.entries_self req)) ext fun ok => ok
  have timeout : (mq.entries req).status = .timeout := by
    refine (inv.placed.entries .late req (mem_placed (List.mem_of_getElem? get) ?_)).1
    exact mem_inPlace.mpr ⟨rfl, List.mem_cons_self⟩
  rw [taskStep]
  split
  · split
    · exact inv
    · simp only [checkReq, timeout, reduceCtorEq, or_false, if_false]
      split
      · exact marked rfl rfl rfl rfl
      · exact inv.task_none get (add_zero _) (Shrinks.of_one ⟨rfl, rfl⟩) rfl rfl
          fun place other mem =>
          ⟨rfl, (inv.placed.entries place other mem).2⟩
  · exact marked rfl rfl rfl rfl

theorem late_eq (caller : Caller) (req : Nat) :
    inPlace .late (caller.late req) =
      inPlace .late (caller.settled req) + inPlace .late caller.rest := by
  cases caller with
  | user => rfl
  | timeout rest => rfl

theorem places_done (caller : Caller) (req : Nat) :
    ((caller.done req).map Task.places).sum =
      inPlace .settled (caller.settled req) + inPlace .late caller.rest := by
  cases caller with
  | user => rfl
  | timeout rest => exact add_zero _

theorem Shrinks.of_done (task : Task) (caller : Caller) (req : Nat) :
    Shrinks task (caller.done req) := by
  cases caller with
  | user => exact Shrinks.nil
  | timeout rest => exact Shrinks.of_one ⟨rfl, rfl⟩

theorem Inv.checked (inv : Inv conf mq) {caller : Caller} {req : Nat}
    (get : mq.tasks[index]? = some (.checked caller queue.qid req))
    (found : mq.queues[queue.qid]? = some queue) (counted : queue.Counted) :
    Inv conf (queueStep conf mq index late new queue (.checked caller queue.qid req)) := by
  rw [queueStep]
  split
  · cases caller with
    | user =>
        exact inv.task_none get rfl Shrinks.nil rfl rfl fun place other mem =>
          ⟨rfl, (inv.placed.entries place other mem).2⟩
    | timeout rest =>
        exact inv.task_one get .late .settled (inPlace_cons ..) (add_zero _)
          (Shrinks.of_one ⟨rfl, rfl⟩) nofun rfl rfl rfl (mq.entries_self req) rfl fun ok => ok
  · rename_i cqReq rest first
    exact inv.remove_one get (.cq queue.qid .taken) found (places_remove_cqFree first) rfl
      ⟨counted.1, counted.2, counted.3, counted.4.removeHead first, counted.5⟩ (add_zero _)
      (Shrinks.of_one ⟨rfl, rfl⟩) nofun rfl rfl rfl rfl rfl fun ok => ok

theorem Inv.posting (inv : Inv conf mq) {caller : Caller} {req cqReq : Nat}
    (get : mq.tasks[index]? = some (.posting caller queue.qid req cqReq))
    (found : mq.queues[queue.qid]? = some queue) (counted : queue.Counted) :
    Inv conf (queueStep conf mq index late new queue (.posting caller queue.qid req cqReq)) :=
  inv.insert_one get (.cq queue.qid .full) found (places_insert_cqUsed queue cqReq) rfl
    ⟨counted.1, counted.2, counted.3, counted.4, counted.5.insertTail cqReq⟩ (add_assoc ..)
    (places_done caller req) (Shrinks.of_done _ caller req) nofun rfl rfl rfl rfl rfl fun _ => nofun

theorem Inv.removed (inv : Inv conf mq) {caller : Caller} {req cqReq : Nat}
    (get : mq.tasks[index]? = some (.removed caller queue.qid req cqReq))
    (found : mq.queues[queue.qid]? = some queue) (counted : queue.Counted) :
    Inv conf (queueStep conf mq index late new queue (.removed caller queue.qid req cqReq)) := by
  obtain rfl : caller = .user := inv.users _ (List.mem_of_getElem? get)
  refine inv.insert_one get (.sq queue.qid .out) found (places_insert_sqFree queue req) rfl
    ⟨counted.1.insertTail req, counted.2, counted.3, counted.4, counted.5⟩ ?_ (add_zero _)
    (Shrinks.of_one ⟨rfl, rfl⟩) nofun rfl rfl rfl rfl rfl fun _ => nofun
  simp only [Task.places, Caller.rest, Caller.settled, inPlace_nil, add_zero]
  exact add_comm ..

theorem Inv.took_posting (inv : Inv conf mq) {caller : Caller} {qid req cqReq : Nat}
    (get : mq.tasks[index]? = some (.took caller qid req cqReq)) {value : Entry}
    (queues : after.queues = mq.queues)
    (tasks : after.tasks = replaceAt mq.tasks index [.posting caller qid req cqReq])
    (entries : after.entries = Function.update mq.entries cqReq value)
    (status : value.status = (mq.entries cqReq).status) (ext : after.extList = mq.extList) :
    Inv conf after := by
  have moved : Moved mq after
      (inPlace (.cq qid .taken) [cqReq] + inPlace .late (caller.settled req))
      (inPlace (.cq qid .full) [cqReq] + inPlace .settled (caller.settled req)) := by
    obtain ⟨rest, before, behind⟩ := moved_task get _ queues tasks
    refine ⟨inPlace .late caller.rest + rest, ?_, ?_⟩
    · rw [before, Task.places, late_eq]
      abel
    · rw [behind, List.map_singleton, List.sum_singleton, Task.places]
      abel
  have taken := inv.entryOk moved (Multiset.mem_add.mpr (Or.inl (mem_inPlace_self _ cqReq)))
  refine inv.next_plain get tasks (Shrinks.of_one ⟨rfl, rfl⟩) ?_ (inv.placed.move moved ?_ ?_ ?_
    (fun place other mem => (inv.placed.entries place other mem).2.of_eq ext) ?_) moved ?_
  · rw [queues]
    exact inv.queues
  · simp only [Multiset.map_add, inPlace_entries, le_refl]
  · intro side
    simp only [Multiset.countP_add, countP_inPlace]
    rfl
  · intro place other _ stays
    rw [entries]
    refine Function.update_of_ne (fun eq => stays ?_) value mq.entries
    rw [eq, Multiset.map_add, inPlace_entries]
    exact Multiset.mem_add.mpr (Or.inl (Multiset.mem_singleton_self cqReq))
  · intro place other mem
    rcases Multiset.mem_add.mp mem with full | settled
    · obtain ⟨rfl, eq⟩ := mem_inPlace.mp full
      rw [List.mem_singleton.mp eq, entries, Function.update_self]
      rw [EntryOk, Entry.TimedOut, status]
      exact taken
    · obtain ⟨rfl, memSettled⟩ := mem_inPlace.mp settled
      have lateMem : (Place.late, other) ∈
          inPlace (.cq qid .taken) [cqReq] + inPlace .late (caller.settled req) :=
        Multiset.mem_add.mpr (Or.inr (mem_inPlace.mpr ⟨rfl, memSettled⟩))
      have ne : other ≠ cqReq := by
        rintro rfl
        exact nomatch inv.placed.unique (moved.gone_mem lateMem)
          (moved.gone_mem (Multiset.mem_add.mpr (Or.inl (mem_inPlace_self _ other))))
      have timeout : EntryOk (mq.entries other) .late := inv.entryOk moved lateMem
      rw [entries, Function.update_of_ne ne]
      exact timeout
  · intro other req mem
    rcases Multiset.mem_add.mp mem with taken | late
    · exact nomatch (mem_inPlace.mp taken).1
    · exact nomatch (mem_inPlace.mp late).1

theorem mem_wait (inv : Inv conf mq) {qid req : Nat} :
    (.sq qid .wait, req) ∈ mq.placed ↔
      ∃ queue ∈ mq.queues[qid]?, req ∈ queue.sqWait.entries := by
  rw [MqState.placed, Multiset.mem_add, mem_sum_map, mem_sum_map]
  constructor
  · rintro (⟨queue, mem, place⟩ | ⟨task, _, place⟩)
    · obtain ⟨index, get⟩ := List.getElem?_of_mem mem
      have eq := inv.queues.qids index queue get
      have wait : qid = queue.qid ∧ req ∈ queue.sqWait.entries := by
        simpa [Queue.places, mem_inPlace] using place
      refine ⟨queue, ?_, wait.2⟩
      rw [wait.1, eq]
      exact get
    · cases task <;> simp [Task.places, mem_inPlace] at place
  · rintro ⟨queue, get, mem⟩
    refine Or.inl ⟨queue, List.mem_of_getElem? get, ?_⟩
    simp [Queue.places, mem_inPlace, inv.queues.qids qid queue get, mem]

theorem mem_locks {req qid : Nat} {waits : Bool} :
    (req, qid, waits) ∈ mq.locks ↔
      ∃ caller cqReq, (if waits then Task.removing caller qid req cqReq
        else Task.removed caller qid req cqReq) ∈ mq.tasks := by
  rw [MqState.locks, mem_sum_map]
  constructor
  · rintro ⟨task, mem, lock⟩
    cases task <;> simp only [Task.locks, Multiset.mem_singleton, Multiset.notMem_zero] at lock
    all_goals
      cases lock
      exact ⟨_, _, mem⟩
  · rintro ⟨caller, cqReq, mem⟩
    refine ⟨_, mem, ?_⟩
    cases waits <;> exact Multiset.mem_singleton_self _

theorem Inv.took_removing (inv : Inv conf mq) {qid req cqReq : Nat}
    (get : mq.tasks[index]? = some (.took .user qid req cqReq)) {value : Entry}
    (unlocked : ¬ mq.entryLocked req)
    (waiting : ∃ queue ∈ mq.queues[qid]?, req ∈ queue.sqWait.entries)
    (queues : after.queues = mq.queues)
    (tasks : after.tasks = replaceAt mq.tasks index [.removing .user qid req cqReq])
    (entries : after.entries = Function.update mq.entries cqReq value)
    (status : value.status = (mq.entries cqReq).status) (ext : after.extList = mq.extList) :
    Inv conf after := by
  obtain ⟨locksRest, locksBefore, locksAfter⟩ := locks_replaceAt get tasks
  obtain ⟨scansRest, scansBefore, scansAfter⟩ := scans_replaceAt get tasks
  have locks : after.locks = {(req, qid, true)} + mq.locks := by
    simp only [locksBefore, locksAfter, List.map_singleton, List.sum_singleton,
      Task.locks, zero_add]
  have scans : after.scans = mq.scans := by
    rw [scansBefore, scansAfter]
    rfl
  have moved : Moved mq after (inPlace (.cq qid .taken) [cqReq])
    (inPlace (.cq qid .taken) [cqReq]) :=
    moved_task get _ queues tasks
  have kept : ∀ other otherReq, (.sq other .wait, otherReq) ∈ mq.placed →
      (.sq other .wait, otherReq) ∈ after.placed := fun other otherReq mem =>
    moved.kept mem fun taken => nomatch (mem_inPlace.mp taken).1
  constructor
  · rw [queues]
    exact inv.queues
  · refine inv.placed.move_one moved rfl entries ext ?_
    rw [EntryOk, Entry.TimedOut, status]
    exact inv.entryOk moved (mem_inPlace_self _ cqReq)
  · rw [locks, Multiset.map_add, Multiset.map_singleton, Multiset.singleton_add,
      Multiset.nodup_cons]
    refine ⟨fun mem => unlocked ?_, inv.locks⟩
    obtain ⟨⟨_, other, waits⟩, memLocks, rfl⟩ := Multiset.mem_map.mp mem
    obtain ⟨caller, cqOther, memTask⟩ := mem_locks.mp memLocks
    refine List.any_eq_true.mpr ⟨_, memTask, ?_⟩
    cases waits <;> exact decide_eq_true rfl
  · intro other otherQid mem
    rw [locks, Multiset.mem_add, Multiset.mem_singleton] at mem
    rcases mem with new | old
    · cases new
      exact kept _ _ ((mem_wait inv).mpr waiting)
    · exact kept _ _ (inv.waits other otherQid old)
  · rw [scans]
    exact inv.scans
  · intro otherQid other mem
    rw [scans] at mem
    exact kept _ _ (inv.scanned otherQid other mem)
  · intro task mem
    rw [tasks] at mem
    rcases mem_replaceAt mem with old | new
    · exact inv.users task old
    · rw [List.mem_singleton.mp new]
      rfl

theorem Inv.mem_sqWait (inv : Inv conf mq) (found : mq.queues[queue.qid]? = some queue) {req : Nat}
    (mem : (.sq queue.qid .wait, req) ∈ mq.placed) : req ∈ queue.sqWait.entries := by
  obtain ⟨other, get, wait⟩ := (mem_wait inv).mp mem
  rw [found] at get
  cases get
  exact wait

/-- An entry is locked once. -/
theorem Inv.locked_once (inv : Inv conf mq) {req qid other : Nat} {waits : Bool}
    {rest : Multiset (Nat × Nat × Bool)} (locks : mq.locks = {(req, qid, waits)} + rest)
    {otherWaits : Bool} (mem : (req, other, otherWaits) ∈ rest) : False := by
  have nodup := inv.locks
  rw [locks, Multiset.map_add, Multiset.map_singleton, Multiset.singleton_add,
    Multiset.nodup_cons] at nodup
  exact nodup.1 (Multiset.mem_map.mpr ⟨_, mem, rfl⟩)

theorem waitLocked_of_scans {qid req : Nat} (mem : (qid, req) ∈ mq.scans) : mq.waitLocked qid := by
  obtain ⟨task, memTask, scan⟩ := mem_sum_map.mp mem
  refine List.any_eq_true.mpr ⟨task, memTask, ?_⟩
  cases task with
  | scanning | replacing =>
      obtain ⟨_, _, eq⟩ := List.mem_map.mp (Multiset.mem_coe.mp scan)
      cases eq
      exact decide_eq_true rfl
  | _ => exact absurd scan (Multiset.notMem_zero _)

/-- A completion removes the entry from `sq_wait`. -/
theorem Inv.removing_wait (inv : Inv conf mq) {req cqReq : Nat}
    (get : mq.tasks[index]? = some (.removing .user queue.qid req cqReq))
    (found : mq.queues[queue.qid]? = some queue) (counted : queue.Counted)
    (unlocked : ¬ mq.waitLocked queue.qid) {changed : Queue}
    (remove : changed = { queue with sqWait := queue.sqWait.remove req })
    (same : changed.qid = queue.qid) (queues : after.queues = mq.queues.set changed.qid changed)
    (tasks : after.tasks = replaceAt mq.tasks index [.removed .user queue.qid req cqReq])
    (entries : after.entries = mq.entries) (ext : after.extList = mq.extList) : Inv conf after := by
  obtain ⟨locksRest, locksBefore, locksAfter⟩ := locks_replaceAt get tasks
  obtain ⟨scansRest, scansBefore, scansAfter⟩ := scans_replaceAt get tasks
  have scans : after.scans = mq.scans := by
    rw [scansBefore, scansAfter]
    rfl
  have waits : (.sq queue.qid .wait, req) ∈ mq.placed :=
    inv.waits _ _ (mem_locks.mpr ⟨_, cqReq, List.mem_of_getElem? get⟩)
  have mem := inv.mem_sqWait found waits
  have moved : Moved mq after
      (inPlace (.sq queue.qid .wait) [req] + inPlace (.cq queue.qid .taken) [cqReq])
      (inPlace (.sq queue.qid .out) [req] + inPlace (.cq queue.qid .full) [cqReq]) := by
    obtain ⟨rest, before, behind⟩ := moved_queue get found same _ queues tasks
    refine ⟨changed.places + rest, ?_, ?_⟩
    · rw [before, places_remove_sqWait mem, remove, Task.places, Caller.late, inPlace_nil]
      abel
    · rw [behind, List.map_singleton, List.sum_singleton, Task.places, Caller.rest, inPlace_nil]
      abel
  have stays : ∀ {qid other : Nat}, (.sq qid .wait, other) ∈ mq.placed →
      qid ≠ queue.qid ∨ other ≠ req → (.sq qid .wait, other) ∈ after.placed := by
    intro qid other placed ne
    refine moved.kept placed fun gone => ?_
    rcases Multiset.mem_add.mp gone with wait | taken
    · obtain ⟨eqPlace, eq⟩ := mem_inPlace.mp wait
      cases eqPlace
      exact ne.elim (fun ne => ne rfl) fun ne => ne (List.mem_singleton.mp eq)
    · exact nomatch (mem_inPlace.mp taken).1
  constructor
  · rw [queues]
    refine inv.queues.set ?_
    rw [remove]
    exact ⟨counted.1, counted.2, counted.3.remove mem, counted.4, counted.5⟩
  · refine inv.placed.move moved ?_ ?_ (fun place other _ _ => congrFun entries other)
      (fun place other mem => (inv.placed.entries place other mem).2.of_eq ext) ?_
    · simp only [Multiset.map_add, inPlace_entries, le_refl]
    · intro side
      simp only [Multiset.countP_add, countP_inPlace]
      rfl
    · intro place other come
      rw [entries]
      rcases Multiset.mem_add.mp come with out | full
      · obtain ⟨rfl, eq⟩ := mem_inPlace.mp out
        have waiting := (inv.placed.entries _ req waits).1
        change ¬ Entry.TimedOut _
        rw [List.mem_singleton.mp eq, Entry.TimedOut, waiting.1]
        exact nofun
      · obtain ⟨rfl, eq⟩ := mem_inPlace.mp full
        rw [List.mem_singleton.mp eq]
        have taken := inv.entryOk moved (Multiset.mem_add.mpr (Or.inr (mem_inPlace_self _ cqReq)))
        exact taken
  · have nodup := inv.locks
    rw [locksBefore, Multiset.map_add] at nodup
    rw [locksAfter, List.map_singleton, List.sum_singleton, Multiset.map_add]
    exact nodup
  · intro other qid memAfter
    rw [locksAfter, List.map_singleton, List.sum_singleton, Task.locks, Multiset.mem_add,
      Multiset.mem_singleton] at memAfter
    have memRest := memAfter.resolve_left nofun
    have before : (other, qid, true) ∈ mq.locks := by
      rw [locksBefore]
      exact Multiset.mem_add.mpr (Or.inr memRest)
    refine stays (inv.waits other qid before) (Or.inr ?_)
    rintro rfl
    exact inv.locked_once locksBefore memRest
  · rw [scans]
    exact inv.scans
  · intro qid other memScans
    rw [scans] at memScans
    refine stays (inv.scanned qid other memScans) (Or.inl ?_)
    rintro rfl
    exact unlocked (waitLocked_of_scans memScans)
  · intro task memTask
    rw [tasks] at memTask
    rcases mem_replaceAt memTask with old | new
    · exact inv.users task old
    · rw [List.mem_singleton.mp new]
      rfl

theorem Inv.removing (inv : Inv conf mq) {caller : Caller} {req cqReq : Nat}
    (get : mq.tasks[index]? = some (.removing caller queue.qid req cqReq))
    (found : mq.queues[queue.qid]? = some queue) (counted : queue.Counted) :
    Inv conf (queueStep conf mq index late new queue (.removing caller queue.qid req cqReq)) := by
  obtain rfl : caller = .user := inv.users _ (List.mem_of_getElem? get)
  rw [queueStep]
  split
  · exact inv
  · rename_i unlocked
    exact inv.removing_wait get found counted unlocked rfl rfl rfl rfl rfl rfl

/-! ## Timeouts -/

theorem scans_eq_zero (idle : ¬ mq.tasks.any Task.isToRound) : mq.scans = 0 := by
  refine sum_eq_zero fun task mem => ?_
  cases task with
  | scanning | replacing => exact absurd (List.any_eq_true.mpr ⟨_, mem, rfl⟩) idle
  | _ => rfl

theorem Inv.sqWait_nodup (inv : Inv conf mq) (mem : queue ∈ mq.queues) :
    queue.sqWait.entries.Nodup := by
  have le : inPlace (.sq queue.qid .wait) queue.sqWait.entries ≤ mq.placed := by
    obtain ⟨index, get⟩ := List.getElem?_of_mem mem
    obtain ⟨rest, total, _⟩ := sum_split Queue.places get
    rw [MqState.placed, total, Queue.places]
    refine Multiset.le_iff_exists_add.mpr ⟨inPlace (.sq queue.qid .free) queue.sqFree.entries +
      inPlace (.sq queue.qid .used) queue.sqUsed.entries +
      inPlace (.cq queue.qid .free) queue.cqFree.entries +
      inPlace (.cq queue.qid .used) queue.cqUsed.entries + rest +
      (mq.tasks.map Task.places).sum, ?_⟩
    abel
  have nodup := Multiset.nodup_of_le (Multiset.map_le_map le) inv.placed.nodup
  rw [inPlace_entries] at nodup
  exact nodup

theorem Inv.toThread (inv : Inv conf mq) (qid : Nat) : Inv conf (oxMqCheckQueueTo mq qid) := by
  rw [oxMqCheckQueueTo]
  split
  · exact inv
  · rename_i queue get
    obtain ⟨rfl, found, counted⟩ := inv.found get
    split
    · exact inv
    · rename_i idle
      have locks : (mq.start (.scanning queue.qid queue.sqWait.entries [])).locks = mq.locks := by
        rw [MqState.locks, MqState.start, List.map_append, List.sum_append]
        exact add_zero _
      have scans : (mq.start (.scanning queue.qid queue.sqWait.entries [])).scans =
          ↑(queue.sqWait.entries.map fun req => (queue.qid, req)) := by
        have none := scans_eq_zero idle
        rw [MqState.scans] at none
        rw [MqState.scans, MqState.start, List.map_append, List.sum_append, none, zero_add]
        exact add_zero _
      have placed : (mq.start (.scanning queue.qid queue.sqWait.entries [])).placed =
        mq.placed := by
        rw [MqState.placed, MqState.start, List.map_append, List.sum_append]
        exact congrArg _ (add_zero _)
      refine ⟨inv.queues, ⟨?_, ?_, ?_⟩, ?_, ?_, ?_, ?_, ?_⟩
      · rw [placed]
        exact inv.placed.nodup
      · rw [placed]
        exact inv.placed.entries
      · rw [placed]
        exact inv.placed.sides
      · rw [locks]
        exact inv.locks
      · rw [locks, placed]
        exact inv.waits
      · rw [scans, Multiset.map_coe, List.map_map]
        exact (List.map_id _).symm ▸ inv.sqWait_nodup (List.mem_of_getElem? found)
      · intro qid req mem
        rw [scans] at mem
        obtain ⟨other, memWait, eq⟩ := List.mem_map.mp mem
        cases eq
        rw [placed]
        exact (mem_wait inv).mpr ⟨queue, found, memWait⟩
      · intro task mem
        rcases List.mem_append.mp mem with old | new
        · exact inv.users task old
        · rw [List.mem_singleton.mp new]
          trivial

theorem Inv.timedOut (inv : Inv conf mq) {lates : List Nat}
    (get : mq.tasks[index]? = some (.timedOut lates)) :
    Inv conf (taskStep conf mq index late new (.timedOut lates)) :=
  inv.task_none get (add_zero _) (Shrinks.of_one ⟨rfl, rfl⟩) rfl rfl fun place req mem =>
    ⟨rfl, (inv.placed.entries place req mem).2⟩

theorem Inv.completing_nil (inv : Inv conf mq) (get : mq.tasks[index]? = some (.completing [])) :
    Inv conf (taskStep conf mq index late new (.completing [])) :=
  inv.task_none get rfl Shrinks.nil rfl rfl fun place req mem =>
    ⟨rfl, (inv.placed.entries place req mem).2⟩

theorem Inv.scanning_nil (inv : Inv conf mq) {qid : Nat} {lates : List Nat}
    (get : mq.tasks[index]? = some (.scanning qid [] lates)) :
    Inv conf (taskStep conf mq index late new (.scanning qid [] lates)) := by
  rw [taskStep]
  split
  · rename_i none
    subst none
    exact inv.task_none get rfl Shrinks.nil rfl rfl fun place req mem =>
      ⟨rfl, (inv.placed.entries place req mem).2⟩
  · exact inv.task_none get (add_zero _) (Shrinks.of_one ⟨rfl, rfl⟩) rfl rfl fun place req mem =>
      ⟨rfl, (inv.placed.entries place req mem).2⟩

theorem Inv.replacing (inv : Inv conf mq) {rest lates : List Nat} {req : Nat}
    (get : mq.tasks[index]? = some (.replacing queue.qid rest lates req))
    (found : mq.queues[queue.qid]? = some queue) (counted : queue.Counted) :
    Inv conf (queueStep conf mq index late new queue (.replacing queue.qid rest lates req)) :=
  inv.insert_one get (.sq queue.qid .fresh) found (places_insert_sqFree queue req) rfl
    ⟨counted.1.insertTail req, counted.2, counted.3, counted.4, counted.5⟩ rfl (add_zero _)
    (Shrinks.scanning (le_refl _)) nofun rfl rfl rfl (mq.entries_self req) rfl fun ok => ok

theorem Inv.marking (inv : Inv conf mq) {req : Nat} {rest : List Nat}
    (get : mq.tasks[index]? = some (.marking req rest)) :
    Inv conf (taskStep conf mq index late new (.marking req rest)) := by
  have moved : Moved mq (taskStep conf mq index late new (.marking req rest))
      (inPlace .settled [req]) 0 := by
    have queues : (taskStep conf mq index late new (.marking req rest)).queues = mq.queues := rfl
    obtain ⟨others, before, behind⟩ := moved_task get [.completing rest] queues rfl
    refine ⟨inPlace .late rest + others, before.trans (add_assoc ..), ?_⟩
    rw [behind, zero_add, List.map_singleton, List.sum_singleton]
    rfl
  refine inv.next_plain get rfl (Shrinks.of_one ⟨rfl, rfl⟩) inv.queues
    (inv.placed.move moved (Multiset.zero_le _) ?_ ?_
      (fun place other mem => (inv.placed.entries place other mem).2)
      fun _ _ mem => absurd mem (Multiset.notMem_zero _)) moved
    fun qid other mem => nomatch (mem_inPlace.mp mem).1
  · intro side
    rw [countP_inPlace]
    rfl
  · intro place other _ stays
    refine Function.update_of_ne (fun eq => stays ?_) _ _
    rw [eq, inPlace_entries]
    exact Multiset.mem_singleton_self req

theorem Inv.scanning_skip (inv : Inv conf mq) {req : Nat} {rest lates : List Nat}
    (get : mq.tasks[index]? = some (.scanning queue.qid (req :: rest) lates))
    (tasks : after.tasks = replaceAt mq.tasks index [.scanning queue.qid rest lates])
    (queues : after.queues = mq.queues) (entries : after.entries = mq.entries)
    (ext : after.extList = mq.extList) : Inv conf after :=
  inv.task_none get (add_zero _)
    (Shrinks.scanning (Multiset.coe_le.mpr (List.sublist_cons_self ..).subperm)) queues tasks
    fun place other mem =>
      ⟨congrFun entries other, (inv.placed.entries place other mem).2.of_eq ext⟩

/-- The timeout thread takes an entry and puts a new one in its place. -/
theorem Inv.scanning_late (inv : Inv conf mq) {req : Nat} {rest lates : List Nat}
    (get : mq.tasks[index]? = some (.scanning queue.qid (req :: rest) lates))
    (orderly : ∀ task ∈ mq.tasks, ¬ task.removes req)
    (found : mq.queues[queue.qid]? = some queue) (counted : queue.Counted)
    (unused : ¬ Allocated conf mq new) {changed : Queue}
    (remove : changed = { queue with sqWait := queue.sqWait.remove req })
    (same : changed.qid = queue.qid) (queues : after.queues = mq.queues.set changed.qid changed)
    (tasks : after.tasks = replaceAt mq.tasks index [.replacing queue.qid rest (req :: lates) new])
    {lateEntry newEntry : Entry} (timeout : lateEntry.status = .timeout)
    (free : newEntry.status = .free)
    (entries : after.entries =
      Function.update (Function.update mq.entries req lateEntry) new newEntry)
    (ext : after.extList = new :: mq.extList) : Inv conf after := by
  obtain ⟨locksRest, locksBefore, locksAfter⟩ := locks_replaceAt get tasks
  obtain ⟨scansRest, scansBefore, scansAfter⟩ := scans_replaceAt get tasks
  have locks : after.locks = mq.locks := by
    rw [locksBefore, locksAfter]
    rfl
  have scans : mq.scans = {(queue.qid, req)} + after.scans := by
    rw [scansBefore, scansAfter, List.map_singleton, List.sum_singleton, ← add_assoc]
    rfl
  have wait : (.sq queue.qid .wait, req) ∈ mq.placed := by
    refine inv.scanned _ _ ?_
    rw [scans]
    exact Multiset.mem_add.mpr (Or.inl (Multiset.mem_singleton_self _))
  have mem := inv.mem_sqWait found wait
  have moved : Moved mq after (inPlace (.sq queue.qid .wait) [req])
      (inPlace .late [req] + inPlace (.sq queue.qid .fresh) [new]) := by
    obtain ⟨others, before, behind⟩ := moved_queue get found same _ queues tasks
    refine ⟨changed.places + inPlace .late lates + others, ?_, ?_⟩
    · rw [before, places_remove_sqWait mem, remove, Task.places]
      abel
    · rw [behind, List.map_singleton, List.sum_singleton, Task.places,
        inPlace_cons .late req lates]
      abel
  have ne : ∀ {place : Place} {other : Nat}, (place, other) ∈ mq.placed → other ≠ new := by
    rintro place other placed rfl
    exact unused (inv.placed.entries place other placed).2
  have stays : ∀ {qid other : Nat}, (.sq qid .wait, other) ∈ mq.placed → other ≠ req →
      (.sq qid .wait, other) ∈ after.placed := fun placed other =>
    moved.kept placed fun gone => other (List.mem_singleton.mp (mem_inPlace.mp gone).2)
  constructor
  · rw [queues]
    refine inv.queues.set ?_
    rw [remove]
    exact ⟨counted.1, counted.2, counted.3.remove mem, counted.4, counted.5⟩
  · refine inv.placed.move_new moved {new} ?_ (Multiset.nodup_singleton new) ?_ ?_ ?_ ?_ ?_
    · simp only [Multiset.map_add, inPlace_entries]
      exact le_refl _
    · intro other eq
      rw [Multiset.mem_singleton.mp eq]
      refine ⟨unused, Or.inr ?_⟩
      rw [ext]
      exact List.mem_cons_self
    · intro side
      rw [Multiset.countP_add, countP_inPlace, countP_inPlace, countP_inPlace]
      exact Nat.zero_add _
    · intro place other placed other_ne
      rw [entries, Function.update_of_ne (ne placed)]
      refine Function.update_of_ne (fun eq => other_ne ?_) _ _
      rw [eq, inPlace_entries]
      exact Multiset.mem_singleton_self req
    · intro place other placed
      refine (inv.placed.entries place other placed).2.imp_right fun memExt => ?_
      rw [ext]
      exact List.mem_cons_of_mem _ memExt
    · intro place other come
      rcases Multiset.mem_add.mp come with memLate | fresh
      · obtain ⟨rfl, eq⟩ := mem_inPlace.mp memLate
        rw [List.mem_singleton.mp eq, entries, Function.update_of_ne (ne wait),
          Function.update_self]
        exact timeout
      · obtain ⟨rfl, eq⟩ := mem_inPlace.mp fresh
        change ¬ Entry.TimedOut _
        rw [List.mem_singleton.mp eq, entries, Function.update_self, Entry.TimedOut, free]
        exact nofun
  · rw [locks]
    exact inv.locks
  · intro other qid memLocks
    rw [locks] at memLocks
    refine stays (inv.waits other qid memLocks) ?_
    rintro rfl
    obtain ⟨caller, cqReq, memTask⟩ := mem_locks.mp memLocks
    exact orderly _ memTask (decide_eq_true rfl)
  · have nodup := inv.scans
    rw [scans, Multiset.map_add] at nodup
    exact (Multiset.nodup_add.mp nodup).2.1
  · intro qid other memScans
    have nodup := inv.scans
    rw [scans, Multiset.map_add, Multiset.map_singleton, Multiset.singleton_add,
      Multiset.nodup_cons] at nodup
    refine stays (inv.scanned qid other ?_) ?_
    · rw [scans]
      exact Multiset.mem_add.mpr (Or.inr memScans)
    · rintro rfl
      exact nodup.1 (Multiset.mem_map.mpr ⟨_, memScans, rfl⟩)
  · intro task memTask
    rw [tasks] at memTask
    rcases mem_replaceAt memTask with old | new
    · exact inv.users task old
    · rw [List.mem_singleton.mp new]
      trivial

theorem Inv.scanning_cons (inv : Inv conf mq) {req : Nat} {rest lates : List Nat}
    (get : mq.tasks[index]? = some (.scanning queue.qid (req :: rest) lates))
    (orderly : late = true → ∀ task ∈ mq.tasks, ¬ task.removes req)
    (found : mq.queues[queue.qid]? = some queue) (counted : queue.Counted) :
    Inv conf (queueStep conf mq index late new queue
      (.scanning queue.qid (req :: rest) lates)) := by
  rw [queueStep]
  split
  · rename_i isLate
    split
    · exact inv
    · rename_i unused
      exact inv.scanning_late get (orderly isLate) found counted unused rfl rfl rfl rfl rfl rfl rfl
        rfl
  · exact inv.scanning_skip get rfl rfl rfl rfl

/-! ## All steps -/

theorem Inv.took (inv : Inv conf mq) {caller : Caller} {qid req cqReq : Nat}
    (get : mq.tasks[index]? = some (.took caller qid req cqReq))
    (orderly : (mq.entries req).status = .waiting →
      ∃ queue ∈ mq.queues[qid]?, req ∈ queue.sqWait.entries) :
    Inv conf (taskStep conf mq index late new (.took caller qid req cqReq)) := by
  rw [taskStep]
  split
  · exact inv
  · rename_i unlocked
    by_cases waiting : (mq.entries req).status = .waiting
    · rw [if_pos waiting]
      cases caller with
      | user => exact inv.took_removing get unlocked (orderly waiting) rfl rfl rfl rfl rfl
      | timeout rest =>
          -- a late entry has another status
          have timeout := (inv.placed.entries .late req (mem_placed (List.mem_of_getElem? get)
            (Multiset.mem_add.mpr (Or.inr (mem_inPlace.mpr ⟨rfl, List.mem_cons_self⟩))))).1
          exact nomatch waiting.symm.trans timeout
    · rw [if_neg waiting]
      exact inv.took_posting get rfl rfl rfl rfl rfl

/-- A step on a queue, if there is one. -/
theorem Inv.onQueue (inv : Inv conf mq) {P : MqState → Prop} (same : P mq) (qid : Nat)
    (absent : mq.queues[qid]? = none → after = mq)
    (present : ∀ queue : Queue, queue.qid = qid → mq.queues[queue.qid]? = some queue →
    queue.Counted →
      P after) : P after := by
  cases found : mq.queues[qid]? with
  | none =>
      rw [absent found]
      exact same
  | some queue =>
      obtain ⟨eq, foundQueue, counted⟩ := inv.found found
      exact present queue eq foundQueue counted

/-- A task takes its next step. -/
theorem Inv.next (inv : Inv conf mq) {task : Task} (get : mq.tasks[index]? = some task)
    (orderly : Orderly mq (.next index late new)) :
    Inv conf (taskStep conf mq index late new task) := by
  have ok : OrderlyTask mq late task := orderly task get
  cases task with
  | submitTook => exact inv.submitTook get
  | sqTook => exact inv.sqTook get
  | sqQueued => exact inv.sqQueued get
  | cqFreed => exact inv.cqFreed get
  | took => exact inv.took get ok
  | timedOut => exact inv.timedOut get
  | marking => exact inv.marking get
  | completing lates =>
      cases lates with
      | nil => exact inv.completing_nil get
      | cons => exact inv.completing get
  | scanning qid rest lates =>
      cases rest with
      | nil => exact inv.scanning_nil get
      | cons req rest =>
          refine inv.onQueue inv qid (fun none => ?_) fun queue eq found counted => ?_
          · simp only [taskStep, none]
          · subst eq
            simp only [taskStep, found]
            exact inv.scanning_cons get ok found counted
  | submitFilled qid req =>
      refine inv.onQueue inv qid (fun none => ?_) fun queue eq found counted => ?_
      · rw [taskStep, none]
      · subst eq
        rw [taskStep, found]
        exact inv.submitFilled get found counted
  | sqMarked qid req =>
      refine inv.onQueue inv qid (fun none => ?_) fun queue eq found counted => ?_
      · rw [taskStep, none]
      · subst eq
        rw [taskStep, found]
        exact inv.sqMarked get found counted
  | cqTook qid req =>
      refine inv.onQueue inv qid (fun none => ?_) fun queue eq found counted => ?_
      · rw [taskStep, none]
      · subst eq
        rw [taskStep, found]
        exact inv.cqTook get found counted
  | checked caller qid req =>
      refine inv.onQueue inv qid (fun none => ?_) fun queue eq found counted => ?_
      · rw [taskStep, none]
      · subst eq
        rw [taskStep, found]
        exact inv.checked get found counted
  | removing caller qid req cqReq =>
      refine inv.onQueue inv qid (fun none => ?_) fun queue eq found counted => ?_
      · rw [taskStep, none]
      · subst eq
        rw [taskStep, found]
        exact inv.removing get found counted
  | removed caller qid req cqReq =>
      refine inv.onQueue inv qid (fun none => ?_) fun queue eq found counted => ?_
      · rw [taskStep, none]
      · subst eq
        rw [taskStep, found]
        exact inv.removed get found counted
  | posting caller qid req cqReq =>
      refine inv.onQueue inv qid (fun none => ?_) fun queue eq found counted => ?_
      · rw [taskStep, none]
      · subst eq
        rw [taskStep, found]
        exact inv.posting get found counted
  | replacing qid rest lates newReq =>
      refine inv.onQueue inv qid (fun none => ?_) fun queue eq found counted => ?_
      · rw [taskStep, none]
      · subst eq
        rw [taskStep, found]
        exact inv.replacing get found counted

/-- An orderly step keeps every entry in one place. -/
theorem Inv.step (inv : Inv conf mq) (op : Op) (orderly : Orderly mq op) :
    Inv conf (Mq.step conf mq op) := by
  cases op with
  | submit qid null => exact inv.submit qid null
  | complete req => exact inv.complete req
  | sqThread qid => exact inv.sqThread qid
  | cqThread qid => exact inv.cqThread qid
  | toThread qid => exact inv.toThread qid
  | next index late new =>
      rw [Mq.step]
      split
      · exact inv
      · rename_i task get
        exact inv.next get orderly

end Step

end OxCtrl.Mq
