import OxCtrl.Mq.Core

/-!
# Where the entries are

Every entry that is in use is in one place: in a list of a queue, in the hands of a task that
moves it to the next list, or with the timeout thread.  The places of all entries form a
multiset.  Each step takes a few entries from their places and puts them elsewhere.
-/

namespace OxCtrl.Mq

open OxCtrl.Lib

/-- Places of an entry of the submission side. -/
inductive SqSpot where
  | free
  | new
  | filled
  | used
  | took
  | marked
  | wait
  | out
  | fresh
  deriving DecidableEq, Repr

/-- Places of an entry of the completion side. -/
inductive CqSpot where
  | free
  | taken
  | full
  | used
  deriving DecidableEq, Repr

/-- Places of an entry.  A late entry belongs to the timeout thread; it is settled when its
completion has been tried. -/
inductive Place where
  | sq (qid : Nat) (spot : SqSpot)
  | cq (qid : Nat) (spot : CqSpot)
  | late
  | settled
  deriving DecidableEq, Repr

/-- The side of a queue that counts the entry. -/
def Place.side : Place → Option (Nat × Bool)
  | .sq qid _ => some (qid, false)
  | .cq qid _ => some (qid, true)
  | .late | .settled => none

/-- Entries in one place. -/
def inPlace (place : Place) (entries : List Nat) : Multiset (Place × Nat) :=
  ↑(entries.map fun entry => (place, entry))

/-- The entries in the lists of a queue. -/
def Queue.places (queue : Queue) : Multiset (Place × Nat) :=
  inPlace (.sq queue.qid .free) queue.sqFree.entries +
    inPlace (.sq queue.qid .used) queue.sqUsed.entries +
    inPlace (.sq queue.qid .wait) queue.sqWait.entries +
    inPlace (.cq queue.qid .free) queue.cqFree.entries +
    inPlace (.cq queue.qid .used) queue.cqUsed.entries

/-- The late entries of a completion that is not settled. -/
def Caller.late (req : Nat) : Caller → List Nat
  | .user => []
  | .timeout rest => req :: rest

/-- The late entries behind the one of a completion. -/
def Caller.rest : Caller → List Nat
  | .user => []
  | .timeout rest => rest

/-- The entry of a settled completion of the timeout thread. -/
def Caller.settled (req : Nat) : Caller → List Nat
  | .user => []
  | .timeout _ => [req]

/-- The entries that a task holds. -/
def Task.places : Task → Multiset (Place × Nat)
  | submitTook qid req _ => inPlace (.sq qid .new) [req]
  | submitFilled qid req => inPlace (.sq qid .filled) [req]
  | sqTook qid req => inPlace (.sq qid .took) [req]
  | sqMarked qid req => inPlace (.sq qid .marked) [req]
  | sqQueued _ _ => 0
  | cqTook qid req => inPlace (.cq qid .full) [req]
  | cqFreed _ _ => 0
  | checked caller _ req => inPlace .late (caller.late req)
  | took caller qid req cqReq | removing caller qid req cqReq =>
      inPlace (.cq qid .taken) [cqReq] + inPlace .late (caller.late req)
  | removed caller qid req cqReq =>
      inPlace (.cq qid .full) [cqReq] + inPlace (.sq qid .out) [req] + inPlace .late caller.rest
  | posting caller qid req cqReq =>
      inPlace (.cq qid .full) [cqReq] + inPlace .settled (caller.settled req) +
        inPlace .late caller.rest
  | scanning _ _ lates | timedOut lates | completing lates => inPlace .late lates
  | replacing qid _ lates new => inPlace (.sq qid .fresh) [new] + inPlace .late lates
  | marking req rest => inPlace .settled [req] + inPlace .late rest

/-- All entries in use. -/
def MqState.placed (mq : MqState) : Multiset (Place × Nat) :=
  (mq.queues.map Queue.places).sum + (mq.tasks.map Task.places).sum

/-- The entries whose `entry_mutex` is held, with their queue, and whether they are still to be
removed from `sq_wait`. -/
def Task.locks : Task → Multiset (Nat × Nat × Bool)
  | removing _ qid req _ => {(req, qid, true)}
  | removed _ qid req _ => {(req, qid, false)}
  | _ => 0

/-- All held entries. -/
def MqState.locks (mq : MqState) : Multiset (Nat × Nat × Bool) :=
  (mq.tasks.map Task.locks).sum

/-- The entries of `sq_wait` that the timeout thread has still to look at. -/
def Task.scans : Task → Multiset (Nat × Nat)
  | scanning qid rest _ | replacing qid rest _ _ => ↑(rest.map fun req => (qid, req))
  | _ => 0

/-- All entries to look at. -/
def MqState.scans (mq : MqState) : Multiset (Nat × Nat) :=
  (mq.tasks.map Task.scans).sum

/-- The timeout thread has this entry, or had it. -/
def Entry.TimedOut (entry : Entry) : Prop :=
  entry.status = .timeout ∨ entry.status = .timeoutCompleted ∨ entry.status = .timeoutBack

/-- What an entry in a place looks like. -/
def EntryOk (entry : Entry) : Place → Prop
  | .sq qid .filled | .sq qid .used | .sq qid .took => ¬ entry.TimedOut ∧ entry.qid = qid
  | .sq qid .marked | .sq qid .wait => entry.status = .waiting ∧ entry.qid = qid
  | .sq _ _ | .cq _ _ => ¬ entry.TimedOut
  | .late | .settled => entry.status = .timeout

/-- The counters of a queue are right. -/
structure Queue.Counted (queue : Queue) : Prop where
  sqFree : queue.sqFree.Counted
  sqUsed : queue.sqUsed.Counted
  sqWait : queue.sqWait.Counted
  cqFree : queue.cqFree.Counted
  cqUsed : queue.cqUsed.Counted

/-! ## Lists of a queue -/

theorem inPlace_cons (place : Place) (entry : Nat) (rest : List Nat) :
    inPlace place (entry :: rest) = inPlace place [entry] + inPlace place rest :=
  rfl

theorem inPlace_nil (place : Place) : inPlace place [] = 0 :=
  rfl

theorem inPlace_perm (place : Place) {entries others : List Nat} (perm : entries.Perm others) :
    inPlace place entries = inPlace place others :=
  Multiset.coe_eq_coe.mpr (perm.map _)

theorem mem_inPlace {place other : Place} {entry : Nat} {entries : List Nat} :
    (other, entry) ∈ inPlace place entries ↔ other = place ∧ entry ∈ entries := by
  rw [inPlace, Multiset.mem_coe, List.mem_map]
  constructor
  · rintro ⟨_, mem, ⟨⟩⟩
    exact ⟨rfl, mem⟩
  · rintro ⟨rfl, mem⟩
    exact ⟨entry, mem, rfl⟩

theorem inPlace_entries (place : Place) (entries : List Nat) :
    (inPlace place entries).map Prod.snd = ↑entries := by
  rw [inPlace, Multiset.map_coe, List.map_map]
  exact congrArg _ (List.map_id entries)

theorem countP_inPlace (place : Place) (entries : List Nat) (side : Nat × Bool) :
    (inPlace place entries).countP (fun item => item.1.side = some side) =
      if place.side = some side then entries.length else 0 := by
  rw [inPlace, Multiset.coe_countP, List.countP_map]
  split
  · rename_i eq
    exact List.countP_eq_length.mpr fun _ _ => decide_eq_true eq
  · rename_i ne
    exact List.countP_eq_zero.mpr fun _ _ eq => ne (of_decide_eq_true eq)

theorem inPlace_insertTail (place : Place) (list : Tailq Nat) (entry : Nat) :
    inPlace place (list.insertTail entry).entries =
      inPlace place [entry] + inPlace place list.entries :=
  (inPlace_perm place (Tailq.perm_insertTail list entry)).trans (inPlace_cons ..)

theorem inPlace_removeHead (place : Place) {list : Tailq Nat} {entry : Nat} {rest : List Nat}
    (first : list.entries = entry :: rest) :
    inPlace place list.entries =
      inPlace place [entry] + inPlace place list.removeHead.entries :=
  (inPlace_perm place (Tailq.perm_removeHead first)).trans (inPlace_cons ..)

theorem inPlace_remove (place : Place) {list : Tailq Nat} {entry : Nat}
    (mem : entry ∈ list.entries) :
    inPlace place list.entries =
      inPlace place [entry] + inPlace place (list.remove entry).entries :=
  (inPlace_perm place (Tailq.perm_remove mem)).trans (inPlace_cons ..)

section Lists

variable (queue : Queue) (req : Nat)

theorem places_insert_sqFree :
    Queue.places { queue with sqFree := queue.sqFree.insertTail req } =
      inPlace (.sq queue.qid .free) [req] + queue.places := by
  simp only [Queue.places, inPlace_insertTail]
  abel

theorem places_insert_sqUsed :
    Queue.places { queue with sqUsed := queue.sqUsed.insertTail req } =
      inPlace (.sq queue.qid .used) [req] + queue.places := by
  simp only [Queue.places, inPlace_insertTail]
  abel

theorem places_insert_sqWait :
    Queue.places { queue with sqWait := queue.sqWait.insertTail req } =
      inPlace (.sq queue.qid .wait) [req] + queue.places := by
  simp only [Queue.places, inPlace_insertTail]
  abel

theorem places_insert_cqFree :
    Queue.places { queue with cqFree := queue.cqFree.insertTail req } =
      inPlace (.cq queue.qid .free) [req] + queue.places := by
  simp only [Queue.places, inPlace_insertTail]
  abel

theorem places_insert_cqUsed :
    Queue.places { queue with cqUsed := queue.cqUsed.insertTail req } =
      inPlace (.cq queue.qid .used) [req] + queue.places := by
  simp only [Queue.places, inPlace_insertTail]
  abel

variable {queue req} {rest : List Nat}

theorem places_remove_sqFree (first : queue.sqFree.entries = req :: rest) :
    queue.places = inPlace (.sq queue.qid .free) [req] +
      Queue.places { queue with sqFree := queue.sqFree.removeHead } := by
  rw [Queue.places, inPlace_removeHead _ first, Queue.places]
  abel

theorem places_remove_sqUsed (first : queue.sqUsed.entries = req :: rest) :
    queue.places = inPlace (.sq queue.qid .used) [req] +
      Queue.places { queue with sqUsed := queue.sqUsed.removeHead } := by
  rw [Queue.places, inPlace_removeHead _ first, Queue.places]
  abel

theorem places_remove_sqWait (mem : req ∈ queue.sqWait.entries) :
    queue.places = inPlace (.sq queue.qid .wait) [req] +
      Queue.places { queue with sqWait := queue.sqWait.remove req } := by
  rw [Queue.places, inPlace_remove _ mem, Queue.places]
  abel

theorem places_remove_cqFree (first : queue.cqFree.entries = req :: rest) :
    queue.places = inPlace (.cq queue.qid .free) [req] +
      Queue.places { queue with cqFree := queue.cqFree.removeHead } := by
  rw [Queue.places, inPlace_removeHead _ first, Queue.places]
  abel

theorem places_remove_cqUsed (first : queue.cqUsed.entries = req :: rest) :
    queue.places = inPlace (.cq queue.qid .used) [req] +
      Queue.places { queue with cqUsed := queue.cqUsed.removeHead } := by
  rw [Queue.places, inPlace_removeHead _ first, Queue.places]
  abel

end Lists

/-! ## Steps -/

section Moved

variable {conf : Config} {mq : MqState}

/-- A step that moves entries: `gone` is what leaves its place, `come` what arrives. -/
def Moved (mq after : MqState) (gone come : Multiset (Place × Nat)) : Prop :=
  ∃ rest, mq.placed = gone + rest ∧ after.placed = come + rest

theorem mem_placed {task : Task} (mem : task ∈ mq.tasks) {place : Place} {req : Nat}
    (own : (place, req) ∈ task.places) : (place, req) ∈ mq.placed :=
  Multiset.mem_add.mpr (Or.inr (mem_sum_map.mpr ⟨task, mem, own⟩))

/-- A task goes on, and one queue changes. -/
theorem moved_queue {index : Nat} {task : Task} (get : mq.tasks[index]? = some task)
    {queue : Queue} (found : mq.queues[queue.qid]? = some queue) {changed : Queue}
    (same : changed.qid = queue.qid) (left : List Task) {after : MqState}
    (queues : after.queues = mq.queues.set changed.qid changed)
    (tasks : after.tasks = replaceAt mq.tasks index left) :
    Moved mq after (queue.places + task.places)
      (changed.places + (left.map Task.places).sum) := by
  obtain ⟨others, queuesSum, queuesSet⟩ := sum_split Queue.places found
  obtain ⟨rest, tasksSum, tasksSet⟩ := sum_split Task.places get
  refine ⟨others + rest, ?_, ?_⟩
  · rw [MqState.placed, queuesSum, tasksSum]
    abel
  · rw [MqState.placed, queues, tasks, same, set_eq_replaceAt found, queuesSet, tasksSet,
      List.map_singleton, List.sum_singleton]
    abel

/-- A task goes on. -/
theorem moved_task {index : Nat} {task : Task} (get : mq.tasks[index]? = some task)
    (left : List Task) {after : MqState} (queues : after.queues = mq.queues)
    (tasks : after.tasks = replaceAt mq.tasks index left) :
    Moved mq after task.places (left.map Task.places).sum := by
  obtain ⟨rest, tasksSum, tasksSet⟩ := sum_split Task.places get
  refine ⟨(mq.queues.map Queue.places).sum + rest, ?_, ?_⟩
  · rw [MqState.placed, tasksSum]
    abel
  · rw [MqState.placed, queues, tasks, tasksSet]
    abel

/-- A task keeps its other entries. -/
theorem moved_one {index : Nat} {task : Task} (get : mq.tasks[index]? = some task)
    (source target : Place) {req : Nat} {common : Multiset (Place × Nat)}
    (places : task.places = inPlace source [req] + common)
    {left : List Task} (leftPlaces : (left.map Task.places).sum = inPlace target [req] + common)
    (queues : after.queues = mq.queues) (tasks : after.tasks = replaceAt mq.tasks index left) :
    Moved mq after (inPlace source [req]) (inPlace target [req]) := by
  obtain ⟨rest, before, behind⟩ := moved_task get left queues tasks
  refine ⟨common + rest, ?_, ?_⟩
  · rw [before, places, add_assoc]
  · rw [behind, leftPlaces, add_assoc]

/-- A task begins, and one queue changes. -/
theorem moved_start {queue : Queue} (found : mq.queues[queue.qid]? = some queue) {changed : Queue}
    (same : changed.qid = queue.qid) (task : Task) {after : MqState}
    (queues : after.queues = mq.queues.set changed.qid changed)
    (tasks : after.tasks = mq.tasks ++ [task]) :
    Moved mq after queue.places (changed.places + task.places) := by
  obtain ⟨others, queuesSum, queuesSet⟩ := sum_split Queue.places found
  refine ⟨others + (mq.tasks.map Task.places).sum, ?_, ?_⟩
  · rw [MqState.placed, queuesSum]
    abel
  · rw [MqState.placed, queues, tasks, same, set_eq_replaceAt found, queuesSet, List.map_append,
      List.sum_append, List.map_singleton, List.sum_singleton, List.map_singleton,
      List.sum_singleton]
    abel

/-- A task moves an entry to a list. -/
theorem moved_insert {index : Nat} {task : Task} (get : mq.tasks[index]? = some task)
    {queue : Queue} (found : mq.queues[queue.qid]? = some queue) {changed : Queue}
    (same : changed.qid = queue.qid) {left : List Task} {after : MqState}
    (queues : after.queues = mq.queues.set changed.qid changed)
    (tasks : after.tasks = replaceAt mq.tasks index left)
    {departed arrived common : Multiset (Place × Nat)}
    (insert : changed.places = arrived + queue.places) (places : task.places = departed + common)
    (leftPlaces : (left.map Task.places).sum = common) : Moved mq after departed arrived := by
  obtain ⟨rest, before, behind⟩ := moved_queue get found same left queues tasks
  rw [places] at before
  rw [insert, leftPlaces] at behind
  refine ⟨queue.places + common + rest, ?_, ?_⟩
  · rw [before]
    abel
  · rw [behind]
    abel

/-- A task takes an entry from a list. -/
theorem moved_remove {index : Nat} {task : Task} (get : mq.tasks[index]? = some task)
    {queue : Queue} (found : mq.queues[queue.qid]? = some queue) {changed : Queue}
    (same : changed.qid = queue.qid) {left : List Task} {after : MqState}
    (queues : after.queues = mq.queues.set changed.qid changed)
    (tasks : after.tasks = replaceAt mq.tasks index left)
    {departed arrived common : Multiset (Place × Nat)}
    (remove : queue.places = departed + changed.places) (places : task.places = common)
    (leftPlaces : (left.map Task.places).sum = arrived + common) :
    Moved mq after departed arrived := by
  obtain ⟨rest, before, behind⟩ := moved_queue get found same left queues tasks
  rw [remove, places] at before
  rw [leftPlaces] at behind
  refine ⟨changed.places + common + rest, ?_, ?_⟩
  · rw [before]
    abel
  · rw [behind]
    abel

/-- A round or a call takes an entry from a list. -/
theorem moved_begin {queue : Queue} (found : mq.queues[queue.qid]? = some queue) {changed : Queue}
    (same : changed.qid = queue.qid) {task : Task} {after : MqState}
    (queues : after.queues = mq.queues.set changed.qid changed)
    (tasks : after.tasks = mq.tasks ++ [task]) {departed : Multiset (Place × Nat)}
    (remove : queue.places = departed + changed.places) : Moved mq after departed task.places := by
  obtain ⟨rest, before, behind⟩ := moved_start found same task queues tasks
  rw [remove] at before
  refine ⟨changed.places + rest, ?_, ?_⟩
  · rw [before]
    abel
  · rw [behind]
    abel

end Moved

/-! ## The places of all entries -/

section Placed

variable {conf : Config} {mq after : MqState} {gone come : Multiset (Place × Nat)}

/-- Every entry is in one place and looks like it, and both sides of a queue have their
entries. -/
structure Placed (conf : Config) (mq : MqState) : Prop where
  nodup : (mq.placed.map Prod.snd).Nodup
  entries : ∀ place req, (place, req) ∈ mq.placed →
    EntryOk (mq.entries req) place ∧ Allocated conf mq req
  sides : ∀ qid < conf.nQueues, ∀ cq : Bool,
    mq.placed.countP (fun item => item.1.side = some (qid, cq)) = conf.qSize

theorem Allocated.of_eq {req : Nat} (alloc : Allocated conf mq req)
    (ext : after.extList = mq.extList) : Allocated conf after req := by
  rw [Allocated, ext]
  exact alloc

/-- An entry is in one place only. -/
theorem Placed.unique (ok : Placed conf mq) {place other : Place} {req : Nat}
    (mem : (place, req) ∈ mq.placed) (memOther : (other, req) ∈ mq.placed) : place = other := by
  have eq := Multiset.inj_on_of_nodup_map ok.nodup _ mem _ memOther rfl
  exact congrArg Prod.fst eq

theorem Moved.gone_mem (moved : Moved mq after gone come) {item : Place × Nat} (mem : item ∈ gone) :
    item ∈ mq.placed := by
  obtain ⟨rest, before, _⟩ := moved
  rw [before]
  exact Multiset.mem_add.mpr (Or.inl mem)

theorem Moved.kept (moved : Moved mq after gone come) {item : Place × Nat}
    (mem : item ∈ mq.placed) (stays : item ∉ gone) : item ∈ after.placed := by
  obtain ⟨rest, before, behind⟩ := moved
  rw [before] at mem
  rw [behind]
  exact Multiset.mem_add.mpr (Or.inr ((Multiset.mem_add.mp mem).resolve_left stays))

/-- Entries move, new ones arrive, and only those that move change. -/
theorem Placed.move_new (ok : Placed conf mq) (moved : Moved mq after gone come)
    (fresh : Multiset Nat) (same : come.map Prod.snd ≤ gone.map Prod.snd + fresh)
    (freshNodup : fresh.Nodup)
    (freshOk : ∀ req ∈ fresh, ¬ Allocated conf mq req ∧ Allocated conf after req)
    (sides : ∀ side, come.countP (fun item => item.1.side = some side) =
      gone.countP fun item => item.1.side = some side)
    (frame : ∀ place req, (place, req) ∈ mq.placed → req ∉ gone.map Prod.snd →
      after.entries req = mq.entries req)
    (kept : ∀ place req, (place, req) ∈ mq.placed → Allocated conf after req)
    (arrive : ∀ place req, (place, req) ∈ come → EntryOk (after.entries req) place) :
    Placed conf after := by
  obtain ⟨rest, before, behind⟩ := moved
  have nodup := ok.nodup
  have notPlaced : ∀ req ∈ fresh, req ∉ mq.placed.map Prod.snd := by
    intro req mem placed
    obtain ⟨item, memItem, rfl⟩ := Multiset.mem_map.mp placed
    exact (freshOk _ mem).1 (ok.entries item.1 item.2 memItem).2
  rw [before, Multiset.map_add] at nodup notPlaced
  have apart := (Multiset.nodup_add.mp nodup).2.2
  constructor
  · rw [behind, Multiset.map_add]
    refine Multiset.nodup_of_le (add_le_add_left same _) ?_
    rw [add_right_comm, Multiset.nodup_add]
    exact ⟨nodup, freshNodup, Multiset.disjoint_right.mpr fun {req} => notPlaced req⟩
  · intro place req mem
    rw [behind] at mem
    rcases Multiset.mem_add.mp mem with new | old
    · refine ⟨arrive place req new, ?_⟩
      rcases Multiset.mem_add.mp
        (Multiset.mem_of_le same (Multiset.mem_map_of_mem Prod.snd new)) with memGone | memFresh
      · obtain ⟨item, memItem, eq⟩ := Multiset.mem_map.mp memGone
        refine kept item.1 req ?_
        rw [before, ← show item.2 = req from eq]
        exact Multiset.mem_add.mpr (Or.inl memItem)
      · exact (freshOk req memFresh).2
    · have placed : (place, req) ∈ mq.placed := by
        rw [before]
        exact Multiset.mem_add.mpr (Or.inr old)
      have stays : req ∉ gone.map Prod.snd := fun memGone =>
        Multiset.disjoint_left.mp apart memGone (Multiset.mem_map_of_mem Prod.snd old)
      rw [frame place req placed stays]
      exact ⟨(ok.entries place req placed).1, kept place req placed⟩
  · intro qid lt cq
    have total := ok.sides qid lt cq
    rw [before, Multiset.countP_add] at total
    rw [behind, Multiset.countP_add, sides]
    exact total

/-- Entries move, and only those that move change. -/
theorem Placed.move (ok : Placed conf mq) (moved : Moved mq after gone come)
    (same : come.map Prod.snd ≤ gone.map Prod.snd)
    (sides : ∀ side, come.countP (fun item => item.1.side = some side) =
      gone.countP fun item => item.1.side = some side)
    (frame : ∀ place req, (place, req) ∈ mq.placed → req ∉ gone.map Prod.snd →
      after.entries req = mq.entries req)
    (kept : ∀ place req, (place, req) ∈ mq.placed → Allocated conf after req)
    (arrive : ∀ place req, (place, req) ∈ come → EntryOk (after.entries req) place) :
    Placed conf after := by
  refine ok.move_new moved 0 ?_ Multiset.nodup_zero (fun _ mem => ?_) sides frame kept arrive
  · rw [add_zero]
    exact same
  · exact absurd mem (Multiset.notMem_zero _)

end Placed

end OxCtrl.Mq
