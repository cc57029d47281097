import OxCtrl.Mq.Invariant

/-!
# Submissions on their way

A submission is on its way in one place: in an entry, in a task or in a call of `cq_fn`.  The user
has an entry from the call of `sq_fn` on until it completes the entry.  A step that moves entries
keeps the submissions apart when it adds none and takes no entry on which another task relies.
-/

namespace OxCtrl.Mq

open OxCtrl.Lib

/-! ## Submissions on their way -/

/-- An entry in this place has a submission that is not completed. -/
def Place.live : Place → Bool
  | .sq _ .filled | .sq _ .used | .sq _ .took | .sq _ .marked | .sq _ .wait => true
  | .cq _ .full | .cq _ .used | .late => true
  | _ => false

/-- The submission of an entry in this place. -/
def Place.carry (place : Place) (entry : Entry) : Multiset Nat :=
  if place.live then ↑entry.opaqueOf.toList else 0

/-- The submissions of entries in their places. -/
def carried (entries : Nat → Entry) (items : Multiset (Place × Nat)) : Multiset Nat :=
  items.bind fun item => item.1.carry (entries item.2)

/-- The submission that a task has beside its entries. -/
def Task.held : Task → Multiset Nat
  | submitTook _ _ opaqueOf | cqFreed _ opaqueOf => ↑opaqueOf.toList
  | _ => 0

/-- All submissions, the completed ones too. -/
def MqState.pending (mq : MqState) : Multiset Nat :=
  carried mq.entries mq.placed + (mq.tasks.map Task.held).sum + ↑mq.completed

/-- The entry that the user has, or that a call of the user completes. -/
def Task.claim : Task → Multiset Nat
  | sqQueued _ req | checked .user _ req | took .user _ req _ | removing .user _ req _ => {req}
  | _ => 0

/-- The entries that the user may complete, or completes. -/
def MqState.claims (mq : MqState) : Multiset Nat :=
  ↑mq.handed + (mq.tasks.map Task.claim).sum

/-- The task is a completion of this entry by the user, which has not removed it. -/
def Task.completes (req : Nat) : Task → Bool
  | checked .user _ entry | took .user _ entry _ | removing .user _ entry _ => entry = req
  | _ => false

/-- Where an entry is that the user has. -/
def InHands (conf : Config) (mq : MqState) (req : Nat) : Prop :=
  (∃ qid, (.sq qid .wait, req) ∈ mq.placed) ∨ (.late, req) ∈ mq.placed ∨
    (.settled, req) ∈ mq.placed ∨
      (mq.entries req).status = .timeoutCompleted ∧ Allocated conf mq req

/-- What a task relies on. -/
def TaskOk (conf : Config) (mq : MqState) : Task → Prop
  | .sqQueued _ req => InHands conf mq req
  | .checked .user qid req | .took .user qid req _ => (.sq qid .wait, req) ∈ mq.placed
  | .removing _ _ req cqReq => (mq.entries cqReq).opaqueOf = (mq.entries req).opaqueOf
  | _ => True

/-- What holds in every state of a timely run. -/
structure OnceInv (conf : Config) (mq : MqState) : Prop where
  base : Inv conf mq
  pending : mq.pending.Nodup
  numbers : ∀ n ∈ mq.pending, n < mq.nSubmitted
  claims : mq.claims.Nodup
  handed : ∀ req ∈ mq.handed, InHands conf mq req
  tasks : ∀ task ∈ mq.tasks, TaskOk conf mq task

/-- The user completes an entry only behind a call of `sq_fn`, and once. -/
def Handed (mq : MqState) : Op → Prop
  | .complete req => req ∈ mq.handed
  | _ => True

/-- The timeout thread takes no entry that the user is completing. -/
def TimelyTask (mq : MqState) (late : Bool) : Task → Prop
  | .scanning _ (req :: _) _ => late = true → ∀ task ∈ mq.tasks, ¬ task.completes req
  | _ => True

/-- The next step is timely: the user completes an entry that it has, and not while the timeout
thread does; and the timeout thread takes no entry that the user is completing. -/
def Timely (mq : MqState) : Op → Prop
  | .complete req => Handed mq (.complete req) ∧ (mq.entries req).status ≠ .timeout
  | .next index late _ => ∀ task ∈ mq.tasks[index]?, TimelyTask mq late task
  | _ => True

instance instDecidableHanded (mq : MqState) : (op : Op) → Decidable (Handed mq op)
  | .complete req => inferInstanceAs (Decidable (req ∈ mq.handed))
  | .next _ _ _ | .submit _ _ | .sqThread _ | .cqThread _ | .toThread _ => isTrue trivial

instance instDecidableTimelyTask (mq : MqState) (late : Bool) :
    (task : Task) → Decidable (TimelyTask mq late task)
  | .scanning _ (_ :: _) _ => inferInstanceAs (Decidable (_ → _))
  | .scanning _ [] _ | .took _ _ _ _ | .submitTook _ _ _ | .submitFilled _ _ | .sqTook _ _
  | .sqMarked _ _ | .sqQueued _ _ | .cqTook _ _ | .cqFreed _ _ | .checked _ _ _
  | .removing _ _ _ _ | .removed _ _ _ _ | .posting _ _ _ _ | .replacing _ _ _ _ | .timedOut _
  | .completing _ | .marking _ _ => isTrue trivial

instance instDecidableTimely (mq : MqState) : (op : Op) → Decidable (Timely mq op)
  | .complete _ => inferInstanceAs (Decidable (_ ∧ _))
  | .next _ _ _ => inferInstanceAs (Decidable (∀ _ ∈ _, _))
  | .submit _ _ | .sqThread _ | .cqThread _ | .toThread _ => isTrue trivial

/-! ## Changes -/

section Change

variable {conf : Config} {mq after : MqState} {gone come : Multiset (Place × Nat)}

theorem carried_add (entries : Nat → Entry) (first second : Multiset (Place × Nat)) :
    carried entries (first + second) = carried entries first + carried entries second :=
  Multiset.add_bind ..

theorem carried_zero (entries : Nat → Entry) : carried entries 0 = 0 :=
  rfl

theorem carried_one (entries : Nat → Entry) (place : Place) (req : Nat) :
    carried entries (inPlace place [req]) = place.carry (entries req) :=
  Multiset.singleton_bind ..

theorem carried_congr {entries others : Nat → Entry} {items : Multiset (Place × Nat)}
    (same : ∀ item ∈ items, others item.2 = entries item.2) :
    carried others items = carried entries items :=
  Multiset.bind_congr fun item mem => by rw [same item mem]

/-- A step moves entries, and only those that move change, or those that the user has given back. -/
structure Change (conf : Config) (mq after : MqState) (gone come : Multiset (Place × Nat)) :
    Prop where
  moved : Moved mq after gone come
  frame : ∀ place req, (place, req) ∈ mq.placed → req ∉ gone.map Prod.snd →
    after.entries req = mq.entries req
  done : ∀ req ∈ after.claims, (mq.entries req).status = .timeoutCompleted →
    Allocated conf mq req → after.entries req = mq.entries req ∧ Allocated conf after req

/-- Only one entry changes, which is one of those that move. -/
theorem Change.of_update (inv : Inv conf mq) (moved : Moved mq after gone come) {req : Nat}
    (mem : req ∈ gone.map Prod.snd) {value : Entry}
    (entries : after.entries = Function.update mq.entries req value)
    (ext : after.extList = mq.extList) : Change conf mq after gone come where
  moved := moved
  frame place other _ stays := by
    have ne : other ≠ req := by
      rintro rfl
      exact stays mem
    rw [entries, Function.update_of_ne ne]
  done other _ done alloc := by
    have ne : other ≠ req := by
      rintro rfl
      obtain ⟨⟨place, _⟩, memGone, rfl⟩ := Multiset.mem_map.mp mem
      exact (inv.placed.entries _ _ (moved.gone_mem memGone)).1.not_timeoutCompleted done
    rw [entries, Function.update_of_ne ne]
    exact ⟨rfl, alloc.of_eq ext⟩

/-- No entry changes. -/
theorem Change.of_same (moved : Moved mq after gone come) (entries : after.entries = mq.entries)
    (ext : after.extList = mq.extList) : Change conf mq after gone come where
  moved := moved
  frame _ other _ _ := congrFun entries other
  done other _ _ alloc := ⟨congrFun entries other, alloc.of_eq ext⟩

theorem mem_inPlace_snd (place : Place) (req : Nat) : req ∈ (inPlace place [req]).map Prod.snd := by
  rw [inPlace_entries]
  exact Multiset.mem_singleton_self req

/-- An entry that is elsewhere does not move. -/
theorem Inv.not_gone (inv : Inv conf mq) (moved : Moved mq after gone come)
    {place : Place} {req : Nat}
    (mem : (place, req) ∈ mq.placed) (stays : (place, req) ∉ gone) : req ∉ gone.map Prod.snd := by
  intro isGone
  obtain ⟨⟨other, _⟩, memGone, rfl⟩ := Multiset.mem_map.mp isGone
  obtain rfl := inv.placed.unique (moved.gone_mem memGone) mem
  exact stays memGone

theorem Change.entries_eq (change : Change conf mq after gone come) (inv : Inv conf mq)
    {place : Place} {req : Nat} (mem : (place, req) ∈ mq.placed) (stays : (place, req) ∉ gone) :
    after.entries req = mq.entries req :=
  change.frame place req mem (inv.not_gone change.moved mem stays)

/-- What the entries carry that do not move. -/
theorem Change.carried_eq (change : Change conf mq after gone come) (inv : Inv conf mq) :
    ∃ rest, carried mq.entries mq.placed = carried mq.entries gone + rest ∧
      carried after.entries after.placed = carried after.entries come + rest := by
  obtain ⟨rest, before, behind⟩ := change.moved
  have nodup := inv.placed.nodup
  rw [before, Multiset.map_add] at nodup
  have apart := (Multiset.nodup_add.mp nodup).2.2
  have same : ∀ item ∈ rest, after.entries item.2 = mq.entries item.2 := by
    intro item mem
    have placed : (item.1, item.2) ∈ mq.placed := by
      rw [before]
      exact Multiset.mem_add.mpr (Or.inr mem)
    refine change.frame item.1 item.2 placed fun isGone => ?_
    exact Multiset.disjoint_left.mp apart isGone (Multiset.mem_map_of_mem Prod.snd mem)
  refine ⟨carried mq.entries rest, by rw [before, carried_add], ?_⟩
  rw [behind, carried_add, carried_congr same]

/-- A task goes on, and no submission is added. -/
theorem Change.pending_next (change : Change conf mq after gone come) (inv : Inv conf mq)
    {index : Nat} {task : Task} (get : mq.tasks[index]? = some task) {left : List Task}
    (tasks : after.tasks = replaceAt mq.tasks index left)
    (less : carried after.entries come + (left.map Task.held).sum + ↑after.completed ≤
      carried mq.entries gone + task.held + ↑mq.completed) : after.pending ≤ mq.pending := by
  obtain ⟨rest, before, behind⟩ := change.carried_eq inv
  obtain ⟨others, heldBefore, heldAfter⟩ := sum_split Task.held get
  have add := add_le_add_left less (rest + others)
  rw [MqState.pending, MqState.pending, before, behind, heldBefore, tasks, heldAfter]
  convert add using 1
  · abel
  · abel

/-- Tasks begin. -/
theorem Change.pending_start (change : Change conf mq after gone come) (inv : Inv conf mq)
    {started : List Task} (tasks : after.tasks = mq.tasks ++ started)
    (completed : after.completed = mq.completed) {extra : Multiset Nat}
    (less : carried after.entries come + (started.map Task.held).sum ≤
      carried mq.entries gone + extra) : after.pending ≤ mq.pending + extra := by
  obtain ⟨rest, before, behind⟩ := change.carried_eq inv
  have add := add_le_add_left less (rest + (mq.tasks.map Task.held).sum + ↑mq.completed)
  rw [MqState.pending, MqState.pending, before, behind, tasks, completed, List.map_append,
    List.sum_append]
  convert add using 1
  · abel
  · abel

theorem claims_next {index : Nat} {task : Task} (get : mq.tasks[index]? = some task)
    {left : List Task} (tasks : after.tasks = replaceAt mq.tasks index left)
    (less : ↑after.handed + (left.map Task.claim).sum ≤ ↑mq.handed + task.claim) :
    after.claims ≤ mq.claims := by
  obtain ⟨others, before, behind⟩ := sum_split Task.claim get
  have add := add_le_add_left less others
  rw [MqState.claims, MqState.claims, before, tasks, behind]
  convert add using 1
  · abel
  · abel

/-- Places of an entry that the user has. -/
def Place.withUser : Place → Bool
  | .sq _ .wait | .late | .settled => true
  | _ => false

/-- Nobody but the task that moves an entry relies on its place. -/
def Place.quiet : Place → Bool
  | .sq _ .wait | .cq _ .taken | .late | .settled => false
  | _ => true

theorem Place.quiet_withUser {place : Place} (quiet : place.quiet = true) :
    place.withUser = false := by
  cases place with
  | sq _ spot => cases spot <;> first | rfl | cases quiet
  | cq => rfl
  | late | settled => cases quiet

/-- An entry with the user is in no other place. -/
theorem InHands.place {req : Nat} (inHands : InHands conf mq req) (inv : Inv conf mq)
    {place : Place} (mem : (place, req) ∈ mq.placed) : place.withUser = true := by
  rcases inHands with ⟨qid, wait⟩ | isLate | settled | ⟨done, _⟩
  · rw [inv.placed.unique mem wait]
    rfl
  · rw [inv.placed.unique mem isLate]
    rfl
  · rw [inv.placed.unique mem settled]
    rfl
  · exact absurd done (inv.placed.entries place req mem).1.not_timeoutCompleted

theorem InHands.move {req : Nat} (inHands : InHands conf mq req) (claim : req ∈ after.claims)
    (change : Change conf mq after gone come)
    (stays : ∀ place, (place, req) ∈ gone → place.withUser = false) : InHands conf after req := by
  have kept : ∀ {place : Place}, place.withUser = true → (place, req) ∈ mq.placed →
      (place, req) ∈ after.placed := by
    intro place loud mem
    refine change.moved.kept mem fun isGone => ?_
    rw [stays place isGone] at loud
    cases loud
  rcases inHands with ⟨qid, wait⟩ | late | settled | ⟨done, alloc⟩
  · exact Or.inl ⟨qid, kept rfl wait⟩
  · exact Or.inr (Or.inl (kept rfl late))
  · exact Or.inr (Or.inr (Or.inl (kept rfl settled)))
  · obtain ⟨same, kept⟩ := change.done req claim done alloc
    refine Or.inr (Or.inr (Or.inr ⟨?_, kept⟩))
    rw [same]
    exact done

theorem mem_claims {task : Task} (mem : task ∈ mq.tasks) {req : Nat} (claim : req ∈ task.claim) :
    req ∈ mq.claims :=
  Multiset.mem_add.mpr (Or.inr (mem_sum_map.mpr ⟨task, mem, claim⟩))

/-- A task relies on nothing that the step changes. -/
def Unmoved (gone : Multiset (Place × Nat)) (task : Task) : Prop :=
  (∀ req, task.completes req → ∀ qid, (.sq qid .wait, req) ∉ gone) ∧
    ∀ qid cqReq, (.cq qid .taken, cqReq) ∈ task.places → (.cq qid .taken, cqReq) ∉ gone

theorem TaskOk.move {task : Task} (ok : TaskOk conf mq task) (mem : task ∈ mq.tasks)
    (inv : Inv conf mq) (change : Change conf mq after gone come) (unmoved : Unmoved gone task)
    (hands : ∀ req ∈ task.claim, InHands conf mq req → InHands conf after req) :
    TaskOk conf after task := by
  cases task with
  | sqQueued qid req => exact hands req (Multiset.mem_singleton_self req) ok
  | checked caller qid req =>
      cases caller with
      | user => exact change.moved.kept ok (unmoved.1 req (decide_eq_true rfl) qid)
      | timeout => trivial
  | took caller qid req cqReq =>
      cases caller with
      | user => exact change.moved.kept ok (unmoved.1 req (decide_eq_true rfl) qid)
      | timeout => trivial
  | removing caller qid req cqReq =>
      obtain rfl : caller = .user := inv.users _ mem
      have wait : (.sq qid .wait, req) ∈ mq.placed :=
        inv.waits req qid (mem_locks.mpr ⟨_, cqReq, mem⟩)
      have own : (.cq qid .taken, cqReq) ∈ (Task.removing .user qid req cqReq).places :=
        Multiset.mem_add.mpr (Or.inl (mem_inPlace_self _ cqReq))
      have taken : (.cq qid .taken, cqReq) ∈ mq.placed := mem_placed mem own
      rw [TaskOk, change.entries_eq inv wait (unmoved.1 req (decide_eq_true rfl) qid),
        change.entries_eq inv taken (unmoved.2 qid cqReq own)]
      exact ok
  | _ => trivial

/-- A step moves entries. -/
theorem OnceInv.of_change (once : OnceInv conf mq) (base : Inv conf after)
    (change : Change conf mq after gone come) (pending : after.pending.Nodup)
    (numbers : ∀ n ∈ after.pending, n < after.nSubmitted) (claims : after.claims.Nodup)
    (hands : ∀ req ∈ after.claims, InHands conf mq req → InHands conf after req)
    (handed : ∀ req ∈ after.handed, req ∈ mq.handed ∨ InHands conf after req)
    (tasks : ∀ task ∈ after.tasks, task ∈ mq.tasks ∧ Unmoved gone task ∨ TaskOk conf after task) :
    OnceInv conf after where
  base := base
  pending := pending
  numbers := numbers
  claims := claims
  handed req mem := by
    rcases handed req mem with old | new
    · exact hands req (Multiset.mem_add.mpr (Or.inl mem)) (once.handed req old)
    · exact new
  tasks task mem := by
    rcases tasks task mem with ⟨old, unmoved⟩ | new
    · exact (once.tasks task old).move old once.base change unmoved fun req claim =>
        hands req (mem_claims mem claim)
    · exact new

/-- A step that moves no entry on which the user or another task relies. -/
theorem OnceInv.of_quiet (once : OnceInv conf mq) (base : Inv conf after)
    (change : Change conf mq after gone come) (quiet : ∀ item ∈ gone, item.1.quiet = true)
    (pending : after.pending.Nodup) (numbers : ∀ n ∈ after.pending, n < after.nSubmitted)
    (claims : after.claims.Nodup)
    (handed : ∀ req ∈ after.handed, req ∈ mq.handed ∨ InHands conf after req)
    (tasks : ∀ task ∈ after.tasks, task ∈ mq.tasks ∨ TaskOk conf after task) :
    OnceInv conf after := by
  refine once.of_change base change pending numbers claims
    (fun req claim inHands => inHands.move claim change fun place isGone =>
      Place.quiet_withUser (quiet _ isGone)) handed
    fun task mem => (tasks task mem).imp_left fun old => ⟨old, ?_, ?_⟩
  · exact fun req _ qid isGone => Bool.false_ne_true (quiet _ isGone)
  · exact fun qid cqReq _ isGone => Bool.false_ne_true (quiet _ isGone)

section Next

variable {index : Nat} {task : Task} {left : List Task}

/-- A task goes on. -/
theorem OnceInv.next_quiet (once : OnceInv conf mq) (base : Inv conf after)
    (change : Change conf mq after gone come) (quiet : ∀ item ∈ gone, item.1.quiet = true)
    (get : mq.tasks[index]? = some task) (tasks : after.tasks = replaceAt mq.tasks index left)
    (pending : carried after.entries come + (left.map Task.held).sum + ↑after.completed ≤
      carried mq.entries gone + task.held + ↑mq.completed)
    (submitted : after.nSubmitted = mq.nSubmitted)
    (claims : ↑after.handed + (left.map Task.claim).sum ≤ ↑mq.handed + task.claim)
    (handed : ∀ req ∈ after.handed, req ∈ mq.handed ∨ InHands conf after req)
    (leftOk : ∀ other ∈ left, TaskOk conf after other) : OnceInv conf after := by
  have fewer := change.pending_next once.base get tasks pending
  have claimsLe := claims_next get tasks claims
  refine once.of_quiet base change quiet (Multiset.nodup_of_le fewer once.pending) ?_
    (Multiset.nodup_of_le claimsLe once.claims) handed fun other mem => ?_
  · rw [submitted]
    exact fun n mem => once.numbers n (Multiset.mem_of_le fewer mem)
  · rw [tasks] at mem
    exact (mem_replaceAt mem).imp_right (leftOk other)

theorem quiet_inPlace {place : Place} (quiet : place.quiet = true) {req : Nat} :
    ∀ item ∈ inPlace place [req], item.1.quiet = true := by
  intro item mem
  rw [Multiset.mem_singleton.mp mem]
  exact quiet

/-- A task goes on and moves one entry. -/
theorem OnceInv.next_one (once : OnceInv conf mq) (base : Inv conf after) {source target : Place}
    {req : Nat} (moved : Moved mq after (inPlace source [req]) (inPlace target [req]))
    (quiet : source.quiet = true) {value : Entry}
    (entries : after.entries = Function.update mq.entries req value)
    (ext : after.extList = mq.extList) (get : mq.tasks[index]? = some task)
    (tasks : after.tasks = replaceAt mq.tasks index left)
    (pending : target.carry value + (left.map Task.held).sum ≤
      source.carry (mq.entries req) + task.held)
    (completed : after.completed = mq.completed) (submitted : after.nSubmitted = mq.nSubmitted)
    (handed : after.handed = mq.handed) (claims : (left.map Task.claim).sum ≤ task.claim)
    (leftOk : ∀ other ∈ left, TaskOk conf after other) : OnceInv conf after := by
  refine once.next_quiet base
    (Change.of_update once.base moved (mem_inPlace_snd source req) entries ext)
    (quiet_inPlace quiet) get tasks ?_ submitted ?_ (fun other mem => Or.inl (handed ▸ mem)) leftOk
  · rw [carried_one, carried_one, entries, Function.update_self, completed]
    exact add_le_add_left pending _
  · rw [handed]
    exact add_le_add_right claims _

theorem moved_none (get : mq.tasks[index]? = some task)
    (leftPlaces : (left.map Task.places).sum = task.places) (queues : after.queues = mq.queues)
    (tasks : after.tasks = replaceAt mq.tasks index left) : Moved mq after 0 0 := by
  obtain ⟨rest, before, behind⟩ := moved_task get left queues tasks
  rw [leftPlaces] at behind
  exact ⟨task.places + rest, by rw [before, zero_add], by rw [behind, zero_add]⟩

/-- A task goes on, and no entry moves. -/
theorem OnceInv.next_none (once : OnceInv conf mq) (base : Inv conf after)
    (leftPlaces : (left.map Task.places).sum = task.places) (queues : after.queues = mq.queues)
    (entries : after.entries = mq.entries) (ext : after.extList = mq.extList)
    (get : mq.tasks[index]? = some task) (tasks : after.tasks = replaceAt mq.tasks index left)
    (pending : (left.map Task.held).sum + ↑after.completed ≤ task.held + ↑mq.completed)
    (submitted : after.nSubmitted = mq.nSubmitted)
    (claims : ↑after.handed + (left.map Task.claim).sum ≤ ↑mq.handed + task.claim)
    (handed : ∀ req ∈ after.handed, req ∈ mq.handed ∨ InHands conf after req)
    (leftOk : ∀ other ∈ left, TaskOk conf after other) : OnceInv conf after := by
  have moved : Moved mq after 0 0 := moved_none get leftPlaces queues tasks
  refine once.next_quiet base (Change.of_same moved entries ext)
    (fun _ mem => absurd mem (Multiset.notMem_zero _)) get tasks ?_ submitted claims handed leftOk
  rw [carried_zero, carried_zero, zero_add, zero_add]
  exact pending

end Next

end Change

end OxCtrl.Mq
