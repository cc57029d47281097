import OxCtrl.Fabrics.Addresses
import OxCtrl.Lib.System

/-!
# The reply entries of a queue

A capsule takes a free reply entry of its queue to the used ones.  The entry goes back when
`nvmef_process_capsule` refuses the command, or behind the reply in `oxf_complete`, which returns
early when the reply cannot be sent.
-/

namespace OxCtrl.Fabrics.ReplyPool

open OxCtrl.Lib

/-! ## The pool -/

/-- `OXF_MAX_ENT` -/
def oxfMaxEnt : Nat := 4096

/-- A `struct oxf_tgt_reply`: its queue and its place in `reply_ent`. -/
structure Reply where
  qid : Nat
  ent : Nat
  deriving DecidableEq, Repr

/-- `struct oxf_tgt_queue_reply`, with `reply_fh` and `reply_uh`. -/
structure QueueReply where
  free : List Reply := []
  used : List Reply := []
  inUse : Bool := false
  deriving DecidableEq, Repr

/-- A command in the controller, with its reply entry. -/
inductive Command where
  /-- `oxf_fabrics_rcv_fn` behind the removal from `reply_fh`. -/
  | processing (reply : Reply) (cid : UInt16)
  /-- `oxf_fabrics_rcv_fn` in front of the return of the entry. -/
  | rejected (reply : Reply) (sqId : Nat)
  /-- `nvmef_process_capsule` has submitted the command, with `sq_id` in its completion entry. -/
  | accepted (reply : Reply) (sqId : Nat)
  /-- `oxf_complete` behind the reply. -/
  | sent (reply : Reply) (sqId : Nat)
  deriving DecidableEq, Repr

/-- The reply entry of a command. -/
def Command.reply : Command → Reply
  | processing reply _ | rejected reply _ | accepted reply _ | sent reply _ => reply

/-- `fabrics.reply` and the commands in the controller. -/
structure PoolState where
  reply : Nat → QueueReply := fun _ => {}
  commands : List Command := []

namespace PoolState

/-- Change a queue and the commands. -/
def set (state : PoolState) (qid : Nat) (queue : QueueReply) (commands : List Command) :
    PoolState where
  reply := Function.update state.reply qid queue
  commands := commands

@[simp]
theorem set_reply_self (state : PoolState) (qid : Nat) (queue : QueueReply)
    (commands : List Command) : (state.set qid queue commands).reply qid = queue :=
  Function.update_self ..

theorem set_reply_of_ne (state : PoolState) {qid other : Nat} (ne : other ≠ qid)
    (queue : QueueReply) (commands : List Command) :
    (state.set qid queue commands).reply other = state.reply other :=
  Function.update_of_ne ne ..

end PoolState

/-- Steps of the pool: `oxf_create_queue`, where the memory, the lock and the connection may fail;
a capsule in `oxf_fabrics_rcv_fn`; the result of `nvmef_process_capsule`; `oxf_complete` up to the
result of the reply; and the return of an entry. -/
inductive PoolOp where
  | create (qid : Nat) (started : Bool)
  | receive (type : UInt8) (size : Nat) (cid : UInt16)
  | process (reply : Reply) (cid : UInt16) (submitted : Bool)
  | complete (reply : Reply) (sqId : Nat) (replied : Bool)
  | giveBack (command : Command)
  deriving DecidableEq, Repr

/-- `reply_ent` of a queue. -/
def entries (qid : Nat) : List Reply :=
  (List.range oxfMaxEnt).map fun ent => ⟨qid, ent⟩

/-- `oxf_create_queue` -/
def oxfCreateQueue (state : PoolState) (qid : Nat) (started : Bool) : PoolState :=
  if qid ≥ oxfServerMaxCon then state
  else if (state.reply qid).inUse then state
  else if ! started then state
  else state.set qid { free := entries qid, inUse := true } state.commands

/-- The queue of a capsule that `oxf_fabrics_rcv_fn` does not drop. -/
def rcvQueue (type : UInt8) (size : Nat) (cid : UInt16) : Option Nat :=
  if type = oxfCmdByte ∧ oxfFabCmdSz ≤ size ∧ size ≤ oxfFabCapsSz then rcvSqId cid.toNat else none

/-- `oxf_fabrics_rcv_fn` up to `nvmef_process_capsule`, in one round of its loop. -/
def oxfFabricsRcvFn (state : PoolState) (type : UInt8) (size : Nat) (cid : UInt16) : PoolState :=
  match rcvQueue type size cid with
  | none => state
  | some sqId =>
      match (state.reply sqId).free with
      -- the loop tries again, or gives up
      | [] => state
      | reply :: rest =>
          let queue := state.reply sqId
          state.set sqId { queue with free := rest, used := queue.used ++ [reply] }
            (.processing reply cid :: state.commands)

/-- The result of `nvmef_process_capsule`. -/
def nvmefProcessCapsule (state : PoolState) (reply : Reply) (cid : UInt16) (submitted : Bool) :
    PoolState :=
  if .processing reply cid ∈ state.commands then
    let rest := state.commands.erase (.processing reply cid)
    if submitted then
      { state with commands := .accepted reply (processCapsuleSqId cid.toNat) :: rest }
    else { state with commands := .rejected reply (cid.toNat / oxfQueueSize % 2 ^ 16) :: rest }
  else state

/-- `oxf_complete` up to the result of `reply`. -/
def oxfComplete (state : PoolState) (reply : Reply) (sqId : Nat) (replied : Bool) : PoolState :=
  if .accepted reply sqId ∈ state.commands then
    let rest := state.commands.erase (.accepted reply sqId)
    if ! replied then { state with commands := rest }
    else { state with commands := .sent reply sqId :: rest }
  else state

/-- An entry of a queue goes from the used ones to the free ones. -/
def relink (queue : QueueReply) (reply : Reply) : QueueReply :=
  { queue with used := queue.used.erase reply, free := queue.free ++ [reply] }

/-- `oxf_fabrics_rcv_fn` and `oxf_complete` return an entry. -/
def giveBack (state : PoolState) (command : Command) : PoolState :=
  if command ∈ state.commands then
    match command with
    | .rejected reply sqId | .sent reply sqId =>
        state.set sqId (relink (state.reply sqId) reply) (state.commands.erase command)
    | _ => state
  else state

/-- Runs of the pool. -/
def poolSystem : System PoolState PoolOp Unit where
  step state
    | .create qid started => (oxfCreateQueue state qid started, ())
    | .receive type size cid => (oxfFabricsRcvFn state type size cid, ())
    | .process reply cid submitted => (nvmefProcessCapsule state reply cid submitted, ())
    | .complete reply sqId replied => (oxfComplete state reply sqId replied, ())
    | .giveBack command => (giveBack state command, ())

@[simp]
theorem step_create (state : PoolState) (qid : Nat) (started : Bool) :
    (poolSystem.step state (.create qid started)).1 = oxfCreateQueue state qid started :=
  rfl

@[simp]
theorem step_receive (state : PoolState) (type : UInt8) (size : Nat) (cid : UInt16) :
    (poolSystem.step state (.receive type size cid)).1 = oxfFabricsRcvFn state type size cid :=
  rfl

@[simp]
theorem step_process (state : PoolState) (reply : Reply) (cid : UInt16) (submitted : Bool) :
    (poolSystem.step state (.process reply cid submitted)).1 =
      nvmefProcessCapsule state reply cid submitted :=
  rfl

@[simp]
theorem step_complete (state : PoolState) (reply : Reply) (sqId : Nat) (replied : Bool) :
    (poolSystem.step state (.complete reply sqId replied)).1 =
      oxfComplete state reply sqId replied :=
  rfl

/-! ## Conservation -/

/-- A call has the entry between two changes of the lists: it is not accepted yet, or goes back. -/
def PoolState.InHand (state : PoolState) (reply : Reply) : Prop :=
  ∃ command ∈ state.commands, command.reply = reply ∧ ∀ sqId, command ≠ .accepted reply sqId

/-- The command of the entry has been accepted, and its completion was not attempted. -/
def PoolState.Accepted (state : PoolState) (reply : Reply) : Prop :=
  ∃ sqId, .accepted reply sqId ∈ state.commands

/-- The free and the used entries of every queue are disjoint and together all entries, and the used
ones are those of accepted commands and those a call has in hand. -/
structure Conserved (state : PoolState) : Prop where
  disjoint : ∀ qid, (state.reply qid).free.Disjoint (state.reply qid).used
  together : ∀ qid, (state.reply qid).inUse = true →
    ((state.reply qid).free ++ (state.reply qid).used).Perm (entries qid)
  used_iff : ∀ qid reply, (state.reply qid).inUse = true → reply ∈ entries qid →
    (reply ∈ (state.reply qid).used ↔ state.Accepted reply ∨ state.InHand reply)

/-- No reply fails. -/
def Replied (state : PoolState) : PoolOp → Prop
  | .complete reply sqId replied => .accepted reply sqId ∈ state.commands → replied = true
  | _ => True

/-! ## The invariant -/

/-- The queues that the functions compute for a command are those of its entry. -/
def Command.Routed : Command → Prop
  | processing reply cid => rcvSqId cid.toNat = some reply.qid
  | rejected reply sqId | accepted reply sqId | sent reply sqId => sqId = reply.qid

/-- The entries of the commands of a queue. -/
def PoolState.held (state : PoolState) (qid : Nat) : List Reply :=
  (state.commands.map Command.reply).filter fun reply => reply.qid = qid

/-- The used entries are those of the commands. -/
structure PoolInv (state : PoolState) : Prop where
  together : ∀ qid, (state.reply qid).inUse = true →
    ((state.reply qid).free ++ (state.reply qid).used).Perm (entries qid)
  unused : ∀ qid, (state.reply qid).inUse = false →
    (state.reply qid).free = [] ∧ (state.reply qid).used = []
  held : ∀ qid, (state.reply qid).used.Perm (state.held qid)
  routed : ∀ command ∈ state.commands, command.Routed

theorem mem_entries {qid : Nat} {reply : Reply} (mem : reply ∈ entries qid) : reply.qid = qid := by
  obtain ⟨ent, _, rfl⟩ := List.mem_map.mp mem
  rfl

theorem entries_nodup (qid : Nat) : (entries qid).Nodup :=
  List.nodup_range.map fun _ _ same => congrArg Reply.ent same

theorem rcvSqId_eq {cid sqId : Nat} (rcv : rcvSqId cid = some sqId) :
    cid / oxfQueueSize % 2 ^ 16 = sqId := by
  simp only [rcvSqId] at rcv
  split at rcv
  · cases rcv
  · exact Option.some.inj rcv

variable {state : PoolState}

theorem mem_held {reply : Reply} {qid : Nat} :
    reply ∈ state.held qid ↔ reply.qid = qid ∧ (state.Accepted reply ∨ state.InHand reply) := by
  rw [PoolState.held, List.mem_filter, List.mem_map, decide_eq_true_eq, and_comm]
  refine and_congr_right fun _ => ⟨?_, ?_⟩
  · rintro ⟨command, mem, rfl⟩
    by_cases accepted : ∃ sqId, command = .accepted command.reply sqId
    · obtain ⟨sqId, eq⟩ := accepted
      exact Or.inl ⟨sqId, eq ▸ mem⟩
    · exact Or.inr ⟨command, mem, rfl, fun sqId eq => accepted ⟨sqId, eq⟩⟩
  · rintro (⟨sqId, mem⟩ | ⟨command, mem, same, _⟩)
    · exact ⟨_, mem, rfl⟩
    · exact ⟨command, mem, same⟩

theorem PoolInv.conserved (inv : PoolInv state) : Conserved state where
  disjoint qid := by
    cases inUse : (state.reply qid).inUse with
    | true =>
        have nodup := (inv.together qid inUse).nodup_iff.mpr (entries_nodup qid)
        exact List.disjoint_of_nodup_append nodup
    | false =>
        rw [(inv.unused qid inUse).1]
        exact List.disjoint_nil_left _
  together := inv.together
  used_iff qid reply _ mem := by
    rw [(inv.held qid).mem_iff, mem_held, and_iff_right (mem_entries mem)]

/-- A command with the same entry takes the place of another. -/
theorem held_replace {old new : Command} (mem : old ∈ state.commands) (same : new.reply = old.reply)
    (qid : Nat) :
    ({ state with commands := new :: state.commands.erase old }.held qid).Perm
      (state.held qid) := by
  refine List.Perm.filter _ ?_
  rw [List.map_cons, same]
  exact ((List.perm_cons_erase mem).map Command.reply).symm

theorem PoolInv.replace (inv : PoolInv state) {old new : Command} (mem : old ∈ state.commands)
    (same : new.reply = old.reply) (routed : old.Routed → new.Routed) :
    PoolInv { state with commands := new :: state.commands.erase old } where
  together := inv.together
  unused := inv.unused
  held qid := (inv.held qid).trans (held_replace mem same qid).symm
  routed command memCommand := by
    rcases List.mem_cons.mp memCommand with rfl | rest
    · exact routed (inv.routed old mem)
    · exact inv.routed command (List.mem_of_mem_erase rest)

/-- A state in which one queue and the commands have changed. -/
theorem PoolInv.set (inv : PoolInv state) {qid : Nat} {queue : QueueReply}
    {commands : List Command}
    (together : queue.inUse = true ∧ (queue.free ++ queue.used).Perm (entries qid))
    (held : queue.used.Perm
      ((commands.map Command.reply).filter fun reply => reply.qid = qid))
    (others : ∀ other, other ≠ qid →
      ((commands.map Command.reply).filter fun reply => reply.qid = other).Perm (state.held other))
    (routed : ∀ command ∈ commands, command.Routed) :
    PoolInv (state.set qid queue commands) where
  together other inUse := by
    by_cases here : other = qid
    · subst here
      rw [PoolState.set_reply_self]
      exact together.2
    · rw [PoolState.set_reply_of_ne state here] at inUse ⊢
      exact inv.together other inUse
  unused other inUse := by
    by_cases here : other = qid
    · subst here
      rw [PoolState.set_reply_self, together.1] at inUse
      cases inUse
    · rw [PoolState.set_reply_of_ne state here] at inUse ⊢
      exact inv.unused other inUse
  held other := by
    by_cases here : other = qid
    · subst here
      rw [PoolState.set_reply_self]
      exact held
    · rw [PoolState.set_reply_of_ne state here]
      exact (inv.held other).trans (others other here).symm
  routed := routed

theorem PoolInv.create (inv : PoolInv state) (qid : Nat) (started : Bool) :
    PoolInv (oxfCreateQueue state qid started) := by
  rw [oxfCreateQueue]
  split
  · exact inv
  · split
    · exact inv
    · rename_i unused
      split
      · exact inv
      · have held := inv.held qid
        rw [(inv.unused qid (Bool.eq_false_iff.mpr unused)).2] at held
        refine inv.set ⟨rfl, ?_⟩ held (fun _ _ => List.Perm.refl _) inv.routed
        rw [List.append_nil]

/-- A queue with an entry or a command is in use. -/
theorem PoolInv.inUse (inv : PoolInv state) {qid : Nat} {reply : Reply}
    (mem : reply ∈ (state.reply qid).free ++ (state.reply qid).used) :
    (state.reply qid).inUse = true ∧ reply.qid = qid := by
  cases inUse : (state.reply qid).inUse with
  | true => exact ⟨rfl, mem_entries ((inv.together qid inUse).mem_iff.mp mem)⟩
  | false =>
      obtain ⟨free, used⟩ := inv.unused qid inUse
      rw [free, used] at mem
      cases mem

theorem PoolInv.receive (inv : PoolInv state) (type : UInt8) (size : Nat) (cid : UInt16) :
    PoolInv (oxfFabricsRcvFn state type size cid) := by
  rw [oxfFabricsRcvFn]
  cases queue : rcvQueue type size cid with
  | none => exact inv
  | some sqId =>
      cases free : (state.reply sqId).free with
      | nil =>
          simp only [free]
          exact inv
      | cons reply rest =>
          simp only [free]
          have rcv : rcvSqId cid.toNat = some sqId := by
            rw [rcvQueue] at queue
            split at queue
            · exact queue
            · cases queue
          have memFree : reply ∈ (state.reply sqId).free := free ▸ List.mem_cons_self
          obtain ⟨inUse, rfl⟩ := inv.inUse (List.mem_append_left _ memFree)
          have together := inv.together _ inUse
          rw [free] at together
          refine inv.set ⟨inUse, ?_⟩ ?_ ?_ ?_
          · refine List.Perm.trans ?_ together
            rw [← List.append_assoc]
            exact List.perm_append_singleton reply _
          · rw [List.map_cons, Command.reply, List.filter_cons_of_pos (by exact decide_eq_true rfl)]
            exact (List.perm_append_singleton reply _).trans ((inv.held _).cons reply)
          · intro other ne
            rw [List.map_cons, List.filter_cons_of_neg]
            · exact List.Perm.refl _
            · exact fun same => ne (of_decide_eq_true same).symm
          · intro command mem
            rcases List.mem_cons.mp mem with rfl | old
            · exact rcv
            · exact inv.routed command old

theorem PoolInv.process (inv : PoolInv state) (reply : Reply) (cid : UInt16) (submitted : Bool) :
    PoolInv (nvmefProcessCapsule state reply cid submitted) := by
  rw [nvmefProcessCapsule]
  split
  · rename_i mem
    split
    · exact inv.replace mem rfl rcvSqId_eq
    · exact inv.replace mem rfl rcvSqId_eq
  · exact inv

theorem PoolInv.complete (inv : PoolInv state) {reply : Reply} {sqId : Nat} {replied : Bool}
    (ok : .accepted reply sqId ∈ state.commands → replied = true) :
    PoolInv (oxfComplete state reply sqId replied) := by
  rw [oxfComplete]
  split
  · rename_i mem
    rw [ok mem]
    exact inv.replace mem rfl id
  · exact inv

/-- A command that leaves takes its entry out of those of the queue. -/
theorem held_erase {command : Command} (mem : command ∈ state.commands) (qid : Nat) :
    (state.held qid).Perm
      ((command.reply :: (state.commands.erase command).map Command.reply).filter
        fun reply => reply.qid = qid) :=
  List.Perm.filter _ ((List.perm_cons_erase mem).map Command.reply)

/-- An entry goes back behind the rejection or the reply. -/
theorem PoolInv.relink (inv : PoolInv state) {command : Command} (mem : command ∈ state.commands) :
    PoolInv (state.set command.reply.qid
      (ReplyPool.relink (state.reply command.reply.qid) command.reply)
      (state.commands.erase command)) := by
  have held := held_erase mem
  have own := (inv.held command.reply.qid).trans (held command.reply.qid)
  rw [List.filter_cons_of_pos (by exact decide_eq_true rfl)] at own
  have memUsed : command.reply ∈ (state.reply command.reply.qid).used :=
    own.mem_iff.mpr List.mem_cons_self
  have inUse := (inv.inUse (List.mem_append_right _ memUsed)).1
  refine inv.set ⟨inUse, ?_⟩ ?_ ?_ ?_
  · refine List.Perm.trans ?_ (inv.together _ inUse)
    rw [ReplyPool.relink, List.append_assoc, List.singleton_append]
    exact (List.perm_cons_erase memUsed).symm.append_left _
  · have erased := own.erase command.reply
    rw [List.erase_cons_head] at erased
    exact erased
  · intro other ne
    have same := held other
    rw [List.filter_cons_of_neg] at same
    · exact same.symm
    · exact fun same => ne (of_decide_eq_true same).symm
  · exact fun other memOther => inv.routed other (List.mem_of_mem_erase memOther)

theorem PoolInv.giveBack (inv : PoolInv state) (command : Command) :
    PoolInv (giveBack state command) := by
  by_cases mem : command ∈ state.commands
  · have routed := inv.routed command mem
    have back := inv.relink mem
    cases command with
    | processing reply cid =>
        simp only [ReplyPool.giveBack, if_pos mem]
        exact inv
    | accepted reply sqId =>
        simp only [ReplyPool.giveBack, if_pos mem]
        exact inv
    | rejected reply sqId =>
        obtain rfl : sqId = reply.qid := routed
        simp only [ReplyPool.giveBack, if_pos mem]
        exact back
    | sent reply sqId =>
        obtain rfl : sqId = reply.qid := routed
        simp only [ReplyPool.giveBack, if_pos mem]
        exact back
  · rw [show ReplyPool.giveBack state command = state from if_neg mem]
    exact inv

theorem PoolInv.step (inv : PoolInv state) {op : PoolOp} (replied : Replied state op) :
    PoolInv (poolSystem.step state op).1 := by
  cases op with
  | create qid started => exact inv.create qid started
  | receive type size cid => exact inv.receive type size cid
  | process reply cid submitted => exact inv.process reply cid submitted
  | complete reply sqId ok => exact inv.complete replied
  | giveBack command => exact inv.giveBack command

/-- A reply that fails leaves its entry to no command. -/
theorem PoolInv.lost (inv : PoolInv state) {op : PoolOp} (failed : ¬ Replied state op) :
    ¬ Conserved (poolSystem.step state op).1 := by
  cases op with
  | complete reply sqId replied =>
      rw [Replied, Classical.not_imp, Bool.not_eq_true] at failed
      obtain ⟨mem, rfl⟩ := failed
      have after : oxfComplete state reply sqId false =
          { state with commands := state.commands.erase (.accepted reply sqId) } := by
        rw [oxfComplete, if_pos mem]
        rfl
      have own := (inv.held reply.qid).trans (held_erase mem reply.qid)
      rw [Command.reply, List.filter_cons_of_pos (by exact decide_eq_true rfl)] at own
      have memUsed : reply ∈ (state.reply reply.qid).used := own.mem_iff.mpr List.mem_cons_self
      have inUse := (inv.inUse (List.mem_append_right _ memUsed)).1
      have nodup := (inv.together _ inUse).nodup_iff.mpr (entries_nodup reply.qid)
      have left := (List.nodup_cons.mp (own.nodup_iff.mp nodup.of_append_right)).1
      have memEntries := (inv.together _ inUse).mem_iff.mp (List.mem_append_right _ memUsed)
      intro conserved
      rw [step_complete, after] at conserved
      have holds := (conserved.used_iff reply.qid reply inUse memEntries).mp memUsed
      exact left (mem_held.mpr ⟨rfl, holds⟩)
  | create qid started => exact absurd trivial failed
  | receive type size cid => exact absurd trivial failed
  | process reply cid submitted => exact absurd trivial failed
  | giveBack command => exact absurd trivial failed

theorem PoolInv.initial : PoolInv {} where
  together _ inUse := by cases inUse
  unused _ _ := ⟨rfl, rfl⟩
  held _ := List.Perm.refl _
  routed _ mem := by cases mem

/-- The entries are conserved in a whole run exactly when every reply of the run can be sent. -/
theorem pool_conserved_iff (ops : List PoolOp) :
    (∀ before, before <+: ops → Conserved (poolSystem.run {} before)) ↔
      poolSystem.Allowed Replied {} ops :=
  poolSystem.forall_prefix_iff_allowed Replied PoolInv Conserved
    (fun _ _ replied inv => inv.step replied) (fun _ inv => inv.conserved)
    (fun _ _ failed inv => inv.lost failed) PoolInv.initial ops

/-- A command up to a reply that fails. -/
def failedReply : List PoolOp :=
  [.create 0 true, .receive 0x3c 67 0, .process ⟨0, 0⟩ 0 true, .complete ⟨0, 0⟩ 0 false]

theorem reply_create {qid : Nat} (lt : qid < oxfServerMaxCon)
    (unused : (state.reply qid).inUse = false) :
    (oxfCreateQueue state qid true).reply qid = { free := entries qid, inUse := true } := by
  rw [oxfCreateQueue, if_neg (Nat.not_le.mpr lt), if_neg (Bool.eq_false_iff.mp unused),
    if_neg (by decide), PoolState.set_reply_self]

theorem processing_of_free {type : UInt8} {size sqId : Nat} {cid : UInt16} {reply : Reply}
    (queue : rcvQueue type size cid = some sqId)
    (first : (state.reply sqId).free.head? = some reply) :
    .processing reply cid ∈ (oxfFabricsRcvFn state type size cid).commands := by
  cases free : (state.reply sqId).free with
  | nil =>
      rw [free] at first
      cases first
  | cons other rest =>
      rw [free] at first
      obtain rfl := Option.some.inj first
      simp only [oxfFabricsRcvFn, queue, free]
      exact List.mem_cons_self

theorem accepted_of_processing {reply : Reply} {cid : UInt16}
    (mem : .processing reply cid ∈ state.commands) :
    .accepted reply (processCapsuleSqId cid.toNat) ∈
      (nvmefProcessCapsule state reply cid true).commands := by
  rw [nvmefProcessCapsule, if_pos mem]
  exact List.mem_cons_self

theorem head?_entries (qid : Nat) : (entries qid).head? = some ⟨qid, 0⟩ := by
  rw [entries, oxfMaxEnt, List.head?_map, List.head?_range]
  rfl

/-- The entry stays with the used ones, and no command has it. -/
theorem failed_reply_lost : ¬ Conserved (poolSystem.run {} failedReply) := by
  have inv := ((PoolInv.initial.create 0 true).receive 0x3c 67 0).process ⟨0, 0⟩ 0 true
  have free : ((oxfCreateQueue {} 0 true).reply 0).free.head? = some ⟨0, 0⟩ := by
    rw [reply_create (by decide) rfl, head?_entries]
  have accepted := accepted_of_processing
    (processing_of_free (show rcvQueue 0x3c 67 0 = some 0 by decide) free)
  rw [show processCapsuleSqId (0 : UInt16).toNat = 0 by decide] at accepted
  have failed : ¬ Replied _ (.complete ⟨0, 0⟩ 0 false) :=
    fun replied => absurd (replied accepted) (by decide)
  rw [failedReply, System.run_cons, System.run_cons, System.run_cons, System.run_cons,
    System.run_nil, step_create, step_receive, step_process]
  exact inv.lost failed

end OxCtrl.Fabrics.ReplyPool
