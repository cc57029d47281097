import Mathlib.Logic.Function.Basic
import OxCtrl.Lib.Ring
import OxCtrl.Lib.System

/-!
# The NVMe completion queue

`nvme_enqueue_req_completion` posts a completion to the ring in host memory, or puts it on
`cq->req_list` when the ring is full.  `nvme_process_db` takes the head doorbells of the host and
drains the list from a full ring.  Both look at the ring before they take `req_mutex`, so the look
and the act on it are steps of their own.  `cq->db_addr` is zero in all queues.
-/

namespace OxCtrl.CqRing

open OxCtrl.Lib

/-- The fields of `NvmeCqe` that tell completions apart. -/
structure Cqe where
  req : Nat
  phase : Bool
  deriving DecidableEq, Repr

/-- A completion queue with its ring, the number of entries that the host has acknowledged, and
what has happened so far: the entries posted and the requests completed, each in its order. -/
structure NvmeCQ where
  size : Nat
  head : Nat
  tail : Nat
  phase : Bool
  reqList : List Nat
  slots : Nat → Cqe
  acked : Nat
  posted : List Cqe
  completed : List Nat

/-- `nvme_cq_full` -/
def nvmeCqFull (cq : NvmeCQ) : Prop :=
  (cq.tail + 1) % cq.size = cq.head

instance (cq : NvmeCQ) : Decidable (nvmeCqFull cq) :=
  inferInstanceAs (Decidable (_ = _))

/-- `nvme_inc_cq_tail` -/
def nvmeIncCqTail (cq : NvmeCQ) : NvmeCQ :=
  if cq.size ≤ cq.tail + 1 then { cq with tail := 0, phase := !cq.phase }
  else { cq with tail := cq.tail + 1 }

/-- `nvme_post_cqe`, with the link `entry.tqe_next` that `TAILQ_INSERT_TAIL` leaves in the request
when it puts it on `sq->req_list`. -/
def nvmePostCqe (cq : NvmeCQ) (req : Nat) : NvmeCQ × Option Nat :=
  let cqe : Cqe := { req := req, phase := cq.phase }
  (nvmeIncCqTail { cq with
    slots := Function.update cq.slots cq.tail cqe, posted := cq.posted ++ [cqe] }, none)

/-- The loop of `nvme_post_cqes`: `TAILQ_FOREACH` goes on with the link of the request it stands
on. -/
def postLoop : Nat → Option Nat → NvmeCQ → NvmeCQ
  | 0, _, cq | _, none, cq => cq
  | fuel + 1, some req, cq =>
      if nvmeCqFull cq then cq
      else
        let posted := nvmePostCqe { cq with reqList := cq.reqList.erase req } req
        postLoop fuel posted.2 posted.1

/-- `nvme_post_cqes` -/
def nvmePostCqes (cq : NvmeCQ) : NvmeCQ :=
  postLoop (cq.reqList.length + 1) cq.reqList.head? cq

/-- A call of `nvme_enqueue_req_completion` behind its look at the queue: it puts the request on
`cq->req_list`, or posts it. -/
structure Call where
  req : Nat
  waits : Bool
  deriving DecidableEq, Repr

/-- Where `nvme_process_db` is: not called, behind its look at the queue, or in `nvme_post_cqes`
before the mutex. -/
inductive Db where
  | idle
  | looked (newVal : Nat) (startSqs : Bool)
  | draining
  deriving DecidableEq, Repr

structure Ctrl where
  cq : NvmeCQ
  calls : List Call
  db : Db

/-- Steps of the threads: the two parts of a completion, the look of a doorbell, its store of
the head, and the locked part of `nvme_post_cqes`. -/
inductive Op where
  | complete (req : Nat)
  | act (k : Nat)
  | doorbell (newVal : Nat)
  | store
  | drain
  deriving DecidableEq, Repr

/-- The test of `nvme_enqueue_req_completion`. -/
def mustWait (cq : NvmeCQ) : Bool :=
  decide (nvmeCqFull cq) || !cq.reqList.isEmpty

/-- How far a new value moves the head. -/
def moved (cq : NvmeCQ) (newVal : Nat) : Nat :=
  (newVal + cq.size - cq.head) % cq.size

/-- The locked part of `nvme_enqueue_req_completion`. -/
def finish (cq : NvmeCQ) (call : Call) : NvmeCQ :=
  let cq := { cq with completed := cq.completed ++ [call.req] }
  if call.waits then { cq with reqList := cq.reqList ++ [call.req] }
  else (nvmePostCqe cq call.req).1

def step (ctrl : Ctrl) : Op → Ctrl
  | .complete req => { ctrl with calls := ctrl.calls ++ [⟨req, mustWait ctrl.cq⟩] }
  | .act k =>
      match ctrl.calls[k]? with
      | none => ctrl
      | some call => { ctrl with cq := finish ctrl.cq call, calls := ctrl.calls.eraseIdx k }
  | .doorbell newVal =>
      -- a value that is not below the size is reported and dropped
      if ctrl.db = .idle ∧ newVal < ctrl.cq.size then
        { ctrl with db := .looked newVal (decide (nvmeCqFull ctrl.cq)) }
      else ctrl
  | .store =>
      match ctrl.db with
      | .looked newVal startSqs =>
          { ctrl with
            cq := { ctrl.cq with head := newVal, acked := ctrl.cq.acked + moved ctrl.cq newVal }
            db := if startSqs then .draining else .idle }
      | _ => ctrl
  | .drain =>
      if ctrl.db = .draining then { ctrl with cq := nvmePostCqes ctrl.cq, db := .idle } else ctrl

/-- All interleavings of completions and doorbells. -/
def system : System Ctrl Op Unit where
  step ctrl op := (step ctrl op, ())

/-- `nvme_init_cq`, over whatever the host memory holds. -/
def nvmeInitCq (size : Nat) (slots : Nat → Cqe) : Ctrl where
  cq :=
    { size := size, head := 0, tail := 0, phase := true, reqList := [], slots := slots, acked := 0
      posted := [], completed := [] }
  calls := []
  db := .idle

/-- The host acknowledges entries that have been posted. -/
def Host (ctrl : Ctrl) : Op → Prop
  | .doorbell newVal =>
      newVal < ctrl.cq.size ∧ moved ctrl.cq newVal ≤ ctrl.cq.posted.length - ctrl.cq.acked
  | _ => True

/-- What a doorbell has seen of the queue still holds. -/
def Db.Seen (cq : NvmeCQ) : Db → Prop
  | .looked _ startSqs => startSqs = decide (nvmeCqFull cq)
  | _ => True

/-- What a thread has seen of the queue still holds when it acts on it, and a drain finds at most
one waiting request or at most one free slot. -/
def Fresh (ctrl : Ctrl) : Op → Prop
  | .act k => ∀ call ∈ ctrl.calls[k]?, call.waits = mustWait ctrl.cq
  | .store => ctrl.db.Seen ctrl.cq
  | .drain =>
      ctrl.db = .draining →
        ctrl.cq.reqList.length ≤ 1 ∨ ctrl.cq.acked + ctrl.cq.size ≤ ctrl.cq.posted.length + 2
  | _ => True

instance (cq : NvmeCQ) : ∀ db, Decidable (Db.Seen cq db)
  | .looked _ _ => inferInstanceAs (Decidable (_ = _))
  | .idle | .draining => inferInstanceAs (Decidable True)

instance (ctrl : Ctrl) : ∀ op, Decidable (Fresh ctrl op)
  | .act k =>
      inferInstanceAs (Decidable (∀ call ∈ ctrl.calls[k]?, call.waits = mustWait ctrl.cq))
  | .store => inferInstanceAs (Decidable (ctrl.db.Seen ctrl.cq))
  | .drain => inferInstanceAs (Decidable (_ → _ ∨ _))
  | .complete _ | .doorbell _ => inferInstanceAs (Decidable True)

instance (ctrl : Ctrl) : ∀ op, Decidable (Host ctrl op)
  | .doorbell _ => inferInstanceAs (Decidable (_ ∧ _))
  | .complete _ | .act _ | .store | .drain => inferInstanceAs (Decidable True)

/-- The phase bit of the entries of a lap of the ring. -/
def lapPhase (lap : Nat) : Bool :=
  lap % 2 == 0

/-- What the queue promises the host. -/
structure QueueOk (ctrl : Ctrl) : Prop where
  /-- No entry is posted over one that the host has not consumed. -/
  room : ctrl.cq.posted.length < ctrl.cq.acked + ctrl.cq.size
  intact : ∀ i, ctrl.cq.acked ≤ i → ∀ lt : i < ctrl.cq.posted.length,
    ctrl.cq.slots (i % ctrl.cq.size) = ctrl.cq.posted[i]
  order : ctrl.cq.posted.map Cqe.req ++ ctrl.cq.reqList = ctrl.cq.completed
  phases : ∀ i, ∀ lt : i < ctrl.cq.posted.length,
    ctrl.cq.posted[i].phase = lapPhase (i / ctrl.cq.size)
  settled : ctrl.db ≠ .draining → nvmeCqFull ctrl.cq ∨ ctrl.cq.reqList = []

/-! ## The ring -/

theorem lapPhase_succ (lap : Nat) : lapPhase (lap + 1) = !lapPhase lap := by
  unfold lapPhase
  rcases Nat.mod_two_eq_zero_or_one lap with even | odd
  · have next : (lap + 1) % 2 = 1 := by omega
    rw [even, next]
    rfl
  · have next : (lap + 1) % 2 = 0 := by omega
    rw [odd, next]
    rfl

/-- Position and lap behind the next entry. -/
theorem lap_succ {size n : Nat} (pos : 0 < size) :
    if size ≤ n % size + 1 then (n + 1) % size = 0 ∧ (n + 1) / size = n / size + 1
    else (n + 1) % size = n % size + 1 ∧ (n + 1) / size = n / size := by
  have lt := Nat.mod_lt n pos
  have parts := Nat.div_add_mod n size
  by_cases last : size ≤ n % size + 1
  · have whole : n + 1 = size * (n / size + 1) := by
      rw [Nat.mul_succ]
      omega
    rw [if_pos last, whole]
    exact ⟨Nat.mul_mod_right _ _, Nat.mul_div_cancel_left _ pos⟩
  · have split : n + 1 = n % size + 1 + size * (n / size) := by omega
    rw [if_neg last, split, Nat.add_mul_mod_self_left, Nat.add_mul_div_left _ _ pos,
      Nat.mod_eq_of_lt (by omega), Nat.div_eq_of_lt (by omega), Nat.zero_add]
    exact ⟨rfl, rfl⟩

/-- The ring holds the entries that the host has not acknowledged. -/
structure RingOk (cq : NvmeCQ) : Prop where
  pos : 0 < cq.size
  acked : cq.acked ≤ cq.posted.length
  head : cq.head = cq.acked % cq.size
  tail : cq.tail = cq.posted.length % cq.size
  phase : cq.phase = lapPhase (cq.posted.length / cq.size)
  contents : Ring.contents cq.size cq.slots cq.head cq.tail = cq.posted.drop cq.acked
  phases : ∀ i, ∀ lt : i < cq.posted.length, cq.posted[i].phase = lapPhase (i / cq.size)

namespace RingOk

variable {cq : NvmeCQ}

theorem head_lt (ok : RingOk cq) : cq.head < cq.size := by
  rw [ok.head]
  exact Nat.mod_lt _ ok.pos

theorem tail_lt (ok : RingOk cq) : cq.tail < cq.size := by
  rw [ok.tail]
  exact Nat.mod_lt _ ok.pos

theorem occupancy (ok : RingOk cq) :
    Ring.occupancy cq.size cq.head cq.tail = cq.posted.length - cq.acked := by
  rw [← Ring.length_contents cq.size cq.slots, ok.contents, List.length_drop]

theorem room (ok : RingOk cq) : cq.posted.length < cq.acked + cq.size := by
  have lt := Ring.occupancy_lt ok.pos cq.head cq.tail
  rw [ok.occupancy] at lt
  omega

/-- The queue is full when one slot is left. -/
theorem full_iff (ok : RingOk cq) :
    nvmeCqFull cq ↔ cq.posted.length + 1 = cq.acked + cq.size := by
  have occupancy := ok.occupancy
  have acked := ok.acked
  constructor
  · intro full
    have count := Ring.occupancy_full ok.head_lt ok.tail_lt full
    omega
  · intro count
    by_contra notFull
    have room := Ring.occupancy_push ok.head_lt ok.tail_lt notFull
    have lt := Ring.occupancy_lt ok.pos cq.head (Ring.next cq.size cq.tail)
    omega

theorem intact (ok : RingOk cq) {i : Nat} (unread : cq.acked ≤ i) (lt : i < cq.posted.length) :
    cq.slots (i % cq.size) = cq.posted[i] := by
  have count := ok.occupancy
  have get : (Ring.contents cq.size cq.slots cq.head cq.tail)[i - cq.acked]? =
      (cq.posted.drop cq.acked)[i - cq.acked]? := by
    rw [ok.contents]
  rw [Ring.contents, List.getElem?_map, List.getElem?_range (by omega), Option.map_some,
    List.getElem?_drop, Nat.add_sub_cancel' unread, List.getElem?_eq_getElem lt, ok.head,
    Nat.mod_add_mod, Nat.add_sub_cancel' unread] at get
  exact Option.some.inj get

end RingOk

/-- What posting does to the queue. -/
theorem nvmePostCqe_eq (cq : NvmeCQ) (req : Nat) :
    (nvmePostCqe cq req).1 =
      { cq with
        tail := if cq.size ≤ cq.tail + 1 then 0 else cq.tail + 1
        phase := if cq.size ≤ cq.tail + 1 then !cq.phase else cq.phase
        slots := Function.update cq.slots cq.tail ⟨req, cq.phase⟩
        posted := cq.posted ++ [⟨req, cq.phase⟩] } := by
  unfold nvmePostCqe nvmeIncCqTail
  dsimp only
  by_cases last : cq.size ≤ cq.tail + 1
  · rw [if_pos last, if_pos last, if_pos last]
  · rw [if_neg last, if_neg last, if_neg last]

/-- Posting to a queue that is not full. -/
theorem ringOk_post {cq : NvmeCQ} (ok : RingOk cq) (room : ¬ nvmeCqFull cq) (req : Nat) :
    RingOk (nvmePostCqe cq req).1 := by
  have lap := @lap_succ cq.size cq.posted.length ok.pos
  have tail := ok.tail
  have next : (if cq.size ≤ cq.tail + 1 then 0 else cq.tail + 1) = Ring.next cq.size cq.tail := by
    have lt := ok.tail_lt
    rw [Ring.next_eq ok.tail_lt]
    by_cases last : cq.size ≤ cq.tail + 1
    · rw [if_pos last, if_pos (by omega)]
    · rw [if_neg last, if_neg (by omega)]
  rw [nvmePostCqe_eq]
  rw [← tail] at lap
  constructor
  case pos => exact ok.pos
  case acked =>
    rw [List.length_append]
    exact Nat.le_add_right_of_le ok.acked
  case head => exact ok.head
  case tail =>
    dsimp only
    rw [List.length_append, List.length_singleton]
    by_cases last : cq.size ≤ cq.tail + 1
    · rw [if_pos last] at lap ⊢
      exact lap.1.symm
    · rw [if_neg last] at lap ⊢
      exact lap.1.symm
  case phase =>
    dsimp only
    rw [List.length_append, List.length_singleton]
    by_cases last : cq.size ≤ cq.tail + 1
    · rw [if_pos last] at lap ⊢
      rw [lap.2, lapPhase_succ, ok.phase]
    · rw [if_neg last] at lap ⊢
      rw [lap.2, ok.phase]
  case contents =>
    dsimp only
    rw [next, Ring.contents_push _ ok.head_lt ok.tail_lt room, ok.contents,
      List.drop_append_of_le_length ok.acked]
  case phases =>
    intro i lt
    dsimp only at lt ⊢
    rw [List.length_append, List.length_singleton] at lt
    by_cases old : i < cq.posted.length
    · rw [List.getElem_append_left old]
      exact ok.phases i old
    · have last : i = cq.posted.length := by omega
      subst last
      rw [List.getElem_append_right (Nat.le_refl _), List.getElem_singleton]
      exact ok.phase

/-- The host has moved its head over entries that were posted. -/
theorem ringOk_store {cq : NvmeCQ} (ok : RingOk cq) {newVal : Nat} (lt : newVal < cq.size)
    (posted : moved cq newVal ≤ cq.posted.length - cq.acked) :
    RingOk { cq with head := newVal, acked := cq.acked + moved cq newVal } := by
  have headLt := ok.head_lt
  have acked := ok.acked
  have position : (cq.head + moved cq newVal) % cq.size = newVal := by
    rw [moved, Nat.add_mod_mod, show cq.head + (newVal + cq.size - cq.head) =
      newVal + cq.size by omega, Nat.add_mod_right, Nat.mod_eq_of_lt lt]
  constructor
  case pos => exact ok.pos
  case acked =>
    dsimp only
    omega
  case head =>
    change newVal = (cq.acked + moved cq newVal) % cq.size
    rw [← Nat.mod_add_mod, ← ok.head, position]
  case tail => exact ok.tail
  case phase => exact ok.phase
  case contents =>
    have dropped := Ring.contents_drop cq.slots ok.head_lt ok.tail_lt (ok.occupancy ▸ posted)
    rw [position, ok.contents, List.drop_drop] at dropped
    exact dropped
  case phases => exact ok.phases

/-! ## Steps -/

/-- What holds in every run that is admissible. -/
structure Inv (ctrl : Ctrl) : Prop where
  ring : RingOk ctrl.cq
  order : ctrl.cq.posted.map Cqe.req ++ ctrl.cq.reqList = ctrl.cq.completed
  settled : ctrl.db ≠ .draining → nvmeCqFull ctrl.cq ∨ ctrl.cq.reqList = []
  looked : ∀ newVal startSqs, ctrl.db = .looked newVal startSqs →
    newVal < ctrl.cq.size ∧ moved ctrl.cq newVal ≤ ctrl.cq.posted.length - ctrl.cq.acked

theorem mustWait_iff (cq : NvmeCQ) :
    mustWait cq = true ↔ nvmeCqFull cq ∨ cq.reqList ≠ [] := by
  rw [mustWait, Bool.or_eq_true, decide_eq_true_iff, Bool.not_eq_true', List.isEmpty_eq_false_iff]

/-- The drain posts the first waiting request and no other: the request it has posted is the last
of its new list. -/
theorem nvmePostCqes_eq (cq : NvmeCQ) :
    nvmePostCqes cq =
      match cq.reqList with
      | [] => cq
      | req :: rest => if nvmeCqFull cq then cq
          else (nvmePostCqe { cq with reqList := rest } req).1 := by
  unfold nvmePostCqes
  cases list : cq.reqList with
  | nil => rfl
  | cons req rest =>
      have ends : ∀ fuel cq, postLoop fuel none cq = cq := by
        intro fuel cq
        cases fuel <;> rfl
      rw [List.head?_cons, List.length_cons, postLoop]
      dsimp only
      by_cases full : nvmeCqFull cq
      · rw [if_pos full, if_pos full]
      · rw [if_neg full, if_neg full, list, List.erase_cons_head]
        exact ends _ _

/-- A completion acts on what it has seen. -/
theorem inv_act {ctrl : Ctrl} (inv : Inv ctrl) {call : Call}
    (fresh : call.waits = mustWait ctrl.cq) (calls : List Call) :
    Inv { ctrl with cq := finish ctrl.cq call, calls := calls } := by
  unfold finish
  dsimp only
  by_cases waits : call.waits = true
  · rw [if_pos waits]
    rw [waits] at fresh
    have must := (mustWait_iff ctrl.cq).1 fresh.symm
    constructor
    case ring => exact ⟨inv.ring.pos, inv.ring.acked, inv.ring.head, inv.ring.tail, inv.ring.phase,
      inv.ring.contents, inv.ring.phases⟩
    case order =>
      dsimp only
      rw [← inv.order, List.append_assoc]
    case settled =>
      intro idle
      left
      rcases inv.settled idle with full | empty
      · exact full
      · exact must.resolve_right (fun some => some empty)
    case looked => exact inv.looked
  · rw [if_neg waits]
    have free : mustWait ctrl.cq = false := by
      rw [← fresh]
      exact Bool.eq_false_iff.2 waits
    have seen := (mustWait_iff ctrl.cq).not.1 (Bool.eq_false_iff.1 free)
    have empty : ctrl.cq.reqList = [] := not_not.1 fun some => seen (Or.inr some)
    have ok : RingOk { ctrl.cq with completed := ctrl.cq.completed ++ [call.req] } :=
      ⟨inv.ring.pos, inv.ring.acked, inv.ring.head, inv.ring.tail, inv.ring.phase,
        inv.ring.contents, inv.ring.phases⟩
    have posted := ringOk_post ok (fun full => seen (Or.inl full)) call.req
    rw [nvmePostCqe_eq] at posted ⊢
    constructor
    case ring => exact posted
    case order =>
      have order := inv.order
      rw [empty, List.append_nil] at order
      dsimp only
      rw [← order, empty, List.append_nil, List.map_append, List.map_singleton]
    case settled => exact fun _ => Or.inr empty
    case looked =>
      intro newVal startSqs looked
      obtain ⟨lt, le⟩ := inv.looked newVal startSqs looked
      refine ⟨lt, ?_⟩
      change moved ctrl.cq newVal ≤ (ctrl.cq.posted ++ [_]).length - ctrl.cq.acked
      rw [List.length_append]
      omega

/-- The locked part of `nvme_post_cqes`. -/
theorem inv_drain {ctrl : Ctrl} (inv : Inv ctrl)
    (few : ctrl.cq.reqList.length ≤ 1 ∨ ctrl.cq.acked + ctrl.cq.size ≤ ctrl.cq.posted.length + 2) :
    Inv { ctrl with cq := nvmePostCqes ctrl.cq, db := .idle } := by
  rw [nvmePostCqes_eq]
  have kept : nvmeCqFull ctrl.cq ∨ ctrl.cq.reqList = [] →
      Inv { ctrl with db := .idle } := fun settled =>
    { ring := inv.ring
      order := inv.order
      settled := fun _ => settled
      looked := fun _ _ eq => by cases eq }
  cases list : ctrl.cq.reqList with
  | nil => exact kept (Or.inr list)
  | cons req rest =>
      dsimp only
      by_cases full : nvmeCqFull ctrl.cq
      · rw [if_pos full]
        exact kept (Or.inl full)
      · rw [if_neg full]
        have ok : RingOk { ctrl.cq with reqList := rest } :=
          ⟨inv.ring.pos, inv.ring.acked, inv.ring.head, inv.ring.tail, inv.ring.phase,
            inv.ring.contents, inv.ring.phases⟩
        have posted := ringOk_post ok full req
        have count : (nvmePostCqe { ctrl.cq with reqList := rest } req).1.posted.length =
            ctrl.cq.posted.length + 1 := by
          rw [nvmePostCqe_eq]
          exact List.length_append
        constructor
        case ring => exact posted
        case order =>
          have order := inv.order
          rw [list] at order
          rw [nvmePostCqe_eq]
          dsimp only
          rw [← order, List.map_append, List.map_singleton, List.append_assoc]
          rfl
        case settled =>
          intro _
          rcases few with one | last
          · right
            rw [list, List.length_cons] at one
            rw [nvmePostCqe_eq]
            change rest = []
            exact List.length_eq_zero_iff.1 (by omega)
          · left
            have room := ok.full_iff.not.1 full
            have below := posted.room
            apply posted.full_iff.2
            rw [count] at below ⊢
            rw [nvmePostCqe_eq] at below ⊢
            dsimp only at below room ⊢
            omega
        case looked => exact fun _ _ eq => by cases eq

/-- What one step preserves. -/
theorem inv_step {ctrl : Ctrl} (inv : Inv ctrl) (op : Op) (host : Host ctrl op)
    (fresh : Fresh ctrl op) : Inv (step ctrl op) := by
  cases op with
  | complete req => exact ⟨inv.ring, inv.order, inv.settled, inv.looked⟩
  | act k =>
      cases get : ctrl.calls[k]? with
      | none =>
          rw [show step ctrl (.act k) = ctrl by simp only [step, get]]
          exact inv
      | some call =>
          have moved := inv_act inv (fresh call get) (ctrl.calls.eraseIdx k)
          simpa only [step, get] using moved
  | doorbell newVal =>
      by_cases taken : ctrl.db = .idle ∧ newVal < ctrl.cq.size
      · rw [step, if_pos taken]
        constructor
        case ring => exact inv.ring
        case order => exact inv.order
        case settled => exact fun _ => inv.settled (taken.1 ▸ fun eq => by cases eq)
        case looked =>
          intro value startSqs looked
          cases looked
          exact host
      · rw [step, if_neg taken]
        exact inv
  | store =>
      cases db : ctrl.db with
      | idle =>
          rw [show step ctrl .store = ctrl by simp only [step, db]]
          exact inv
      | draining =>
          rw [show step ctrl .store = ctrl by simp only [step, db]]
          exact inv
      | looked newVal startSqs =>
          obtain ⟨lt, le⟩ := inv.looked newVal startSqs db
          simp only [Fresh, db, Db.Seen] at fresh
          have stored : step ctrl .store = { ctrl with
              cq := { ctrl.cq with head := newVal, acked := ctrl.cq.acked + moved ctrl.cq newVal }
              db := if startSqs then .draining else .idle } := by
            simp only [step, db]
          rw [stored]
          constructor
          case ring => exact ringOk_store inv.ring lt le
          case order => exact inv.order
          case settled =>
            intro idle
            right
            have notFull : ¬ nvmeCqFull ctrl.cq := by
              intro full
              rw [fresh, decide_eq_true full] at idle
              exact idle rfl
            exact (inv.settled (by rw [db]; exact fun eq => by cases eq)).resolve_left notFull
          case looked =>
            intro value start eq
            dsimp only at eq
            split at eq <;> cases eq
  | drain =>
      by_cases draining : ctrl.db = .draining
      · rw [step, if_pos draining]
        exact inv_drain inv (fresh draining)
      · rw [step, if_neg draining]
        exact inv

theorem inv_init {size : Nat} (pos : 0 < size) (slots : Nat → Cqe) :
    Inv (nvmeInitCq size slots) where
  ring :=
    { pos := pos
      acked := Nat.le_refl 0
      head := (Nat.zero_mod size).symm
      tail := (Nat.zero_mod size).symm
      phase := by
        change true = lapPhase (0 / size)
        rw [Nat.zero_div]
        rfl
      contents := Ring.contents_self size slots 0
      phases := fun i lt => absurd lt (Nat.not_lt_zero i) }
  order := rfl
  settled := fun _ => Or.inr rfl
  looked := fun _ _ eq => by cases eq

/-- For every queue size, every run in which the host acknowledges posted entries only and every
act finds the queue as it was seen keeps the promises of the queue. -/
theorem cq_ring_ok (size : Nat) (two : 2 ≤ size) (slots : Nat → Cqe) (ops : List Op)
    (allowed : system.Allowed (fun ctrl op => Host ctrl op ∧ Fresh ctrl op)
      (nvmeInitCq size slots) ops) :
    QueueOk (system.run (nvmeInitCq size slots) ops) := by
  have inv : Inv (system.run (nvmeInitCq size slots) ops) :=
    system.run_invariant _ Inv (fun _ op allowed inv => inv_step inv op allowed.1 allowed.2)
      (inv_init (Nat.lt_of_lt_of_le Nat.two_pos two) slots) allowed
  constructor
  case room => exact inv.ring.room
  case intact => exact fun i unread lt => inv.ring.intact unread lt
  case order => exact inv.order
  case phases => exact inv.ring.phases
  case settled => exact inv.settled

/-- Three completions on a queue of three slots, and a doorbell for the first two. -/
def oneWaiting : List Op :=
  [.complete 1, .act 0, .complete 2, .act 0, .complete 3, .act 0, .doorbell 2, .store, .drain]

theorem cq_ring_ok_one_waiting :
    QueueOk (system.run (nvmeInitCq 3 fun _ => ⟨0, false⟩) oneWaiting) :=
  cq_ring_ok 3 (by decide) (fun _ => ⟨0, false⟩) oneWaiting (by decide)

/-- With two completions waiting, the doorbell that frees two slots posts one of them. -/
theorem cq_ring_leaves_completion :
    ¬ ∀ (size : Nat) (slots : Nat → Cqe) (ops : List Op), 2 ≤ size →
      system.Allowed Host (nvmeInitCq size slots) ops →
        QueueOk (system.run (nvmeInitCq size slots) ops) := by
  intro ok
  have settled := (ok 3 (fun _ => ⟨0, false⟩)
    [.complete 1, .act 0, .complete 2, .act 0, .complete 3, .act 0, .complete 4, .act 0,
    .doorbell 2,
      .store, .drain] (by decide) (by decide)).settled
  exact absurd settled (by decide)

end OxCtrl.CqRing
