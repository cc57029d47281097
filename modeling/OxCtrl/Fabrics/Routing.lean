import Mathlib.Algebra.Group.Nat.Defs
import Mathlib.Data.Set.Basic

/-!
# Command identifiers

The host numbers the command slots of all its queues in one sequence.  The number travels in
the 16-bit `cid` field of the command and of the reply; both sides compute the queue and the
slot from it.
-/

namespace OxCtrl.Fabrics

/-- `OXF_QUEUE_SIZE`. -/
def oxfQueueSize : Nat := 2047

/-- `OXF_MAX_QUEUES`. -/
def oxfMaxQueues : Nat := 64

/-- `OXF_SERVER_MAX_CON`. -/
def oxfServerMaxCon : Nat := 64

/-- `NVME_MAX_QS`, the value of `max_q_ents`. -/
def nvmeMaxQs : Nat := 2047

/-- `cid` of a command slot, as `oxf_host_create_queue` computes it. -/
def slotCid (qid slot : Nat) : Nat :=
  (qid * oxfQueueSize + slot) % 2 ^ 32

/-- `cid` in the command, as `oxf_host_submit_io` stores it. -/
def wireCid (qid slot : Nat) : Nat :=
  slotCid qid slot % 2 ^ 16

/-- The queue of `oxf_fabrics_rcv_fn`; the capsule is dropped when there is no such queue. -/
def rcvSqId (cid : Nat) : Option Nat :=
  let sqId := cid / oxfQueueSize % 2 ^ 16
  if sqId ≥ oxfServerMaxCon then none else some sqId

/-- The queue of `nvmef_process_capsule`, which is `sq_id` of the reply. -/
def processCapsuleSqId (cid : Nat) : Nat :=
  cid / nvmeMaxQs % 2 ^ 16

/-- The command slot that `oxf_host_rcv_fn` looks up for a reply. -/
def replySlot (sqId cid : Nat) : Nat × Nat :=
  (sqId, cid % oxfQueueSize)

/-- A command of the host: a queue it can create and a slot of the queue. -/
structure HostSlot where
  qid : Nat
  slot : Nat
  qid_lt : qid < oxfMaxQueues
  slot_lt : slot < oxfQueueSize
  deriving DecidableEq

namespace HostSlot

/-- The identifier on the wire. -/
def cid (cmd : HostSlot) : Nat :=
  wireCid cmd.qid cmd.slot

/-- Both sides find the queue, and the reply finds the slot. -/
structure Routed (cmd : HostSlot) : Prop where
  rcv : rcvSqId cmd.cid = some cmd.qid
  process : processCapsuleSqId cmd.cid = cmd.qid
  reply : replySlot (processCapsuleSqId cmd.cid) cmd.cid = (cmd.qid, cmd.slot)

/-- The identifier fits the field. -/
def Fits (cmd : HostSlot) : Prop :=
  cmd.qid * oxfQueueSize + cmd.slot < 2 ^ 16

instance (cmd : HostSlot) : Decidable cmd.Fits :=
  inferInstanceAs (Decidable (_ < _))

theorem cid_of_fits {cmd : HostSlot} (fits : cmd.Fits) :
    cmd.cid = cmd.qid * oxfQueueSize + cmd.slot := by
  have lt : cmd.qid * oxfQueueSize + cmd.slot < 2 ^ 32 := Nat.lt_trans fits (by decide)
  rw [cid, wireCid, slotCid, Nat.mod_eq_of_lt lt, Nat.mod_eq_of_lt fits]

theorem cid_div {cmd : HostSlot} (fits : cmd.Fits) : cmd.cid / oxfQueueSize = cmd.qid := by
  rw [cid_of_fits fits, Nat.mul_comm, Nat.mul_add_div (by decide), Nat.div_eq_of_lt cmd.slot_lt,
    Nat.add_zero]

theorem cid_mod {cmd : HostSlot} (fits : cmd.Fits) : cmd.cid % oxfQueueSize = cmd.slot := by
  rw [cid_of_fits fits, Nat.mul_comm, Nat.mul_add_mod, Nat.mod_eq_of_lt cmd.slot_lt]

theorem routed_of_fits {cmd : HostSlot} (fits : cmd.Fits) : cmd.Routed := by
  have small : cmd.qid % 2 ^ 16 = cmd.qid :=
    Nat.mod_eq_of_lt (Nat.lt_trans cmd.qid_lt (by decide))
  have process : processCapsuleSqId cmd.cid = cmd.qid := by
    change cmd.cid / oxfQueueSize % 2 ^ 16 = cmd.qid
    rw [cid_div fits, small]
  refine ⟨?_, process, ?_⟩
  · rw [rcvSqId, cid_div fits, small]
    exact if_neg (Nat.not_le.mpr cmd.qid_lt)
  · rw [replySlot, process, cid_mod fits]

/-- An identifier that does not fit reaches another queue. -/
theorem not_routed_of_not_fits {cmd : HostSlot} (wide : ¬ cmd.Fits) : ¬ cmd.Routed := by
  intro routed
  have process := routed.process
  have qid_lt := cmd.qid_lt
  have slot_lt := cmd.slot_lt
  simp only [Fits, processCapsuleSqId, cid, wireCid, slotCid, oxfQueueSize, oxfMaxQueues,
    nvmeMaxQs] at *
  omega

end HostSlot

/-- The commands of a set find their queues and slots, and no two share an identifier, exactly
when all identifiers fit 16 bits. -/
theorem cids_route_iff (cmds : Set HostSlot) :
    ((∀ cmd ∈ cmds, cmd.Routed) ∧
        ∀ first ∈ cmds, ∀ second ∈ cmds, first.cid = second.cid → first = second) ↔
      ∀ cmd ∈ cmds, cmd.qid * oxfQueueSize + cmd.slot < 2 ^ 16 := by
  constructor
  · rintro ⟨routed, _⟩ cmd mem
    by_contra wide
    exact HostSlot.not_routed_of_not_fits wide (routed cmd mem)
  · intro fits
    refine ⟨fun cmd mem => HostSlot.routed_of_fits (fits cmd mem), ?_⟩
    intro first firstMem second secondMem same
    have qid : first.qid = second.qid := by
      rw [← HostSlot.cid_div (fits first firstMem), same, HostSlot.cid_div (fits second secondMem)]
    have slot : first.slot = second.slot := by
      rw [← HostSlot.cid_mod (fits first firstMem), same, HostSlot.cid_mod (fits second secondMem)]
    cases first
    cases second
    cases qid
    cases slot
    rfl

/-- All slots of a queue fit exactly up to queue 31. -/
theorem queue_fits_iff {qid : Nat} (qid_lt : qid < oxfMaxQueues) :
    (∀ (slot : Nat) (slot_lt : slot < oxfQueueSize),
      (HostSlot.mk qid slot qid_lt slot_lt).Fits) ↔ qid < 32 := by
  simp only [HostSlot.Fits, oxfQueueSize]
  constructor
  · intro fits
    have last := fits 2046 (by decide)
    omega
  · intro low slot slot_lt
    omega

/-- Slot 32 of queue 32 has the identifier of slot 0 of queue 0. -/
theorem cids_collide :
    ¬ ((∀ cmd : HostSlot, cmd.Routed) ∧ ∀ first second : HostSlot,
      first.cid = second.cid → first = second) := by
  rintro ⟨routed, _⟩
  have rcv := (routed ⟨32, 32, by decide, by decide⟩).rcv
  exact absurd rcv (by decide)

end OxCtrl.Fabrics
