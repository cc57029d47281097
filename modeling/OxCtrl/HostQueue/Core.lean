import OxCtrl.Fabrics.Placement
import OxCtrl.Fabrics.Routing
import OxCtrl.Mq.Trace

/-!
# A queue pair of the host

`ox-host.c` gives a command a slot of its queue pair, submits the slot to a multi-queue, sends its
capsule from `sq_fn`, stores the reply in the slot and completes the request.  `cq_fn` calls the
user's function and frees the slot, and `to_fn` writes a status into the slots of late commands.

Calls of the user, of the multi-queue and of the connection that are in progress form a list of
tasks.  A step is a section under `cmd_spin`, a step of the multi-queue with the function it calls
up to its first wait, or the accesses to a slot in between.
-/

namespace OxCtrl.HostQueue

open OxCtrl.Lib OxCtrl.Mq OxCtrl.Fabrics

/-- `NVME_HOST_TIMEOUT`. -/
def nvmeHostTimeout : Nat := 0x287

/-- `NVME_NOT_SUBMITTED`. -/
def nvmeNotSubmitted : Nat := 0x289

/-- `struct nvme_cqe`. -/
structure Cqe where
  result : Nat := 0
  rsvd : Nat := 0
  sqHead : Nat := 0
  sqId : Nat := 0
  cid : Nat := 0
  status : Nat := 0
  deriving DecidableEq, Repr

/-- `oxf_fabrics_set_direction`. -/
def oxfFabricsSetDirection (cmd : NvmeCmd) : Bool :=
  cmd.opcode = 0x01 || cmd.opcode = 0xfd || cmd.opcode = 0xa1

/-- The command and the SGL of a call of `oxf_host_submit_io`. -/
structure Command where
  cmd : NvmeCmd
  descs : List SglDesc

/-- `struct oxf_queue_cmd`.  In place of the user's pointer, `ctx` has the number of the call that
has passed it.  `capsule` is `capsule.sqc` with `capsule.size`, and `cqe` and `data` are
`capsule.cqc`. -/
structure QueueCmd where
  isWrite : Bool
  ctx : Option Nat
  mqReq : Option Nat
  capsule : HostCapsule
  cqe : Cqe
  data : List UInt8

theorem length_zeroSgl : (List.replicate (nvmefSglSz / 16) SglDesc.zero).length = nvmefSglSz / 16 :=
  List.length_replicate

/-- A capsule with this command and no SGL. -/
def bareCapsule (cmd : NvmeCmd) : SqCapsule where
  cmd := cmd
  sgl := List.replicate (nvmefSglSz / 16) SglDesc.zero
  sgl_length := length_zeroSgl

/-- `calloc`. -/
def QueueCmd.zero : QueueCmd where
  isWrite := false
  ctx := none
  mqReq := none
  capsule :=
    { capsule := bareCapsule (NvmeCmd.ofBytes []),
      data := List.replicate oxfSqcMaxData 0, bytes := 0 }
  cqe := {}
  data := List.replicate oxfCqcMaxData 0

/-- What is left of a call of the user, of `sq_fn`, of `cq_fn` or of `oxf_host_rcv_fn`. -/
inductive HostTask where
  /-- `oxf_host_submit_io` has a slot. -/
  | filling (call slot : Nat) (command : Command)
  /-- `oxf_host_submit_io` in front of `ox_mq_submit_req`. -/
  | submitting (call slot : Nat)
  /-- `oxf_host_submit_io` at `REQUEUE`. -/
  | refusing (call slot : Nat)
  /-- `oxf_host_process_sq` in the loop that sends the capsule. -/
  | sending (n slot req : Nat)
  /-- `oxf_host_process_sq` in front of `ox_mq_complete_req`. -/
  | aborting (n req : Nat)
  /-- `oxf_host_rcv_fn` in front of `ox_mq_complete_req`. -/
  | received (n slot req : Nat)
  /-- `oxf_host_process_cq` behind the call of the user's function. -/
  | calledBack (slot : Nat)

/-- The pointer that a submission passes to the multi-queue, and the call that it is for. -/
structure Opaque where
  slot : Nat
  call : Nat
  deriving DecidableEq, Repr

/-- A capsule on its way to the target: the submission, its entry, and `cid` of the command. -/
structure OnWire where
  n : Nat
  req : Nat
  cid : Nat
  deriving DecidableEq, Repr

/-- A queue pair, the memory of the user, the calls in progress and the capsules on their way. -/
structure Host where
  mq : MqState
  slots : Nat → QueueCmd
  free : List Nat
  used : List Nat
  mem : Nat → UInt8
  tasks : List HostTask := []
  opaques : List Opaque := []
  wire : List OnWire := []
  nCalls : Nat := 0

/-- The multi-queue of a queue pair in `oxf_host_create_queue`. -/
def hostConf : Config where
  nQueues := 1
  qSize := oxfQueueSize
  toComplete := true

/-- `oxf_host_create_queue`. -/
def oxfHostCreateQueue (mem : Nat → UInt8) : Host where
  mq := oxMqInit hostConf
  slots _ := QueueCmd.zero
  free := List.range oxfQueueSize
  used := []
  mem := mem

/-- What happens to a call of `oxf_host_submit_io`: it returns, its capsule is given to the
connection or given up, a reply for it is stored in a slot and in the memory of the user, the
multi-queue reports that it is late, and the user's function is called for it. -/
inductive Event where
  | submitted (call : Nat) (isWrite : Bool) (capsule : HostCapsule)
  | refused (call : Nat)
  | sent (call : Nat) (capsule : HostCapsule)
  | aborted (call : Nat)
  | received (call : Nat) (cqe : Cqe) (data : List UInt8)
  | stored (call : Nat) (sgl : List SglDesc) (data : List UInt8)
  | timedOut (call : Nat)
  | called (call : Nat) (cqe : Cqe)

/-- The size, the completion entry and the data of a reply capsule; `type` is `OXF_CQE_BYTE`. -/
structure Reply where
  size : Nat
  cqe : Cqe
  data : List UInt8

/-- A step of a queue pair. -/
inductive HostOp where
  /-- A round of `oxf_host_submit_io` for a slot, which may be the last of `OXF_RETRY`. -/
  | submitIo (command : Command) (lastRound : Bool)
  | next (index : Nat) (ok : Bool)
  | mq (op : Op)
  | receive (index : Nat) (reply : Reply)

namespace Host

/-- Change a slot. -/
def setSlot (host : Host) (slot : Nat) (value : QueueCmd) : Host :=
  { host with slots := Function.update host.slots slot value }

/-- A task goes on. -/
def become (host : Host) (index : Nat) (left : List HostTask) : Host :=
  { host with tasks := replaceAt host.tasks index left }

end Host

/-- The command that `oxf_host_submit_io` puts in the capsule. -/
def hostCmd (qid slot : Nat) (cmd : NvmeCmd) : NvmeCmd :=
  { cmd with
    cid := UInt16.ofNat (slotCid qid slot)
    psdt := .sgl
    sgl := { cmd.sgl with type := .bitBucket, word := 0 } }

/-- `oxf_host_submit_io` up to the end of `cmd_spin`: it tries again while there is no free slot. -/
def oxfHostSubmitIo (host : Host) (command : Command) (lastRound : Bool) : Host × List Event :=
  if command.descs.length * 16 > nvmefSglSz then
    ({ host with nCalls := host.nCalls + 1 }, [.refused host.nCalls])
  else
    match host.free with
    | [] =>
        if lastRound then ({ host with nCalls := host.nCalls + 1 }, [.refused host.nCalls])
        else (host, [])
    | slot :: rest =>
        ({ host with
            free := rest
            used := host.used ++ [slot]
            tasks := host.tasks ++ [.filling host.nCalls slot command]
            nCalls := host.nCalls + 1 }, [])

/-- `oxf_host_submit_io` from `oxf_fabrics_set_direction` to `ox_mq_submit_req`.  A copy that leaves
the capsule has no next state. -/
def fillSlot (qid : Nat) (host : Host) (index call slot : Nat) (command : Command) : Host :=
  let cmd := hostCmd qid slot command.cmd
  let isWrite := oxfFabricsSetDirection cmd
  let old := host.slots slot
  match oxfHostPrepareSqCapsule host.mem old.capsule.data cmd command.descs isWrite with
  | none => host
  | some capsule =>
      if capsule.bytes > oxfFabCapsSz then
        (host.setSlot slot { old with isWrite := isWrite, capsule := capsule }).become index
          [.refusing call slot]
      else
        (host.setSlot slot
          { isWrite := isWrite
            ctx := some call
            mqReq := none
            capsule := capsule
            cqe := { cid := slotCid qid slot % 2 ^ 16, sqId := qid }
            data := old.data }).become index [.submitting call slot]

/-- `ox_mq_submit_req` for a slot, and what `oxf_host_submit_io` does with its result. -/
def submitSlot (host : Host) (index call slot : Nat) : Host × List Event :=
  let after := oxMqSubmitReq host.mq 0 false
  if host.mq.nSubmitted < after.nSubmitted then
    ({ host.become index [] with mq := after, opaques := host.opaques ++ [⟨slot, call⟩] },
      [.submitted call (host.slots slot).isWrite (host.slots slot).capsule])
  else (host.become index [.refusing call slot], [])

/-- The section at the end of `oxf_host_submit_io` and of `oxf_host_process_cq`. -/
def putSlot (host : Host) (index slot : Nat) : Host :=
  { host.become index [] with used := host.used.erase slot, free := host.free ++ [slot] }

/-- The call that a submission is for. -/
def Host.callOf (host : Host) (n : Nat) : List Nat :=
  (host.opaques[n]?.map Opaque.call).toList

/-- The loop of `oxf_host_process_sq` ends: the capsule is sent, or `OXF_RETRY` calls of `send` have
failed and the status is written. -/
def sendSlot (host : Host) (index n slot req : Nat) (ok : Bool) : Host × List Event :=
  if ok then
    ({ host.become index [] with
        wire := host.wire ++ [⟨n, req, (host.slots slot).capsule.capsule.cmd.cid.toNat⟩] },
      (host.callOf n).map fun call => .sent call (host.slots slot).capsule)
  else
    match (host.mq.entries req).opaqueOf with
    | none => (host, [])
    | some m =>
        match host.opaques[m]? with
        | none => (host, [])
        | some pointer =>
            let old := host.slots pointer.slot
            ((host.setSlot pointer.slot
                { old with cqe := { old.cqe with status := nvmeNotSubmitted } }).become index
                  [.aborting n req],
              [.aborted pointer.call])

/-- A call of `ox_mq_complete_req` goes through `entry_mutex`. -/
def completeReq (host : Host) (index req : Nat) : Host :=
  if host.mq.entryLocked req then host
  else { host.become index [] with mq := oxMqCompleteReq host.mq req }

/-- The next step of a task.  `oxf_host_process_sq` completes an aborted request in the multi-queue
of the pair whose number is `qid` of the entry, which is 0: the step is that of pair 0. -/
def hostTaskStep (qid : Nat) (host : Host) (index : Nat) (ok : Bool) : HostTask → Host × List Event
  | .filling call slot command => (fillSlot qid host index call slot command, [])
  | .submitting call slot => submitSlot host index call slot
  | .refusing call slot => (putSlot host index slot, [.refused call])
  | .sending n slot req => sendSlot host index n slot req ok
  | .aborting _ req => (completeReq host index req, [])
  | .received _ slot _ =>
      match (host.slots slot).mqReq with
      | none => (host, [])
      | some req => (completeReq host index req, [])
  | .calledBack slot => (putSlot host index slot, [])

/-- `oxf_host_process_to`: it begins with the last pointer. -/
def oxfHostProcessTo (slots : Nat → QueueCmd) : List Opaque → Nat → QueueCmd
  | [] => slots
  | pointer :: rest =>
      let slots := oxfHostProcessTo slots rest
      let old := slots pointer.slot
      Function.update slots pointer.slot
        { old with cqe := { old.cqe with status := nvmeHostTimeout } }

/-- The pointers of submissions. -/
def Host.pointers (host : Host) (numbers : List (Option Nat)) : List Opaque :=
  (numbers.map fun number => number.bind fun n => host.opaques[n]?).reduceOption

/-- The multi-queue has taken a step, and this is the function it calls. -/
def oxfHostCallback (host : Host) (after : MqState) : Callback → Host × List Event
  | .sqFn req =>
      -- `oxf_host_process_sq` up to its loop
      match (host.mq.entries req).opaqueOf with
      | none => ({ host with mq := after }, [])
      | some n =>
          match host.opaques[n]? with
          | none => ({ host with mq := after }, [])
          | some pointer =>
              ({ host.setSlot pointer.slot
                  { host.slots pointer.slot with mqReq := some req } with
                mq := after
                tasks := host.tasks ++ [.sending n pointer.slot req] }, [])
  | .toFn numbers =>
      ({ host with mq := after, slots := oxfHostProcessTo host.slots (host.pointers numbers) },
        (host.pointers numbers).map fun pointer => .timedOut pointer.call)
  | .cqFn n =>
      -- `oxf_host_process_cq` up to `cmd_spin`
      match host.opaques[n]? with
      | none => ({ host with mq := after }, [])
      | some pointer =>
          ({ host with mq := after, tasks := host.tasks ++ [.calledBack pointer.slot] },
            (host.slots pointer.slot).ctx.toList.map fun call =>
              .called call (host.slots pointer.slot).cqe)

/-- A step of the multi-queue.  Its user is the host alone. -/
def hostMqStep (host : Host) : Op → Host × List Event
  | .submit _ _ | .complete _ => (host, [])
  | op =>
      let after := Mq.step hostConf host.mq op
      match callback host.mq op with
      | none => ({ host with mq := after }, [])
      | some call => oxfHostCallback host after call

/-- `oxf_host_rcv_fn` up to `ox_mq_complete_req`, for the reply to a capsule.  The target has copied
`cid` of the command, and the host looks the slot up with it. -/
def oxfHostRcvFn (host : Host) (index : Nat) (capsule : OnWire) (reply : Reply) :
    Host × List Event :=
  let gone := { host with wire := host.wire.eraseIdx index }
  if reply.size < oxfFabCqeSz ∨ reply.size > oxfFabCapsSz then (gone, [])
  else
    let slot := (replySlot (processCapsuleSqId capsule.cid) capsule.cid).2
    let old := host.slots slot
    let cqe := { reply.cqe with cid := capsule.cid, sqId := processCapsuleSqId capsule.cid }
    -- the copy begins at the completion entry, and its size counts the header
    let data := reply.data.take (reply.size - 16) ++ old.data.drop (reply.size - 16)
    let after := gone.setSlot slot { old with cqe := cqe, data := data }
    let heard := (host.callOf capsule.n).map fun call => Event.received call cqe data
    let task := HostTask.received capsule.n slot capsule.req
    if old.isWrite then ({ after with tasks := host.tasks ++ [task] }, heard)
    else
      let copied := copyBackLoop data old.capsule.capsule.sgl 0 host.mem
      ({ after with mem := copied.1, tasks := host.tasks ++ if copied.2 then [task] else [] },
        heard ++ (host.callOf capsule.n).map fun call => .stored call old.capsule.capsule.sgl data)

/-- One step of a queue pair; a step that is not possible changes nothing. -/
def hostStep (qid : Nat) (host : Host) : HostOp → Host × List Event
  | .submitIo command lastRound => oxfHostSubmitIo host command lastRound
  | .next index ok =>
      match host.tasks[index]? with
      | none => (host, [])
      | some task => hostTaskStep qid host index ok task
  | .mq op => hostMqStep host op
  | .receive index reply =>
      match host.wire[index]? with
      | none => (host, [])
      | some capsule => oxfHostRcvFn host index capsule reply

/-- All interleavings. -/
def hostSystem (qid : Nat) : System Host HostOp (List Event) where
  step := hostStep qid

end OxCtrl.HostQueue
