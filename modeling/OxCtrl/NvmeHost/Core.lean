import Mathlib.Algebra.Order.Ring.Nat
import Mathlib.Data.List.Basic

/-!
# Reads and writes of the host

`nvmeh_rw` cuts a buffer into commands and submits them one after another.  The commands share a
context, and `nvmeh_callback` counts in it the commands that have ended.  The callback that counts
the last one reads the statuses, calls the user and gives the context back.
-/

namespace OxCtrl.NvmeHost

/-- `OXF_BLK_SIZE`. -/
def oxfBlkSize : Nat := 4096

/-- `OXF_SQC_MAX_DATA`. -/
def oxfSqcMaxData : Nat := 65184

/-- `NVMEH_MAX_CMD_BATCH`. -/
def nvmehMaxCmdBatch : Nat := 260

/-- `NVME_NOT_SUBMITTED`. -/
def nvmeNotSubmitted : UInt16 := 0x0289

/-- `blk_per_cmd`. -/
def blkPerCmd : Nat := oxfSqcMaxData / oxfBlkSize

/-! ## Commands -/

/-- Arguments of `nvmeh_rw`, and `oxf_host_queue_count` during the call. -/
structure Args where
  buf : Nat
  size : Nat
  slba : UInt64
  isWrite : Bool
  nQueues : Nat
  deriving DecidableEq, Repr

namespace Args

variable (args : Args)

/-- `nblk`, which has 32 bits. -/
def nblk : Nat :=
  args.size / oxfBlkSize % 2 ^ 32

/-- `n_cmd`. -/
def nCmd : Nat :=
  args.nblk / blkPerCmd + if args.nblk % blkPerCmd ≠ 0 then 1 else 0

/-- The checks at the beginning of `nvmeh_rw`. -/
def Accepted : Prop :=
  args.size % oxfBlkSize = 0 ∧ args.buf ≠ 0 ∧ args.size ≠ 0 ∧ args.nCmd ≤ nvmehMaxCmdBatch

instance : Decidable args.Accepted :=
  inferInstanceAs (Decidable (_ ∧ _ ∧ _ ∧ _))

end Args

/-- A command of `nvmeh_rw` with its queue and its SGL descriptor. -/
structure Cmd where
  queue : Nat
  isWrite : Bool
  slba : UInt64
  nlb : UInt16
  addr : Nat
  length : Nat
  deriving DecidableEq, Repr

/-- `buf_sz[0]` for the command at an offset. -/
def shorten (args : Args) (bufOff bufSz : Nat) : Nat :=
  if bufOff + bufSz > args.size then args.size - bufOff else bufSz

/-- `cmd[cmd_i]`. -/
def cmdAt (args : Args) (cmdI bufOff bufSz : Nat) : Cmd where
  queue := cmdI % (args.nQueues - 1) + 1
  isWrite := args.isWrite
  slba := args.slba + UInt64.ofNat (cmdI * blkPerCmd % 2 ^ 32)
  nlb := UInt16.ofNat (bufSz / oxfBlkSize - 1)
  addr := args.buf + bufOff
  length := bufSz

/-! ## Contexts -/

/-- `nvmeh_ctx`.  The user context is the call of `nvmeh_rw`. -/
structure Ctx where
  userCtx : Nat := 0
  status : Nat → UInt16 := fun _ => 0
  nCmd : Nat := 0
  completed : Nat := 0
  failed : Nat := 0
  isWrite : Bool

/-- The free and the used contexts. -/
structure Pool where
  free : List Nat
  used : List Nat
  deriving DecidableEq, Repr

/-- The lists of `nvmeh_ctxr_get` and `nvmeh_ctxw_get`; none when every retry finds no context. -/
def Pool.get (pool : Pool) : Option (Nat × Pool) :=
  match pool.free with
  | [] => none
  | id :: rest => some (id, { free := rest, used := pool.used ++ [id] })

/-- The lists of `nvmeh_ctxr_put` and `nvmeh_ctxw_put`. -/
def Pool.put (pool : Pool) (id : Nat) : Pool where
  free := pool.free ++ [id]
  used := pool.used.erase id

/-- The context that `nvmeh_ctxw_get` returns, with the fields that `nvmeh_rw` sets. -/
def Ctx.begin (ctx : Ctx) (call nCmd : Nat) : Ctx where
  userCtx := call
  nCmd := nCmd
  isWrite := ctx.isWrite

/-- `failed` and `completed` after a command has been counted. -/
def Ctx.tally (ctx : Ctx) (cmdI : Nat) : Ctx :=
  { ctx with
    failed := if ctx.status cmdI ≠ 0 then ctx.failed + 1 else ctx.failed
    completed := ctx.completed + 1 }

/-- `first_status`. -/
def firstStatus (nCmd : Nat) (status : Nat → UInt16) : UInt16 :=
  (((List.range nCmd).map status).find? (· ≠ 0)).getD 0

/-! ## Threads -/

/-- Where the thread of `nvmeh_rw` is: in front of a round of the submission loop, in front of a
round of the loop at `REQUEUE`, in the callback of that round, or out of the function. -/
inductive Submitter where
  | submitting (cmdI bufOff bufSz : Nat)
  | requeueing (cmdI : Nat)
  | inCallback (cmdI : Nat)
  | returned (ok : Bool)
  deriving DecidableEq, Repr

/-- The condition of the submission loop. -/
def nextRound (args : Args) (cmdI bufOff bufSz : Nat) : Submitter :=
  if cmdI < args.nCmd then .submitting cmdI bufOff bufSz else .returned true

/-- Where a command is: not submitted, submitted, or in `nvmeh_callback` in front of the lock, of
the loop over the statuses, of `user_cb` or of the release of the context. -/
inductive Phase where
  | idle
  | inFlight
  | counting
  | scanning
  | calling (firstStatus : UInt16)
  | putting
  | done
  deriving DecidableEq, Repr

/-- A call of `nvmeh_rw` that has a context.  `outcome` is the status with which `nvmeh_callback`
was called for a command; no code reads it. -/
structure Request where
  args : Args
  ctx : Nat
  submitter : Submitter
  phase : Nat → Phase := fun _ => .idle
  issued : List Cmd := []
  outcome : Nat → Option UInt16 := fun _ => none

/-- What one submission of the loop does: `oxf_host_alloc_sgl` fails, `oxf_host_submit_io` fails,
or the command is in flight. -/
inductive Submission where
  | noSgl
  | refused
  | accepted
  deriving DecidableEq, Repr

/-- Steps of the threads of a call. -/
inductive Act where
  | submit (result : Submission)
  | requeue
  /-- The fabric ends a command in flight, which it does once. -/
  | complete (cmdI : Nat) (status : UInt16)
  | count (cmdI : Nat)
  | scan (cmdI : Nat)
  | call (cmdI : Nat)
  | put (cmdI : Nat)
  deriving DecidableEq, Repr

/-- What a step does outside the call and its context. -/
inductive Effect where
  | quiet
  | userCb (userCtx : Nat) (status : UInt16)
  | put
  deriving DecidableEq, Repr

namespace Request

variable (req : Request)

/-- The thread of `nvmeh_rw` behind a callback that it has called for a command. -/
def resume (cmdI : Nat) : Submitter :=
  if req.submitter = .inCallback cmdI then
    if cmdI + 1 < req.args.nCmd then .requeueing (cmdI + 1) else .returned false
  else req.submitter

/-- `nvmeh_callback` returns. -/
def leave (cmdI : Nat) : Request :=
  { req with
    phase := Function.update req.phase cmdI .done
    submitter := req.resume cmdI }

/-- A round of the submission loop. -/
def submit (ctx : Ctx) (result : Submission) : Option (Request × Ctx × Effect) :=
  match req.submitter with
  | .submitting cmdI bufOff bufSz =>
      let bufSz := shorten req.args bufOff bufSz
      match result with
      | .noSgl => some ({ req with submitter := .requeueing cmdI }, ctx, .quiet)
      | .refused =>
          some ({ req with submitter := .requeueing cmdI },
            { ctx with status := Function.update ctx.status cmdI 0 }, .quiet)
      | .accepted =>
          some
            ({ req with
                submitter := nextRound req.args (cmdI + 1) (bufOff + bufSz) bufSz
                phase := Function.update req.phase cmdI .inFlight
                issued := req.issued ++ [cmdAt req.args cmdI bufOff bufSz] },
              { ctx with status := Function.update ctx.status cmdI 0 }, .quiet)
  | _ => none

/-- `nvmeh_callback` up to the lock. -/
def enter (ctx : Ctx) (cmdI : Nat) (status : UInt16) : Request × Ctx :=
  ({ req with
      phase := Function.update req.phase cmdI .counting
      outcome := Function.update req.outcome cmdI (some status) },
    { ctx with status := Function.update ctx.status cmdI status })

/-- A round of the loop at `REQUEUE`, up to the lock in the callback. -/
def requeue (ctx : Ctx) : Option (Request × Ctx × Effect) :=
  match req.submitter with
  | .requeueing cmdI =>
      let entered := req.enter ctx cmdI nvmeNotSubmitted
      some ({ entered.1 with submitter := .inCallback cmdI }, entered.2, .quiet)
  | _ => none

/-- The part of `nvmeh_callback` under the lock. -/
def count (ctx : Ctx) (cmdI : Nat) : Request :=
  if (ctx.tally cmdI).completed ≥ ctx.nCmd then
    { req with phase := Function.update req.phase cmdI .scanning }
  else req.leave cmdI

/-- One step of a thread of the call. -/
def step (ctx : Ctx) : Act → Option (Request × Ctx × Effect)
  | .submit result => req.submit ctx result
  | .requeue => req.requeue ctx
  | .complete cmdI status =>
      if req.phase cmdI = .inFlight then
        some ((req.enter ctx cmdI status).1, (req.enter ctx cmdI status).2, .quiet)
      else none
  | .count cmdI =>
      if req.phase cmdI = .counting then
        some (req.count ctx cmdI, ctx.tally cmdI, .quiet)
      else none
  | .scan cmdI =>
      if req.phase cmdI = .scanning then
        let first := if ctx.failed ≠ 0 then firstStatus ctx.nCmd ctx.status else 0
        some ({ req with phase := Function.update req.phase cmdI (.calling first) }, ctx, .quiet)
      else none
  | .call cmdI =>
      match req.phase cmdI with
      | .calling first =>
          some ({ req with phase := Function.update req.phase cmdI .putting }, ctx,
            .userCb ctx.userCtx first)
      | _ => none
  | .put cmdI =>
      if req.phase cmdI = .putting then some (req.leave cmdI, ctx, .put) else none

end Request

/-- The host: its contexts, the calls of `nvmeh_rw` that have one, and the calls of the user
callback. -/
structure Host where
  ctxw : Pool
  ctxr : Pool
  ctx : Nat → Ctx
  requests : Nat → Option Request := fun _ => none
  called : List (Nat × UInt16) := []

/-- `nvmeh_init_ctx_write` and `nvmeh_init_ctx_read`. -/
def nvmehInit (writeEntries readEntries : Nat) : Host where
  ctxw := { free := List.range writeEntries, used := [] }
  ctxr := { free := List.range' writeEntries readEntries, used := [] }
  ctx id := { isWrite := decide (id < writeEntries) }

/-- Steps of the host. -/
inductive HostAct where
  /-- A new call of `nvmeh_rw`, up to its first submission. -/
  | rw (call : Nat) (args : Args)
  | inside (call : Nat) (act : Act)
  deriving DecidableEq, Repr

namespace Host

variable (host : Host)

/-- `nvmeh_rw` up to the loop.  A call that is rejected or finds no context returns -1 and leaves
nothing behind. -/
def nvmehRw (call : Nat) (args : Args) : Host :=
  if args.Accepted then
    match host.ctxw.get with
    | none => host
    | some (id, ctxw) =>
        { host with
          ctxw := ctxw
          ctx := Function.update host.ctx id ((host.ctx id).begin call args.nCmd)
          requests := Function.update host.requests call
            (some
              { args := args
                ctx := id
                submitter := nextRound args 0 0 (blkPerCmd * oxfBlkSize) }) }
  else host

/-- What a step does to the lists of contexts and to the user. -/
def effect (ctx : Nat) : Effect → Host
  | .quiet => host
  | .userCb userCtx status => { host with called := host.called ++ [(userCtx, status)] }
  | .put =>
      if (host.ctx ctx).isWrite then { host with ctxw := host.ctxw.put ctx }
      else { host with ctxr := host.ctxr.put ctx }

/-- One step; none when it is not possible. -/
def step : HostAct → Option Host
  | .rw call args =>
      match host.requests call with
      | none => some (host.nvmehRw call args)
      | some _ => none
  | .inside call act =>
      match host.requests call with
      | none => none
      | some req =>
          (req.step (host.ctx req.ctx) act).map fun result =>
            { host with
                ctx := Function.update host.ctx req.ctx result.2.1
                requests := Function.update host.requests call (some result.1) }.effect req.ctx
              result.2.2

end Host

/-- The states of a host. -/
inductive Reachable (writeEntries readEntries : Nat) : Host → Prop where
  | init : Reachable writeEntries readEntries (nvmehInit writeEntries readEntries)
  | step {host next : Host} (act : HostAct) (before : Reachable writeEntries readEntries host)
      (result : host.step act = some next) : Reachable writeEntries readEntries next

end OxCtrl.NvmeHost
