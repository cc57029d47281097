import OxCtrl.Geometry
import OxCtrl.NvmeParser

/-!
# Execution of I/O commands

`ox_execute_opcode` calls the parser of a command.  A write goes on to `ox_submit_ftl` and the
FTL queue, a read to the mapping table, `ppa_io_submit` and the media manager.  On the way
each function may complete the request, leave it to a queue, or leave it to its caller; the
caller decides by the return code and the status byte of the command.
-/

namespace OxCtrl.Exec

open OxCtrl.Fabrics OxCtrl.NvmeParser

/-- `NVME_SUCCESS`. -/
def nvmeSuccess : Nat := 0x0000

/-- `NVME_DATA_TRAS_ERROR`. -/
def nvmeDataTrasError : Nat := 0x0004

/-- `NVME_CMD_ABORT_REQ`. -/
def nvmeCmdAbortReq : Nat := 0x0007

/-- `NVME_INVALID_FORMAT`. -/
def nvmeInvalidFormat : Nat := 0x010a

/-- `NVME_NO_COMPLETE`. -/
def nvmeNoComplete : Nat := 0xffff

/-- `NVM_QUEUE_RETRY`. -/
def nvmQueueRetry : Nat := 10000

/-- `APP_IO_RETRY`. -/
def appIoRetry : Nat := 0

/-- `AND64`. -/
def and64 : Nat := 2 ^ 64 - 1

/-- `status.status` of `struct nvm_io_cmd`. -/
inductive IoStatus where
  | success
  | fail
  | process
  | new
  | timeout
  deriving DecidableEq, Repr

/-- The fields of `NvmeRequest` and its `nvm_io` that decide on completions, and what has
happened so far: the status of each call of `ox_complete_request`, and the number of entries
of a queue that will complete the request later.  `channel[64]` and `ppalist[256]` of `nvm_io`
lie one after another and are written beyond the first one, so they are one array. -/
structure Request where
  cmd : NvmeCmd
  words : Nat → Nat := fun _ => 0
  status : Nat := 0
  ioStatus : IoStatus := .new
  nvmeStatus : Nat := 0
  completions : List Nat := []
  waiting : Nat := 0

namespace Request

/-- `channel[sec]`. -/
def channel (req : Request) (sec : Nat) : Nat := req.words sec

/-- `ppalist[sec]`. -/
def ppalist (req : Request) (sec : Nat) : Ppa := Ppa.ofNat (req.words (64 + sec))

/-- `ox_complete_request`, after `status` has been stored. -/
def complete (req : Request) (status : Nat) : Request :=
  { req with status := status, completions := req.completions ++ [status] }

/-- Calls of `ox_complete_request`, and one more if a queue will complete the request. -/
def count (req : Request) : Nat :=
  req.completions.length + min 1 req.waiting

end Request

/-- `core.std_ftl` with `core.std_oxapp`. -/
inductive Ftl where
  | lnvm
  | eleos
  | block
  deriving DecidableEq, Repr

/-- The core, and the answers of the parts that a command meets: the mapping table, the address
of a channel in `ch_info`, the sector size of the channel at an address, the FTL of a channel,
and the outcome of each call of `ox_mq_submit_req` and of `read_pg` (`true` when the queue has
taken the command). -/
structure Core where
  limits : Limits
  memory : SglMemory
  lnvmParser : Bool
  ftl : Ftl
  nsSize : Nat
  chCount : Nat
  readFn : Nat → Nat
  chInfo : Nat → Nat
  secSize : Nat → Nat
  chFtl : Nat → Nat
  mqSubmit : Nat → Bool
  readPg : Nat → Bool

/-- The loop of `ox_submit_ftl` over the PPA list: `NVME_INVALID_FIELD` for `CH_ERR` and
`FTL_ERR`. -/
def checkPpas (core : Core) (ppalist : Nat → Ppa) (ftl : Nat) : List Nat → Bool
  | [] => true
  | sec :: rest =>
      let ch := (ppalist sec).ch.val
      if ch ≥ core.chCount then false
      else if core.chFtl ch ≠ ftl then false
      else checkPpas core ppalist ftl rest

/-- The status of an error of `ox_submit_ftl`, if the command is not for the FTL. -/
def ftlError (core : Core) (req : Request) : Option Nat :=
  let nSec := blocks req.cmd
  match core.ftl with
  | .lnvm =>
      if (req.ppalist 0).ch.val ≥ core.chCount then some nvmeInvalidField
      else if checkPpas core req.ppalist (core.chFtl (req.ppalist 0).ch.val) (List.range nSec)
        then none
      else some nvmeInvalidField
  | .eleos => none
  | .block =>
      if req.cmd.slba > core.nsSize / nvmeKernelPgSize ∨
          (req.cmd.slba + nvmeKernelPgSize * nSec) % 2 ^ 64 > core.nsSize then
        some nvmeLbaRange
      else none

/-- The loop around `ox_mq_submit_req`: the call with number `attempt` is next. -/
def submitLoop (core : Core) : Nat → Nat → Bool
  | 0, _ => false
  | retry + 1, attempt => core.mqSubmit attempt || submitLoop core retry (attempt + 1)

/-- `ox_submit_ftl`. -/
def oxSubmitFtl (core : Core) (req : Request) : Request × Nat :=
  let req := { req with nvmeStatus := nvmeSuccess }
  match req.ioStatus with
  | .fail => (req.complete nvmeCmdAbortReq, nvmeCmdAbortReq)
  | .success => (req.complete nvmeSuccess, nvmeSuccess)
  | .timeout => (req.complete nvmeCmdAbortReq, nvmeCmdAbortReq)
  | .new | .process =>
      match ftlError core req with
      -- the request is completed here, and its status stays as it is
      | some status => (req.complete status, status)
      | none =>
          let req := { req with ioStatus := .process }
          if submitLoop core nvmQueueRetry 0 then
            ({ req with waiting := req.waiting + 1 }, nvmeNoComplete)
          else (req, nvmeCmdAbortReq)

/-! ## Reads -/

/-- The loop of `nvme_parser_read_submit`.  `channel[sec]` lies in front of `ppalist`, and
behind its 64 items it is `ppalist[sec - 64]`. -/
def readMap (core : Core) (slba : Nat) : Nat → Nat → (Nat → Nat) → Option (Nat → Nat)
  | 0, _, words => some words
  | rest + 1, sec, words =>
      let ppa := core.readFn ((slba + sec) % 2 ^ 64)
      if ppa = and64 then none
      else
        readMap core slba rest (sec + 1)
          (Function.update (Function.update words (64 + sec) ppa) sec
            (core.chInfo (Ppa.ofNat ppa).ch.val))

/-- Two addresses in one flash page. -/
def samePage (first second : Ppa) : Bool :=
  first.ch = second.ch ∧ first.lun = second.lun ∧ first.blk = second.blk ∧
    first.pg = second.pg ∧ first.pl = second.pl

/-- `nvme_parser_prepare_read` ends a page in front of sector `sec`. -/
def cutsPage (ppa : Nat → Ppa) (nSec sec : Nat) : Bool :=
  sec = nSec || (sec != 0 && (ppa sec = ppa (sec - 1) || !samePage (ppa sec) (ppa (sec - 1))))

/-- The loop of `nvme_parser_prepare_read`: the first sector of each page. -/
def preparePages (ppa : Nat → Ppa) (nSec : Nat) : List Nat → Nat → List Nat
  | [], _ => []
  | sec :: rest, nsec =>
      if cutsPage ppa nSec sec then (sec - nsec) :: preparePages ppa nSec rest 1
      else preparePages ppa nSec rest (nsec + 1)

/-- The first sectors of the pages of a read. -/
def pagesOf (ppa : Nat → Ppa) (nSec : Nat) : List Nat :=
  preparePages ppa nSec (List.range (nSec + 1)) 0

/-- The counters of `nvm_io_cmd` during `ppa_io_submit`, and the number of calls of `read_pg`.
The callbacks of pages that the media manager has taken run later. -/
structure PpaIo where
  req : Request
  totalPgs : Nat
  pgsP : Nat := 0
  pgsS : Nat := 0
  pgMap : List Bool := []
  calls : Nat := 0

/-- `ppa_io_check`. -/
def ppaIoCheck (io : PpaIo) : PpaIo × Bool :=
  let io := { io with
    pgMap := if io.pgsP = 0 then List.replicate io.totalPgs true else io.pgMap
    pgsP := io.pgsS }
  if io.totalPgs > 64 ∨ io.totalPgs = 0 then
    ({ io with req := { io.req with ioStatus := .fail, nvmeStatus := nvmeInvalidFormat } }, false)
  else (io, true)

/-- `ppa_io_check_end`.  `again` is what happens to a command with failed pages: another
`ppa_io_submit` as long as `ret_t` allows it. -/
def ppaIoCheckEnd (again : PpaIo → PpaIo) (io : PpaIo) : PpaIo :=
  if io.pgsP = io.totalPgs then
    if io.pgMap.any id then again io
    else
      match io.req.ioStatus with
      | .process =>
          { io with
            req := { io.req with
              ioStatus := .success, nvmeStatus := nvmeSuccess }.complete nvmeSuccess }
      | _ => io
  else io

/-- The end of a command whose retries are used up.  The callback is `ox_ftl_process_cq`, which
completes the request. -/
def failCommand (io : PpaIo) : PpaIo :=
  { io with
    req := { io.req with ioStatus := .fail, nvmeStatus := nvmeDataTrasError }.complete
      nvmeDataTrasError }

/-- The loop of `ppa_io_submit` over the pages that are not processed yet. -/
def submitPages (core : Core) (again : PpaIo → PpaIo) : List Bool → PpaIo → PpaIo
  | [], io => io
  | false :: rest, io => submitPages core again rest io
  | true :: rest, io =>
      let call := io.calls
      let io := { io with calls := call + 1 }
      if core.readPg call then
        submitPages core again rest { io with req := { io.req with waiting := io.req.waiting + 1 } }
      else
        submitPages core again rest (ppaIoCheckEnd again { io with pgsP := io.pgsP + 1 })

/-- `ppa_io_submit` of a read whose pages begin at these sectors; `false` for an error. -/
def ppaIoSubmitWith (core : Core) (pages : List Nat) (again : PpaIo → PpaIo) (io : PpaIo) :
    PpaIo × Bool :=
  let (io, checked) := ppaIoCheck io
  if checked = false then (io, false)
  -- `ppa_io_check_pg` of the pages that are not processed yet
  else if (pages.zip io.pgMap).any fun page =>
      page.2 && (core.secSize (io.req.channel page.1) != nvmeKernelPgSize) then
    ({ io with req := { io.req with ioStatus := .fail, nvmeStatus := nvmeInvalidFormat } }, false)
  else (submitPages core again io.pgMap io, true)

/-- `ppa_io_submit` with so many retries left. -/
def ppaIoSubmit (core : Core) (pages : List Nat) : Nat → PpaIo → PpaIo × Bool
  | 0 => ppaIoSubmitWith core pages failCommand
  | retries + 1 => ppaIoSubmitWith core pages fun io => (ppaIoSubmit core pages retries io).1

/-- `nvme_parser_read_submit`; `false` for an error. -/
def nvmeParserReadSubmit (core : Core) (req : Request) : Request × Bool :=
  let nSec := blocks req.cmd
  match readMap core req.cmd.slba nSec 0 req.words with
  | none => (req, false)
  | some words =>
      let req := { req with words := words, ioStatus := .process }
      let pages := pagesOf req.ppalist nSec
      let (io, submitted) := ppaIoSubmit core pages appIoRetry
        { req := req, totalPgs := pages.length }
      (io.req, submitted)

/-! ## Commands -/

/-- `parser_nvme_rw`.  There is no result while `nvmef_sgl_to_prp` still follows segments, or
when it has stored addresses beyond `prp[256]` and `md_prp[256]`. -/
def parserNvmeRw (core : Core) (segments : Nat) (req : Request) : Option (Request × Nat) :=
  let req := { req with ioStatus := .new }
  match mapAddresses core.limits core.memory segments req.cmd with
  | .running => none
  | .failed status => some (req, status)
  | .mapped prps =>
      if prps.length > 512 then none
      else
        let req := { req with status := nvmeSuccess }
        if req.cmd.opcode = nvmeCmdWrite then some (oxSubmitFtl core req)
        else
          let (req, submitted) := nvmeParserReadSubmit core req
          some (req, if submitted then nvmeNoComplete else nvmeCmdAbortReq)

/-- The mapping of a sector of a read. -/
def mapped (core : Core) (req : Request) (sec : Nat) : Nat :=
  core.readFn ((req.cmd.slba + sec) % 2 ^ 64)

section ReadMap

variable {core : Core} {slba : Nat}

theorem readMap_eq_none_iff (core : Core) (rest sec : Nat) (words : Nat → Nat) :
    readMap core slba rest sec words = none ↔
      ∃ other, sec ≤ other ∧ other < sec + rest ∧
        core.readFn ((slba + other) % 2 ^ 64) = and64 := by
  induction rest generalizing sec words with
  | zero =>
      simp only [readMap, reduceCtorEq, false_iff]
      rintro ⟨other, le, lt, _⟩
      omega
  | succ rest ih =>
      rw [readMap]
      by_cases unmapped : core.readFn ((slba + sec) % 2 ^ 64) = and64
      · rw [if_pos unmapped]
        exact ⟨fun _ => ⟨sec, Nat.le_refl _, by omega, unmapped⟩, fun _ => rfl⟩
      · rw [if_neg unmapped, ih]
        constructor
        · rintro ⟨other, le, lt, found⟩
          exact ⟨other, by omega, by omega, found⟩
        · rintro ⟨other, le, lt, found⟩
          refine ⟨other, ?_, by omega, found⟩
          rcases Nat.eq_or_lt_of_le le with rfl | lt
          · exact absurd found unmapped
          · exact lt

end ReadMap

/-! ## Pages -/

/-- Completed once, or left to the media manager. -/
def Request.Once (req : Request) : Prop :=
  req.completions.length = 1 ∧ req.waiting = 0 ∨ req.completions = [] ∧ 1 ≤ req.waiting

theorem Request.Once.count {req : Request} (once : req.Once) : req.count = 1 := by
  rw [Request.count]
  rcases once with ⟨one, zero⟩ | ⟨none, some⟩
  · rw [one, zero]
    rfl
  · rw [none, Nat.min_eq_left some]
    rfl

section Pages

variable {core : Core} {pages : List Nat} {again : PpaIo → PpaIo}

end Pages

/-! ## The whole command -/

section Command

variable {core : Core} {req : Request}

/-- What `ox_execute_opcode` does after the parser of a command that is no flush. -/
def finish (req : Request) (status : Nat) : Request :=
  if status ≠ nvmeNoComplete ∧ (req.ioStatus = .process ∨ req.ioStatus = .new) then
    req.complete status
  else req

variable {cmd : NvmeCmd} {words : Nat → Nat}

end Command

/-- A block device of 1 GB with one channel whose queues take everything. -/
def blockCore : Core where
  limits := ⟨2 ^ 18, 12, 8, 4096⟩
  memory :=
    { descs := fun _ _ => SglDesc.zero
      prps := fun _ _ => 0
      behind := List.replicate 14 SglDesc.zero
      nextDesc := List.replicate 16 SglDesc.zero
      behind_length := rfl
      nextDesc_length := rfl }
  lnvmParser := false
  ftl := .block
  nsSize := 2 ^ 30
  chCount := 1
  readFn _ := 0
  chInfo _ := 0
  secSize _ := 4096
  chFtl _ := 0
  mqSubmit _ := true
  readPg _ := true

end OxCtrl.Exec
