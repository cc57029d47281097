import OxCtrl.Fabrics.Sgl

/-!
# The NVMe parser

The checks of `parser_nvme_rw` on a read or write command and the addresses it takes from the
PRPs or the SGL of the command.
-/

namespace OxCtrl.NvmeParser

open OxCtrl.Fabrics

/-- `NVME_CMD_WRITE`. -/
def nvmeCmdWrite : UInt8 := 0x01

/-- `NVME_CMD_READ`. -/
def nvmeCmdRead : UInt8 := 0x02

/-- `NVME_INVALID_FIELD`. -/
def nvmeInvalidField : Nat := 0x0002

/-- `NVME_LBA_RANGE`. -/
def nvmeLbaRange : Nat := 0x0080

/-- `NVME_DNR`. -/
def nvmeDnr : Nat := 0x4000

/-- What the function reads of the namespace and the controller: `id_ns.nsze`, the data shift of
the LBA format, `id_ctrl.mdts` and `page_size`. -/
structure Limits where
  nsze : Nat
  dataShift : Nat
  mdts : Nat
  pageSize : Nat

/-- The memory that the conversion of an SGL can reach: the descriptors at an address, the PRPs
at an address, the descriptors that follow the command in `NvmeRequest`, and the stack. -/
structure SglMemory where
  descs : UInt64 → Nat → SglDesc
  prps : UInt64 → Nat → UInt64
  behind : List SglDesc
  nextDesc : List SglDesc
  behind_length : behind.length = 14
  nextDesc_length : nextDesc.length = nvmefSglSz / 16

/-- The end of the part of `parser_nvme_rw` that maps the addresses. -/
inductive Mapping where
  | failed (status : Nat)
  | mapped (prps : List UInt64)
  | running
  deriving DecidableEq

/-- The number of blocks of the command. -/
def blocks (cmd : NvmeCmd) : Nat :=
  cmd.nlb + 1

/-- `elba`. -/
def elba (cmd : NvmeCmd) : Nat :=
  (cmd.slba + blocks cmd) % 2 ^ 64

/-- `data_size`, a shift of a 32-bit number. -/
def dataSize (limits : Limits) (cmd : NvmeCmd) : Nat :=
  blocks cmd * 2 ^ limits.dataShift % 2 ^ 32

/-- The PRPs of a command without an SGL.  `ox_dma` copies nothing from address zero, and
`prp` has been cleared. -/
def commandPrps (memory : SglMemory) (cmd : NvmeCmd) : List UInt64 :=
  let nlb := blocks cmd
  if nlb = 1 then [cmd.prp1]
  else if nlb = 2 then [cmd.prp1, cmd.prp2]
  else if cmd.prp2 = 0 then cmd.prp1 :: List.replicate (nlb - 1) 0
  else cmd.prp1 :: (List.range (nlb - 1)).map (memory.prps cmd.prp2)

/-- `parser_nvme_rw` up to the addresses, for so many segments of an SGL. -/
def mapAddresses (limits : Limits) (memory : SglMemory) (segments : Nat) (cmd : NvmeCmd) :
    Mapping :=
  if elba cmd > (limits.nsze + 1) % 2 ^ 64 then .failed (nvmeLbaRange ||| nvmeDnr)
  else if limits.mdts ≠ 0 ∧ dataSize limits cmd > limits.pageSize * 2 ^ limits.mdts then
    .failed (nvmeLbaRange ||| nvmeDnr)
  else if blocks cmd > 256 then .failed (nvmeInvalidField ||| nvmeDnr)
  else
    match cmd.psdt with
    | .prp | .rsv => .mapped (commandPrps memory cmd)
    | .sgl | .sglMd =>
        match nvmefSglToPrp memory.descs (blocks cmd) segments
          (cmd.sgl :: cmd.cdw10 :: memory.behind) memory.nextDesc {} with
        | .prps walk => .mapped walk.prps
        | .refused => .failed nvmeInvalidField
        | .running => .running

end OxCtrl.NvmeParser
