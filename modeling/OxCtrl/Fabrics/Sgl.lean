import Mathlib
import OxCtrl.Lib.Buffer

/-!
# Scatter-gather lists

The descriptors of `struct nvme_sgl_desc`, the functions that decode their lengths, the
placement of the data in a capsule by `oxf_fabrics_set_sgl` and the conversion to a list of
4 KB addresses by `nvmef_sgl_to_prp`.
-/

namespace OxCtrl.Fabrics

open OxCtrl.Lib

/-- `NVME_KERNEL_PG_SIZE`, which is also `OXF_BLK_SIZE`. -/
def nvmeKernelPgSize : Nat := 4096

/-- `NVMEF_SGL_SZ`. -/
def nvmefSglSz : Nat := 256

/-- `OXF_NVME_CMD_SZ`. -/
def oxfNvmeCmdSz : Nat := 64

/-- `enum NvmeSGLTypes` and the codes without a name. -/
inductive SglType where
  | dataBlock
  | bitBucket
  | segment
  | lastSegment
  | keyedData
  | fiveByteKeys
  | reserved (code : Nat)
  deriving DecidableEq, Repr

/-- The type of a code. -/
def SglType.ofCode : Nat → SglType
  | 0 => .dataBlock
  | 1 => .bitBucket
  | 2 => .segment
  | 3 => .lastSegment
  | 4 => .keyedData
  | 5 => .fiveByteKeys
  | code => .reserved code

/-- The code of a type. -/
def SglType.code : SglType → Nat
  | .dataBlock => 0
  | .bitBucket => 1
  | .segment => 2
  | .lastSegment => 3
  | .keyedData => 4
  | .fiveByteKeys => 5
  | .reserved code => code

/-- A type that carries data: the ones `oxf_fabrics_set_sgl` supports. -/
def SglType.isData : SglType → Bool
  | .dataBlock | .keyedData | .fiveByteKeys => true
  | _ => false

theorem SglType.isData_cases {type : SglType} (data : type.isData = true) :
    type = .dataBlock ∨ type = .keyedData ∨ type = .fiveByteKeys := by
  cases type <;> simp_all [SglType.isData]

/-- `NVME_SGL_SUB_ADDR`. -/
abbrev nvmeSglSubAddr : Fin 16 := 0

/-- `struct nvme_sgl_desc`.  Behind the address, `word` holds the bytes 8 to 11 and `tail` the
bytes 12 to 14; the union divides them into a length and a key. -/
structure SglDesc where
  addr : UInt64
  word : UInt32
  tail : Fin (2 ^ 24)
  subtype : Fin 16
  type : SglType
  deriving DecidableEq

/-- The number with these bytes, lowest byte first. -/
def leNat : List UInt8 → Nat
  | [] => 0
  | byte :: rest => byte.toNat + 2 ^ 8 * leNat rest

namespace SglDesc

/-- The descriptor in 16 bytes. -/
def ofBytes (bytes : List UInt8) : SglDesc where
  addr := UInt64.ofNat (leNat (slice bytes 0 8))
  word := UInt32.ofNat (leNat (slice bytes 8 4))
  tail := Fin.ofNat (2 ^ 24) (leNat (slice bytes 12 3))
  subtype := Fin.ofNat 16 (bytes.getD 15 0).toNat
  type := SglType.ofCode ((bytes.getD 15 0).toNat / 16)

/-- A descriptor of zero bytes. -/
def zero : SglDesc where
  addr := 0
  word := 0
  tail := 0
  subtype := nvmeSglSubAddr
  type := .dataBlock

/-- `data.length`. -/
def dataLength (desc : SglDesc) : Nat := desc.word.toNat

/-- The three bytes of `keyed.length`. -/
def keyedLength (desc : SglDesc) : Nat := desc.word.toNat % 2 ^ 24

/-- `keyed.key`. -/
def key (desc : SglDesc) : Nat := desc.word.toNat / 2 ^ 24 + 2 ^ 8 * desc.tail.val

/-- `keyed5.length`. -/
def keyed5Length (desc : SglDesc) : Nat := desc.word.toNat % 2 ^ 16

/-- `keyed5.key`. -/
def key5 (desc : SglDesc) : Nat := desc.word.toNat / 2 ^ 16 + 2 ^ 16 * desc.tail.val

end SglDesc

/-- `oxf_get_sgl_desc_length`. -/
def oxfGetSglDescLength (desc : SglDesc) : Nat :=
  match desc.type with
  | .dataBlock => desc.dataLength
  | .keyedData => desc.keyedLength
  | .fiveByteKeys => desc.keyed5Length
  | .segment => desc.dataLength
  | .lastSegment => desc.dataLength
  | .bitBucket => desc.dataLength
  | .reserved _ => 0

/-- `oxf_get_desc_length`, the copy of the function in the host. -/
def oxfGetDescLength (desc : SglDesc) : Nat :=
  oxfGetSglDescLength desc

/-! ## Placement in the capsule -/

/-- What `oxf_fabrics_set_sgl` adds to the offset for a descriptor. -/
def setSglAdvance (desc : SglDesc) : Nat :=
  match desc.type with
  -- `*((uint32_t *) &keyed.length)` reads four bytes of a field of three
  | .keyedData => desc.word.toNat
  | .fiveByteKeys => desc.keyed5Length
  | _ => desc.dataLength

/-- The descriptors, their number and the bytes counted so far; `chained` when the loop has
returned at a segment descriptor. -/
structure SetSgl where
  sgl : List SglDesc
  descI : Nat := 0
  bytes : Nat := 0
  chained : Bool := false

/-- A descriptor in front of those the loop has gone through. -/
def SetSgl.cons (desc : SglDesc) (bytes : Nat) (after : SetSgl) : SetSgl :=
  { after with
    sgl := desc :: after.sgl, descI := after.descI + 1, bytes := (bytes + after.bytes) % 2 ^ 32 }

/-- The loop of `oxf_fabrics_set_sgl`. -/
def setSglLoop : List SglDesc → UInt64 → SetSgl
  | [], _ => { sgl := [] }
  | desc :: rest, offset =>
      if oxfGetSglDescLength desc = 0 then { sgl := desc :: rest }
      else
        match desc.type with
        | .bitBucket => (setSglLoop rest offset).cons desc 0
        | .dataBlock | .keyedData | .fiveByteKeys =>
            (setSglLoop rest (offset + UInt64.ofNat (setSglAdvance desc))).cons
              { desc with addr := offset, subtype := nvmeSglSubAddr } (setSglAdvance desc)
        | _ => { sgl := desc :: rest, chained := true }

/-- `enum NvmeCmdPsdt`. -/
inductive NvmeCmdPsdt where
  | prp
  | sgl
  | sglMd
  | rsv
  deriving DecidableEq, Repr

/-- The field `psdt` of two bits. -/
def NvmeCmdPsdt.ofCode (code : Nat) : NvmeCmdPsdt :=
  match code % 4 with
  | 0 => .prp
  | 1 => .sgl
  | 2 => .sglMd
  | _ => .rsv

/-- The fields of `struct nvme_cmd` that the controller uses.  `cdw10` holds the double words
10 to 13; they lie where a descriptor behind the one of the command would lie. -/
structure NvmeCmd where
  opcode : UInt8
  psdt : NvmeCmdPsdt
  cid : UInt16
  sgl : SglDesc
  cdw10 : SglDesc
  deriving DecidableEq

namespace NvmeCmd

/-- The command in 64 bytes. -/
def ofBytes (bytes : List UInt8) : NvmeCmd where
  opcode := bytes.getD 0 0
  psdt := NvmeCmdPsdt.ofCode ((bytes.getD 1 0).toNat / 2 ^ 6)
  cid := UInt16.ofNat (leNat (slice bytes 2 2))
  sgl := SglDesc.ofBytes (slice bytes 24 16)
  cdw10 := SglDesc.ofBytes (slice bytes 40 16)

/-- `prp1`, which shares its bytes with the descriptor. -/
def prp1 (cmd : NvmeCmd) : UInt64 := cmd.sgl.addr

/-- `prp2`, the bytes behind the address. -/
def prp2 (cmd : NvmeCmd) : UInt64 :=
  UInt64.ofNat (cmd.sgl.word.toNat + 2 ^ 32 * cmd.sgl.tail.val +
    2 ^ 56 * (cmd.sgl.subtype.val + 16 * cmd.sgl.type.code))

/-- `slba` of `NvmeRwCmd`. -/
def slba (cmd : NvmeCmd) : Nat := cmd.cdw10.addr.toNat

/-- `nlb` of `NvmeRwCmd`, which is one less than the number of blocks. -/
def nlb (cmd : NvmeCmd) : Nat := cmd.cdw10.word.toNat % 2 ^ 16

end NvmeCmd

/-- `struct nvmef_capsule_sq` without its data. -/
structure SqCapsule where
  cmd : NvmeCmd
  sgl : List SglDesc
  sgl_length : sgl.length = nvmefSglSz / 16

/-- The addresses of a reply: `capsule.sgl`, `capsule.data` and `cq_capsule.cqc.data`. -/
structure ReplyAddrs where
  sgl : UInt64
  sqData : UInt64
  cqData : UInt64

theorem length_setSglLoop (descs : List SglDesc) (offset : UInt64) :
    (setSglLoop descs offset).sgl.length = descs.length := by
  induction descs generalizing offset with
  | nil => rfl
  | cons desc rest ih =>
      rw [setSglLoop]
      split
      · rfl
      · split <;> simp [SetSgl.cons, ih]

/-- The descriptor that `oxf_fabrics_set_sgl` leaves in the command. -/
def lastSegment (cmd : NvmeCmd) (addr : UInt64) (descI : Nat) : SglDesc :=
  { cmd.sgl with
    addr := addr, word := UInt32.ofNat (descI * 16), subtype := nvmeSglSubAddr,
    type := .lastSegment }

/-- `oxf_fabrics_set_sgl`: the capsule afterwards and the number of bytes. -/
def oxfFabricsSetSgl (capsule : SqCapsule) (addrs : ReplyAddrs) (capsSz : Nat) (isWrite : Bool) :
    SqCapsule × Nat :=
  let offset := if isWrite then addrs.sqData else addrs.cqData
  if capsSz ≤ oxfNvmeCmdSz then
    ({ capsule with
        sgl := List.replicate (nvmefSglSz / 16) SglDesc.zero
        sgl_length := List.length_replicate }, 0)
  else
    let placed := setSglLoop capsule.sgl offset
    let capsule' : SqCapsule :=
      { capsule with
        sgl := placed.sgl
        sgl_length := (length_setSglLoop _ _).trans capsule.sgl_length }
    if placed.chained then (capsule', 0)
    else
      ({ capsule' with
          cmd := { capsule.cmd with sgl := lastSegment capsule.cmd addrs.sgl placed.descI } },
        placed.bytes)

/-! ## Conversion to addresses -/

/-- The addresses and the keys that `nvmef_sgl_to_prp` has stored. -/
structure PrpWalk where
  prps : List UInt64 := []
  keys : List Nat := []
  deriving DecidableEq

/-- The addresses of the 4 KB blocks that begin inside a range. -/
def prpsOf (addr : UInt64) (length : Nat) : List UInt64 :=
  (List.range ((length + (nvmeKernelPgSize - 1)) / nvmeKernelPgSize)).map fun block =>
    addr + UInt64.ofNat (nvmeKernelPgSize * block)

/-- The end of a walk through a table of descriptors: all blocks have an address, the list is
not supported, or a segment descriptor is to be followed. -/
inductive TableEnd where
  | covered (walk : PrpWalk)
  | refused
  | segment (desc : SglDesc) (walk : PrpWalk)
  deriving DecidableEq

/-- The loop of `nvmef_sgl_to_prp` up to the next segment descriptor.  The table is as long as
the bound on `desc_i`. -/
def walkTable (nlb : Nat) : List SglDesc → PrpWalk → TableEnd
  | [], walk => if nlb ≤ walk.prps.length then .covered walk else .refused
  | desc :: rest, walk =>
      if nlb ≤ walk.prps.length then .covered walk
      else if desc.subtype ≠ nvmeSglSubAddr then .refused
      else
        match desc.type with
        | .dataBlock =>
            walkTable nlb rest { walk with prps := walk.prps ++ prpsOf desc.addr desc.dataLength }
        | .keyedData =>
            walkTable nlb rest
              { prps := walk.prps ++ prpsOf desc.addr desc.keyedLength
                keys := walk.keys ++ [desc.key] }
        | .fiveByteKeys =>
            walkTable nlb rest
              { prps := walk.prps ++ prpsOf desc.addr desc.keyed5Length
                keys := walk.keys ++ [desc.key5] }
        | .segment | .lastSegment => .segment desc walk
        | .bitBucket | .reserved _ => .refused

theorem walkTable_covered {nlb : Nat} {walk : PrpWalk} (done : nlb ≤ walk.prps.length)
    (table : List SglDesc) : walkTable nlb table walk = .covered walk := by
  cases table with
  | nil => rw [walkTable, if_pos done]
  | cons desc rest => rw [walkTable, if_pos done]

/-- `next_desc` after `ox_dma`, which copies nothing from address zero. -/
def loadSegment (mem : UInt64 → Nat → SglDesc) (nextDesc : List SglDesc) (desc : SglDesc) :
    List SglDesc :=
  let count := desc.dataLength / 16
  if desc.addr = 0 then nextDesc
  else (List.range count).map (mem desc.addr) ++ nextDesc.drop count

/-- A call of `nvmef_sgl_to_prp` that has returned, or that still follows segments. -/
inductive SglResult where
  | prps (walk : PrpWalk)
  | refused
  | running
  deriving DecidableEq

/-- `nvmef_sgl_to_prp`, for so many segments.  `mem` holds the descriptors at an address; the
first table are the descriptors from `desc` on, `nextDesc` is on the stack. -/
def nvmefSglToPrp (mem : UInt64 → Nat → SglDesc) (nlb : Nat) :
    Nat → List SglDesc → List SglDesc → PrpWalk → SglResult
  | 0, _, _, _ => .running
  | segments + 1, table, nextDesc, walk =>
      match walkTable nlb table walk with
      | .covered walk => .prps walk
      | .refused => .refused
      | .segment desc walk =>
          -- `last` is never set
          if desc.dataLength = 0 ∨ desc.dataLength % 16 ≠ 0 then .refused
          else if desc.dataLength > nvmefSglSz then .refused
          else
            let loaded := loadSegment mem nextDesc desc
            nvmefSglToPrp mem nlb segments loaded loaded walk

end OxCtrl.Fabrics
