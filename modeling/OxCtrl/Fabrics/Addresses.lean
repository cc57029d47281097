import OxCtrl.NvmeParser
import OxCtrl.Fabrics.Placement
import OxCtrl.Fabrics.Routing

/-!
# Addresses chosen by a capsule

A capsule comes from the network.  The controller copies it to a reply, places its
descriptors and converts them to addresses for the media.  The addresses should stay inside
the data areas of the reply.
-/

namespace OxCtrl.Fabrics

open OxCtrl.Lib OxCtrl.NvmeParser

/-- `OXF_CMD_BYTE`. -/
def oxfCmdByte : UInt8 := 0x3c

/-- The opcodes for which `oxf_fabrics_set_direction` sets `is_write`: `NVME_CMD_WRITE`,
`NVME_CMD_WRITE_NULL` and `NVME_CMD_ELEOS_FLUSH`. -/
def oxfFabricsSetDirection (opcode : UInt8) : Bool :=
  opcode == nvmeCmdWrite || opcode == 0xfd || opcode == 0xa1

/-- The fields of `struct oxf_tgt_reply`, whose `capsule` lies at an address and is followed by
`cq_capsule`. -/
def ReplyAddrs.ofCapsule (caps : UInt64) : ReplyAddrs where
  sgl := caps + 64
  sqData := caps + 320
  cqData := caps + 65523

/-- The command and the descriptors at the beginning of a capsule. -/
def SqCapsule.ofBytes (bytes : List UInt8) : SqCapsule where
  cmd := NvmeCmd.ofBytes bytes
  sgl := (List.range (nvmefSglSz / 16)).map fun index =>
    SglDesc.ofBytes (slice bytes (oxfNvmeCmdSz + 16 * index) 16)
  sgl_length := by rw [List.length_map, List.length_range]

/-- `reply->capsule` after the copy of a received capsule over its old contents. -/
def receivedCapsule (size : Nat) (bytes old : List UInt8) : SqCapsule :=
  SqCapsule.ofBytes
    (slice bytes oxfFabHeaderSz (size - oxfFabHeaderSz) ++ old.drop (size - oxfFabHeaderSz))

/-- `oxf_fabrics_rcv_fn` takes the capsule for a command of a queue. -/
def Received (size : Nat) (bytes : List UInt8) (capsule : SqCapsule) : Prop :=
  bytes.head? = some oxfCmdByte ∧ oxfFabCmdSz ≤ size ∧ size ≤ oxfFabCapsSz ∧
    rcvSqId capsule.cmd.cid.toNat ≠ none

instance (size : Nat) (bytes : List UInt8) (capsule : SqCapsule) :
    Decidable (Received size bytes capsule) :=
  inferInstanceAs (Decidable (_ ∧ _ ∧ _ ∧ _))

/-- `oxf_fabrics_rcv_fn`: the capsule of a reply at `caps` that `nvmef_process_capsule` gets. -/
def oxfFabricsRcvFn (size : Nat) (bytes old : List UInt8) (caps : UInt64) : Option SqCapsule :=
  let capsule := receivedCapsule size bytes old
  if Received size bytes capsule then
    some (oxfFabricsSetSgl capsule (.ofCapsule caps) (size - oxfFabHeaderSz)
      (oxfFabricsSetDirection capsule.cmd.opcode)).1
  else none

/-- `ox_execute_opcode` calls `parser_nvme_rw` for the command: a read or a write on a queue
other than the admin queue. -/
def IsRw (cmd : NvmeCmd) : Prop :=
  (cmd.opcode = nvmeCmdWrite ∨ cmd.opcode = nvmeCmdRead) ∧ processCapsuleSqId cmd.cid.toNat ≠ 0

instance (cmd : NvmeCmd) : Decidable (IsRw cmd) :=
  inferInstanceAs (Decidable (_ ∧ _))

/-- The 4 KB block at an address lies in a data area of the reply. -/
def InArea (caps prp : UInt64) : Prop :=
  let addrs := ReplyAddrs.ofCapsule caps
  (prp - addrs.sqData).toNat + nvmeKernelPgSize ≤ oxfSqcMaxData ∨
    (prp - addrs.cqData).toNat + nvmeKernelPgSize ≤ oxfCqcMaxData

instance (caps prp : UInt64) : Decidable (InArea caps prp) :=
  inferInstanceAs (Decidable (_ ∨ _))

/-- Every address that the controller derives from the capsule is in a data area of its reply,
wherever the reply lies and whatever the rest of the memory holds. -/
def Confined (limits : Limits) (size : Nat) (bytes old : List UInt8) : Prop :=
  ∀ (caps : UInt64) (memory : SglMemory) (segments : Nat) (capsule : SqCapsule)
    (prps : List UInt64), caps + 64 ≠ 0 →
    oxfFabricsRcvFn size bytes old caps = some capsule →
    (∀ (index : Nat) (desc : SglDesc),
      capsule.sgl[index]? = some desc → memory.descs (caps + 64) index = desc) →
    IsRw capsule.cmd → mapAddresses limits memory segments capsule.cmd = .mapped prps →
    ∀ prp ∈ prps, InArea caps prp

/-! ## Conditions on the contents -/

/-- The command fails a check before its addresses are mapped. -/
def FailsCheck (limits : Limits) (cmd : NvmeCmd) : Prop :=
  elba cmd > (limits.nsze + 1) % 2 ^ 64 ∨
    limits.mdts ≠ 0 ∧ dataSize limits cmd > limits.pageSize * 2 ^ limits.mdts ∨ blocks cmd > 256

/-- `SEGMENT` and `LAST_SEGMENT`. -/
def SglType.isSegment : SglType → Bool
  | .segment | .lastSegment => true
  | _ => false

/-- The descriptors that `oxf_fabrics_set_sgl` goes through: those before the first empty one. -/
def scanned (sgl : List SglDesc) : List SglDesc :=
  sgl.takeWhile fun desc => oxfGetSglDescLength desc ≠ 0

/-- `nvmef_sgl_to_prp` refuses the descriptor. -/
def Refusable (desc : SglDesc) : Prop :=
  desc.subtype ≠ nvmeSglSubAddr ∨ desc.type = .bitBucket ∨ (∃ code, desc.type = .reserved code) ∨
    desc.type.isSegment = true ∧
      (desc.dataLength = 0 ∨ desc.dataLength % 16 ≠ 0 ∨ desc.dataLength > nvmefSglSz)

/-- The number of 4 KB addresses of a data descriptor. -/
def descBlocks (desc : SglDesc) : Nat :=
  (oxfGetSglDescLength desc + (nvmeKernelPgSize - 1)) / nvmeKernelPgSize

/-- The command has kept the host's descriptor, and that one, or the bytes behind it, are
refused before the command has all its addresses. -/
def RawRefused (cmd : NvmeCmd) : Prop :=
  Refusable cmd.sgl ∨
    cmd.sgl.type.isData = true ∧ descBlocks cmd.sgl < blocks cmd ∧ Refusable cmd.cdw10

/-- A bit bucket, or the end of a full list, comes before the last of `need` blocks. -/
def Refused (full : Bool) : Nat → List SglDesc → Prop
  | need, [] => 0 < need ∧ full = true
  | need, desc :: rest =>
      0 < need ∧ (desc.type = .bitBucket ∨ Refused full (need - descBlocks desc) rest)

/-- The block at an offset from the data area of the command is in a data area. -/
def Inside (isWrite : Bool) (offset : Nat) : Prop :=
  if isWrite then
    offset + nvmeKernelPgSize ≤ oxfSqcMaxData ∨
      oxfSqcMaxData + oxfFabCqeSz ≤ offset ∧
        offset + nvmeKernelPgSize ≤ oxfSqcMaxData + oxfFabCqeSz + oxfCqcMaxData
  else offset + nvmeKernelPgSize ≤ oxfCqcMaxData

/-- The descriptors give `need` blocks, all of them in a data area. -/
def Contained (isWrite : Bool) : Nat → Nat → List SglDesc → Prop
  | need, _, [] => need = 0
  | need, offset, desc :: rest =>
      need = 0 ∨
        desc.type ≠ .bitBucket ∧
          (∀ block < descBlocks desc, Inside isWrite (offset + nvmeKernelPgSize * block)) ∧
          Contained isWrite (need - descBlocks desc) (offset + setSglAdvance desc) rest

/-- The command keeps the descriptor of the host: the capsule has no descriptors behind the
command, or a segment descriptor among them. -/
def KeepsSgl (size : Nat) (original : SqCapsule) : Prop :=
  size - oxfFabHeaderSz ≤ oxfNvmeCmdSz ∨
    ∃ desc ∈ scanned original.sgl, desc.type.isSegment = true

instance (size : Nat) (original : SqCapsule) : Decidable (KeepsSgl size original) :=
  inferInstanceAs (Decidable (_ ∨ _))

/-- The contents of a capsule with a read or write command do not give away an address. -/
def SafeContents (limits : Limits) (size : Nat) (capsule : SqCapsule) : Prop :=
  FailsCheck limits capsule.cmd ∨
    (capsule.cmd.psdt = .sgl ∨ capsule.cmd.psdt = .sglMd) ∧
      if KeepsSgl size capsule then RawRefused capsule.cmd
      else
        scanned capsule.sgl = [] ∨
          Refused ((scanned capsule.sgl).length = nvmefSglSz / 16) (blocks capsule.cmd)
            (scanned capsule.sgl) ∨
          Contained (oxfFabricsSetDirection capsule.cmd.opcode) (blocks capsule.cmd) 0
            (scanned capsule.sgl)

/-! ## Areas -/

theorem inArea_offset (caps : UInt64) (isWrite : Bool) {offset : Nat} (lt : offset < 2 ^ 40) :
    let addrs := ReplyAddrs.ofCapsule caps
    InArea caps ((if isWrite then addrs.sqData else addrs.cqData) + UInt64.ofNat offset) ↔
      Inside isWrite offset := by
  have capsLt := caps.toNat_lt
  have mod : offset % 2 ^ 64 = offset := Nat.mod_eq_of_lt (by omega)
  cases isWrite <;>
    simp only [InArea, Inside, ReplyAddrs.ofCapsule, UInt64.toNat_sub, UInt64.toNat_add,
      UInt64.toNat_ofNat', mod, nvmeKernelPgSize, oxfSqcMaxData, oxfCqcMaxData, oxfFabCqeSz,
      Bool.false_eq_true, if_false, if_true, UInt64.toNat_ofNat] <;>
    omega

theorem inside_lt {isWrite : Bool} {offset : Nat} (inside : Inside isWrite offset) :
    offset < 2 ^ 40 := by
  cases isWrite <;>
    simp only [Inside, nvmeKernelPgSize, oxfSqcMaxData, oxfCqcMaxData, oxfFabCqeSz,
      Bool.false_eq_true, if_false, if_true] at inside <;>
    omega

/-- An address far from the reply is in none of its areas. -/
theorem not_inArea_of_far {index : Nat} (small : index < 8) {prp : UInt64}
    (far : prp.toNat / 2 ^ 20 ≠ index) :
    ¬ InArea (UInt64.ofNat (index * 2 ^ 20)) prp ∧ prp ≠ UInt64.ofNat (index * 2 ^ 20) + 64 := by
  have prpLt := prp.toNat_lt
  have mod : index * 2 ^ 20 % 2 ^ 64 = index * 2 ^ 20 := Nat.mod_eq_of_lt (by omega)
  refine ⟨?_, ?_⟩
  · simp only [InArea, ReplyAddrs.ofCapsule, UInt64.toNat_sub, UInt64.toNat_add,
      UInt64.toNat_ofNat', mod, nvmeKernelPgSize, oxfSqcMaxData, oxfCqcMaxData, UInt64.toNat_ofNat]
    omega
  · intro same
    have nat := congrArg UInt64.toNat same
    simp only [UInt64.toNat_add, UInt64.toNat_ofNat', mod, UInt64.toNat_ofNat] at nat
    omega

theorem far_nonnull {index : Nat} (small : index < 8) :
    UInt64.ofNat (index * 2 ^ 20) + 64 ≠ 0 := by
  intro null
  have nat := congrArg UInt64.toNat null
  have mod : index * 2 ^ 20 % 2 ^ 64 = index * 2 ^ 20 := Nat.mod_eq_of_lt (by omega)
  simp only [UInt64.toNat_add, UInt64.toNat_ofNat', mod, UInt64.toNat_ofNat] at nat
  omega

/-- There is a reply that is far from two addresses. -/
theorem exists_far (first second : UInt64) :
    ∃ index < 8, first.toNat / 2 ^ 20 ≠ index ∧ second.toNat / 2 ^ 20 ≠ index := by
  by_cases one : first.toNat / 2 ^ 20 ≠ 1 ∧ second.toNat / 2 ^ 20 ≠ 1
  · exact ⟨1, by omega, one⟩
  · by_cases two : first.toNat / 2 ^ 20 ≠ 2 ∧ second.toNat / 2 ^ 20 ≠ 2
    · exact ⟨2, by omega, two⟩
    · exact ⟨3, by omega, by omega⟩

/-- The reply's own descriptors are not data. -/
theorem not_inArea_sgl (caps : UInt64) : ¬ InArea caps (caps + 64) := by
  have capsLt := caps.toNat_lt
  simp only [InArea, ReplyAddrs.ofCapsule, UInt64.toNat_sub, UInt64.toNat_add, nvmeKernelPgSize,
    oxfSqcMaxData, oxfCqcMaxData, UInt64.toNat_ofNat]
  omega

/-! ## Placed descriptors -/

/-- The descriptors with the addresses that the loop gives them. -/
def place (base : UInt64) : Nat → List SglDesc → List SglDesc
  | _, [] => []
  | offset, desc :: rest =>
      if desc.type = .bitBucket then desc :: place base offset rest
      else
        { desc with addr := base + UInt64.ofNat offset, subtype := nvmeSglSubAddr } ::
          place base (offset + setSglAdvance desc) rest

theorem length_place (base : UInt64) (offset : Nat) (descs : List SglDesc) :
    (place base offset descs).length = descs.length := by
  induction descs generalizing offset with
  | nil => rfl
  | cons desc rest ih =>
      rw [place]
      split
      · rw [List.length_cons, List.length_cons, ih]
      · rw [List.length_cons, List.length_cons, ih]

/-- A descriptor with a length that is no segment has data or is a bit bucket. -/
theorem isData_of_not_bucket {desc : SglDesc} (nonempty : oxfGetSglDescLength desc ≠ 0)
    (noSegment : desc.type.isSegment = false) (noBucket : desc.type ≠ .bitBucket) :
    desc.type.isData = true := by
  cases type : desc.type with
  | dataBlock | keyedData | fiveByteKeys => rfl
  | bitBucket => exact absurd type noBucket
  | segment | lastSegment =>
      rw [type] at noSegment
      exact absurd noSegment (by decide)
  | reserved code =>
      rw [oxfGetSglDescLength, type] at nonempty
      exact absurd rfl nonempty

theorem setSglLoop_place {list stop : List SglDesc}
    (nonempty : ∀ desc ∈ list, oxfGetSglDescLength desc ≠ 0)
    (noSegment : ∀ desc ∈ list, desc.type.isSegment = false)
    (stops : ∀ desc ∈ stop.head?, oxfGetSglDescLength desc = 0) (base : UInt64) (offset : Nat) :
    ∃ bytes, setSglLoop (list ++ stop) (base + UInt64.ofNat offset) =
      { sgl := place base offset list ++ stop, descI := list.length, bytes := bytes } := by
  induction list generalizing offset with
  | nil =>
      refine ⟨0, ?_⟩
      cases stop with
      | nil => rfl
      | cons desc rest => rw [List.nil_append, setSglLoop, if_pos (stops desc rfl)]; rfl
  | cons desc rest ih =>
      have nonemptyRest : ∀ desc ∈ rest, oxfGetSglDescLength desc ≠ 0 :=
        fun later mem => nonempty later (List.mem_cons_of_mem _ mem)
      have noSegmentRest : ∀ desc ∈ rest, desc.type.isSegment = false :=
        fun later mem => noSegment later (List.mem_cons_of_mem _ mem)
      have some := nonempty desc List.mem_cons_self
      by_cases bucket : desc.type = .bitBucket
      · obtain ⟨bytes, loop⟩ := ih nonemptyRest noSegmentRest offset
        refine ⟨(0 + bytes) % 2 ^ 32, ?_⟩
        rw [List.cons_append, setSglLoop, if_neg some, bucket, place, if_pos bucket]
        simp only [loop, SetSgl.cons]
        rfl
      · obtain ⟨bytes, loop⟩ := ih nonemptyRest noSegmentRest (offset + setSglAdvance desc)
        have data := isData_of_not_bucket some (noSegment desc List.mem_cons_self) bucket
        refine ⟨(setSglAdvance desc + bytes) % 2 ^ 32, ?_⟩
        rw [List.cons_append, setSglLoop_data data some, UInt64.add_assoc, ← UInt64.ofNat_add, loop,
          place, if_neg bucket]
        rfl

theorem setSglLoop_chained {sgl : List SglDesc}
    (segment : ∃ desc ∈ scanned sgl, desc.type.isSegment = true) (offset : UInt64) :
    (setSglLoop sgl offset).chained = true := by
  induction sgl generalizing offset with
  | nil => exact absurd segment (by simp [scanned])
  | cons desc rest ih =>
      by_cases empty : oxfGetSglDescLength desc = 0
      · exact absurd segment (by simp [scanned, empty])
      · have scan : scanned (desc :: rest) = desc :: scanned rest := by simp [scanned, empty]
        rw [scan] at segment
        obtain ⟨found, mem, isSegment⟩ := segment
        rw [setSglLoop, if_neg empty]
        cases type : desc.type with
        | segment | lastSegment => rfl
        | dataBlock | keyedData | fiveByteKeys | bitBucket =>
            have later : found ∈ scanned rest := by
              rcases List.mem_cons.mp mem with rfl | later
              · rw [type] at isSegment
                exact absurd isSegment (by decide)
              · exact later
            exact ih ⟨found, later, isSegment⟩ _
        | reserved code =>
            have zero : oxfGetSglDescLength desc = 0 := by rw [oxfGetSglDescLength, type]
            exact absurd zero empty

/-! ## The walk over placed descriptors -/

theorem length_prpsOf_desc (addr : UInt64) (desc : SglDesc) :
    (prpsOf addr (oxfGetSglDescLength desc)).length = descBlocks desc := by
  rw [prpsOf, List.length_map, List.length_range, descBlocks]

theorem mem_prpsOf_desc {addr prp : UInt64} {desc : SglDesc} :
    prp ∈ prpsOf addr (oxfGetSglDescLength desc) ↔
      ∃ block < descBlocks desc, prp = addr + UInt64.ofNat (nvmeKernelPgSize * block) := by
  rw [prpsOf, List.mem_map]
  constructor
  · rintro ⟨block, mem, rfl⟩
    exact ⟨block, List.mem_range.mp mem, rfl⟩
  · rintro ⟨block, lt, rfl⟩
    exact ⟨block, List.mem_range.mpr lt, rfl⟩

theorem walkTable_bucket {nlb : Nat} (walk : PrpWalk) (more : ¬ nlb ≤ walk.prps.length)
    {desc : SglDesc} (bucket : desc.type = .bitBucket) (rest : List SglDesc) :
    walkTable nlb (desc :: rest) walk = .refused := by
  rw [walkTable, if_neg more, bucket]
  exact ite_self _

section Walk

variable {base : UInt64} {nlb : Nat}

/-- The descriptors of a scan that has met no segment. -/
def Plain (descs : List SglDesc) : Prop :=
  ∀ desc ∈ descs, oxfGetSglDescLength desc ≠ 0 ∧ desc.type.isSegment = false

theorem Plain.tail {desc : SglDesc} {rest : List SglDesc} (plain : Plain (desc :: rest)) :
    Plain rest :=
  fun later mem => plain later (List.mem_cons_of_mem _ mem)

theorem Plain.isData {desc : SglDesc} {rest : List SglDesc} (plain : Plain (desc :: rest))
    (noBucket : desc.type ≠ .bitBucket) : desc.type.isData = true :=
  isData_of_not_bucket (plain desc List.mem_cons_self).1 (plain desc List.mem_cons_self).2 noBucket

/-- A step of the walk at a placed data descriptor. -/
theorem walkTable_place (base : UInt64) (tail : List SglDesc) {desc : SglDesc} {rest : List SglDesc}
    (plain : Plain (desc :: rest))
    (noBucket : desc.type ≠ .bitBucket) {prps : List UInt64} (more : ¬ nlb ≤ prps.length)
    (offset : Nat) (keys : List Nat) :
    ∃ keys', walkTable nlb (place base offset (desc :: rest) ++ tail) ⟨prps, keys⟩ =
      walkTable nlb (place base (offset + setSglAdvance desc) rest ++ tail)
        ⟨prps ++ prpsOf (base + UInt64.ofNat offset) (oxfGetSglDescLength desc), keys'⟩ := by
  rw [place, if_neg noBucket, List.cons_append]
  exact walkTable_data more (plain.isData noBucket) _ keys _

theorem walkTable_refused (nlb : Nat) {full : Bool} {descs tail : List SglDesc}
    (plain : Plain descs) (ends : full = true → tail = []) (prps : List UInt64) {offset : Nat}
    (refused : Refused full (nlb - prps.length) descs) (keys : List Nat) :
    walkTable nlb (place base offset descs ++ tail) ⟨prps, keys⟩ = .refused := by
  induction descs generalizing offset prps keys with
  | nil =>
      have more : ¬ nlb ≤ prps.length := Nat.not_le.mpr (Nat.lt_of_sub_pos refused.1)
      rw [ends refused.2]
      exact if_neg more
  | cons desc rest ih =>
      obtain ⟨need, cases⟩ := refused
      have more : ¬ nlb ≤ prps.length := Nat.not_le.mpr (Nat.lt_of_sub_pos need)
      by_cases bucket : desc.type = .bitBucket
      · rw [place, if_pos bucket, List.cons_append]
        exact walkTable_bucket ⟨prps, keys⟩ more bucket _
      · obtain ⟨keys', step⟩ := walkTable_place base tail plain bucket more offset keys
        rw [step]
        refine ih plain.tail _ ?_ keys'
        rw [List.length_append, length_prpsOf_desc, ← Nat.sub_sub]
        exact cases.resolve_left bucket

theorem walkTable_contained (base : UInt64) (nlb : Nat) (tail : List SglDesc) {isWrite : Bool}
    {descs : List SglDesc} (plain : Plain descs) (prps : List UInt64) {offset : Nat}
    (contained : Contained isWrite (nlb - prps.length) offset descs) (keys : List Nat) :
    ∃ walk, walkTable nlb (place base offset descs ++ tail) ⟨prps, keys⟩ = .covered walk ∧
      ∀ prp ∈ walk.prps, prp ∈ prps ∨
        ∃ inside, Inside isWrite inside ∧ prp = base + UInt64.ofNat inside := by
  induction descs generalizing offset prps keys with
  | nil =>
      have done : nlb ≤ prps.length := Nat.sub_eq_zero_iff_le.mp contained
      exact ⟨⟨prps, keys⟩, walkTable_covered done _, fun prp mem => Or.inl mem⟩
  | cons desc rest ih =>
      by_cases done : nlb ≤ prps.length
      · exact ⟨⟨prps, keys⟩, walkTable_covered done _, fun prp mem => Or.inl mem⟩
      · obtain ⟨noBucket, inside, later⟩ :=
          contained.resolve_left fun zero => done (Nat.sub_eq_zero_iff_le.mp zero)
        obtain ⟨keys', step⟩ := walkTable_place base tail plain noBucket done offset keys
        rw [Nat.sub_sub, ← length_prpsOf_desc (base + UInt64.ofNat offset), ← List.length_append]
          at later
        obtain ⟨walk, covered, all⟩ := ih plain.tail _ later keys'
        refine ⟨walk, step.trans covered, fun prp mem => ?_⟩
        rcases all prp mem with mem | found
        · rcases List.mem_append.mp mem with mem | mem
          · exact Or.inl mem
          · obtain ⟨block, lt, rfl⟩ := mem_prpsOf_desc.mp mem
            refine Or.inr ⟨_, inside block lt, ?_⟩
            rw [UInt64.ofNat_add, UInt64.add_assoc]
        · exact Or.inr found

/-- A walk that is covered keeps the addresses it had. -/
theorem subset_of_walkTable {table : List SglDesc} {walk after : PrpWalk}
    (covered : walkTable nlb table walk = .covered after) : walk.prps ⊆ after.prps := by
  induction table generalizing walk with
  | nil =>
      rw [walkTable] at covered
      split at covered
      · cases covered
        exact List.Subset.refl _
      · cases covered
  | cons desc rest ih =>
      rw [walkTable] at covered
      split at covered
      · cases covered
        exact List.Subset.refl _
      · split at covered
        · cases covered
        · split at covered
          · exact List.Subset.trans (List.subset_append_left _ _) (ih covered)
          · exact List.Subset.trans (List.subset_append_left _ _) (ih covered)
          · exact List.Subset.trans (List.subset_append_left _ _) (ih covered)
          · cases covered
          · cases covered
          · cases covered
          · cases covered

/-- A data block that has all blocks of a command. -/
def wholeBlock (addr : UInt64) : SglDesc :=
  { SglDesc.zero with addr := addr, word := UInt32.ofNat (nvmeKernelPgSize * 256) }

theorem walkTable_wholeBlock {addr : UInt64} (few : nlb ≤ 256) {prps : List UInt64}
    (more : ¬ nlb ≤ prps.length) (keys : List Nat) (rest : List SglDesc) :
    walkTable nlb (wholeBlock addr :: rest) ⟨prps, keys⟩ =
      .covered ⟨prps ++ prpsOf addr (nvmeKernelPgSize * 256), keys⟩ := by
  have length : (wholeBlock addr).dataLength = nvmeKernelPgSize * 256 := rfl
  rw [walkTable, if_neg more]
  change walkTable nlb rest ⟨prps ++ prpsOf addr (wholeBlock addr).dataLength, keys⟩ = _
  rw [length]
  refine walkTable_covered ?_ _
  rw [List.length_append, length_prpsOf]
  omega

theorem mem_prpsOf_self (addr : UInt64) {length : Nat} (pos : 0 < length) :
    addr ∈ prpsOf addr length := by
  refine List.mem_map.mpr ⟨0, List.mem_range.mpr ?_, UInt64.add_zero addr⟩
  rw [nvmeKernelPgSize]
  omega

/-- Where the list neither is refused nor keeps inside the areas, some address is outside of
them or comes from what lies behind the list. -/
theorem walkTable_escapes (base : UInt64) {isWrite full : Bool} {descs tail : List SglDesc}
    (plain : Plain descs) (few : nlb ≤ 256) {addr : UInt64}
    (behind : full = false → ∃ rest, tail = wholeBlock addr :: rest)
    (prps : List UInt64) (offset count : Nat) (bound : offset ≤ 2 ^ 32 * count)
    (sixteen : count + descs.length ≤ 16)
    (walks : ¬ Refused full (nlb - prps.length) descs)
    (leaves : ¬ Contained isWrite (nlb - prps.length) offset descs) (keys : List Nat) :
    ∃ walk, walkTable nlb (place base offset descs ++ tail) ⟨prps, keys⟩ = .covered walk ∧
      (addr ∈ walk.prps ∨
        ∃ outside < 2 ^ 40, ¬ Inside isWrite outside ∧
          base + UInt64.ofNat outside ∈ walk.prps) := by
  induction descs generalizing offset prps keys count with
  | nil =>
      have more : ¬ nlb ≤ prps.length := fun le => leaves (Nat.sub_eq_zero_of_le le)
      have open' : full = false := by
        by_contra isFull
        exact walks ⟨Nat.sub_pos_of_lt (Nat.not_le.mp more), Bool.eq_true_of_not_eq_false isFull⟩
      obtain ⟨rest, rfl⟩ := behind open'
      refine ⟨_, walkTable_wholeBlock few more keys rest, Or.inl ?_⟩
      exact List.mem_append_right _ (mem_prpsOf_self addr (by decide))
  | cons desc rest ih =>
      have more : ¬ nlb ≤ prps.length := fun le => leaves (Or.inl (Nat.sub_eq_zero_of_le le))
      have need : 0 < nlb - prps.length := Nat.sub_pos_of_lt (Nat.not_le.mp more)
      have noBucket : desc.type ≠ .bitBucket := fun bucket => walks ⟨need, Or.inl bucket⟩
      obtain ⟨keys', step⟩ := walkTable_place base tail plain noBucket more
        offset keys
      have needEq : nlb - prps.length - descBlocks desc =
          nlb - (prps ++ prpsOf (base + UInt64.ofNat offset)
            (oxfGetSglDescLength desc)).length := by
        rw [List.length_append, length_prpsOf_desc, Nat.sub_sub]
      have walksRest := fun refused => walks ⟨need, Or.inr refused⟩
      rw [needEq] at walksRest
      have advance := advance_lt desc
      rw [List.length_cons] at sixteen
      have boundRest : offset + setSglAdvance desc ≤ 2 ^ 32 * (count + 1) := by omega
      by_cases later : Contained isWrite (nlb - prps.length - descBlocks desc)
        (offset + setSglAdvance desc) rest
      · -- the rest of the list is fine, so a block of this descriptor is outside
        have leaves' : ∃ block < descBlocks desc,
            ¬ Inside isWrite (offset + nvmeKernelPgSize * block) := by
          by_contra none
          refine leaves (Or.inr ⟨noBucket, fun block lt => ?_, later⟩)
          by_contra out
          exact none ⟨block, lt, out⟩
        obtain ⟨block, lt, out⟩ := leaves'
        rw [needEq] at later
        obtain ⟨walk, covered, _⟩ := walkTable_contained base nlb tail plain.tail _
          later keys'
        refine ⟨walk, step.trans covered, Or.inr ⟨_, ?_, out, ?_⟩⟩
        · have length := length_le_advance (plain.isData noBucket)
          rw [descBlocks, nvmeKernelPgSize] at lt
          rw [nvmeKernelPgSize]
          omega
        · refine subset_of_walkTable covered (List.mem_append_right _ ?_)
          refine mem_prpsOf_desc.mpr ⟨block, lt, ?_⟩
          rw [UInt64.ofNat_add, UInt64.add_assoc]
      · rw [needEq] at later
        obtain ⟨walk, covered, found⟩ := ih plain.tail _ _ _ boundRest
          (by omega) walksRest later keys'
        exact ⟨walk, step.trans covered, found⟩

end Walk

/-! ## The host's own descriptor -/

section Raw

variable {mem : UInt64 → Nat → SglDesc} {nlb : Nat}

theorem walkTable_segment {desc : SglDesc} (segment : desc.type.isSegment = true)
    (subtype : desc.subtype = nvmeSglSubAddr) (walk : PrpWalk) (more : ¬ nlb ≤ walk.prps.length)
    (rest : List SglDesc) : walkTable nlb (desc :: rest) walk = .segment desc walk := by
  rw [walkTable, if_neg more, if_neg (not_not_intro subtype)]
  cases type : desc.type with
  | segment | lastSegment => rfl
  | dataBlock | keyedData | fiveByteKeys | bitBucket | reserved =>
      rw [type] at segment
      exact absurd segment Bool.false_ne_true

theorem nvmefSglToPrp_data (mem : UInt64 → Nat → SglDesc) {desc : SglDesc}
    (data : desc.type.isData = true)
    (subtype : desc.subtype = nvmeSglSubAddr) {prps : List UInt64} (more : ¬ nlb ≤ prps.length)
    (segments : Nat) (rest nextDesc : List SglDesc) (keys : List Nat) :
    ∃ keys', nvmefSglToPrp mem nlb segments (desc :: rest) nextDesc ⟨prps, keys⟩ =
      nvmefSglToPrp mem nlb segments rest nextDesc
        ⟨prps ++ prpsOf desc.addr (oxfGetSglDescLength desc), keys'⟩ := by
  have same : ({ desc with addr := desc.addr, subtype := nvmeSglSubAddr } : SglDesc) = desc := by
    rw [← subtype]
  obtain ⟨keys', step⟩ := walkTable_data more data desc.addr keys rest
  rw [same] at step
  refine ⟨keys', ?_⟩
  cases segments with
  | zero => rfl
  | succ segments => rw [nvmefSglToPrp, nvmefSglToPrp, step]

theorem nvmefSglToPrp_refusable (mem : UInt64 → Nat → SglDesc) {desc : SglDesc}
    (refusable : Refusable desc) (walk : PrpWalk)
    (more : ¬ nlb ≤ walk.prps.length) (segments : Nat) (rest nextDesc : List SglDesc) :
    nvmefSglToPrp mem nlb (segments + 1) (desc :: rest) nextDesc walk = .refused := by
  rw [nvmefSglToPrp]
  by_cases subtype : desc.subtype = nvmeSglSubAddr
  · rcases refusable.resolve_left (not_not_intro subtype) with
      bucket | ⟨code, reserved⟩ | ⟨segment, length⟩
    · rw [walkTable_bucket walk more bucket]
    · rw [walkTable, if_neg more, if_neg (not_not_intro subtype), reserved]
    · rw [walkTable_segment segment subtype walk more]
      by_cases odd : desc.dataLength = 0 ∨ desc.dataLength % 16 ≠ 0
      · exact if_pos odd
      · have long : desc.dataLength > nvmefSglSz := by
          rcases length with zero | rest | long
          · exact absurd (Or.inl zero) odd
          · exact absurd (Or.inr rest) odd
          · exact long
        exact (if_neg odd).trans (if_pos long)
  · rw [walkTable, if_neg more, if_pos subtype]

/-- A command that keeps the host's descriptor gets no addresses when it is refused. -/
theorem nvmefSglToPrp_raw {cmd : NvmeCmd} (refused : RawRefused cmd) (segments : Nat)
    (behind nextDesc : List SglDesc) (walk : PrpWalk) :
    nvmefSglToPrp mem (blocks cmd) segments (cmd.sgl :: cmd.cdw10 :: behind) nextDesc {} ≠
      .prps walk := by
  have more : ¬ blocks cmd ≤ ({} : PrpWalk).prps.length := Nat.not_succ_le_zero _
  intro result
  cases segments with
  | zero => cases result
  | succ segments =>
      rcases refused with refusable | ⟨data, few, refusable⟩
      · rw [nvmefSglToPrp_refusable mem refusable {} more] at result
        cases result
      · by_cases subtype : cmd.sgl.subtype = nvmeSglSubAddr
        · obtain ⟨keys, step⟩ := nvmefSglToPrp_data mem data subtype more (segments + 1)
            (cmd.cdw10 :: behind) nextDesc []
          have more' : ¬ blocks cmd ≤
              ([] ++ prpsOf cmd.sgl.addr (oxfGetSglDescLength cmd.sgl)).length := by
            rw [List.nil_append, length_prpsOf_desc]
            exact Nat.not_le.mpr few
          have second := nvmefSglToPrp_refusable mem refusable ⟨_, keys⟩ more'
            segments behind nextDesc
          rw [step, second] at result
          cases result
        · rw [nvmefSglToPrp_refusable mem (Or.inl subtype) {} more] at result
          cases result

section Escape

variable {out : UInt64} {nextDesc : List SglDesc} (few : nlb ≤ 256)
  (stack : ∃ rest, nextDesc = wholeBlock out :: rest)

include few stack

/-- A segment descriptor leads to whatever is in the memory. -/
theorem segment_escapes {desc : SglDesc} (valid : ¬ Refusable desc)
    (segment : desc.type.isSegment = true)
    (elsewhere : desc.addr ≠ 0 → mem desc.addr 0 = wholeBlock out) {prps : List UInt64}
    (more : ¬ nlb ≤ prps.length) (rest : List SglDesc) (keys : List Nat) :
    ∃ walk, nvmefSglToPrp mem nlb 2 (desc :: rest) nextDesc ⟨prps, keys⟩ = .prps walk ∧
      out ∈ walk.prps := by
  have subtype : desc.subtype = nvmeSglSubAddr := by
    by_contra other
    exact valid (Or.inl other)
  have length : desc.dataLength ≠ 0 ∧ desc.dataLength % 16 = 0 ∧ desc.dataLength ≤ nvmefSglSz := by
    refine ⟨fun zero => ?_, ?_, ?_⟩
    · exact valid (Or.inr (Or.inr (Or.inr ⟨segment, Or.inl zero⟩)))
    · by_contra odd
      exact valid (Or.inr (Or.inr (Or.inr ⟨segment, Or.inr (Or.inl odd)⟩)))
    · by_contra long
      exact valid (Or.inr (Or.inr (Or.inr ⟨segment, Or.inr (Or.inr (Nat.not_le.mp long))⟩)))
  have odd : ¬ (desc.dataLength = 0 ∨ desc.dataLength % 16 ≠ 0) := by
    rintro (zero | rest)
    · exact length.1 zero
    · exact rest length.2.1
  have head : ∃ later, loadSegment mem nextDesc desc = wholeBlock out :: later := by
    obtain ⟨later, rfl⟩ := stack
    by_cases null : desc.addr = 0
    · exact ⟨later, if_pos null⟩
    · obtain ⟨count, eq⟩ : ∃ count, desc.dataLength / 16 = count + 1 :=
        ⟨desc.dataLength / 16 - 1, by omega⟩
      have loaded : loadSegment mem (wholeBlock out :: later) desc =
          (List.range (count + 1)).map (mem desc.addr) ++
            (wholeBlock out :: later).drop (count + 1) := by
        rw [loadSegment, if_neg null, eq]
      rw [List.range_succ_eq_map, List.map_cons, elsewhere null, List.cons_append] at loaded
      exact ⟨_, loaded⟩
  obtain ⟨later, loaded⟩ := head
  refine ⟨⟨prps ++ prpsOf out (nvmeKernelPgSize * 256), keys⟩, ?_,
    List.mem_append_right _ (mem_prpsOf_self out (by decide))⟩
  rw [nvmefSglToPrp, walkTable_segment segment subtype ⟨prps, keys⟩ more]
  simp only [if_neg odd, if_neg (Nat.not_lt.mpr length.2.2), loaded]
  rw [nvmefSglToPrp, walkTable_wholeBlock few more]

/-- A descriptor that is not refused gives its address away, or leads further. -/
theorem desc_escapes (rest : List SglDesc) (found : PrpWalk → Prop) {desc : SglDesc}
    (valid : ¬ Refusable desc)
    (elsewhere : desc.addr ≠ 0 → mem desc.addr 0 = wholeBlock out) {prps : List UInt64}
    (more : ¬ nlb ≤ prps.length)
    (further : desc.type.isData = true → descBlocks desc + prps.length < nlb →
      ∀ (prps : List UInt64) (keys : List Nat), ¬ nlb ≤ prps.length →
      ∃ walk, nvmefSglToPrp mem nlb 2 rest nextDesc ⟨prps, keys⟩ = .prps walk ∧ found walk)
    (keys : List Nat) :
    ∃ walk, nvmefSglToPrp mem nlb 2 (desc :: rest) nextDesc ⟨prps, keys⟩ = .prps walk ∧
      (desc.addr ∈ walk.prps ∨ out ∈ walk.prps ∨ found walk) := by
  by_cases segment : desc.type.isSegment = true
  · obtain ⟨walk, result, mem⟩ :=
      segment_escapes few stack valid segment elsewhere more rest keys
    exact ⟨walk, result, Or.inr (Or.inl mem)⟩
  · have subtype : desc.subtype = nvmeSglSubAddr := by
      by_contra other
      exact valid (Or.inl other)
    have data : desc.type.isData = true := by
      cases type : desc.type with
      | dataBlock | keyedData | fiveByteKeys => rfl
      | bitBucket => exact absurd (Or.inr (Or.inl type)) valid
      | reserved code => exact absurd (Or.inr (Or.inr (Or.inl ⟨code, type⟩))) valid
      | segment | lastSegment =>
          rw [type] at segment
          exact absurd rfl segment
    obtain ⟨keys', step⟩ :=
      nvmefSglToPrp_data mem data subtype more 2 rest nextDesc keys
    by_cases done : nlb ≤ (prps ++ prpsOf desc.addr (oxfGetSglDescLength desc)).length
    · refine ⟨⟨prps ++ prpsOf desc.addr (oxfGetSglDescLength desc), keys'⟩, ?_,
        Or.inl (List.mem_append_right _ (mem_prpsOf_self _ ?_))⟩
      · rw [step, nvmefSglToPrp, walkTable_covered done]
      · by_contra empty
        have zero : oxfGetSglDescLength desc = 0 := Nat.eq_zero_of_not_pos empty
        rw [zero, List.length_append] at done
        exact more done
    · have short : descBlocks desc + prps.length < nlb := by
        rw [List.length_append, length_prpsOf_desc] at done
        omega
      obtain ⟨walk, result, ok⟩ := further data short _ keys' done
      exact ⟨walk, step.trans result, Or.inr (Or.inr ok)⟩

end Escape

/-- A command that keeps the host's descriptor and is not refused gets an address of the host. -/
theorem raw_escapes (mem : UInt64 → Nat → SglDesc) (nextDesc behind : List SglDesc) {cmd : NvmeCmd}
    (walks : ¬ RawRefused cmd) (few : blocks cmd ≤ 256)
    (stack : ∃ rest, nextDesc = wholeBlock cmd.sgl.addr :: rest)
    (next : ∃ rest, behind = wholeBlock cmd.sgl.addr :: rest)
    (first : cmd.sgl.addr ≠ 0 → mem cmd.sgl.addr 0 = wholeBlock cmd.sgl.addr)
    (second : cmd.cdw10.addr ≠ 0 → mem cmd.cdw10.addr 0 = wholeBlock cmd.sgl.addr) :
    ∃ walk,
      nvmefSglToPrp mem (blocks cmd) 2 (cmd.sgl :: cmd.cdw10 :: behind) nextDesc {} = .prps walk ∧
        (cmd.sgl.addr ∈ walk.prps ∨ cmd.cdw10.addr ∈ walk.prps) := by
  have more : ¬ blocks cmd ≤ ([] : List UInt64).length := Nat.not_succ_le_zero _
  have valid : ¬ Refusable cmd.sgl := fun refusable => walks (Or.inl refusable)
  obtain ⟨later, rfl⟩ := next
  have further : cmd.sgl.type.isData = true → descBlocks cmd.sgl + 0 < blocks cmd →
      ∀ (prps : List UInt64) (keys : List Nat), ¬ blocks cmd ≤ prps.length →
      ∃ walk, nvmefSglToPrp mem (blocks cmd) 2 (cmd.cdw10 :: wholeBlock cmd.sgl.addr :: later)
          nextDesc ⟨prps, keys⟩ = .prps walk ∧
        (cmd.cdw10.addr ∈ walk.prps ∨ cmd.sgl.addr ∈ walk.prps) := by
    intro data short prps keys more'
    have valid' : ¬ Refusable cmd.cdw10 :=
      fun refusable => walks (Or.inr ⟨data, short, refusable⟩)
    obtain ⟨walk, result, found⟩ := desc_escapes few stack
      (wholeBlock cmd.sgl.addr :: later) (fun walk => cmd.sgl.addr ∈ walk.prps) valid' second more'
      (fun _ _ prps keys more =>
        ⟨⟨prps ++ prpsOf cmd.sgl.addr (nvmeKernelPgSize * 256), keys⟩,
          by rw [nvmefSglToPrp, walkTable_wholeBlock few more],
          List.mem_append_right _ (mem_prpsOf_self _ (by decide))⟩) keys
    exact ⟨walk, result, found.imp id (Or.elim · id id)⟩
  obtain ⟨walk, result, found⟩ := desc_escapes few stack _ _ valid first more further []
  refine ⟨walk, result, ?_⟩
  rcases found with found | found | found | found
  · exact Or.inl found
  · exact Or.inl found
  · exact Or.inr found
  · exact Or.inl found

end Raw

/-! ## The whole way of a capsule -/

theorem plain_scanned {sgl : List SglDesc}
    (noSegment : ¬ ∃ desc ∈ scanned sgl, desc.type.isSegment = true) : Plain (scanned sgl) := by
  intro desc mem
  refine ⟨?_, ?_⟩
  · have all := List.all_eq_true.mp (List.all_takeWhile (l := sgl)
      (p := fun desc => oxfGetSglDescLength desc ≠ 0)) desc mem
    exact of_decide_eq_true all
  · by_contra segment
    exact noSegment ⟨desc, mem, Bool.eq_true_of_not_eq_false segment⟩

section SetSgl

variable {capsule : SqCapsule} {capsSz : Nat}

theorem setSgl_raw (raw : capsSz ≤ oxfNvmeCmdSz ∨
    ∃ desc ∈ scanned capsule.sgl, desc.type.isSegment = true) (addrs : ReplyAddrs)
    (isWrite : Bool) :
    (oxfFabricsSetSgl capsule addrs capsSz isWrite).1.cmd = capsule.cmd := by
  rw [oxfFabricsSetSgl]
  by_cases short : capsSz ≤ oxfNvmeCmdSz
  · rw [if_pos short]
  · rw [if_neg short]
    have chained := setSglLoop_chained (raw.resolve_left short)
      (if isWrite then addrs.sqData else addrs.cqData)
    simp only [if_pos chained]

theorem setSgl_placed (placed : ¬ (capsSz ≤ oxfNvmeCmdSz ∨
    ∃ desc ∈ scanned capsule.sgl, desc.type.isSegment = true)) (addrs : ReplyAddrs)
    (isWrite : Bool) :
    let set := oxfFabricsSetSgl capsule addrs capsSz isWrite
    let base := if isWrite then addrs.sqData else addrs.cqData
    set.1.cmd = { capsule.cmd with
        sgl := lastSegment capsule.cmd addrs.sgl (scanned capsule.sgl).length } ∧
      ∃ stop, set.1.sgl = place base 0 (scanned capsule.sgl) ++ stop := by
  intro set base
  obtain ⟨long, noSegment⟩ := not_or.mp placed
  have plain := plain_scanned noSegment
  have stops : ∀ desc ∈ (capsule.sgl.dropWhile fun desc => oxfGetSglDescLength desc ≠ 0).head?,
      oxfGetSglDescLength desc = 0 := by
    intro desc mem
    have not := List.head?_dropWhile_not (fun desc => oxfGetSglDescLength desc ≠ 0) capsule.sgl
    rw [Option.mem_def.mp mem] at not
    by_contra nonempty
    simp [nonempty] at not
  obtain ⟨bytes, loop⟩ := setSglLoop_place (fun desc mem => (plain desc mem).1)
    (fun desc mem => (plain desc mem).2) stops base 0
  have start : base + UInt64.ofNat 0 = base := UInt64.add_zero base
  rw [scanned, List.takeWhile_append_dropWhile, start] at loop
  simp only [set, oxfFabricsSetSgl, if_neg long]
  simp only [base] at loop
  simp only [loop, Bool.false_eq_true, if_false]
  exact ⟨rfl, _, rfl⟩

end SetSgl

section Mapping

variable {limits : Limits} {memory : SglMemory} {segments : Nat} {cmd : NvmeCmd}

theorem not_mapped_of_failsCheck (fails : FailsCheck limits cmd) (prps : List UInt64) :
    mapAddresses limits memory segments cmd ≠ .mapped prps := by
  intro mapped
  rw [mapAddresses] at mapped
  by_cases range : elba cmd > (limits.nsze + 1) % 2 ^ 64
  · rw [if_pos range] at mapped
    cases mapped
  · by_cases size : limits.mdts ≠ 0 ∧ dataSize limits cmd > limits.pageSize * 2 ^ limits.mdts
    · rw [if_neg range, if_pos size] at mapped
      cases mapped
    · rw [if_neg range, if_neg size,
        if_pos ((fails.resolve_left range).resolve_left size)] at mapped
      cases mapped

theorem mapAddresses_of_passes (passes : ¬ FailsCheck limits cmd) :
    mapAddresses limits memory segments cmd =
      if cmd.psdt = .sgl ∨ cmd.psdt = .sglMd then
        match nvmefSglToPrp memory.descs (blocks cmd) segments
          (cmd.sgl :: cmd.cdw10 :: memory.behind) memory.nextDesc {} with
        | .prps walk => .mapped walk.prps
        | .refused => .failed nvmeInvalidField
        | .running => .running
      else .mapped (commandPrps memory cmd) := by
  obtain ⟨range, rest⟩ := not_or.mp passes
  obtain ⟨size, many⟩ := not_or.mp rest
  rw [mapAddresses, if_neg range, if_neg size, if_neg many]
  cases cmd.psdt <;> rfl

theorem mapAddresses_withSgl (passes : ¬ FailsCheck limits cmd)
    (sgl : cmd.psdt = .sgl ∨ cmd.psdt = .sglMd) (desc : SglDesc) :
    mapAddresses limits memory segments { cmd with sgl := desc } =
      match nvmefSglToPrp memory.descs (blocks cmd) segments
        (desc :: cmd.cdw10 :: memory.behind) memory.nextDesc {} with
      | .prps walk => .mapped walk.prps
      | .refused => .failed nvmeInvalidField
      | .running => .running :=
  have passes : ¬ FailsCheck limits { cmd with sgl := desc } := passes
  (mapAddresses_of_passes passes).trans (if_pos sgl)

theorem prps_of_mapped {result : SglResult} {prps : List UInt64}
    (mapped : (match result with
      | .prps walk => Mapping.mapped walk.prps
      | .refused => .failed nvmeInvalidField
      | .running => .running) = .mapped prps) :
    ∃ walk, result = .prps walk ∧ walk.prps = prps := by
  cases result with
  | prps walk => exact ⟨walk, rfl, Mapping.mapped.inj mapped⟩
  | refused => cases mapped
  | running => cases mapped

theorem prp1_mem_commandPrps : cmd.prp1 ∈ commandPrps memory cmd := by
  rw [commandPrps]
  split
  · exact List.mem_cons_self
  · split
    · exact List.mem_cons_self
    · split
      · exact List.mem_cons_self
      · exact List.mem_cons_self

/-- A memory that holds the descriptors of a capsule and an address everywhere else. -/
def otherMemory (caps : UInt64) (sgl : List SglDesc) (out : UInt64) : SglMemory where
  descs addr index := if addr = caps + 64 then sgl.getD index (wholeBlock out) else wholeBlock out
  prps _ _ := out
  behind := List.replicate 14 (wholeBlock out)
  nextDesc := List.replicate (nvmefSglSz / 16) (wholeBlock out)
  behind_length := List.length_replicate
  nextDesc_length := List.length_replicate

theorem otherMemory_agrees (caps : UInt64) (sgl : List SglDesc) (out : UInt64) (index : Nat)
    (desc : SglDesc) (found : sgl[index]? = some desc) :
    (otherMemory caps sgl out).descs (caps + 64) index = desc := by
  rw [otherMemory]
  simp only [if_true]
  rw [List.getD_eq_getElem?_getD, found]
  rfl

end Mapping

section Capsule

variable {limits : Limits} {size : Nat} {bytes old : List UInt8}

/-- The descriptors behind the placed ones are those of the stack. -/
theorem nvmefSglToPrp_placed {memory : SglMemory} {cmd : NvmeCmd} {caps base : UInt64}
    (nonnull : caps + 64 ≠ 0) {list sgl stop : List SglDesc} (count : list.length ≤ nvmefSglSz / 16)
    (placed : sgl = place base 0 list ++ stop)
    (agrees : ∀ (index : Nat) (desc : SglDesc),
      sgl[index]? = some desc → memory.descs (caps + 64) index = desc)
    (pos : 0 < list.length) (segments : Nat) (rest : List SglDesc) :
    nvmefSglToPrp memory.descs (blocks cmd) (segments + 1)
        (lastSegment cmd (caps + 64) list.length :: rest) memory.nextDesc {} =
      let loaded := place base 0 list ++ memory.nextDesc.drop list.length
      nvmefSglToPrp memory.descs (blocks cmd) segments loaded loaded {} := by
  have loaded : (List.range list.length).map (memory.descs (caps + 64)) = place base 0 list := by
    rw [← length_place base 0 list]
    refine map_range_eq fun index desc found => agrees index desc ?_
    rw [placed, List.getElem?_append_left (List.getElem?_eq_some_iff.mp found).1, found]
  have some : 1 ≤ blocks cmd := Nat.le_add_left 1 _
  rw [nvmefSglToPrp_lastSegment some nonnull pos count, loaded]

theorem scanned_length_le (capsule : SqCapsule) :
    (scanned capsule.sgl).length ≤ nvmefSglSz / 16 := by
  rw [← capsule.sgl_length]
  exact (List.takeWhile_prefix _).length_le

/-- The capsule of a reply as `nvmef_process_capsule` gets it. -/
def delivered (size : Nat) (original : SqCapsule) (caps : UInt64) : SqCapsule :=
  (oxfFabricsSetSgl original (.ofCapsule caps) (size - oxfFabHeaderSz)
    (oxfFabricsSetDirection original.cmd.opcode)).1

theorem oxfFabricsRcvFn_of_received
    (received : Received size bytes (receivedCapsule size bytes old)) (caps : UInt64) :
    oxfFabricsRcvFn size bytes old caps =
      some (delivered size (receivedCapsule size bytes old) caps) := by
  rw [oxfFabricsRcvFn, if_pos received]
  rfl

/-- The memory holds the descriptors of the delivered capsule. -/
def Agrees (memory : SglMemory) (caps : UInt64) (capsule : SqCapsule) : Prop :=
  ∀ (index : Nat) (desc : SglDesc),
    capsule.sgl[index]? = some desc → memory.descs (caps + 64) index = desc

variable {original : SqCapsule} {caps : UInt64} {memory : SglMemory} {segments : Nat}

/-- The address from which the descriptors are placed. -/
def areaAddr (caps : UInt64) (isWrite : Bool) : UInt64 :=
  if isWrite then (ReplyAddrs.ofCapsule caps).sqData else (ReplyAddrs.ofCapsule caps).cqData

theorem delivered_raw (raw : KeepsSgl size original) (caps : UInt64) :
    (delivered size original caps).cmd = original.cmd :=
  setSgl_raw raw _ _

theorem delivered_placed (placed : ¬ KeepsSgl size original) (caps : UInt64) :
    (delivered size original caps).cmd = { original.cmd with
        sgl := lastSegment original.cmd (caps + 64) (scanned original.sgl).length } ∧
      ∃ stop, (delivered size original caps).sgl =
        place (areaAddr caps (oxfFabricsSetDirection original.cmd.opcode)) 0
          (scanned original.sgl) ++ stop :=
  setSgl_placed placed _ _

theorem inArea_of_placed (passes : ¬ FailsCheck limits original.cmd)
    (sgl : original.cmd.psdt = .sgl ∨ original.cmd.psdt = .sglMd)
    (placed : ¬ KeepsSgl size original)
    (safe : scanned original.sgl = [] ∨
      Refused ((scanned original.sgl).length = nvmefSglSz / 16) (blocks original.cmd)
        (scanned original.sgl) ∨
      Contained (oxfFabricsSetDirection original.cmd.opcode) (blocks original.cmd) 0
        (scanned original.sgl))
    (nonnull : caps + 64 ≠ 0) (agrees : Agrees memory caps (delivered size original caps))
    {prps : List UInt64}
    (mapped : mapAddresses limits memory segments (delivered size original caps).cmd =
      .mapped prps) :
    ∀ prp ∈ prps, InArea caps prp := by
  obtain ⟨cmd, stop, laid⟩ := delivered_placed placed caps
  have plain := plain_scanned (not_or.mp placed).2
  have count := scanned_length_le original
  rw [cmd, mapAddresses_withSgl passes sgl] at mapped
  obtain ⟨walk, result, rfl⟩ := prps_of_mapped mapped
  cases segments with
  | zero => cases result
  | succ segments =>
      by_cases none : scanned original.sgl = []
      · have empty : Refusable
          (lastSegment original.cmd (caps + 64) (scanned original.sgl).length) := by
          rw [none]
          exact Or.inr (Or.inr (Or.inr ⟨rfl, Or.inl rfl⟩))
        have more : ¬ blocks original.cmd ≤ ({} : PrpWalk).prps.length := Nat.not_succ_le_zero _
        rw [nvmefSglToPrp_refusable _ empty {} more] at result
        cases result
      · rw [nvmefSglToPrp_placed nonnull count laid agrees
          (List.length_pos_iff.mpr none)] at result
        cases segments with
        | zero => cases result
        | succ segments =>
            rw [nvmefSglToPrp] at result
            rcases safe.resolve_left none with refused | contained
            · have tail : decide ((scanned original.sgl).length = nvmefSglSz / 16) = true →
                  memory.nextDesc.drop (scanned original.sgl).length = [] := by
                intro full
                rw [of_decide_eq_true full, ← memory.nextDesc_length, List.drop_length]
              rw [walkTable_refused (blocks original.cmd) plain tail [] refused]
                at result
              cases result
            · obtain ⟨covered, walks, inside⟩ := walkTable_contained
                (areaAddr caps (oxfFabricsSetDirection original.cmd.opcode)) (blocks original.cmd)
                (memory.nextDesc.drop (scanned original.sgl).length) plain [] contained []
              rw [walks] at result
              cases result
              intro prp mem
              obtain ⟨offset, isInside, rfl⟩ :=
                (inside prp mem).resolve_left List.not_mem_nil
              exact (inArea_offset caps _ (inside_lt isInside)).mpr isInside

theorem escapes_of_placed (passes : ¬ FailsCheck limits original.cmd)
    (sgl : original.cmd.psdt = .sgl ∨ original.cmd.psdt = .sglMd)
    (placed : ¬ KeepsSgl size original) (some : scanned original.sgl ≠ [])
    (walks : ¬ Refused ((scanned original.sgl).length = nvmefSglSz / 16) (blocks original.cmd)
      (scanned original.sgl))
    (leaves : ¬ Contained (oxfFabricsSetDirection original.cmd.opcode) (blocks original.cmd) 0
      (scanned original.sgl))
    (nonnull : caps + 64 ≠ 0) :
    ∃ memory prps, Agrees memory caps (delivered size original caps) ∧
      mapAddresses limits memory 2 (delivered size original caps).cmd = .mapped prps ∧
      ∃ prp ∈ prps, ¬ InArea caps prp := by
  let memory := otherMemory caps (delivered size original caps).sgl (caps + 64)
  obtain ⟨cmd, stop, laid⟩ := delivered_placed placed caps
  have plain := plain_scanned (not_or.mp placed).2
  have count := scanned_length_le original
  have few : blocks original.cmd ≤ 256 := Nat.not_lt.mp (not_or.mp (not_or.mp passes).2).2
  have agrees : Agrees memory caps (delivered size original caps) := otherMemory_agrees _ _ _
  have behind : decide ((scanned original.sgl).length = nvmefSglSz / 16) = false →
      ∃ rest, memory.nextDesc.drop (scanned original.sgl).length =
        wholeBlock (caps + 64) :: rest := by
    intro open'
    have lt : (scanned original.sgl).length < nvmefSglSz / 16 :=
      Nat.lt_of_le_of_ne count (of_decide_eq_false open')
    obtain ⟨left, eq⟩ := Nat.exists_eq_add_of_lt lt
    refine ⟨List.replicate left (wholeBlock (caps + 64)), ?_⟩
    change (List.replicate (nvmefSglSz / 16) _).drop _ = _
    rw [List.drop_replicate, eq, Nat.add_assoc, Nat.add_sub_cancel_left, List.replicate_succ]
  obtain ⟨walk, covered, out⟩ := walkTable_escapes
    (areaAddr caps (oxfFabricsSetDirection original.cmd.opcode)) plain few behind [] 0 0
    (Nat.zero_le _) (by rw [Nat.zero_add]; exact count) walks leaves []
  refine ⟨memory, walk.prps, agrees, ?_, ?_⟩
  · rw [cmd, mapAddresses_withSgl passes sgl, nvmefSglToPrp_placed nonnull count laid agrees
      (List.length_pos_iff.mpr some), nvmefSglToPrp, covered]
  · rcases out with mem | ⟨offset, lt, outside, mem⟩
    · exact ⟨_, mem, not_inArea_sgl caps⟩
    · exact ⟨_, mem, fun inside => outside ((inArea_offset caps _ lt).mp inside)⟩

/-- A reply that is far from the addresses of the command. -/
theorem escapes_of_raw (passes : ¬ FailsCheck limits original.cmd)
    (sgl : original.cmd.psdt = .sgl ∨ original.cmd.psdt = .sglMd) (raw : KeepsSgl size original)
    (walks : ¬ RawRefused original.cmd) {index : Nat} (small : index < 8)
    (first : original.cmd.sgl.addr.toNat / 2 ^ 20 ≠ index)
    (second : original.cmd.cdw10.addr.toNat / 2 ^ 20 ≠ index) :
    let caps := UInt64.ofNat (index * 2 ^ 20)
    ∃ memory prps, Agrees memory caps (delivered size original caps) ∧
      mapAddresses limits memory 2 (delivered size original caps).cmd = .mapped prps ∧
      ∃ prp ∈ prps, ¬ InArea caps prp := by
  intro caps
  have few : blocks original.cmd ≤ 256 := Nat.not_lt.mp (not_or.mp (not_or.mp passes).2).2
  have farFirst := not_inArea_of_far small first
  have farSecond := not_inArea_of_far small second
  let memory := otherMemory caps (delivered size original caps).sgl original.cmd.sgl.addr
  have agrees : Agrees memory caps (delivered size original caps) := otherMemory_agrees _ _ _
  obtain ⟨walk, result, found⟩ := raw_escapes memory.descs memory.nextDesc
    memory.behind walks few ⟨_, rfl⟩ ⟨_, rfl⟩ (fun _ => if_neg farFirst.2)
    (fun _ => if_neg farSecond.2)
  refine ⟨memory, walk.prps, agrees, ?_, ?_⟩
  · rw [delivered_raw raw]
    have mapped : mapAddresses limits memory 2 { original.cmd with sgl := original.cmd.sgl } = _ :=
      mapAddresses_withSgl passes sgl original.cmd.sgl
    rw [result] at mapped
    exact mapped
  · rcases found with mem | mem
    · exact ⟨_, mem, farFirst.1⟩
    · exact ⟨_, mem, farSecond.1⟩

theorem isRw_delivered : IsRw (delivered size original caps).cmd ↔ IsRw original.cmd := by
  by_cases raw : KeepsSgl size original
  · rw [delivered_raw raw]
  · rw [(delivered_placed raw caps).1]
    exact Iff.rfl

theorem failsCheck_delivered :
    FailsCheck limits (delivered size original caps).cmd ↔ FailsCheck limits original.cmd := by
  by_cases raw : KeepsSgl size original
  · rw [delivered_raw raw]
  · rw [(delivered_placed raw caps).1]
    exact Iff.rfl

theorem psdt_delivered (size : Nat) (caps : UInt64) :
     (delivered size original caps).cmd.psdt = original.cmd.psdt := by
  by_cases raw : KeepsSgl size original
  · rw [delivered_raw raw]
  · rw [(delivered_placed raw caps).1]

/-- A command without an SGL takes its first address from the command, or, when the descriptors
have been placed, that of the descriptors. -/
theorem escapes_of_prp (passes : ¬ FailsCheck limits original.cmd)
    (prp : ¬ (original.cmd.psdt = .sgl ∨ original.cmd.psdt = .sglMd)) {index : Nat}
    (small : index < 8) (first : original.cmd.sgl.addr.toNat / 2 ^ 20 ≠ index) :
    let caps := UInt64.ofNat (index * 2 ^ 20)
    ∃ memory prps, Agrees memory caps (delivered size original caps) ∧
      mapAddresses limits memory 2 (delivered size original caps).cmd = .mapped prps ∧
      ∃ prp ∈ prps, ¬ InArea caps prp := by
  intro caps
  let memory := otherMemory caps (delivered size original caps).sgl 0
  have agrees : Agrees memory caps (delivered size original caps) := otherMemory_agrees _ _ _
  refine ⟨memory, commandPrps memory (delivered size original caps).cmd, agrees, ?_, _,
    prp1_mem_commandPrps, ?_⟩
  · rw [← psdt_delivered size caps] at prp
    rw [mapAddresses_of_passes (mt failsCheck_delivered.mp passes), if_neg prp]
  · by_cases raw : KeepsSgl size original
    · rw [delivered_raw raw]
      exact (not_inArea_of_far small first).1
    · rw [(delivered_placed raw caps).1]
      exact not_inArea_sgl caps

/-- A capsule gives the host no address outside of the data areas of its own reply exactly when
the controller drops it, it is no read or write, or its contents are safe. -/
theorem addresses_confined_iff (limits : Limits) (size : Nat) (bytes old : List UInt8) :
    Confined limits size bytes old ↔
      let capsule := receivedCapsule size bytes old
      ¬ Received size bytes capsule ∨ ¬ IsRw capsule.cmd ∨ SafeContents limits size capsule := by
  let capsule := receivedCapsule size bytes old
  change Confined limits size bytes old ↔
    ¬ Received size bytes capsule ∨ ¬ IsRw capsule.cmd ∨ SafeContents limits size capsule
  constructor
  · intro confined
    by_contra unsafe'
    obtain ⟨notDropped, rest⟩ := not_or.mp unsafe'
    obtain ⟨isRw, gives⟩ := not_or.mp rest
    have received := not_not.mp notDropped
    obtain ⟨passes, contents⟩ := not_or.mp gives
    obtain ⟨index, small, first, second⟩ :=
      exists_far capsule.cmd.sgl.addr capsule.cmd.cdw10.addr
    have nonnull := far_nonnull small
    have escapes : ∃ memory prps,
        Agrees memory (UInt64.ofNat (index * 2 ^ 20))
            (delivered size capsule (UInt64.ofNat (index * 2 ^ 20))) ∧
          mapAddresses limits memory 2
              (delivered size capsule (UInt64.ofNat (index * 2 ^ 20))).cmd = .mapped prps ∧
          ∃ prp ∈ prps, ¬ InArea (UInt64.ofNat (index * 2 ^ 20)) prp := by
      by_cases sgl : capsule.cmd.psdt = .sgl ∨ capsule.cmd.psdt = .sglMd
      · have rest := fun safe => contents ⟨sgl, safe⟩
        by_cases raw : KeepsSgl size capsule
        · rw [if_pos raw] at rest
          exact escapes_of_raw passes sgl raw rest small first second
        · rw [if_neg raw] at rest
          obtain ⟨some, rest⟩ := not_or.mp rest
          obtain ⟨walks, leaves⟩ := not_or.mp rest
          exact escapes_of_placed passes sgl raw some walks leaves nonnull
      · exact escapes_of_prp passes sgl small first
    obtain ⟨memory, prps, agrees, mapped, prp, mem, outside⟩ := escapes
    exact outside (confined _ memory 2 _ prps nonnull
      (oxfFabricsRcvFn_of_received received _) agrees
      (isRw_delivered.mpr (not_not.mp isRw)) mapped prp mem)
  · intro safe caps memory segments delivered' prps nonnull rcv agrees isRw mapped
    by_cases received : Received size bytes capsule
    · have same : delivered size capsule caps = delivered' :=
        Option.some.inj ((oxfFabricsRcvFn_of_received received caps).symm.trans rcv)
      subst same
      have contents := (safe.resolve_left (not_not_intro received)).resolve_left
        (not_not_intro (isRw_delivered.mp isRw))
      by_cases fails : FailsCheck limits capsule.cmd
      · exact absurd mapped (not_mapped_of_failsCheck (failsCheck_delivered.mpr fails) prps)
      · obtain ⟨sgl, rest⟩ := contents.resolve_left fails
        by_cases raw : KeepsSgl size capsule
        · rw [if_pos raw] at rest
          rw [delivered_raw raw, mapAddresses_of_passes fails, if_pos sgl] at mapped
          obtain ⟨walk, result, _⟩ := prps_of_mapped mapped
          exact absurd result (nvmefSglToPrp_raw rest segments _ _ walk)
        · rw [if_neg raw] at rest
          exact inArea_of_placed fails sgl raw rest nonnull agrees mapped
    · exact absurd ((if_neg received).symm.trans rcv) (by simp)

end Capsule

/-- A read of one block on queue 1.  The capsule ends behind the command, whose descriptor is a
data block of 4 KB at address `0x112233440000`. -/
def rawCapsule : List UInt8 :=
  [0x3c, 67, 0] ++
    ([0x02, 0x40, 0xff, 0x07] ++ (List.replicate 20 0 ++
      ([0, 0, 0x44, 0x33, 0x22, 0x11, 0, 0] ++ ([0, 0x10, 0, 0] ++ List.replicate 28 0))))

/-- The controller reads to the address that the host has chosen. -/
theorem raw_descriptor_escapes : ¬ Confined ⟨2 ^ 20, 12, 8, 4096⟩ 67 rawCapsule [] := by
  intro confined
  have received : Received 67 rawCapsule (receivedCapsule 67 rawCapsule []) := by decide
  have mapped : mapAddresses ⟨2 ^ 20, 12, 8, 4096⟩ (otherMemory (2 ^ 20)
      (delivered 67 (receivedCapsule 67 rawCapsule []) (2 ^ 20)).sgl 0) 1
      (delivered 67 (receivedCapsule 67 rawCapsule []) (2 ^ 20)).cmd =
        .mapped [0x112233440000] := by decide
  have rcv : oxfFabricsRcvFn 67 rawCapsule [] (2 ^ 20) =
      some (delivered 67 (receivedCapsule 67 rawCapsule []) (2 ^ 20)) :=
    oxfFabricsRcvFn_of_received received _
  have inside := confined (2 ^ 20) _ 1 _ _ (by decide) rcv
    (otherMemory_agrees _ _ _) (by decide) mapped _ List.mem_cons_self
  exact absurd inside (by decide)

end OxCtrl.Fabrics
