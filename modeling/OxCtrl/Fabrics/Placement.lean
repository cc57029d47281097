import Mathlib.Algebra.Order.BigOperators.Group.List
import Mathlib.Algebra.Order.Ring.Nat
import OxCtrl.Lib.Memory
import OxCtrl.Fabrics.Sgl

/-!
# Data placement

The host packs the data of a write behind the descriptors of the capsule and copies the data
of a read from the reply to the ranges of the descriptors.  The controller gives the
descriptors addresses inside the capsule, and converts them to 4 KB addresses.  Each of the
four walks counts the lengths on its own.
-/

namespace OxCtrl.Fabrics

open OxCtrl.Lib

/-- `OXF_FAB_CMD_SZ`. -/
def oxfFabCmdSz : Nat := 67

/-- `OXF_FAB_CQE_SZ`. -/
def oxfFabCqeSz : Nat := 19

/-- `OXF_FAB_HEADER_SZ`. -/
def oxfFabHeaderSz : Nat := 3

/-- `OXF_FAB_CAPS_SZ`. -/
def oxfFabCapsSz : Nat := 65507

/-- `OXF_SQC_MAX_DATA`. -/
def oxfSqcMaxData : Nat := 65184

/-- `OXF_CQC_MAX_DATA`. -/
def oxfCqcMaxData : Nat := 65488

/-! ## The host -/

/-- The loop of `oxf_host_prepare_sq_capsule` over the descriptors: the bytes of the capsule and
its data area. -/
def packLoop (mem : Nat → UInt8) (isWrite : Bool) :
    List SglDesc → Nat → Nat → List UInt8 → Option (Nat × List UInt8)
  | [], _, bytes, data => some (bytes, data)
  | desc :: rest, offset, bytes, data =>
      if isWrite ∧ desc.type = .dataBlock then
        let bytes := (bytes + desc.dataLength) % 2 ^ 32
        if bytes > oxfFabCapsSz then some (bytes, data)
        else do
          let data ← memcpy data offset (load mem desc.addr.toNat desc.dataLength) 0 desc.dataLength
          packLoop mem isWrite rest (offset + desc.dataLength) bytes data
      else packLoop mem isWrite rest offset bytes data

/-- The capsule of a command slot, its data area, and the size to send. -/
structure HostCapsule where
  capsule : SqCapsule
  data : List UInt8
  bytes : Nat

/-- `capsule->sgl` after the `memset` and the copy of the descriptors. -/
def hostSgl (descs : List SglDesc) : List SglDesc :=
  descs ++ List.replicate (nvmefSglSz / 16 - descs.length) SglDesc.zero

theorem length_hostSgl {descs : List SglDesc} (le : descs.length ≤ nvmefSglSz / 16) :
    (hostSgl descs).length = nvmefSglSz / 16 := by
  rw [hostSgl, List.length_append, List.length_replicate, Nat.add_sub_cancel' le]

/-- The size of a capsule in front of its data. -/
def hostCapsuleSz (descs : List SglDesc) : Nat :=
  if descs = [] then oxfFabCmdSz else oxfFabCmdSz + nvmefSglSz

/-- `oxf_host_prepare_sq_capsule`.  `oxf_host_submit_io` has refused lists of more than 16
descriptors. -/
def oxfHostPrepareSqCapsule (mem : Nat → UInt8) (data : List UInt8) (cmd : NvmeCmd)
    (descs : List SglDesc) (isWrite : Bool) : Option HostCapsule :=
  if le : descs.length ≤ nvmefSglSz / 16 then do
    let (bytes, data) ← packLoop mem isWrite descs 0 (hostCapsuleSz descs) data
    some
      { capsule := { cmd := cmd, sgl := hostSgl descs, sgl_length := length_hostSgl le }
        data := data
        bytes := bytes }
  else none

/-- The loop of `oxf_host_rcv_fn`: the memory afterwards, and whether the function goes on to
complete the command. -/
def copyBackLoop (data : List UInt8) : List SglDesc → Nat → (Nat → UInt8) → (Nat → UInt8) × Bool
  | [], _, mem => (mem, true)
  | desc :: rest, offset, mem =>
      if oxfGetDescLength desc = 0 then (mem, true)
      else
        match desc.type with
        | .bitBucket => copyBackLoop data rest offset mem
        | .dataBlock | .keyedData | .fiveByteKeys =>
            copyBackLoop data rest (offset + oxfGetDescLength desc)
              (store mem desc.addr.toNat (slice data offset (oxfGetDescLength desc)))
        | _ => (mem, false)

/-- `capsule->size` of a reply to a read, as `oxf_complete` computes it. -/
def replySize (dataSz : Nat) : Nat :=
  (oxfFabCqeSz + dataSz) % 2 ^ 16

/-! ## The round trip -/

/-- The bytes of the descriptors in front of one. -/
def bytesBefore (descs : List SglDesc) (index : Nat) : Nat :=
  ((descs.take index).map oxfGetSglDescLength).sum

/-- The 4 KB blocks of the host buffers, in order. -/
def hostBlocks (descs : List SglDesc) : List Nat :=
  descs.flatMap fun desc =>
    blocksAt nvmeKernelPgSize desc.addr.toNat (oxfGetSglDescLength desc / nvmeKernelPgSize)

/-- The host's command as the controller has placed it. -/
def placed (host : SqCapsule) (addrs : ReplyAddrs) (bytes : Nat) (isWrite : Bool) :
    SqCapsule × Nat :=
  oxfFabricsSetSgl host addrs (bytes - oxfFabHeaderSz) isWrite

/-- The ranges of the descriptors lie one after another from `base` on. -/
def Laid (descs sgl : List SglDesc) (base : UInt64) : Prop :=
  ∀ (index : Nat) (desc : SglDesc), descs[index]? = some desc → oxfGetSglDescLength desc ≠ 0 →
    ∃ desc', sgl[index]? = some desc' ∧ desc'.addr = base + UInt64.ofNat (bytesBefore descs index)

/-- For each number of blocks, `nvmef_sgl_to_prp` gives block `i` the address of block `i` of
the area at `base`, whatever is on its stack and behind the command. -/
def Addressed (descs : List SglDesc) (capsule : SqCapsule) (sglAddr base : UInt64) : Prop :=
  ∀ nlb : Nat, 1 ≤ nlb → nlb ≤ (hostBlocks descs).length →
    ∀ (mem : UInt64 → Nat → SglDesc) (behind nextDesc : List SglDesc),
      (∀ (index : Nat) (desc : SglDesc), capsule.sgl[index]? = some desc →
        mem sglAddr index = desc) →
      ∃ segments walk,
        nvmefSglToPrp mem nlb segments (capsule.cmd.sgl :: behind) nextDesc {} = .prps walk ∧
          ∀ block < nlb,
            walk.prps[block]? = some (base + UInt64.ofNat (nvmeKernelPgSize * block))

/-- A read: the data area of the reply is laid out and addressed, and arrives block by block
in the host buffers. -/
def ReadPlaced (descs : List SglDesc) : Prop :=
  ∀ (mem : Nat → UInt8) (old : List UInt8) (cmd : NvmeCmd) (addrs : ReplyAddrs), addrs.sgl ≠ 0 →
    ∃ host, oxfHostPrepareSqCapsule mem old cmd descs false = some host ∧
      let set := placed host.capsule addrs host.bytes false
      Laid descs set.1.sgl addrs.cqData ∧
        Addressed descs set.1 addrs.sgl addrs.cqData ∧
        ∀ (area stale : List UInt8), area.length = oxfCqcMaxData →
          let received := area.take (replySize set.2 - oxfFabCqeSz) ++ stale
          copyBackLoop received host.capsule.sgl 0 mem =
            (storeBlocks nvmeKernelPgSize mem (hostBlocks descs) area, true)

/-- A write: the data area of the capsule is laid out and addressed, and holds the blocks of
the host buffers. -/
def WritePlaced (descs : List SglDesc) : Prop :=
  ∀ (mem : Nat → UInt8) (old : List UInt8) (cmd : NvmeCmd) (addrs : ReplyAddrs),
    old.length = oxfSqcMaxData → addrs.sgl ≠ 0 →
    ∃ host, oxfHostPrepareSqCapsule mem old cmd descs true = some host ∧
      host.bytes = hostCapsuleSz descs + bytesBefore descs descs.length ∧
      host.data.take (bytesBefore descs descs.length) =
        ((hostBlocks descs).flatMap fun block => load mem block nvmeKernelPgSize) ∧
      let set := placed host.capsule addrs host.bytes true
      Laid descs set.1.sgl addrs.sqData ∧ Addressed descs set.1 addrs.sgl addrs.sqData

/-- The lists of the host: data descriptors, at most 16, whole blocks that fit the capsule. -/
structure DataSgl (descs : List SglDesc) (maxData : Nat) : Prop where
  count : descs.length ≤ nvmefSglSz / 16
  data : ∀ desc ∈ descs, desc.type.isData = true
  blocks : ∀ desc ∈ descs, nvmeKernelPgSize ∣ oxfGetSglDescLength desc
  fits : bytesBefore descs descs.length ≤ maxData

/-- The descriptor has a length, and no byte of a key is counted with it. -/
def Exact (desc : SglDesc) : Prop :=
  oxfGetSglDescLength desc ≠ 0 ∧ (desc.type = .keyedData → desc.key % 2 ^ 8 = 0)

instance (desc : SglDesc) : Decidable (Exact desc) :=
  inferInstanceAs (Decidable (_ ∧ _))

/-! ## Lengths -/

theorem length_le_advance {desc : SglDesc} (data : desc.type.isData = true) :
    oxfGetSglDescLength desc ≤ setSglAdvance desc := by
  rcases SglType.isData_cases data with type | type | type
  · simp only [oxfGetSglDescLength, setSglAdvance, type, Nat.le_refl]
  · simp only [oxfGetSglDescLength, setSglAdvance, type]
    exact Nat.mod_le _ _
  · simp only [oxfGetSglDescLength, setSglAdvance, type, Nat.le_refl]

/-- The byte of a key that is counted lies above the length. -/
theorem advance_mod {desc : SglDesc} (data : desc.type.isData = true) :
    setSglAdvance desc % 2 ^ 24 = oxfGetSglDescLength desc % 2 ^ 24 := by
  rcases SglType.isData_cases data with type | type | type
  · simp only [oxfGetSglDescLength, setSglAdvance, type]
  · simp only [oxfGetSglDescLength, setSglAdvance, type]
    exact (Nat.mod_mod _ _).symm
  · simp only [oxfGetSglDescLength, setSglAdvance, type]

theorem advance_lt (desc : SglDesc) : setSglAdvance desc < 2 ^ 32 := by
  have lt : desc.word.toNat < 2 ^ 32 := desc.word.toNat_lt
  rw [setSglAdvance]
  cases desc.type with
  | fiveByteKeys => exact Nat.lt_of_le_of_lt (Nat.mod_le _ _) lt
  | dataBlock | keyedData | bitBucket | segment | lastSegment | reserved => exact lt

theorem advance_eq_iff {desc : SglDesc} (data : desc.type.isData = true) :
    setSglAdvance desc = oxfGetSglDescLength desc ↔
      (desc.type = .keyedData → desc.key % 2 ^ 8 = 0) := by
  rcases SglType.isData_cases data with type | type | type
  · simp [oxfGetSglDescLength, setSglAdvance, type]
  · have lt : desc.word.toNat < 2 ^ 32 := desc.word.toNat_lt
    simp only [oxfGetSglDescLength, setSglAdvance, type, SglDesc.keyedLength, SglDesc.key,
      forall_const]
    omega
  · simp [oxfGetSglDescLength, setSglAdvance, type]

theorem bytesBefore_cons (desc : SglDesc) (rest : List SglDesc) (index : Nat) :
    bytesBefore (desc :: rest) (index + 1) = oxfGetSglDescLength desc + bytesBefore rest index := by
  rw [bytesBefore, List.take_succ_cons, List.map_cons, List.sum_cons, bytesBefore]

theorem hostBlocks_cons (desc : SglDesc) (rest : List SglDesc) :
    hostBlocks (desc :: rest) =
      blocksAt nvmeKernelPgSize desc.addr.toNat (oxfGetSglDescLength desc / nvmeKernelPgSize) ++
        hostBlocks rest :=
  rfl

theorem hostBlocks_append (first second : List SglDesc) :
    hostBlocks (first ++ second) = hostBlocks first ++ hostBlocks second := by
  rw [hostBlocks, List.flatMap_append, hostBlocks, hostBlocks]

theorem hostBlocks_of_empty {descs : List SglDesc}
    (empty : ∀ desc ∈ descs, oxfGetSglDescLength desc = 0) : hostBlocks descs = [] := by
  induction descs with
  | nil => rfl
  | cons desc rest ih =>
      rw [hostBlocks_cons, empty desc List.mem_cons_self, Nat.zero_div,
        ih fun later mem => empty later (List.mem_cons_of_mem _ mem)]
      rfl

/-- The host buffers are whole blocks. -/
theorem length_hostBlocks {descs : List SglDesc}
    (blocks : ∀ desc ∈ descs, nvmeKernelPgSize ∣ oxfGetSglDescLength desc) :
    nvmeKernelPgSize * (hostBlocks descs).length = bytesBefore descs descs.length := by
  induction descs with
  | nil => rfl
  | cons desc rest ih =>
      rw [hostBlocks_cons, List.length_append, length_blocksAt, Nat.mul_add,
        Nat.mul_div_cancel' (blocks desc List.mem_cons_self),
        ih fun later mem => blocks later (List.mem_cons_of_mem _ mem), List.length_cons,
        bytesBefore_cons]

/-! ## The controller -/

/-- The descriptors with addresses one after another. -/
def layout (base : UInt64) : List SglDesc → List SglDesc
  | [] => []
  | desc :: rest =>
      { desc with addr := base, subtype := nvmeSglSubAddr } ::
        layout (base + UInt64.ofNat (oxfGetSglDescLength desc)) rest

theorem length_layout (base : UInt64) (descs : List SglDesc) :
    (layout base descs).length = descs.length := by
  induction descs generalizing base with
  | nil => rfl
  | cons desc rest ih => rw [layout, List.length_cons, List.length_cons, ih]

/-- A step of the loop at a data descriptor. -/
theorem setSglLoop_data {desc : SglDesc} (data : desc.type.isData = true)
    (nonempty : oxfGetSglDescLength desc ≠ 0) (rest : List SglDesc) (offset : UInt64) :
    setSglLoop (desc :: rest) offset =
      (setSglLoop rest (offset + UInt64.ofNat (setSglAdvance desc))).cons
        { desc with addr := offset, subtype := nvmeSglSubAddr } (setSglAdvance desc) := by
  rw [setSglLoop, if_neg nonempty]
  rcases SglType.isData_cases data with type | type | type <;> rw [type]

/-- The loop stops at a list of empty descriptors. -/
theorem setSglLoop_empty {stop : List SglDesc}
    (empty : ∀ desc ∈ stop, oxfGetSglDescLength desc = 0) (offset : UInt64) :
    setSglLoop stop offset = { sgl := stop } := by
  cases stop with
  | nil => rfl
  | cons desc rest => rw [setSglLoop, if_pos (empty desc List.mem_cons_self)]

section Full

variable {full stop : List SglDesc} (data : ∀ desc ∈ full, desc.type.isData = true)
  (nonempty : ∀ desc ∈ full, oxfGetSglDescLength desc ≠ 0)
  (exact : full.Pairwise fun desc _ => setSglAdvance desc = oxfGetSglDescLength desc)
  (empty : ∀ desc ∈ stop, oxfGetSglDescLength desc = 0)

include data nonempty exact empty in
/-- The loop lays out the descriptors in front of the first empty one.  The number of bytes may
have counted a key, but only above the lowest three bytes. -/
theorem setSglLoop_full (offset : UInt64) :
    ∃ bytes, setSglLoop (full ++ stop) offset =
        { sgl := layout offset full ++ stop, descI := full.length, bytes := bytes } ∧
      bytes % 2 ^ 24 = bytesBefore full full.length % 2 ^ 24 := by
  induction full generalizing offset with
  | nil => exact ⟨0, setSglLoop_empty empty offset, rfl⟩
  | cons desc rest ih =>
      have dataDesc := data desc List.mem_cons_self
      have next : layout (offset + UInt64.ofNat (setSglAdvance desc)) rest =
          layout (offset + UInt64.ofNat (oxfGetSglDescLength desc)) rest := by
        cases rest with
        | nil => rfl
        | cons later _ => rw [(List.pairwise_cons.mp exact).1 later List.mem_cons_self]
      obtain ⟨bytes, loop, mod⟩ := ih (fun later mem => data later (List.mem_cons_of_mem _ mem))
        (fun later mem => nonempty later (List.mem_cons_of_mem _ mem))
        (List.pairwise_cons.mp exact).2 (offset + UInt64.ofNat (setSglAdvance desc))
      refine ⟨(setSglAdvance desc + bytes) % 2 ^ 32, ?_, ?_⟩
      · rw [List.cons_append, setSglLoop_data dataDesc (nonempty desc List.mem_cons_self), loop,
          next]
        rfl
      · have counted := advance_mod dataDesc
        rw [List.length_cons, bytesBefore_cons]
        omega

end Full

/-! ## Addresses -/

theorem length_prpsOf (addr : UInt64) (blocks : Nat) :
    (prpsOf addr (nvmeKernelPgSize * blocks)).length = blocks := by
  rw [prpsOf, List.length_map, List.length_range, nvmeKernelPgSize]
  omega

theorem getElem?_prpsOf (addr : UInt64) {blocks block : Nat} (lt : block < blocks) :
    (prpsOf addr (nvmeKernelPgSize * blocks))[block]? =
      some (addr + UInt64.ofNat (nvmeKernelPgSize * block)) := by
  have count : (nvmeKernelPgSize * blocks + (nvmeKernelPgSize - 1)) / nvmeKernelPgSize =
    blocks := by
    rw [nvmeKernelPgSize]
    omega
  rw [prpsOf, count, List.getElem?_map, List.getElem?_range lt]
  rfl

theorem prpsOf_append (addr : UInt64) (first second : Nat) :
    prpsOf addr (nvmeKernelPgSize * first) ++
        prpsOf (addr + UInt64.ofNat (nvmeKernelPgSize * first)) (nvmeKernelPgSize * second) =
      prpsOf addr (nvmeKernelPgSize * (first + second)) := by
  have count : ∀ blocks : Nat,
      (nvmeKernelPgSize * blocks + (nvmeKernelPgSize - 1)) / nvmeKernelPgSize = blocks := by
    intro blocks
    rw [nvmeKernelPgSize]
    omega
  rw [prpsOf, prpsOf, prpsOf, count, count, count, List.range_add, List.map_append, List.map_map]
  congr 1
  refine List.map_congr_left fun block _ => ?_
  rw [Function.comp, Nat.mul_add, UInt64.ofNat_add, UInt64.add_assoc]

/-- A step of the walk at a data descriptor that has its address. -/
theorem walkTable_data {nlb : Nat} {prps : List UInt64} (more : ¬ nlb ≤ prps.length)
    {desc : SglDesc} (data : desc.type.isData = true) (addr : UInt64) (keys : List Nat)
    (rest : List SglDesc) :
    ∃ keys', walkTable nlb ({ desc with addr := addr, subtype := nvmeSglSubAddr } :: rest)
      ⟨prps, keys⟩ =
      walkTable nlb rest ⟨prps ++ prpsOf addr (oxfGetSglDescLength desc), keys'⟩ := by
  rw [walkTable, if_neg more, if_neg (not_not_intro rfl), oxfGetSglDescLength]
  rcases SglType.isData_cases data with type | type | type <;> simp only [type] <;> exact ⟨_, rfl⟩

/-- The walk over laid out descriptors gives the blocks their addresses. -/
theorem walkTable_layout {full : List SglDesc} (data : ∀ desc ∈ full, desc.type.isData = true)
    (blocks : ∀ desc ∈ full, nvmeKernelPgSize ∣ oxfGetSglDescLength desc) {nlb first : Nat}
    (enough : nlb ≤ first + (hostBlocks full).length) (base : UInt64) (keys : List Nat)
    (behind : List SglDesc) :
    ∃ last keys', nlb ≤ last ∧
      walkTable nlb (layout (base + UInt64.ofNat (nvmeKernelPgSize * first)) full ++ behind)
          { prps := prpsOf base (nvmeKernelPgSize * first), keys := keys } =
        .covered { prps := prpsOf base (nvmeKernelPgSize * last), keys := keys' } := by
  induction full generalizing first keys with
  | nil =>
      refine ⟨first, keys, enough, walkTable_covered ?_ _⟩
      rw [length_prpsOf]
      exact enough
  | cons desc rest ih =>
      by_cases done : nlb ≤ first
      · refine ⟨first, keys, done, walkTable_covered ?_ _⟩
        rw [length_prpsOf]
        exact done
      · obtain ⟨count, length⟩ := blocks desc List.mem_cons_self
        have enough' : nlb ≤ first + count + (hostBlocks rest).length := by
          rw [hostBlocks_cons, List.length_append, length_blocksAt, length,
            Nat.mul_div_cancel_left _ (by decide)] at enough
          omega
        have more : ¬ nlb ≤ (prpsOf base (nvmeKernelPgSize * first)).length := by
          rw [length_prpsOf]
          exact done
        obtain ⟨keys', step⟩ := walkTable_data more (data desc List.mem_cons_self)
          (base + UInt64.ofNat (nvmeKernelPgSize * first)) keys
          (layout (base + UInt64.ofNat (nvmeKernelPgSize * first) +
            UInt64.ofNat (oxfGetSglDescLength desc)) rest ++ behind)
        obtain ⟨last, keys'', le, walk⟩ :=
          ih (fun later mem => data later (List.mem_cons_of_mem _ mem))
            (fun later mem => blocks later (List.mem_cons_of_mem _ mem)) enough' keys'
        refine ⟨last, keys'', le, ?_⟩
        rw [layout, List.cons_append, step, ← walk, length, prpsOf_append, UInt64.add_assoc,
          ← UInt64.ofNat_add, Nat.mul_add]

theorem map_range_eq {α : Type} {items : Nat → α} {list : List α}
    (agrees : ∀ (index : Nat) (item : α), list[index]? = some item → items index = item) :
    (List.range list.length).map items = list := by
  refine List.ext_getElem? fun index => ?_
  by_cases lt : index < list.length
  · have found : list[index]? = some list[index] := List.getElem?_eq_getElem lt
    rw [List.getElem?_map, List.getElem?_range lt, Option.map_some, agrees index _ found, found]
  · have le := Nat.le_of_not_lt lt
    rw [List.getElem?_eq_none le, List.getElem?_eq_none (by simpa using le)]

/-- The descriptor of the command leads to the descriptors of the capsule. -/
theorem nvmefSglToPrp_lastSegment {mem : UInt64 → Nat → SglDesc} {nlb : Nat} (some : 1 ≤ nlb)
    {cmd : NvmeCmd} {addr : UInt64} (nonnull : addr ≠ 0) {descI : Nat} (pos : 0 < descI)
    (le : descI ≤ nvmefSglSz / 16) (segments : Nat) (behind nextDesc : List SglDesc) :
    nvmefSglToPrp mem nlb (segments + 1) (lastSegment cmd addr descI :: behind) nextDesc {} =
      let loaded := (List.range descI).map (mem addr) ++ nextDesc.drop descI
      nvmefSglToPrp mem nlb segments loaded loaded {} := by
  have sixteen : descI ≤ 16 := le
  have length : (lastSegment cmd addr descI).dataLength = descI * 16 := by
    rw [lastSegment, SglDesc.dataLength, UInt32.toNat_ofNat_of_lt' (by
      change descI * 16 < 2 ^ 32
      omega)]
  have table : walkTable nlb (lastSegment cmd addr descI :: behind) {} =
      .segment (lastSegment cmd addr descI) {} := by
    have more : ¬ nlb ≤ ({} : PrpWalk).prps.length := Nat.not_le.mpr some
    rw [walkTable, if_neg more]
    rfl
  rw [nvmefSglToPrp, table]
  simp only [length]
  rw [if_neg (by omega), if_neg (by rw [nvmefSglSz]; omega), loadSegment, length,
    Nat.mul_div_cancel _ (by decide)]
  exact congrArg₂ (fun table next => nvmefSglToPrp mem nlb segments table next {})
    (if_neg nonnull) (if_neg nonnull)

/-- The descriptors up to the last one with a length, and the empty ones behind them. -/
structure Split (descs full empty : List SglDesc) : Prop where
  eq : descs = full ++ empty
  nonempty : ∀ desc ∈ full, oxfGetSglDescLength desc ≠ 0
  empty : ∀ desc ∈ empty, oxfGetSglDescLength desc = 0
  exact : full.Pairwise fun desc _ => setSglAdvance desc = oxfGetSglDescLength desc

theorem exists_split {descs : List SglDesc} (data : ∀ desc ∈ descs, desc.type.isData = true)
    (exact : descs.Pairwise fun desc later => oxfGetSglDescLength later ≠ 0 → Exact desc) :
    ∃ full empty, Split descs full empty := by
  induction descs with
  | nil => exact ⟨[], [], rfl, by simp, by simp, List.Pairwise.nil⟩
  | cons desc rest ih =>
      obtain ⟨first, later⟩ := List.pairwise_cons.mp exact
      obtain ⟨full, empty, split⟩ :=
        ih (fun desc mem => data desc (List.mem_cons_of_mem _ mem)) later
      by_cases zero : oxfGetSglDescLength desc = 0
      · refine ⟨[], desc :: rest, rfl, by simp, ?_, List.Pairwise.nil⟩
        intro other mem
        rcases List.mem_cons.mp mem with rfl | mem
        · exact zero
        · by_contra nonempty
          exact (first other mem nonempty).1 zero
      · refine ⟨desc :: full, empty, by rw [split.eq, List.cons_append], ?_, split.empty, ?_⟩
        · intro other mem
          rcases List.mem_cons.mp mem with rfl | mem
          · exact zero
          · exact split.nonempty other mem
        · refine List.pairwise_cons.mpr ⟨fun other mem => ?_, split.exact⟩
          have within : other ∈ rest := by
            rw [split.eq]
            exact List.mem_append_left _ mem
          exact (advance_eq_iff (data desc List.mem_cons_self)).mpr
            (first other within (split.nonempty other mem)).2

namespace Split

variable {descs full empty : List SglDesc} (split : Split descs full empty)

include split

theorem hostBlocks_eq : hostBlocks descs = hostBlocks full := by
  rw [split.eq, hostBlocks_append, hostBlocks_of_empty split.empty, List.append_nil]

theorem hostSgl_eq : ∃ stop, hostSgl descs = full ++ stop ∧
    ∀ desc ∈ stop, oxfGetSglDescLength desc = 0 := by
  refine ⟨empty ++ List.replicate (nvmefSglSz / 16 - descs.length) SglDesc.zero, ?_, ?_⟩
  · rw [hostSgl, ← List.append_assoc, ← split.eq]
  · intro desc mem
    rcases List.mem_append.mp mem with mem | mem
    · exact split.empty desc mem
    · rw [List.eq_of_mem_replicate mem]
      rfl

theorem mem {desc : SglDesc} (mem : desc ∈ full) : desc ∈ descs := by
  rw [split.eq]
  exact List.mem_append_left _ mem

/-- The capsule as the controller has placed it. -/
theorem placed_eq {maxData : Nat} (sgl : DataSgl descs maxData) {host : SqCapsule}
    (same : host.sgl = hostSgl descs) (addrs : ReplyAddrs) {bytes : Nat}
    (long : oxfFabCmdSz < bytes) (isWrite : Bool) :
    let base := if isWrite then addrs.sqData else addrs.cqData
    ∃ capsule dataSz stop, placed host addrs bytes isWrite = (capsule, dataSz) ∧
      capsule.sgl = layout base full ++ stop ∧
      capsule.cmd.sgl = lastSegment host.cmd addrs.sgl full.length ∧
      dataSz % 2 ^ 24 = bytesBefore full full.length % 2 ^ 24 := by
  intro base
  obtain ⟨stop, eq, stops⟩ := split.hostSgl_eq
  obtain ⟨dataSz, loop, mod⟩ := setSglLoop_full (fun desc mem => sgl.data desc (split.mem mem))
    split.nonempty split.exact stops base
  rw [← eq, ← same] at loop
  have beyond : ¬ bytes - oxfFabHeaderSz ≤ oxfNvmeCmdSz := by
    rw [oxfFabCmdSz] at long
    rw [oxfFabHeaderSz, oxfNvmeCmdSz]
    omega
  rw [placed, oxfFabricsSetSgl, if_neg beyond]
  simp only [base] at loop
  simp only [loop]
  exact ⟨_, _, stop, rfl, rfl, rfl, mod⟩

theorem addressed {maxData : Nat} (sgl : DataSgl descs maxData) {capsule : SqCapsule}
    {cmd : NvmeCmd} {addr base : UInt64} {stop : List SglDesc} (nonnull : addr ≠ 0)
    (laid : capsule.sgl = layout base full ++ stop)
    (last : capsule.cmd.sgl = lastSegment cmd addr full.length) :
    Addressed descs capsule addr base := by
  intro nlb some le mem behind nextDesc agrees
  rw [split.hostBlocks_eq] at le
  have pos : 0 < full.length := by
    cases full with
    | nil => exact absurd (Nat.le_trans some le) (by decide)
    | cons => exact Nat.succ_pos _
  have count : full.length ≤ nvmefSglSz / 16 := by
    refine Nat.le_trans ?_ sgl.count
    rw [split.eq, List.length_append]
    exact Nat.le_add_right _ _
  have loaded : (List.range full.length).map (mem addr) = layout base full := by
    rw [← length_layout base full]
    refine map_range_eq fun index desc found => agrees index desc ?_
    rw [laid, List.getElem?_append_left (List.getElem?_eq_some_iff.mp found).1, found]
  have enough : nlb ≤ 0 + (hostBlocks full).length := by
    rw [Nat.zero_add]
    exact le
  obtain ⟨blocks, keys, covers, walk⟩ :=
    walkTable_layout (fun desc mem => sgl.data desc (split.mem mem))
      (fun desc mem => sgl.blocks desc (split.mem mem)) enough base []
      (nextDesc.drop full.length)
  have start : base + UInt64.ofNat (nvmeKernelPgSize * 0) = base := UInt64.add_zero base
  have first : prpsOf base (nvmeKernelPgSize * 0) = [] := rfl
  rw [start, first] at walk
  refine ⟨2, ⟨prpsOf base (nvmeKernelPgSize * blocks), keys⟩, ?_, ?_⟩
  · rw [last, nvmefSglToPrp_lastSegment some nonnull pos count, loaded, nvmefSglToPrp, walk]
  · intro block lt
    exact getElem?_prpsOf base (Nat.lt_of_lt_of_le lt covers)

end Split

/-! ## Copies -/

/-- A step of the copy at a data descriptor. -/
theorem copyBackLoop_data {desc : SglDesc} (data : desc.type.isData = true)
    (nonempty : oxfGetSglDescLength desc ≠ 0) (received : List UInt8) (rest : List SglDesc)
    (offset : Nat) (mem : Nat → UInt8) :
    copyBackLoop received (desc :: rest) offset mem =
      copyBackLoop received rest (offset + oxfGetSglDescLength desc)
        (store mem desc.addr.toNat (slice received offset (oxfGetSglDescLength desc))) := by
  rw [copyBackLoop, oxfGetDescLength, if_neg nonempty]
  rcases SglType.isData_cases data with type | type | type <;> rw [type]

/-- The copy of the area to the ranges of the descriptors is a copy block by block. -/
theorem copyBackLoop_full {full stop : List SglDesc}
    (data : ∀ desc ∈ full, desc.type.isData = true)
    (nonempty : ∀ desc ∈ full, oxfGetSglDescLength desc ≠ 0)
    (blocks : ∀ desc ∈ full, nvmeKernelPgSize ∣ oxfGetSglDescLength desc)
    (empty : ∀ desc ∈ stop, oxfGetSglDescLength desc = 0) {received : List UInt8} {offset : Nat}
    (enough : offset + bytesBefore full full.length ≤ received.length) (mem : Nat → UInt8) :
    copyBackLoop received (full ++ stop) offset mem =
      (storeBlocks nvmeKernelPgSize mem (hostBlocks full) (received.drop offset), true) := by
  induction full generalizing offset mem with
  | nil =>
      cases stop with
      | nil => rfl
      | cons desc rest =>
          have zero : oxfGetDescLength desc = 0 := empty desc List.mem_cons_self
          rw [List.nil_append, copyBackLoop, if_pos zero]
          rfl
  | cons desc rest ih =>
      obtain ⟨count, length⟩ := blocks desc List.mem_cons_self
      rw [List.length_cons, bytesBefore_cons, length] at enough
      have within : nvmeKernelPgSize * count ≤ (received.drop offset).length := by
        rw [List.length_drop]
        omega
      rw [List.cons_append, copyBackLoop_data (data desc List.mem_cons_self)
          (nonempty desc List.mem_cons_self), length,
        ih (fun later mem => data later (List.mem_cons_of_mem _ mem))
          (fun later mem => nonempty later (List.mem_cons_of_mem _ mem))
          (fun later mem => blocks later (List.mem_cons_of_mem _ mem)) (by omega),
        slice, store_eq_storeBlocks mem _ within, hostBlocks_cons, length,
        Nat.mul_div_cancel_left _ (by decide), storeBlocks_append, length_blocksAt, List.drop_drop]

/-- Packing appends the host buffers. -/
theorem packLoop_dataBlocks {descs : List SglDesc} (type : ∀ desc ∈ descs, desc.type = .dataBlock)
    (mem : Nat → UInt8) (offset bytes : Nat) (data : List UInt8)
    (room : bytes + bytesBefore descs descs.length ≤ oxfFabCapsSz)
    (within : offset + bytesBefore descs descs.length ≤ data.length) :
    ∃ packed,
      packLoop mem true descs offset bytes data =
          some (bytes + bytesBefore descs descs.length, packed) ∧
        packed.take (offset + bytesBefore descs descs.length) =
          data.take offset ++
            descs.flatMap fun desc => load mem desc.addr.toNat (oxfGetSglDescLength desc) := by
  induction descs generalizing offset bytes data with
  | nil =>
      refine ⟨data, rfl, ?_⟩
      rw [List.flatMap_nil, List.append_nil]
      rfl
  | cons desc rest ih =>
      have block := type desc List.mem_cons_self
      have length : desc.dataLength = oxfGetSglDescLength desc := by
        rw [oxfGetSglDescLength, block]
      rw [List.length_cons, bytesBefore_cons, ← length] at room within ⊢
      have small : (bytes + desc.dataLength) % 2 ^ 32 = bytes + desc.dataLength := by
        refine Nat.mod_eq_of_lt ?_
        rw [oxfFabCapsSz] at room
        omega
      have source : 0 + desc.dataLength ≤ (load mem desc.addr.toNat desc.dataLength).length := by
        rw [length_load, Nat.zero_add]
      obtain ⟨copied, copy, same, front⟩ := memcpy_eq data _ offset 0 _
        (by omega) source
      obtain ⟨packed, loop, all⟩ := ih (fun later mem => type later (List.mem_cons_of_mem _ mem))
        (offset + desc.dataLength) (bytes + desc.dataLength) copied
        (by omega) (by rw [same]; omega)
      refine ⟨packed, ?_, ?_⟩
      · rw [packLoop, if_pos ⟨rfl, block⟩]
        simp only [small]
        rw [if_neg (by omega), copy]
        exact loop.trans (by rw [Nat.add_assoc])
      · have whole : (load mem desc.addr.toNat desc.dataLength).take desc.dataLength =
            load mem desc.addr.toNat desc.dataLength :=
          List.take_of_length_le (by rw [length_load])
        rw [← Nat.add_assoc, all, front, slice_zero, whole, List.flatMap_cons, ← length,
          List.append_assoc]

/-- The host buffers of data blocks are read block by block. -/
theorem flatMap_load_eq (mem : Nat → UInt8) {descs : List SglDesc}
    (blocks : ∀ desc ∈ descs, nvmeKernelPgSize ∣ oxfGetSglDescLength desc) :
    (descs.flatMap fun desc => load mem desc.addr.toNat (oxfGetSglDescLength desc)) =
      (hostBlocks descs).flatMap fun block => load mem block nvmeKernelPgSize := by
  induction descs with
  | nil => rfl
  | cons desc rest ih =>
      obtain ⟨count, length⟩ := blocks desc List.mem_cons_self
      rw [List.flatMap_cons, ih fun later mem => blocks later (List.mem_cons_of_mem _ mem),
        hostBlocks_cons, List.flatMap_append, length, Nat.mul_div_cancel_left _ (by decide),
        load_eq_flatMap]

/-! ## What the loop does to one descriptor -/

/-- The address of a descriptor with a length: unchanged behind an empty descriptor, else the
sum of what the loop has added. -/
theorem setSglLoop_getElem? {descs : List SglDesc}
    (data : ∀ desc ∈ descs, desc.type.isData = true) (tail : List SglDesc) (offset : UInt64)
    {index : Nat} {desc : SglDesc} (found : descs[index]? = some desc)
    (nonempty : oxfGetSglDescLength desc ≠ 0) :
    ((∃ before ∈ descs.take index, oxfGetSglDescLength before = 0) ∧
        (setSglLoop (descs ++ tail) offset).sgl[index]? = some desc) ∨
      ((∀ before ∈ descs.take index, oxfGetSglDescLength before ≠ 0) ∧
        (setSglLoop (descs ++ tail) offset).sgl[index]? =
          some { desc with
            addr := offset + UInt64.ofNat ((descs.take index).map setSglAdvance).sum
            subtype := nvmeSglSubAddr }) := by
  induction descs generalizing offset index with
  | nil => exact absurd found (by simp)
  | cons head rest ih =>
      have dataHead := data head List.mem_cons_self
      cases index with
      | zero =>
          have same : head = desc := Option.some.inj found
          subst same
          refine Or.inr ⟨by simp, ?_⟩
          rw [List.cons_append, setSglLoop_data dataHead nonempty, List.take_zero, List.map_nil,
            List.sum_nil]
          exact congrArg some (congrArg
            (fun addr => { head with addr := addr, subtype := nvmeSglSubAddr })
            (UInt64.add_zero offset).symm)
      | succ index =>
          have found' : rest[index]? = some desc := found
          by_cases zero : oxfGetSglDescLength head = 0
          · refine Or.inl ⟨⟨head, List.mem_cons_self, zero⟩, ?_⟩
            have lt : index < rest.length := (List.getElem?_eq_some_iff.mp found').1
            rw [List.cons_append, setSglLoop, if_pos zero, List.getElem?_cons_succ,
              List.getElem?_append_left lt, found']
          · have step := setSglLoop_data dataHead zero (rest ++ tail) offset
            rw [List.cons_append, step, List.take_succ_cons]
            rcases ih (fun later mem => data later (List.mem_cons_of_mem _ mem))
              (offset + UInt64.ofNat (setSglAdvance head)) found' with
              ⟨⟨before, mem, empty⟩, same⟩ | ⟨all, at'⟩
            · exact Or.inl ⟨⟨before, List.mem_cons_of_mem _ mem, empty⟩, same⟩
            · refine Or.inr ⟨?_, ?_⟩
              · intro before mem
                rcases List.mem_cons.mp mem with rfl | mem
                · exact zero
                · exact all before mem
              · rw [List.map_cons, List.sum_cons, UInt64.ofNat_add, ← UInt64.add_assoc]
                exact at'

/-- Where the loop adds more than the lengths, it does so for each descriptor. -/
theorem advance_eq_of_sum_eq {descs : List SglDesc}
    (data : ∀ desc ∈ descs, desc.type.isData = true)
    (sum : (descs.map setSglAdvance).sum = (descs.map oxfGetSglDescLength).sum) :
    ∀ desc ∈ descs, setSglAdvance desc = oxfGetSglDescLength desc := by
  induction descs with
  | nil => simp
  | cons head rest ih =>
      have dataRest : ∀ desc ∈ rest, desc.type.isData = true :=
        fun desc mem => data desc (List.mem_cons_of_mem _ mem)
      have le := length_le_advance (data head List.mem_cons_self)
      have leRest : (rest.map oxfGetSglDescLength).sum ≤ (rest.map setSglAdvance).sum :=
        List.sum_le_sum fun desc mem => length_le_advance (dataRest desc mem)
      rw [List.map_cons, List.sum_cons, List.map_cons, List.sum_cons] at sum
      intro desc mem
      rcases List.mem_cons.mp mem with rfl | mem
      · omega
      · exact ih dataRest (by omega) desc mem

theorem sum_advance_lt {descs : List SglDesc} (count : descs.length ≤ nvmefSglSz / 16) :
    (descs.map setSglAdvance).sum < 2 ^ 64 := by
  have le : (descs.map setSglAdvance).sum ≤ (descs.map setSglAdvance).length • 2 ^ 32 := by
    refine List.sum_le_card_nsmul _ _ ?_
    intro advance mem
    obtain ⟨desc, _, rfl⟩ := List.mem_map.mp mem
    exact Nat.le_of_lt (advance_lt desc)
  rw [List.length_map, Nat.nsmul_eq_mul] at le
  have sixteen : descs.length ≤ 16 := count
  omega

/-! ## The condition -/

section RoundTrip

variable {descs : List SglDesc} (sgl : DataSgl descs oxfCqcMaxData)

include sgl

theorem host_of_read (mem : Nat → UInt8) (old : List UInt8) (cmd : NvmeCmd) :
    ∃ host, oxfHostPrepareSqCapsule mem old cmd descs false = some host ∧
      host.capsule.cmd = cmd ∧ host.capsule.sgl = hostSgl descs ∧
      host.bytes = hostCapsuleSz descs := by
  have loop : ∀ (descs : List SglDesc) (offset bytes : Nat) (data : List UInt8),
      packLoop mem false descs offset bytes data = some (bytes, data) := by
    intro descs
    induction descs with
    | nil => exact fun _ _ _ => rfl
    | cons desc rest ih =>
        intro offset bytes data
        rw [packLoop, if_neg (by simp), ih]
  rw [oxfHostPrepareSqCapsule, dif_pos sgl.count, loop]
  exact ⟨_, rfl, rfl, rfl, rfl⟩

/-- The addresses of a layout that is laid out for every reply buffer. -/
theorem exact_of_laid
    (laid : ∀ base : UInt64, Laid descs (setSglLoop (hostSgl descs) base).sgl base) :
    descs.Pairwise fun desc later => oxfGetSglDescLength later ≠ 0 → Exact desc := by
  refine List.pairwise_iff_getElem.mpr fun first later firstLt laterLt lt nonempty => ?_
  have found : descs[later]? = some descs[later] := List.getElem?_eq_getElem laterLt
  have before : descs[first] ∈ descs.take later := by
    rw [List.mem_take_iff_getElem]
    exact ⟨first, by omega, rfl⟩
  have dataBefore : ∀ desc ∈ descs.take later, desc.type.isData = true :=
    fun desc mem => sgl.data desc (List.mem_of_mem_take mem)
  have addrs : ∀ base : UInt64, ∃ desc',
      (setSglLoop (hostSgl descs) base).sgl[later]? = some desc' ∧
      desc'.addr = base + UInt64.ofNat (bytesBefore descs later) :=
    fun base => laid base later _ found nonempty
  have cases := fun base => setSglLoop_getElem? sgl.data
    (List.replicate (nvmefSglSz / 16 - descs.length) SglDesc.zero) base found nonempty
  -- an address that the loop has not set cannot be right for two buffers
  have all : ∀ desc ∈ descs.take later, oxfGetSglDescLength desc ≠ 0 := by
    rcases cases 0 with ⟨⟨empty, mem, zero⟩, same⟩ | ⟨all, _⟩
    · rcases cases 1 with ⟨_, same'⟩ | ⟨all, _⟩
      · obtain ⟨desc', at', addr⟩ := addrs 0
        obtain ⟨desc'', at'', addr'⟩ := addrs 1
        rw [← Option.some.inj (same.symm.trans at')] at addr
        rw [← Option.some.inj (same'.symm.trans at''), addr] at addr'
        exact absurd ((UInt64.add_left_inj _).mp addr') (by decide)
      · exact absurd zero (all empty mem)
    · exact all
  have sum : ((descs.take later).map setSglAdvance).sum = bytesBefore descs later := by
    rcases cases 0 with ⟨⟨empty, mem, zero⟩, _⟩ | ⟨_, same⟩
    · exact absurd zero (all empty mem)
    · obtain ⟨desc', at', addr⟩ := addrs 0
      rw [← Option.some.inj (same.symm.trans at')] at addr
      have eq := (UInt64.add_right_inj 0).mp addr
      have count : (descs.take later).length ≤ nvmefSglSz / 16 :=
        Nat.le_trans (List.length_take_le' ..) sgl.count
      have small := sum_advance_lt count
      have le : bytesBefore descs later ≤ ((descs.take later).map setSglAdvance).sum :=
        List.sum_le_sum fun desc mem => length_le_advance (dataBefore desc mem)
      have nat := congrArg UInt64.toNat eq
      rwa [UInt64.toNat_ofNat_of_lt' small,
        UInt64.toNat_ofNat_of_lt' (Nat.lt_of_le_of_lt le small)] at nat
  exact ⟨all _ before, (advance_eq_iff (dataBefore _ before)).mp
    (advance_eq_of_sum_eq dataBefore sum _ before)⟩

omit sgl in
/-- The descriptors of a capsule that has some. -/
theorem placed_sgl {host : SqCapsule} (same : host.sgl = hostSgl descs) (addrs : ReplyAddrs)
    {bytes : Nat} (long : oxfFabCmdSz < bytes) (isWrite : Bool) :
    (placed host addrs bytes isWrite).1.sgl =
      (setSglLoop (hostSgl descs) (if isWrite then addrs.sqData else addrs.cqData)).sgl := by
  have beyond : ¬ bytes - oxfFabHeaderSz ≤ oxfNvmeCmdSz := by
    rw [oxfFabCmdSz] at long
    rw [oxfFabHeaderSz, oxfNvmeCmdSz]
    omega
  rw [placed, oxfFabricsSetSgl, if_neg beyond, ← same]
  by_cases chained :
      (setSglLoop host.sgl (if isWrite then addrs.sqData else addrs.cqData)).chained = true
  · simp only [if_pos chained]
  · simp only [if_neg chained]

omit sgl in
theorem lt_hostCapsuleSz (some : descs ≠ []) : oxfFabCmdSz < hostCapsuleSz descs := by
  rw [hostCapsuleSz, if_neg some]
  decide

theorem exact_of_readPlaced (read : ReadPlaced descs) :
    descs.Pairwise fun desc later => oxfGetSglDescLength later ≠ 0 → Exact desc := by
  by_cases none : descs = []
  · rw [none]
    exact List.Pairwise.nil
  refine exact_of_laid sgl fun base => ?_
  have nonnull : (1 : UInt64) ≠ 0 := by decide
  obtain ⟨host, prepared, _, same, bytes⟩ :=
    host_of_read sgl (fun _ => 0) [] ⟨0, .prp, 0, SglDesc.zero, SglDesc.zero⟩
  obtain ⟨host', prepared', laid, _⟩ :=
    read (fun _ => 0) [] ⟨0, .prp, 0, SglDesc.zero, SglDesc.zero⟩ ⟨1, 0, base⟩ nonnull
  rw [prepared] at prepared'
  rw [← Option.some.inj prepared', placed_sgl same _ (by rw [bytes]; exact lt_hostCapsuleSz none)]
    at laid
  exact laid

theorem laid_of_exact (exact : descs.Pairwise fun desc later =>
    oxfGetSglDescLength later ≠ 0 → Exact desc) (base : UInt64) :
    Laid descs (setSglLoop (hostSgl descs) base).sgl base := by
  intro index desc found nonempty
  have lt : index < descs.length := (List.getElem?_eq_some_iff.mp found).1
  have exactBefore : ∀ before ∈ descs.take index, Exact before := by
    intro before mem
    obtain ⟨first, firstLt, rfl⟩ := List.mem_take_iff_getElem.mp mem
    refine List.pairwise_iff_getElem.mp exact first index (by omega) lt (by omega) ?_
    rwa [(List.getElem?_eq_some_iff.mp found).2]
  rcases setSglLoop_getElem? sgl.data
    (List.replicate (nvmefSglSz / 16 - descs.length) SglDesc.zero) base found nonempty with
    ⟨⟨empty, mem, zero⟩, _⟩ | ⟨_, same⟩
  · exact absurd zero (exactBefore empty mem).1
  · refine ⟨_, same, ?_⟩
    have sums : (descs.take index).map setSglAdvance =
        (descs.take index).map oxfGetSglDescLength :=
      List.map_congr_left fun before mem =>
        (advance_eq_iff (sgl.data before (List.mem_of_mem_take mem))).mpr (exactBefore before mem).2
    rw [sums]
    rfl

omit sgl in
/-- Nothing is laid out for a command without an SGL. -/
theorem placed_nil (capsule : SqCapsule) (sglAddr base : UInt64) :
    Laid [] capsule.sgl base ∧ Addressed [] capsule sglAddr base := by
  refine ⟨fun index desc found => ?_, fun nlb some le => ?_⟩
  · cases found
  · exact absurd (Nat.le_trans some le) (by decide)

omit sgl in
theorem readPlaced_nil : ReadPlaced [] := by
  intro mem old cmd addrs _
  obtain ⟨laid, addressed⟩ := placed_nil
    (placed ⟨cmd, hostSgl [], length_hostSgl (Nat.zero_le _)⟩ addrs oxfFabCmdSz false).1
    addrs.sgl addrs.cqData
  exact ⟨_, rfl, laid, addressed, fun area stale _ => rfl⟩

omit sgl in
theorem writePlaced_nil : WritePlaced [] := by
  intro mem old cmd addrs _ _
  obtain ⟨laid, addressed⟩ := placed_nil
    (placed ⟨cmd, hostSgl [], length_hostSgl (Nat.zero_le _)⟩ addrs oxfFabCmdSz true).1
    addrs.sgl addrs.sqData
  exact ⟨_, rfl, rfl, rfl, laid, addressed⟩

theorem readPlaced_of_exact (exact : descs.Pairwise fun desc later =>
    oxfGetSglDescLength later ≠ 0 → Exact desc) : ReadPlaced descs := by
  by_cases none : descs = []
  · rw [none]
    exact readPlaced_nil
  intro mem old cmd addrs nonnull
  obtain ⟨full, empty, split⟩ := exists_split sgl.data exact
  obtain ⟨host, prepared, _, same, bytes⟩ := host_of_read sgl mem old cmd
  have long : oxfFabCmdSz < host.bytes := by
    rw [bytes]
    exact lt_hostCapsuleSz none
  obtain ⟨capsule, dataSz, stop, eq, laid, last, mod⟩ := split.placed_eq sgl same addrs long false
  have area : bytesBefore descs descs.length = bytesBefore full full.length := by
    rw [← length_hostBlocks sgl.blocks, split.hostBlocks_eq,
      length_hostBlocks fun desc mem => sgl.blocks desc (split.mem mem)]
  have sglEq := placed_sgl same addrs long false
  refine ⟨host, prepared, ?_⟩
  rw [eq] at sglEq ⊢
  refine ⟨?_, split.addressed sgl nonnull laid last, ?_⟩
  · rw [sglEq]
    exact laid_of_exact sgl exact addrs.cqData
  · intro data stale length received
    have fits := sgl.fits
    rw [area, oxfCqcMaxData] at fits
    have size : replySize dataSz - oxfFabCqeSz = bytesBefore full full.length := by
      rw [replySize, oxfFabCqeSz]
      omega
    have enough : bytesBefore full full.length ≤ data.length := by
      rw [length, oxfCqcMaxData]
      exact fits
    obtain ⟨rest, sglHost, stops⟩ := split.hostSgl_eq
    have front : received.take (bytesBefore full full.length) =
        data.take (bytesBefore full full.length) := by
      simp only [received, size]
      rw [List.take_append_of_le_length (by rw [List.length_take]; omega), List.take_take,
        Nat.min_self]
    have long : 0 + bytesBefore full full.length ≤ received.length := by
      simp only [received, size, List.length_append, List.length_take]
      omega
    rw [same, sglHost, copyBackLoop_full (fun desc mem => sgl.data desc (split.mem mem))
      split.nonempty (fun desc mem => sgl.blocks desc (split.mem mem)) stops long,
        split.hostBlocks_eq,
      List.drop_zero, ← storeBlocks_take, ← storeBlocks_take _ _ _ data,
      length_hostBlocks fun desc mem => sgl.blocks desc (split.mem mem), front]

theorem writePlaced_of_exact (type : ∀ desc ∈ descs, desc.type = .dataBlock)
    (exact : descs.Pairwise fun desc later => oxfGetSglDescLength later ≠ 0 → Exact desc) :
    WritePlaced descs := by
  by_cases none : descs = []
  · rw [none]
    exact writePlaced_nil
  intro mem old cmd addrs length nonnull
  obtain ⟨full, empty, split⟩ := exists_split sgl.data exact
  -- whole blocks that fit the reply fit the command as well
  have blocks := length_hostBlocks sgl.blocks
  have fits : bytesBefore descs descs.length ≤ oxfSqcMaxData := by
    have fits := sgl.fits
    rw [oxfCqcMaxData] at fits
    rw [nvmeKernelPgSize] at blocks
    rw [oxfSqcMaxData]
    omega
  obtain ⟨packed, loop, data⟩ := packLoop_dataBlocks type mem 0
    (hostCapsuleSz descs) old
    (by
      rw [hostCapsuleSz, if_neg none, oxfFabCmdSz, nvmefSglSz, oxfFabCapsSz]
      rw [oxfSqcMaxData] at fits
      omega)
    (by rw [length, Nat.zero_add]; exact fits)
  rw [Nat.zero_add, List.take_zero, List.nil_append, flatMap_load_eq mem sgl.blocks] at data
  refine ⟨_, by rw [oxfHostPrepareSqCapsule, dif_pos sgl.count, loop]; rfl, rfl, data, ?_⟩
  have long : oxfFabCmdSz < hostCapsuleSz descs + bytesBefore descs descs.length :=
    Nat.lt_of_lt_of_le (lt_hostCapsuleSz none) (Nat.le_add_right _ _)
  have same : SqCapsule.sgl ⟨cmd, hostSgl descs, length_hostSgl sgl.count⟩ = hostSgl descs := rfl
  obtain ⟨capsule, dataSz, stop, eq, laid, last, _⟩ :=
    split.placed_eq sgl same addrs long true
  have sglEq := placed_sgl same addrs long true
  rw [eq] at sglEq
  refine ⟨?_, ?_⟩
  · rw [eq, sglEq]
    exact laid_of_exact sgl exact addrs.sqData
  · rw [eq]
    exact split.addressed sgl nonnull laid last

/-- Reads are placed block by block, and writes of data blocks too, exactly when each descriptor
that another one with a length follows has a length itself and, if it is keyed, a key whose
lowest byte is zero. -/
theorem data_placed_iff :
    (ReadPlaced descs ∧ ((∀ desc ∈ descs, desc.type = .dataBlock) → WritePlaced descs)) ↔
      descs.Pairwise fun desc later => oxfGetSglDescLength later ≠ 0 →
        oxfGetSglDescLength desc ≠ 0 ∧ (desc.type = .keyedData → desc.key % 2 ^ 8 = 0) := by
  constructor
  · rintro ⟨read, _⟩
    exact exact_of_readPlaced sgl read
  · intro exact
    exact ⟨readPlaced_of_exact sgl exact, fun type => writePlaced_of_exact sgl type exact⟩

end RoundTrip

/-- A descriptor of one block with the lowest byte of a key. -/
def oneBlock (type : SglType) (addr : UInt64) (keyByte : UInt32) : SglDesc :=
  { SglDesc.zero with addr := addr, word := 4096 + 2 ^ 24 * keyByte, type := type }

/-- A keyed block, an empty list entry at the end, and a block whose key is not counted. -/
def gaplessSgl : List SglDesc :=
  [oneBlock .keyedData 8192 0, oneBlock .fiveByteKeys 4096 0, oneBlock .keyedData 16384 1,
    SglDesc.zero]

theorem data_placed_gapless : ReadPlaced gaplessSgl :=
  have sgl : DataSgl gaplessSgl oxfCqcMaxData := ⟨by decide, by decide, by decide, by decide⟩
  ((data_placed_iff sgl).mpr (by decide)).1

/-- Two blocks; the first one has a key with the lowest byte 1. -/
def keyedSgl : List SglDesc :=
  [oneBlock .keyedData 8192 1, oneBlock .keyedData 4096 0]

/-- The second block is 16 MB behind its place. -/
theorem keyed_block_misplaced : DataSgl keyedSgl oxfCqcMaxData ∧ ¬ ReadPlaced keyedSgl := by
  refine ⟨⟨by decide, by decide, by decide, by decide⟩, fun read => ?_⟩
  obtain ⟨host, prepared, laid, _⟩ :=
    read (fun _ => 0) [] ⟨2, .sgl, 0, SglDesc.zero, SglDesc.zero⟩ ⟨4096, 8192, 65536⟩ (by decide)
  have eq : (oxfHostPrepareSqCapsule (fun _ => 0) [] ⟨2, .sgl, 0, SglDesc.zero, SglDesc.zero⟩
      keyedSgl false).map (fun host =>
        (placed host.capsule ⟨4096, 8192, 65536⟩ host.bytes false).1.sgl[1]?.map
        SglDesc.addr) = some (some (65536 + 4096 + 2 ^ 24)) := by decide
  obtain ⟨desc, found, addr⟩ := laid 1 (oneBlock .keyedData 4096 0) rfl (by decide)
  rw [prepared, Option.map_some, found, Option.map_some, addr] at eq
  exact absurd eq (by decide)

end OxCtrl.Fabrics
