import OxCtrl.Fabrics.Sgl

/-!
# The bounds of the conversion

`nvmef_sgl_to_prp` counts descriptors up to 16 in each segment, and blocks up to `nlb` between
two descriptors.  Nothing counts the segments or the keys, a descriptor stores all its blocks, and a
segment with less than 16 descriptors has no end.
-/

namespace OxCtrl.Fabrics

/-- A memory access of `nvmef_sgl_to_prp`: an item of `prp_buf` or of `keys`, or a descriptor, with
`true` when it belongs to the loaded segment. -/
inductive SglAccess where
  | prp (index : Nat)
  | key (index : Nat)
  | desc (loaded : Bool)
  deriving DecidableEq, Repr

/-- The access is to `prp_buf[0..nlb-1]`, to `keys[0..15]` or to the loaded segment. -/
def SglAccess.InBounds (nlb : Nat) : SglAccess → Prop
  | .prp index => index < nlb
  | .key index => index < 16
  | .desc loaded => loaded = true

/-- The addresses of a descriptor that carries data. -/
def blocksOf (desc : SglDesc) : List UInt64 :=
  prpsOf desc.addr (oxfGetSglDescLength desc)

/-- The keys of a descriptor that carries data. -/
def keysOf (desc : SglDesc) : List Nat :=
  match desc.type with
  | .keyedData => [desc.key]
  | .fiveByteKeys => [desc.key5]
  | _ => []

/-- A descriptor has been stored. -/
def PrpWalk.store (walk : PrpWalk) (desc : SglDesc) : PrpWalk where
  prps := walk.prps ++ blocksOf desc
  keys := walk.keys ++ keysOf desc

/-- The items that a descriptor is stored in. -/
def storeAccesses (desc : SglDesc) (walk : PrpWalk) : List SglAccess :=
  (List.range (keysOf desc).length).map (fun i => .key (walk.keys.length + i)) ++
    (List.range (blocksOf desc).length).map fun i => .prp (walk.prps.length + i)

/-- A descriptor that carries data. -/
def Stores (desc : SglDesc) : Prop :=
  desc.subtype = nvmeSglSubAddr ∧ desc.type.isData = true

/-- A descriptor of a segment that is loaded. -/
def Follows (desc : SglDesc) : Prop :=
  desc.subtype = nvmeSglSubAddr ∧ (desc.type = .segment ∨ desc.type = .lastSegment) ∧
    ¬ (desc.dataLength = 0 ∨ desc.dataLength % 16 ≠ 0) ∧ desc.dataLength ≤ nvmefSglSz

instance (desc : SglDesc) : Decidable (Stores desc) :=
  inferInstanceAs (Decidable (_ ∧ _))

instance (desc : SglDesc) : Decidable (Follows desc) :=
  inferInstanceAs (Decidable (_ ∧ _ ∧ _ ∧ _))

/-- The descriptors that `ox_dma` loads for a segment: none from address zero. -/
def loadedCount (desc : SglDesc) : Nat :=
  if desc.addr = 0 then 0 else desc.dataLength / 16

/-- The accesses up to the next segment; `inside` descriptors of the table belong to the loaded
segment. -/
def tableAccesses (nlb : Nat) : List SglDesc → Nat → PrpWalk → List SglAccess
  | [], _, _ => []
  | desc :: rest, inside, walk =>
      if nlb ≤ walk.prps.length then []
      else
        .desc (decide (0 < inside)) ::
          if Stores desc then
            storeAccesses desc walk ++ tableAccesses nlb rest (inside - 1) (walk.store desc)
          else []

/-- The accesses of `nvmef_sgl_to_prp`, for so many segments. -/
def sglAccesses (mem : UInt64 → Nat → SglDesc) (nlb : Nat) :
    Nat → List SglDesc → Nat → List SglDesc → PrpWalk → List SglAccess
  | 0, _, _, _, _ => []
  | segments + 1, table, inside, nextDesc, walk =>
      tableAccesses nlb table inside walk ++
        match walkTable nlb table walk with
        | .covered _ => []
        | .refused => []
        | .segment desc walk =>
            if desc.dataLength = 0 ∨ desc.dataLength % 16 ≠ 0 then []
            else if desc.dataLength > nvmefSglSz then []
            else
              let loaded := loadSegment mem nextDesc desc
              sglAccesses mem nlb segments loaded (loadedCount desc) loaded walk

/-- The call returns, all its accesses are in bounds, and it returns 0 with `nlb` addresses only. -/
structure SglBounded (mem : UInt64 → Nat → SglDesc) (nlb : Nat) (table : List SglDesc)
    (inside : Nat) (nextDesc : List SglDesc) (walk : PrpWalk) : Prop where
  returns : ∃ segments, nvmefSglToPrp mem nlb segments table nextDesc walk ≠ .running
  accesses : ∀ segments, ∀ access ∈ sglAccesses mem nlb segments table inside nextDesc walk,
    access.InBounds nlb
  addresses : ∀ segments done, nvmefSglToPrp mem nlb segments table nextDesc walk = .prps done →
    done.prps.length = nlb

/-- The descriptors at the address of a segment. -/
def segmentAt (mem : UInt64 → Nat → SglDesc) (desc : SglDesc) : List SglDesc :=
  (List.range (desc.dataLength / 16)).map (mem desc.addr)

/-- A chain from a list of loaded descriptors on, with `room` descriptors up to the limit of 16,
`count` blocks and `keys` keys before it.  It ends with exactly `nlb` blocks, at a descriptor that
is refused or at the limit; no descriptor has more blocks than are left, there are 16 keys at most,
and no segment lies at address zero. -/
inductive Orderly (mem : UInt64 → Nat → SglDesc) (nlb : Nat) : List SglDesc → Nat → Nat → Nat → Prop
  | covered (descs : List SglDesc) (room keys : Nat) : Orderly mem nlb descs room nlb keys
  | full {count keys : Nat} (left : count < nlb) : Orderly mem nlb [] 0 count keys
  | refused {desc : SglDesc} {rest : List SglDesc} {room count keys : Nat} (left : count < nlb)
      (noData : ¬ Stores desc) (noSegment : ¬ Follows desc) :
      Orderly mem nlb (desc :: rest) (room + 1) count keys
  | store {desc : SglDesc} {rest : List SglDesc} {room count keys : Nat} (left : count < nlb)
      (stores : Stores desc) (blocks : count + (blocksOf desc).length ≤ nlb)
      (few : keys + (keysOf desc).length ≤ 16)
      (behind : Orderly mem nlb rest room (count + (blocksOf desc).length)
        (keys + (keysOf desc).length)) :
      Orderly mem nlb (desc :: rest) (room + 1) count keys
  | follow {desc : SglDesc} {rest : List SglDesc} {room count keys : Nat} (left : count < nlb)
      (follows : Follows desc) (address : desc.addr ≠ 0)
      (behind : Orderly mem nlb (segmentAt mem desc) 16 count keys) :
      Orderly mem nlb (desc :: rest) (room + 1) count keys

/-! ## One descriptor -/

section Descriptor

variable {mem : UInt64 → Nat → SglDesc} {nlb : Nat} {desc : SglDesc}
  {rest table nextDesc : List SglDesc} {inside : Nat} {walk : PrpWalk}

theorem not_follows (stores : Stores desc) : ¬ Follows desc := by
  rintro ⟨_, segment | segment, _⟩
  · exact absurd (segment ▸ stores.2) (by decide)
  · exact absurd (segment ▸ stores.2) (by decide)

theorem walkTable_store (left : walk.prps.length < nlb) (stores : Stores desc)
    (rest : List SglDesc) :
    walkTable nlb (desc :: rest) walk = walkTable nlb rest (walk.store desc) := by
  rw [walkTable, if_neg (Nat.not_le.mpr left), if_neg (not_not_intro stores.1)]
  rcases SglType.isData_cases stores.2 with type | type | type
  · simp [type, PrpWalk.store, blocksOf, keysOf, oxfGetSglDescLength]
  · simp [type, PrpWalk.store, blocksOf, keysOf, oxfGetSglDescLength]
  · simp [type, PrpWalk.store, blocksOf, keysOf, oxfGetSglDescLength]

theorem walkTable_follow (left : walk.prps.length < nlb) (follows : Follows desc)
    (rest : List SglDesc) : walkTable nlb (desc :: rest) walk = .segment desc walk := by
  obtain ⟨subtype, type, _⟩ := follows
  rw [walkTable, if_neg (Nat.not_le.mpr left), if_neg (not_not_intro subtype)]
  rcases type with type | type
  · simp [type]
  · simp [type]

/-- The walk ends at a descriptor without data. -/
theorem walkTable_other (rest : List SglDesc) (left : walk.prps.length < nlb)
    (noData : ¬ Stores desc) :
    walkTable nlb (desc :: rest) walk = .refused ∨
      walkTable nlb (desc :: rest) walk = .segment desc walk ∧ desc.subtype = nvmeSglSubAddr ∧
        (desc.type = .segment ∨ desc.type = .lastSegment) := by
  rw [walkTable, if_neg (Nat.not_le.mpr left)]
  by_cases subtype : desc.subtype = nvmeSglSubAddr
  · rw [if_neg (not_not_intro subtype)]
    cases type : desc.type with
    | dataBlock => exact absurd ⟨subtype, by rw [type]; rfl⟩ noData
    | keyedData => exact absurd ⟨subtype, by rw [type]; rfl⟩ noData
    | fiveByteKeys => exact absurd ⟨subtype, by rw [type]; rfl⟩ noData
    | segment => exact Or.inr ⟨rfl, subtype, Or.inl rfl⟩
    | lastSegment => exact Or.inr ⟨rfl, subtype, Or.inr rfl⟩
    | bitBucket => exact Or.inl rfl
    | reserved code => exact Or.inl rfl
  · exact Or.inl (if_pos subtype)

/-- A segment descriptor that is not followed has a length that is refused. -/
theorem badLength (noSegment : ¬ Follows desc) (subtype : desc.subtype = nvmeSglSubAddr)
    (type : desc.type = .segment ∨ desc.type = .lastSegment) :
    (desc.dataLength = 0 ∨ desc.dataLength % 16 ≠ 0) ∨
      ¬ (desc.dataLength = 0 ∨ desc.dataLength % 16 ≠ 0) ∧ desc.dataLength > nvmefSglSz := by
  by_cases bad : desc.dataLength = 0 ∨ desc.dataLength % 16 ≠ 0
  · exact Or.inl bad
  · exact Or.inr ⟨bad, Nat.not_le.mp fun le => noSegment ⟨subtype, type, bad, le⟩⟩

/-- A round of the call over the loaded segments. -/
theorem nvmefSglToPrp_succ (segments : Nat) (table nextDesc : List SglDesc) (walk : PrpWalk) :
    nvmefSglToPrp mem nlb (segments + 1) table nextDesc walk =
      match walkTable nlb table walk with
      | .covered walk => .prps walk
      | .refused => .refused
      | .segment desc walk =>
          if desc.dataLength = 0 ∨ desc.dataLength % 16 ≠ 0 then .refused
          else if desc.dataLength > nvmefSglSz then .refused
          else
            let loaded := loadSegment mem nextDesc desc
            nvmefSglToPrp mem nlb segments loaded loaded walk :=
  rfl

/-- The call on a chain whose first descriptor is known. -/
theorem result_covered (done : nlb ≤ walk.prps.length) (segments : Nat) (table : List SglDesc) :
    nvmefSglToPrp mem nlb (segments + 1) table nextDesc walk = .prps walk := by
  rw [nvmefSglToPrp_succ, walkTable_covered done]

theorem result_store (left : walk.prps.length < nlb) (stores : Stores desc) (segments : Nat) :
    nvmefSglToPrp mem nlb segments (desc :: rest) nextDesc walk =
      nvmefSglToPrp mem nlb segments rest nextDesc (walk.store desc) := by
  cases segments with
  | zero => rfl
  | succ segments => rw [nvmefSglToPrp_succ, nvmefSglToPrp_succ, walkTable_store left stores]

theorem result_follow (left : walk.prps.length < nlb) (follows : Follows desc) (segments : Nat) :
    nvmefSglToPrp mem nlb (segments + 1) (desc :: rest) nextDesc walk =
      nvmefSglToPrp mem nlb segments (loadSegment mem nextDesc desc) (loadSegment mem nextDesc desc)
        walk := by
  rw [nvmefSglToPrp_succ, walkTable_follow left follows]
  simp only
  rw [if_neg follows.2.2.1, if_neg (Nat.not_lt.mpr follows.2.2.2)]

theorem result_refused (left : walk.prps.length < nlb) (noData : ¬ Stores desc)
    (noSegment : ¬ Follows desc) (segments : Nat) :
    nvmefSglToPrp mem nlb (segments + 1) (desc :: rest) nextDesc walk = .refused := by
  rw [nvmefSglToPrp_succ]
  rcases walkTable_other rest left noData with refused | ⟨segment, subtype, type⟩
  · rw [refused]
  · rw [segment]
    rcases badLength noSegment subtype type with bad | ⟨fine, long⟩
    · exact if_pos bad
    · exact (if_neg fine).trans (if_pos long)

/-- The accesses of a round. -/
theorem sglAccesses_succ (segments : Nat) (table : List SglDesc) (inside : Nat)
    (nextDesc : List SglDesc) (walk : PrpWalk) :
    sglAccesses mem nlb (segments + 1) table inside nextDesc walk =
      tableAccesses nlb table inside walk ++
        match walkTable nlb table walk with
        | .covered _ => []
        | .refused => []
        | .segment desc walk =>
            if desc.dataLength = 0 ∨ desc.dataLength % 16 ≠ 0 then []
            else if desc.dataLength > nvmefSglSz then []
            else
              let loaded := loadSegment mem nextDesc desc
              sglAccesses mem nlb segments loaded (loadedCount desc) loaded walk :=
  rfl

/-- The accesses of the call on a chain whose first descriptor is known. -/
theorem accesses_covered (done : nlb ≤ walk.prps.length) (segments : Nat) (table : List SglDesc) :
    sglAccesses mem nlb segments table inside nextDesc walk = [] := by
  cases segments with
  | zero => rfl
  | succ segments =>
      rw [sglAccesses_succ, walkTable_covered done]
      cases table with
      | nil => rfl
      | cons desc rest => simp [tableAccesses, done]

theorem accesses_full (left : walk.prps.length < nlb) (segments : Nat) :
    sglAccesses mem nlb segments [] inside nextDesc walk = [] := by
  cases segments with
  | zero => rfl
  | succ segments =>
      rw [sglAccesses_succ, walkTable, if_neg (Nat.not_le.mpr left)]
      rfl

theorem accesses_store (left : walk.prps.length < nlb) (stores : Stores desc) (segments : Nat) :
    sglAccesses mem nlb (segments + 1) (desc :: rest) inside nextDesc walk =
      .desc (decide (0 < inside)) :: storeAccesses desc walk ++
        sglAccesses mem nlb (segments + 1) rest (inside - 1) nextDesc (walk.store desc) := by
  rw [sglAccesses_succ, sglAccesses_succ, walkTable_store left stores, tableAccesses,
    if_neg (Nat.not_le.mpr left), if_pos stores]
  simp only [List.cons_append, List.append_assoc]

theorem accesses_follow (left : walk.prps.length < nlb) (follows : Follows desc) (segments : Nat) :
    sglAccesses mem nlb (segments + 1) (desc :: rest) inside nextDesc walk =
      .desc (decide (0 < inside)) ::
        sglAccesses mem nlb segments (loadSegment mem nextDesc desc) (loadedCount desc)
          (loadSegment mem nextDesc desc) walk := by
  rw [sglAccesses_succ, walkTable_follow left follows, tableAccesses, if_neg (Nat.not_le.mpr left),
    if_neg fun stores => not_follows stores follows]
  simp only
  rw [if_neg follows.2.2.1, if_neg (Nat.not_lt.mpr follows.2.2.2)]
  rfl

theorem accesses_read (left : walk.prps.length < nlb) (segments : Nat) :
    .desc (decide (0 < inside)) ∈
      sglAccesses mem nlb (segments + 1) (desc :: rest) inside nextDesc walk := by
  rw [sglAccesses_succ, tableAccesses, if_neg (Nat.not_le.mpr left)]
  simp

theorem accesses_refused (left : walk.prps.length < nlb) (noData : ¬ Stores desc)
    (noSegment : ¬ Follows desc) (segments : Nat) :
    sglAccesses mem nlb (segments + 1) (desc :: rest) inside nextDesc walk =
      [.desc (decide (0 < inside))] := by
  rw [sglAccesses_succ, tableAccesses, if_neg (Nat.not_le.mpr left), if_neg noData]
  rcases walkTable_other rest left noData with refused | ⟨segment, subtype, type⟩
  · rw [refused]
    rfl
  · rw [segment]
    rcases badLength noSegment subtype type with bad | ⟨fine, long⟩
    · simp only [if_pos bad, List.append_nil]
    · simp only [if_neg fine, if_pos long, List.append_nil]

/-! ## The whole chain -/

theorem length_loadSegment (mem : UInt64 → Nat → SglDesc) (sixteen : nextDesc.length = 16)
    (follows : Follows desc) : (loadSegment mem nextDesc desc).length = 16 := by
  have le := follows.2.2.2
  rw [nvmefSglSz] at le
  rw [loadSegment]
  split
  · exact sixteen
  · rw [List.length_append, List.length_map, List.length_range, List.length_drop, sixteen]
    omega

/-- What lies in front of `next_desc` after the segment has been loaded. -/
theorem take_loadSegment (mem : UInt64 → Nat → SglDesc) (nextDesc : List SglDesc)
    (address : desc.addr ≠ 0) :
    (loadSegment mem nextDesc desc).take (segmentAt mem desc).length = segmentAt mem desc := by
  rw [loadSegment, if_neg address]
  exact List.take_left

theorem loadedCount_eq (mem : UInt64 → Nat → SglDesc) (address : desc.addr ≠ 0) :
    loadedCount desc = (segmentAt mem desc).length := by
  rw [loadedCount, if_neg address, segmentAt, List.length_map, List.length_range]

/-- A descriptor is stored in bounds exactly when its blocks and keys are left. -/
theorem storeAccesses_inBounds_iff (left : walk.prps.length < nlb) (few : walk.keys.length ≤ 16) :
    (∀ access ∈ storeAccesses desc walk, access.InBounds nlb) ↔
      walk.prps.length + (blocksOf desc).length ≤ nlb ∧
        walk.keys.length + (keysOf desc).length ≤ 16 := by
  have fits : ∀ first count most : Nat, first ≤ most →
      ((∀ i < count, first + i < most) ↔ first + count ≤ most) := by
    intro first count most le
    constructor
    · intro inside
      rcases Nat.eq_zero_or_pos count with rfl | some
      · exact le
      · have last := inside (count - 1) (by omega)
        omega
    · intro le i lt
      omega
  rw [storeAccesses, List.forall_mem_append, List.forall_mem_map, List.forall_mem_map,
    ← fits _ _ _ (Nat.le_of_lt left), ← fits _ _ _ few, and_comm]
  simp only [List.mem_range, SglAccess.InBounds]

/-- The first descriptor of a table whose front is known. -/
theorem cons_of_take (front : table.take (desc :: rest).length = desc :: rest) :
    ∃ behind, table = desc :: behind ∧ behind.take rest.length = rest := by
  cases table with
  | nil => cases front
  | cons first behind =>
      rw [List.length_cons, List.take_succ_cons, List.cons.injEq] at front
      exact ⟨behind, by rw [front.1], front.2⟩

/-- A descriptor that is stored, in front of a chain within the bounds. -/
theorem SglBounded.store (left : walk.prps.length < nlb) (stores : Stores desc)
    (inBounds : ∀ access ∈ storeAccesses desc walk, access.InBounds nlb)
    (behind : SglBounded mem nlb rest inside nextDesc (walk.store desc)) :
    SglBounded mem nlb (desc :: rest) (inside + 1) nextDesc walk where
  returns := by
    obtain ⟨segments, returns⟩ := behind.returns
    exact ⟨segments, by rwa [result_store left stores]⟩
  accesses := by
    intro segments access mem
    cases segments with
    | zero => cases mem
    | succ segments =>
        rw [accesses_store left stores, List.cons_append, List.mem_cons, List.mem_append] at mem
        rcases mem with rfl | stored | later
        · exact decide_eq_true (Nat.succ_pos _)
        · exact inBounds access stored
        · exact behind.accesses (segments + 1) access later
  addresses := by
    intro segments after result
    rw [result_store left stores] at result
    exact behind.addresses segments after result

/-- A segment descriptor in front of a segment within the bounds. -/
theorem SglBounded.follow (left : walk.prps.length < nlb) (follows : Follows desc)
    (behind : SglBounded mem nlb (loadSegment mem nextDesc desc) (loadedCount desc)
      (loadSegment mem nextDesc desc) walk) :
    SglBounded mem nlb (desc :: rest) (inside + 1) nextDesc walk where
  returns := by
    obtain ⟨segments, returns⟩ := behind.returns
    exact ⟨segments + 1, by rwa [result_follow left follows]⟩
  accesses := by
    intro segments access mem
    cases segments with
    | zero => cases mem
    | succ segments =>
        rw [accesses_follow left follows, List.mem_cons] at mem
        rcases mem with rfl | later
        · exact decide_eq_true (Nat.succ_pos _)
        · exact behind.accesses segments access later
  addresses := by
    intro segments after result
    cases segments with
    | zero => cases result
    | succ segments =>
        rw [result_follow left follows] at result
        exact behind.addresses segments after result

/-- An orderly chain is converted within the bounds. -/
theorem Orderly.bounded {descs : List SglDesc} {room count keys : Nat}
    (orderly : Orderly mem nlb descs room count keys) {table nextDesc : List SglDesc}
    {walk : PrpWalk} (roomEq : table.length = room) (loaded : table.take descs.length = descs)
    (sixteen : nextDesc.length = 16) (countEq : walk.prps.length = count)
    (keysEq : walk.keys.length = keys) (most : keys ≤ 16) :
    SglBounded mem nlb table descs.length nextDesc walk := by
  induction orderly generalizing table nextDesc walk with
  | covered descs room keys =>
      have done : nlb ≤ walk.prps.length := Nat.le_of_eq countEq.symm
      refine ⟨⟨1, by rw [result_covered done]; exact SglResult.noConfusion⟩, ?_, ?_⟩
      · intro segments access mem
        rw [accesses_covered done] at mem
        cases mem
      · intro segments after result
        cases segments with
        | zero => cases result
        | succ segments =>
            rw [result_covered done] at result
            cases result
            exact countEq
  | full left =>
      subst countEq
      obtain rfl := List.eq_nil_of_length_eq_zero roomEq
      have refused : ∀ segments, nvmefSglToPrp mem nlb (segments + 1) [] nextDesc walk =
        .refused := by
        intro segments
        rw [nvmefSglToPrp, walkTable, if_neg (Nat.not_le.mpr left)]
      refine ⟨⟨1, by rw [refused]; exact SglResult.noConfusion⟩, ?_, ?_⟩
      · intro segments access mem
        rw [accesses_full left] at mem
        cases mem
      · intro segments after result
        cases segments with
        | zero => cases result
        | succ segments =>
            rw [refused] at result
            cases result
  | @refused desc rest room count keys left noData noSegment =>
      subst countEq
      obtain ⟨table, rfl, _⟩ := cons_of_take loaded
      refine
        ⟨⟨1, by rw [result_refused left noData noSegment]; exact SglResult.noConfusion⟩, ?_, ?_⟩
      · intro segments access mem
        cases segments with
        | zero => cases mem
        | succ segments =>
            rw [accesses_refused left noData noSegment, List.mem_singleton] at mem
            rw [mem]
            exact decide_eq_true (Nat.succ_pos _)
      · intro segments after result
        cases segments with
        | zero => cases result
        | succ segments =>
            rw [result_refused left noData noSegment] at result
            cases result
  | @store desc rest room count keys left stores blocks few _ ih =>
      subst countEq keysEq
      obtain ⟨table, rfl, front⟩ := cons_of_take loaded
      have inBounds := (storeAccesses_inBounds_iff left most).mpr ⟨blocks, few⟩
      exact (ih (Nat.succ.inj roomEq) front sixteen List.length_append List.length_append few).store
        left stores inBounds
  | @follow desc rest room count keys left follows address _ ih =>
      subst countEq keysEq
      obtain ⟨table, rfl, _⟩ := cons_of_take loaded
      have length := length_loadSegment mem sixteen follows
      have segment := ih length (take_loadSegment mem nextDesc address) length rfl rfl most
      rw [← loadedCount_eq mem address] at segment
      exact segment.follow left follows

/-- A call that returns within the bounds has converted an orderly chain. -/
theorem orderly_of_returns (segments : Nat) {table nextDesc : List SglDesc} {inside : Nat}
    {walk : PrpWalk} (returns : nvmefSglToPrp mem nlb segments table nextDesc walk ≠ .running)
    (accesses : ∀ access ∈ sglAccesses mem nlb segments table inside nextDesc walk,
      access.InBounds nlb)
    (sixteen : nextDesc.length = 16) (insideLe : inside ≤ table.length)
    (countLe : walk.prps.length ≤ nlb) (most : walk.keys.length ≤ 16) :
    Orderly mem nlb (table.take inside) table.length walk.prps.length walk.keys.length := by
  induction segments generalizing table nextDesc inside walk with
  | zero => exact absurd rfl returns
  | succ segments ih =>
      induction table generalizing inside walk with
      | nil =>
          rw [List.take_nil]
          rcases Nat.eq_or_lt_of_le countLe with done | left
          · rw [done]
            exact Orderly.covered _ _ _
          · exact Orderly.full left
      | cons desc rest ihRest =>
          rcases Nat.eq_or_lt_of_le countLe with done | left
          · rw [done]
            exact Orderly.covered _ _ _
          have read := accesses _ (accesses_read left segments)
          obtain ⟨inside, rfl⟩ := Nat.exists_eq_succ_of_ne_zero
            (Nat.ne_of_gt (of_decide_eq_true read))
          rw [Nat.succ_eq_add_one, List.take_succ_cons, List.length_cons]
          by_cases stores : Stores desc
          · rw [result_store left stores] at returns
            rw [accesses_store left stores, Nat.succ_eq_add_one, Nat.add_sub_cancel,
              List.cons_append, List.forall_mem_cons, List.forall_mem_append] at accesses
            obtain ⟨_, stored, later⟩ := accesses
            obtain ⟨blocks, few⟩ := (storeAccesses_inBounds_iff left most).mp stored
            have behind := ihRest returns later (Nat.le_of_succ_le_succ insideLe)
              (le_of_eq_of_le List.length_append blocks) (le_of_eq_of_le List.length_append few)
            rw [PrpWalk.store, List.length_append, List.length_append] at behind
            exact Orderly.store left stores blocks few behind
          · by_cases follows : Follows desc
            · rw [result_follow left follows] at returns
              rw [accesses_follow left follows, List.forall_mem_cons] at accesses
              have length := length_loadSegment mem sixteen follows
              have address : desc.addr ≠ 0 := by
                intro zero
                -- nothing has been loaded, and the next descriptor is read
                obtain ⟨segments, rfl⟩ : ∃ more, segments = more + 1 := by
                  cases segments with
                  | zero => exact absurd rfl returns
                  | succ more => exact ⟨more, rfl⟩
                obtain ⟨first, behind, table⟩ :
                    ∃ first behind, loadSegment mem nextDesc desc = first :: behind :=
                  List.exists_cons_of_ne_nil (List.ne_nil_of_length_pos (by rw [length]; decide))
                have next := accesses.2
                rw [table] at next
                have stale := next _ (accesses_read left segments)
                rw [loadedCount, if_pos zero] at stale
                exact Bool.false_ne_true stale
              have count := loadedCount_eq mem address
              have le : loadedCount desc ≤ (loadSegment mem nextDesc desc).length := by
                have loaded := congrArg List.length (take_loadSegment mem nextDesc address)
                rw [List.length_take] at loaded
                omega
              have behind := ih returns accesses.2 length le countLe most
              rw [count, take_loadSegment mem nextDesc address, length] at behind
              exact Orderly.follow left follows address behind
            · exact Orderly.refused left stores follows

end Descriptor

/-! ## Calls -/

/-- A call: the descriptor of a command, what lies behind it in memory up to the limit of 16, and
what lies in `next_desc`. -/
structure SglCall where
  mem : UInt64 → Nat → SglDesc
  nlb : Nat
  desc : SglDesc
  behind : List SglDesc
  nextDesc : List SglDesc
  behind_length : behind.length = 15
  nextDesc_length : nextDesc.length = 16

/-- The call, with nothing stored so far, keeps its bounds. -/
def SglCall.Bounded (call : SglCall) : Prop :=
  SglBounded call.mem call.nlb (call.desc :: call.behind) 1 call.nextDesc {}

/-- The chain of the call is orderly from its one descriptor on. -/
def SglCall.Orderly (call : SglCall) : Prop :=
  Fabrics.Orderly call.mem call.nlb [call.desc] 16 0 0

/-- `nvmef_sgl_to_prp` returns, stays inside its arrays and segments and returns 0 with exactly
`nlb` addresses if and only if the chain is orderly. -/
theorem sgl_bounded_iff (call : SglCall) : call.Bounded ↔ call.Orderly := by
  have length : (call.desc :: call.behind).length = 16 := by
    rw [List.length_cons, call.behind_length]
  constructor
  · rintro ⟨⟨segments, returns⟩, accesses, _⟩
    have orderly := orderly_of_returns segments returns (accesses segments) call.nextDesc_length
      (by rw [length]; decide) (Nat.zero_le _) (Nat.zero_le _)
    rw [length] at orderly
    exact orderly
  · intro orderly
    exact orderly.bounded length rfl call.nextDesc_length rfl rfl (Nat.zero_le _)

/-- A segment descriptor that points to itself. -/
def selfSegment : SglDesc :=
  { SglDesc.zero with addr := 4096, word := 16, type := .lastSegment }

/-- A call of `parser_nvme_identify` with a segment that holds its own descriptor. -/
def selfCall : SglCall where
  mem _ _ := selfSegment
  nlb := 1
  desc := selfSegment
  behind := List.replicate 15 SglDesc.zero
  nextDesc := List.replicate 16 SglDesc.zero
  behind_length := List.length_replicate
  nextDesc_length := List.length_replicate

/-- The call follows the segment for ever. -/
theorem sgl_self_segment (segments : Nat) (rest nextDesc : List SglDesc) :
    nvmefSglToPrp selfCall.mem 1 segments (selfSegment :: rest) nextDesc {} = .running := by
  induction segments generalizing rest nextDesc with
  | zero => rfl
  | succ segments ih =>
      rw [result_follow (by decide) (by decide)]
      exact ih _ _

/-- The segment that points to itself is followed for ever. -/
theorem sgl_never_returns : ¬ selfCall.Bounded := by
  rintro ⟨⟨segments, returns⟩, _, _⟩
  exact returns (sgl_self_segment segments _ _)

end OxCtrl.Fabrics
