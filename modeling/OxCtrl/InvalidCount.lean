import OxCtrl.ChProv.Core
import OxCtrl.Lib.System
import Mathlib.Data.Finset.Card
import Mathlib.Data.Finset.Prod
import Mathlib.Data.Finset.Union
import Mathlib.Order.Interval.Finset.Nat

/-!
# The number of invalid sectors of a block

`invalid_sec` is a count of the bits that are set in the page-state vector.  Both are
updated by `oxb_blk_md_invalidate`, sector by sector or for a whole page.  The page branch
adds the sectors of a page at once, or nothing when it meets a plane that is already full.
The field has 16 bits; a count within the sectors of a block is at most 16384, so the first
call that breaks the agreement does so without wrapping around.
-/

namespace OxCtrl.BlkMdEntry

variable (geo : Geometry)

/-- The bits of `pg_state` that are set: byte and bit number. -/
def invalidBits (entry : BlkMdEntry) : Finset (Nat × Nat) :=
  (Finset.range blkMdByteVecSz ×ˢ Finset.range 8).filter fun bit =>
    (entry.pgState bit.1).getLsbD bit.2

/-- The bits of the sectors of a page, over all planes. -/
def pageBits (pg : Nat) : Finset (Nat × Nat) :=
  Finset.Ico (stateIdx geo pg 0) (stateIdx geo (pg + 1) 0) ×ˢ Finset.range geo.secPerPg

/-- The bits of the sectors that a call names.  A call is an address and `full`. -/
def callBits (call : Ppa × Bool) : Finset (Nat × Nat) :=
  if call.2 then pageBits geo call.1.pg else {(stateIdx geo call.1.pg call.1.pl, call.1.sec.val)}

/-- The bits of the sectors that a sequence of calls names. -/
def namedBits (calls : List (Ppa × Bool)) : Finset (Nat × Nat) :=
  calls.toFinset.biUnion (callBits geo)

/-- The address of a call lies in the block. -/
def InBlock (call : Ppa × Bool) : Prop :=
  call.1.pg < geo.pgPerBlk ∧
    (call.2 = false → call.1.pl < geo.nOfPlanes ∧ call.1.sec < geo.secPerPg)

instance (call : Ppa × Bool) : Decidable (InBlock geo call) :=
  inferInstanceAs (Decidable (_ ∧ (_ → _ ∧ _)))

/-- A sequence of calls of `oxb_blk_md_invalidate`. -/
def invalidateAll (entry : BlkMdEntry) (calls : List (Ppa × Bool)) : BlkMdEntry :=
  calls.foldl (fun entry call => entry.invalidate geo call.1 call.2) entry

/-- The count agrees with the page state, and pages passed to a full-page call are invalid. -/
structure CountOk (calls : List (Ppa × Bool)) (entry : BlkMdEntry) : Prop where
  count : entry.invalidSec = entry.invalidBits.card
  pages : ∀ ppa, (ppa, true) ∈ calls → ∀ pl < geo.nOfPlanes, ∀ sec < geo.secPerPg,
    entry.isInvalid geo ppa.pg pl sec
  bound : entry.invalidSec ≤ geo.pgPerBlk * geo.secPerPlPg

/-- Of the page of a full-page call, the calls before it name no sector or every sector. -/
def PagesApart (calls : List (Ppa × Bool)) : Prop :=
  ∀ before ppa after, calls = before ++ (ppa, true) :: after →
    Disjoint (pageBits geo ppa.pg) (namedBits geo before) ∨
      pageBits geo ppa.pg ⊆ namedBits geo before

variable {geo} {entry : BlkMdEntry} {calls : List (Ppa × Bool)}

theorem mem_invalidBits (entry : BlkMdEntry) (idx i : Nat) : (idx, i) ∈ entry.invalidBits ↔
    idx < blkMdByteVecSz ∧ (entry.pgState idx).getLsbD i = true := by
  simp only [invalidBits, Finset.mem_filter, Finset.mem_product, Finset.mem_range]
  constructor
  · rintro ⟨⟨byte, _⟩, set⟩
    exact ⟨byte, set⟩
  · rintro ⟨byte, set⟩
    exact ⟨⟨byte, BitVec.lt_of_getLsbD set⟩, set⟩

theorem mem_pageBits {pg idx i : Nat} : (idx, i) ∈ pageBits geo pg ↔
    (pg * geo.nOfPlanes ≤ idx ∧ idx < pg * geo.nOfPlanes + geo.nOfPlanes) ∧
      i < geo.secPerPg := by
  rw [pageBits, Finset.mem_product, Finset.mem_Ico, Finset.mem_range, stateIdx, stateIdx,
    Nat.add_zero, Nat.add_zero, Nat.succ_mul]

theorem card_pageBits (pg : Nat) : (pageBits geo pg).card = geo.secPerPlPg := by
  have planes : stateIdx geo (pg + 1) 0 - stateIdx geo pg 0 = geo.nOfPlanes := by
    simp only [stateIdx, Nat.add_zero, Nat.succ_mul, Nat.add_sub_cancel_left]
  rw [pageBits, Finset.card_product, Nat.card_Ico, Finset.card_range, planes, Nat.mul_comm,
    Geometry.secPerPlPg]

theorem mem_namedBits {bit : Nat × Nat} :
    bit ∈ namedBits geo calls ↔ ∃ call ∈ calls, bit ∈ callBits geo call := by
  rw [namedBits, Finset.mem_biUnion]
  simp only [List.mem_toFinset]

theorem namedBits_append_singleton (calls : List (Ppa × Bool)) (call : Ppa × Bool) :
    namedBits geo (calls ++ [call]) = namedBits geo calls ∪ callBits geo call := by
  ext bit
  rw [Finset.mem_union, mem_namedBits, mem_namedBits]
  constructor
  · rintro ⟨other, mem, named⟩
    rcases List.mem_append.mp mem with mem | mem
    · exact Or.inl ⟨other, mem, named⟩
    · rw [List.mem_singleton.mp mem] at named
      exact Or.inr named
  · rintro (⟨other, mem, named⟩ | named)
    · exact ⟨other, List.mem_append_left _ mem, named⟩
    · exact ⟨call, List.mem_append_right _ (List.mem_singleton.mpr rfl), named⟩

/-- A plane of a page of the block is a byte of the vector. -/
theorem stateIdx_lt {pg pl : Nat} (page : pg < geo.pgPerBlk) (plane : pl < geo.nOfPlanes) :
    stateIdx geo pg pl < geo.pgPerBlk * geo.nOfPlanes := by
  calc pg * geo.nOfPlanes + pl < pg * geo.nOfPlanes + geo.nOfPlanes :=
        Nat.add_lt_add_left plane _
    _ = (pg + 1) * geo.nOfPlanes := (Nat.succ_mul _ _).symm
    _ ≤ geo.pgPerBlk * geo.nOfPlanes := Nat.mul_le_mul_right _ page

/-- The calls name sectors of the block. -/
theorem namedBits_subset (inBlock : ∀ call ∈ calls, InBlock geo call) :
    namedBits geo calls ⊆
      Finset.range (geo.pgPerBlk * geo.nOfPlanes) ×ˢ Finset.range geo.secPerPg := by
  rintro ⟨idx, i⟩ mem
  obtain ⟨call, called, named⟩ := mem_namedBits.mp mem
  obtain ⟨page, sector⟩ := inBlock call called
  rw [Finset.mem_product, Finset.mem_range, Finset.mem_range]
  rw [callBits] at named
  split at named
  next =>
    obtain ⟨⟨_, last⟩, sec⟩ := mem_pageBits.mp named
    refine ⟨last.trans_le ?_, sec⟩
    rw [← Nat.succ_mul]
    exact Nat.mul_le_mul_right _ page
  next partialCall =>
    obtain ⟨plane, sec⟩ := sector (Bool.not_eq_true _ ▸ partialCall)
    rw [Finset.mem_singleton.mp named]
    exact ⟨stateIdx_lt page plane, sec⟩

theorem card_namedBits_le (inBlock : ∀ call ∈ calls, InBlock geo call) :
    (namedBits geo calls).card ≤ geo.pgPerBlk * geo.secPerPlPg := by
  calc (namedBits geo calls).card
      ≤ (Finset.range (geo.pgPerBlk * geo.nOfPlanes) ×ˢ Finset.range geo.secPerPg).card :=
        Finset.card_le_card (namedBits_subset inBlock)
    _ = geo.pgPerBlk * geo.nOfPlanes * geo.secPerPg := by
        rw [Finset.card_product, Finset.card_range, Finset.card_range]
    _ = geo.pgPerBlk * geo.secPerPlPg := by
        rw [Geometry.secPerPlPg, Nat.mul_assoc, Nat.mul_comm geo.nOfPlanes]

/-! ## One call -/

variable (geo) in
/-- Planes `pl` to `pl + k - 1` of a page are stored as full. -/
def fillPlanes (pg pl k : Nat) (entry : BlkMdEntry) : BlkMdEntry :=
  { entry with
    pgState := fun idx =>
      if stateIdx geo pg pl ≤ idx ∧ idx < stateIdx geo pg pl + k then fullMask geo
      else entry.pgState idx }

theorem fillPlanes_zero (pg pl : Nat) (entry : BlkMdEntry) :
    fillPlanes geo pg pl 0 entry = entry := by
  have none : ∀ idx, ¬ (stateIdx geo pg pl ≤ idx ∧ idx < stateIdx geo pg pl + 0) :=
    fun idx range => absurd range.2 (Nat.not_lt.mpr range.1)
  rw [fillPlanes]
  simp only [none, if_false]

theorem fillPlanes_setByte (pg pl k : Nat) (entry : BlkMdEntry) :
    fillPlanes geo pg (pl + 1) k (entry.setByte (stateIdx geo pg pl) (fullMask geo)) =
      fillPlanes geo pg pl (k + 1) entry := by
  simp only [fillPlanes, setByte, BlkMdEntry.mk.injEq, true_and, stateIdx]
  funext idx
  by_cases first : idx = pg * geo.nOfPlanes + pl
  · subst first
    simp
  · rw [Function.update_of_ne first]
    have same : (pg * geo.nOfPlanes + (pl + 1) ≤ idx ∧ idx < pg * geo.nOfPlanes + (pl + 1) + k) ↔
        (pg * geo.nOfPlanes + pl ≤ idx ∧ idx < pg * geo.nOfPlanes + pl + (k + 1)) := by omega
    exact if_congr same rfl rfl

/-- The plane loop stops at the first plane that is full, or fills every plane. -/
theorem invalidatePlanes_cases (geo : Geometry) (pg left pl : Nat) (entry : BlkMdEntry) :
    (∃ k < left, (∀ j < k, entry.pgState (stateIdx geo pg (pl + j)) ≠ fullMask geo) ∧
        entry.pgState (stateIdx geo pg (pl + k)) = fullMask geo ∧
        invalidatePlanes geo pg left pl entry = fillPlanes geo pg pl k entry) ∨
      ((∀ k < left, entry.pgState (stateIdx geo pg (pl + k)) ≠ fullMask geo) ∧
        invalidatePlanes geo pg left pl entry =
          { fillPlanes geo pg pl left entry with
            invalidSec := entry.invalidSec + geo.secPerPlPg }) := by
  induction left generalizing pl entry with
  | zero =>
      refine Or.inr ⟨fun k lt => absurd lt (Nat.not_lt_zero k), ?_⟩
      rw [fillPlanes_zero, invalidatePlanes]
  | succ left ih =>
      rw [invalidatePlanes]
      split
      next full =>
        refine Or.inl ⟨0, Nat.succ_pos _, fun j lt => ?_, full, (fillPlanes_zero pg pl entry).symm⟩
        exact absurd lt (Nat.not_lt_zero j)
      next notFull =>
        have later : ∀ k, (entry.setByte (stateIdx geo pg pl) (fullMask geo)).pgState
            (stateIdx geo pg (pl + 1 + k)) = entry.pgState (stateIdx geo pg (pl + (k + 1))) := by
          intro k
          rw [Nat.add_assoc, Nat.add_comm 1 k]
          refine Function.update_of_ne ?_ _ _
          exact fun eq => absurd (Nat.add_left_cancel eq) (by omega)
        have notFullsUpTo : ∀ count, (∀ j < count,
            (entry.setByte (stateIdx geo pg pl) (fullMask geo)).pgState
              (stateIdx geo pg (pl + 1 + j)) ≠ fullMask geo) →
            ∀ j < count + 1, entry.pgState (stateIdx geo pg (pl + j)) ≠ fullMask geo := by
          intro count notFulls j lt
          cases j with
          | zero => exact notFull
          | succ j => exact (later j) ▸ notFulls j (Nat.lt_of_succ_lt_succ lt)
        rcases ih (pl + 1) (entry.setByte (stateIdx geo pg pl) (fullMask geo)) with
          ⟨k, lt, notFulls, full, eq⟩ | ⟨notFulls, eq⟩
        · refine Or.inl ⟨k + 1, Nat.succ_lt_succ lt, notFullsUpTo k notFulls,
            (later k).symm.trans full, eq.trans ?_⟩
          exact fillPlanes_setByte pg pl k entry
        · refine Or.inr ⟨notFullsUpTo left notFulls, ?_⟩
          rw [eq, fillPlanes_setByte]
          rfl

/-- The page state holds the sectors named so far, and the count their number. -/
structure Marked (geo : Geometry) (calls : List (Ppa × Bool)) (entry : BlkMdEntry) : Prop where
  inBlock : ∀ call ∈ calls, InBlock geo call
  bits : entry.invalidBits = namedBits geo calls
  count : entry.invalidSec = (namedBits geo calls).card

theorem Marked.countOk (marked : Marked geo calls entry) : CountOk geo calls entry where
  count := marked.count.trans (congrArg Finset.card marked.bits.symm)
  pages := by
    intro ppa called pl plane sec sector
    have named : (stateIdx geo ppa.pg pl, sec) ∈ namedBits geo calls := by
      rw [mem_namedBits]
      refine ⟨(ppa, true), called, ?_⟩
      rw [callBits, if_pos rfl, mem_pageBits]
      exact ⟨⟨Nat.le_add_right _ _, Nat.add_lt_add_left plane _⟩, sector⟩
    rw [← marked.bits, mem_invalidBits] at named
    exact named.2
  bound := marked.count.trans_le (card_namedBits_le marked.inBlock)

theorem getLsbD_fullMask (i : Nat) : (fullMask geo).getLsbD i = decide (i < geo.secPerPg) := by
  rw [fullMask, BitVec.getLsbD_ofNat, Nat.testBit_two_pow_sub_one]
  by_cases small : i < geo.secPerPg
  · simp [small, small.trans_le geo.sec_le]
  · simp [small]

theorem Marked.sec_lt (marked : Marked geo calls entry) {idx i : Nat} (lt : idx < blkMdByteVecSz)
    (set : (entry.pgState idx).getLsbD i = true) : i < geo.secPerPg := by
  have named : (idx, i) ∈ namedBits geo calls := by
    rw [← marked.bits, mem_invalidBits]
    exact ⟨lt, set⟩
  exact Finset.mem_range.mp (Finset.mem_product.mp (namedBits_subset marked.inBlock named)).2

/-- A byte of the block is full when all its sectors are invalid. -/
theorem Marked.full_iff (marked : Marked geo calls entry) {idx : Nat} (lt : idx < blkMdByteVecSz) :
    entry.pgState idx = fullMask geo ↔
      ∀ sec < geo.secPerPg, (idx, sec) ∈ namedBits geo calls := by
  simp only [← marked.bits, mem_invalidBits, lt, true_and]
  constructor
  · intro full sec sector
    rw [full, getLsbD_fullMask, decide_eq_true_iff]
    exact sector
  · intro set
    refine BitVec.eq_of_getLsbD_eq fun sec _ => ?_
    rw [getLsbD_fullMask]
    by_cases sector : sec < geo.secPerPg
    · rw [set sec sector, decide_eq_true sector]
    · rw [decide_eq_false sector]
      exact Bool.eq_false_iff.mpr fun bit => sector (marked.sec_lt lt bit)

theorem pageByte_lt {pg idx : Nat} (page : pg < geo.pgPerBlk)
    (lt : idx < pg * geo.nOfPlanes + geo.nOfPlanes) : idx < blkMdByteVecSz := by
  calc idx < (pg + 1) * geo.nOfPlanes := lt.trans_eq (Nat.succ_mul _ _).symm
    _ ≤ geo.pgPerBlk * geo.nOfPlanes := Nat.mul_le_mul_right _ page
    _ ≤ blkMdByteVecSz := geo.state_le

/-- Filling planes of a page keeps the bits that are set. -/
theorem Marked.fillPlanes_bits (marked : Marked geo calls entry) {pg k : Nat}
    (page : pg < geo.pgPerBlk) (planes : k ≤ geo.nOfPlanes) :
    (fillPlanes geo pg 0 k entry).invalidBits = namedBits geo calls ∪
      (pageBits geo pg).filter fun bit => bit.1 < stateIdx geo pg k := by
  ext ⟨idx, i⟩
  rw [Finset.mem_union, Finset.mem_filter, mem_pageBits, ← marked.bits, mem_invalidBits,
    mem_invalidBits]
  dsimp only [fillPlanes]
  by_cases filled : stateIdx geo pg 0 ≤ idx ∧ idx < stateIdx geo pg 0 + k
  · have inPage : idx < pg * geo.nOfPlanes + geo.nOfPlanes :=
      filled.2.trans_le (Nat.add_le_add_left planes _)
    rw [if_pos filled, getLsbD_fullMask, decide_eq_true_iff]
    constructor
    · rintro ⟨_, sector⟩
      exact Or.inr ⟨⟨⟨filled.1, inPage⟩, sector⟩, filled.2⟩
    · rintro (⟨lt, set⟩ | ⟨⟨_, sector⟩, _⟩)
      · exact ⟨lt, marked.sec_lt lt set⟩
      · exact ⟨pageByte_lt page inPage, sector⟩
  · rw [if_neg filled]
    constructor
    · exact Or.inl
    · rintro (old | ⟨⟨⟨first, _⟩, _⟩, last⟩)
      · exact old
      · exact absurd ⟨first, last⟩ filled

/-- A full-page call returns early at a plane that is full, or fills the page and adds its
sectors to the count. -/
theorem Marked.page_cases (marked : Marked geo calls entry) {ppa : Ppa}
    (page : ppa.pg < geo.pgPerBlk) :
    (¬ Disjoint (pageBits geo ppa.pg) (namedBits geo calls) ∧
        (∃ some ⊆ pageBits geo ppa.pg,
          (entry.invalidate geo ppa true).invalidBits = namedBits geo calls ∪ some) ∧
        (entry.invalidate geo ppa true).invalidSec = entry.invalidSec) ∨
      (¬ pageBits geo ppa.pg ⊆ namedBits geo calls ∧
        (entry.invalidate geo ppa true).invalidBits = namedBits geo calls ∪ pageBits geo ppa.pg ∧
        (entry.invalidate geo ppa true).invalidSec = entry.invalidSec + geo.secPerPlPg) := by
  rw [invalidate, if_pos rfl]
  have planeMem : ∀ k < geo.nOfPlanes, ∀ sec < geo.secPerPg,
      (stateIdx geo ppa.pg k, sec) ∈ pageBits geo ppa.pg := by
    intro k plane sec sector
    exact mem_pageBits.mpr ⟨⟨Nat.le_add_right _ _, Nat.add_lt_add_left plane _⟩, sector⟩
  have planeLt : ∀ k < geo.nOfPlanes, stateIdx geo ppa.pg k < blkMdByteVecSz :=
    fun k plane => pageByte_lt page (Nat.add_lt_add_left plane _)
  rcases invalidatePlanes_cases geo ppa.pg geo.nOfPlanes 0 entry with
    ⟨k, lt, -, full, eq⟩ | ⟨notFull, eq⟩
  · rw [Nat.zero_add] at full
    left
    refine ⟨fun apart => ?_, ⟨(pageBits geo ppa.pg).filter fun bit => bit.1 < stateIdx geo ppa.pg k,
      Finset.filter_subset _ _, ?_⟩, ?_⟩
    · have named := (marked.full_iff (planeLt k lt)).mp full 0 geo.sec_pos
      exact Finset.disjoint_left.mp apart (planeMem k lt 0 geo.sec_pos) named
    · rw [eq]
      exact marked.fillPlanes_bits page lt.le
    · rw [eq, fillPlanes]
  · right
    refine ⟨fun covered => ?_, ?_, ?_⟩
    · apply notFull 0 geo.pl_pos
      rw [marked.full_iff (planeLt 0 geo.pl_pos)]
      exact fun sec sector => covered (planeMem 0 geo.pl_pos sec sector)
    · have whole : (pageBits geo ppa.pg).filter
        (fun bit => bit.1 < stateIdx geo ppa.pg geo.nOfPlanes) =
          pageBits geo ppa.pg := by
        refine Finset.filter_true_of_mem ?_
        rintro ⟨idx, i⟩ mem
        exact (mem_pageBits.mp mem).1.2
      rw [← whole, ← marked.fillPlanes_bits page le_rfl, eq]
      rfl
    · rw [eq]

theorem Marked.append {call : Ppa × Bool} {after : BlkMdEntry} (marked : Marked geo calls entry)
    (inBlock : InBlock geo call)
    (bits : after.invalidBits = namedBits geo calls ∪ callBits geo call)
    (count : after.invalidSec = (namedBits geo calls ∪ callBits geo call).card) :
    Marked geo (calls ++ [call]) after where
  inBlock := by
    intro other mem
    rcases List.mem_append.mp mem with mem | mem
    · exact marked.inBlock other mem
    · rw [List.mem_singleton.mp mem]
      exact inBlock
  bits := bits.trans (namedBits_append_singleton calls call).symm
  count := count.trans (congrArg Finset.card (namedBits_append_singleton calls call).symm)

/-- A sector call sets one bit, and counts it when it was not set. -/
theorem Marked.sector (marked : Marked geo calls entry) {ppa : Ppa}
    (inBlock : InBlock geo (ppa, false)) :
    Marked geo (calls ++ [(ppa, false)]) (entry.invalidate geo ppa false) := by
  have lt : stateIdx geo ppa.pg ppa.pl < blkMdByteVecSz :=
    pageByte_lt inBlock.1 (Nat.add_lt_add_left (inBlock.2 rfl).1 _)
  refine marked.append inBlock ?_ ?_
  · ext ⟨idx, i⟩
    rw [mem_invalidBits, getLsbD_invalidate, Bool.or_eq_true, decide_eq_true_iff, callBits,
      if_neg Bool.false_ne_true, Finset.mem_union, Finset.mem_singleton, Prod.mk.injEq,
      ← marked.bits, mem_invalidBits]
    constructor
    · rintro ⟨byte, set | same⟩
      · exact Or.inl ⟨byte, set⟩
      · exact Or.inr same
    · rintro (⟨byte, set⟩ | ⟨rfl, rfl⟩)
      · exact ⟨byte, Or.inl set⟩
      · exact ⟨lt, Or.inr ⟨rfl, rfl⟩⟩
  · have already : entry.isInvalid geo ppa.pg ppa.pl ppa.sec = true ↔
        (stateIdx geo ppa.pg ppa.pl, ppa.sec.val) ∈ namedBits geo calls := by
      rw [← marked.bits, mem_invalidBits, isInvalid]
      exact (and_iff_right lt).symm
    rw [callBits, if_neg Bool.false_ne_true, Finset.union_comm, ← Finset.insert_eq, invalidate,
      if_neg Bool.false_ne_true]
    split
    next dup => rw [Finset.insert_eq_of_mem (already.mp dup), marked.count]
    next fresh =>
      rw [Finset.card_insert_of_notMem fun mem => fresh (already.mpr mem), ← marked.count]

/-- A full-page call on a page that is untouched or invalid. -/
theorem Marked.page (marked : Marked geo calls entry) {ppa : Ppa}
    (inBlock : InBlock geo (ppa, true))
    (apart : Disjoint (pageBits geo ppa.pg) (namedBits geo calls) ∨
      pageBits geo ppa.pg ⊆ namedBits geo calls) :
    Marked geo (calls ++ [(ppa, true)]) (entry.invalidate geo ppa true) := by
  rcases marked.page_cases inBlock.1 with ⟨touched, ⟨some, inPage, bits⟩, count⟩ |
    ⟨missing, bits, count⟩
  · have covered := apart.resolve_left touched
    have same : namedBits geo calls ∪ pageBits geo ppa.pg = namedBits geo calls :=
      Finset.union_eq_left.mpr covered
    refine marked.append inBlock ?_ ?_
    · rw [bits, callBits, if_pos rfl, same]
      exact Finset.union_eq_left.mpr (inPage.trans covered)
    · rw [count, marked.count, callBits, if_pos rfl, same]
  · have untouched := apart.resolve_right missing
    refine marked.append inBlock ?_ ?_
    · rw [bits, callBits, if_pos rfl]
    · rw [count, marked.count, callBits, if_pos rfl, Finset.card_union_of_disjoint untouched.symm,
        card_pageBits]

/-- The count fails after a full-page call on a page of which only some sectors are invalid. -/
theorem Marked.page_apart (marked : Marked geo calls entry) {ppa : Ppa}
    (page : ppa.pg < geo.pgPerBlk)
    (countOk : CountOk geo (calls ++ [(ppa, true)]) (entry.invalidate geo ppa true)) :
    Disjoint (pageBits geo ppa.pg) (namedBits geo calls) ∨
      pageBits geo ppa.pg ⊆ namedBits geo calls := by
  rcases marked.page_cases page with ⟨_, ⟨some, _, bits⟩, count⟩ | ⟨_, bits, count⟩
  · -- An early return counts nothing, so no bit is new, although the whole page is invalid.
    have noNew : namedBits geo calls ∪ some = namedBits geo calls := by
      refine (Finset.eq_of_subset_of_card_le Finset.subset_union_left ?_).symm
      rw [← bits, ← countOk.count, count, marked.count]
    right
    rintro ⟨idx, i⟩ mem
    obtain ⟨⟨first, last⟩, sector⟩ := mem_pageBits.mp mem
    have invalid := countOk.pages ppa (List.mem_append_right _ (List.mem_singleton.mpr rfl))
      (idx - ppa.pg * geo.nOfPlanes) (Nat.sub_lt_left_of_lt_add first last) i sector
    rw [isInvalid, stateIdx, Nat.add_sub_cancel' first] at invalid
    rw [← noNew, ← bits, mem_invalidBits]
    exact ⟨pageByte_lt page last, invalid⟩
  · -- The whole page is counted, so none of its bits was set.
    refine Or.inl (Finset.card_union_eq_card_add_card.mp ?_).symm
    rw [← bits, ← countOk.count, count, marked.count, card_pageBits]

/-! ## Sequences of calls -/

theorem invalidateAll_append (entry : BlkMdEntry) (first second : List (Ppa × Bool)) :
    invalidateAll geo entry (first ++ second) =
      invalidateAll geo (invalidateAll geo entry first) second :=
  List.foldl_append

/-- A block that `ch_prov_blk_get` opens has no invalid sectors. -/
theorem openedMd_marked (geo : Geometry) (entry : BlkMdEntry) :
    Marked geo [] (ChProv.openedMd entry) where
  inBlock := fun _ mem => absurd mem List.not_mem_nil
  bits := by
    refine (Finset.eq_empty_iff_forall_notMem.mpr ?_ : _ = ∅)
    rintro ⟨idx, i⟩
    rw [mem_invalidBits]
    simp [ChProv.openedMd]
  count := rfl

theorem marked_of_pagesApart (entry : BlkMdEntry) (inBlock : ∀ call ∈ calls, InBlock geo call)
    (apart : PagesApart geo calls) :
    Marked geo calls (invalidateAll geo (ChProv.openedMd entry) calls) := by
  induction calls using List.reverseRecOn with
  | nil => exact openedMd_marked geo entry
  | append_singleton calls call ih =>
      have marked := ih (fun other mem => inBlock other (List.mem_append_left _ mem))
        fun before ppa after eq => apart before ppa (after ++ [call]) (by simp [eq])
      have valid := inBlock call (List.mem_append_right _ (List.mem_singleton.mpr rfl))
      rw [invalidateAll_append]
      obtain ⟨ppa, full⟩ := call
      cases full with
      | false => exact marked.sector valid
      | true => exact marked.page valid (apart calls ppa [] rfl)

theorem pagesApart_nil (geo : Geometry) : PagesApart geo [] := by
  intro before ppa after eq
  simp at eq

theorem PagesApart.append {call : Ppa × Bool} (apart : PagesApart geo calls)
    (last : ∀ ppa, call = (ppa, true) →
      Disjoint (pageBits geo ppa.pg) (namedBits geo calls) ∨
        pageBits geo ppa.pg ⊆ namedBits geo calls) : PagesApart geo (calls ++ [call]) := by
  intro before ppa after eq
  rcases Lib.System.split_append_singleton eq with ⟨rfl, same⟩ | ⟨rest, eq⟩
  · exact last ppa same
  · exact apart before ppa rest eq

/-- The calls before the first one that finds its page in between leave the page state known. -/
theorem pagesApart_of_countOk (entry : BlkMdEntry) (inBlock : ∀ call ∈ calls, InBlock geo call)
    (countOk : ∀ before, before <+: calls →
      CountOk geo before (invalidateAll geo (ChProv.openedMd entry) before)) :
    PagesApart geo calls := by
  induction calls using List.reverseRecOn with
  | nil => exact pagesApart_nil geo
  | append_singleton calls call ih =>
      have earlier : ∀ other ∈ calls, InBlock geo other :=
        fun other mem => inBlock other (List.mem_append_left _ mem)
      have apart : PagesApart geo calls :=
        ih earlier fun before isPrefix => countOk before (isPrefix.trans (List.prefix_append _ _))
      refine apart.append ?_
      rintro ppa rfl
      have valid := inBlock (ppa, true) (List.mem_append_right _ (List.mem_singleton.mpr rfl))
      refine (marked_of_pagesApart entry earlier apart).page_apart valid.1 ?_
      have ok := countOk (calls ++ [(ppa, true)]) List.prefix_rfl
      rwa [invalidateAll_append] at ok

/-- From the opening of a block on, the count agrees with the page state after every call
exactly when each full-page call finds its page untouched or named before in every sector. -/
theorem invalid_count_iff (entry : BlkMdEntry) (inBlock : ∀ call ∈ calls, InBlock geo call) :
    (∀ before, before <+: calls →
        CountOk geo before (invalidateAll geo (ChProv.openedMd entry) before)) ↔
      PagesApart geo calls := by
  constructor
  · exact pagesApart_of_countOk entry inBlock
  · rintro apart before ⟨rest, rfl⟩
    refine Marked.countOk (marked_of_pagesApart entry ?_ ?_)
    · exact fun call mem => inBlock call (List.mem_append_left _ mem)
    · intro early ppa late eq
      exact apart early ppa (late ++ rest) (by simp [eq])

/-- A sector of one page, and then the next page twice. -/
theorem invalid_count_repeated_page :
    CountOk .small [(Ppa.sector 0 0 1 0 0 0, false), (Ppa.sector 0 0 1 1 0 0, true),
        (Ppa.sector 0 0 1 1 0 0, true)]
      (invalidateAll .small (ChProv.openedMd {})
        [(Ppa.sector 0 0 1 0 0 0, false), (Ppa.sector 0 0 1 1 0 0, true),
          (Ppa.sector 0 0 1 1 0 0, true)]) := by
  refine (invalid_count_iff {} (by decide)).mpr ?_ _ List.prefix_rfl
  have sector := (pagesApart_nil .small).append
    (fun ppa eq => nomatch eq : ∀ ppa, (Ppa.sector 0 0 1 0 0 0, false) = (ppa, true) → _)
  have once := sector.append
    (fun ppa eq => by cases eq; decide : ∀ ppa, (Ppa.sector 0 0 1 1 0 0, true) = (ppa, true) → _)
  exact once.append
    (fun ppa eq => by cases eq; decide : ∀ ppa, (Ppa.sector 0 0 1 1 0 0, true) = (ppa, true) → _)

/-- A sector and then its page, for both pages of a block of four sectors: six are counted. -/
theorem invalid_count_exceeds :
    ¬ ∀ before, before <+: [(Ppa.sector 0 0 1 0 0 0, false), (Ppa.sector 0 0 1 0 0 0, true),
        (Ppa.sector 0 0 1 1 0 0, false), (Ppa.sector 0 0 1 1 0 0, true)] →
      CountOk .small before (invalidateAll .small (ChProv.openedMd {}) before) := by
  intro countOk
  exact absurd (countOk _ List.prefix_rfl).bound (by decide)

end OxCtrl.BlkMdEntry
