import OxCtrl.DmaSlots
import OxCtrl.Lib.File
import OxCtrl.Lib.Memory

/-!
# DMA between the host and a slot

A page command names host memory for each of its sectors and for the spare bytes of the page.  The
file backend and the volt backend copy the sectors that have an address, in their order, and the
spare bytes behind them.  A read that asks for some of the sectors gets the spare bytes of these
sectors first.
-/

namespace OxCtrl.Mmgr

open OxCtrl.Lib
open OxCtrl.DmaSlots (CmdType)

def pageSize : Nat := 0x4000

def sectorSize : Nat := 0x1000

def sectorCount : Nat := 4

def secOobSize : Nat := 0x10

/-- `VOLT_OOB_SIZE` and `FILE_OOB_SIZE` -/
def oobSize : Nat := secOobSize * sectorCount

/-- Bytes of a slot of `dma_buf`. -/
def slotSize : Nat := pageSize + sectorSize

/-- The fields of `nvm_mmgr_io_cmd` that the backends read.  The address of a sector or of the spare
bytes is zero when the host does not ask for them. -/
structure IoCmd (Addr : Type) where
  type : CmdType
  ppa : Addr
  prp : Nat → Nat
  mdPrp : Nat
  pgSz : Nat
  secSz : Nat
  mdSz : Nat
  /-- There is a `sync_count`. -/
  sync : Bool
  forceSyncMd : Bool
  forceSyncData : Nat → Bool

/-- `NVM_DMA_TO_HOST` and so on. -/
inductive Direction where
  | toHost
  | fromHost
  | syncRead
  | syncWrite
  deriving DecidableEq, Repr

/-- A copy to the host. -/
structure Transfer where
  prp : Nat
  bytes : List UInt8
  deriving DecidableEq, Repr

/-- The host as a command finds it: its memory, and the result of the transport for each copy. -/
structure Host where
  mem : Nat → UInt8
  works : Nat → Bool

/-- What `volt_host_dma_helper` works on. -/
structure DmaState where
  slot : List UInt8
  secMap : Nat
  direction : Direction
  sent : List Transfer

/-- `ox_dma` at an offset of the slot.  A copy that leaves the slot has no result. -/
def oxDma (host : Host) (c : Nat) (state : DmaState) (off prp size : Nat) :
    Option (DmaState × Bool) :=
  let toHost : Option (DmaState × Bool) :=
    if off + size ≤ state.slot.length then
      some ({ state with sent := state.sent ++ [⟨prp, slice state.slot off size⟩] }, true)
    else none
  let fromHost : Option (DmaState × Bool) :=
    (memcpy state.slot off (load host.mem prp size) 0 size).map fun slot =>
      ({ state with slot := slot }, true)
  if size = 0 ∨ prp = 0 then some (state, true)
  else
    match state.direction with
    | .toHost => if host.works c then toHost else some (state, false)
    | .fromHost => if host.works c then fromHost else some (state, false)
    | .syncRead => toHost
    | .syncWrite => fromHost

/-- The loop of `volt_oob_reorder` and `fbe_oob_reorder`, for so many sectors.  The spare bytes are
in the slot from `oob` on, and `map` has a bit for each sector that is not asked for. -/
def oobReorder (oob map : Nat) : Nat → List UInt8 → Option (List UInt8 × Nat)
  | 0, slot => some (slot, 0)
  | i + 1, slot =>
      (oobReorder oob map i slot).bind fun (slot, oobOff) =>
        if map.testBit i then
          (memcpy slot (oob + oobOff) slot (oob + oobOff + secOobSize)
            (oobSize - oobOff - secOobSize)).map fun slot => (slot, oobOff)
        else some (slot, oobOff + secOobSize)

variable {Addr : Type}

namespace IoCmd

/-- The direction of a command, without and with `sync_count`. -/
def direction (io : IoCmd Addr) (sync : Bool) : Direction :=
  match io.type with
  | .readPg => if sync then .syncRead else .toHost
  | _ => if sync then .syncWrite else .fromHost

/-- `n_sectors`, as `volt_prepare_rw` computes it. -/
def nSectors (io : IoCmd Addr) : Nat :=
  io.pgSz / sectorSize

end IoCmd

/-- A round of the loop of `volt_host_dma_helper` and `fbe_host_dma_helper`.  The round after the
sectors is that of the spare bytes. -/
def dmaRound (io : IoCmd Addr) (host : Host) (c : Nat) (state : DmaState) :
    Option (DmaState × Bool) :=
  let isLast := c = io.nSectors
  let size := if isLast then io.mdSz else io.secSz
  let prp := if isLast then io.mdPrp else io.prp c
  if prp = 0 then some ({ state with secMap := state.secMap ||| 1 <<< c }, true)
  else
    let slot :=
      if state.secMap ≠ 0 ∧ io.type = .readPg ∧ io.mdSz ≠ 0 ∧ isLast then
        (oobReorder (io.secSz * io.nSectors) state.secMap (sectorCount - 1) state.slot).map Prod.fst
      else some state.slot
    let force := if isLast then io.forceSyncMd else io.forceSyncData c
    let direction := if force then io.direction true else state.direction
    slot.bind fun slot =>
      oxDma host c { state with slot := slot, direction := direction } (io.secSz * c) prp size

/-- The loop of `volt_host_dma_helper`.  It ends with the first copy that fails. -/
def dmaLoop (io : IoCmd Addr) (host : Host) : Nat → Nat → DmaState → Option (DmaState × Bool)
  | 0, _, state => some (state, true)
  | rounds + 1, c, state =>
      (dmaRound io host c state).bind fun (state, ok) =>
        if ok then dmaLoop io host rounds (c + 1) state else some (state, false)

/-- `volt_host_dma_helper` and `fbe_host_dma_helper`: the slot, the copies to the host and whether
all copies have been made. -/
def hostDmaHelper (io : IoCmd Addr) (host : Host) (slot : List UInt8) :
    Option (DmaState × Bool) :=
  let state : DmaState := ⟨slot, 0, io.direction io.sync, []⟩
  match io.type with
  | .eraseBlk => some (state, false)
  | _ => dmaLoop io host (io.nSectors + 1) 0 state

/-! ## The spare bytes -/

section Reorder

variable {oob map : Nat}

/-- The first sectors without those in the map. -/
def kept (map n : Nat) : List Nat :=
  (List.range n).filter fun i => !map.testBit i

/-- The spare bytes of sectors. -/
def spareOf (slot : List UInt8) (oob : Nat) (sectors : List Nat) : List UInt8 :=
  sectors.flatMap fun i => slice slot (oob + secOobSize * i) secOobSize

theorem kept_succ (map n : Nat) :
    kept map (n + 1) = kept map n ++ if map.testBit n then [] else [n] := by
  rw [kept, kept, List.range_succ, List.filter_append]
  cases bit : map.testBit n with
  | true => simp [bit]
  | false => simp [bit]

theorem length_kept_le (map n : Nat) : (kept map n).length ≤ n := by
  have le := List.length_filter_le (fun i => !map.testBit i) (List.range n)
  rwa [List.length_range] at le

/-- What the loop has done after some sectors: the spare bytes of those that stay are in front, and
those of the sectors that are left stand behind them. -/
structure Reordered (oob map i : Nat) (slot out : List UInt8) (off : Nat) : Prop where
  behind : off = secOobSize * (kept map i).length
  length : out.length = slot.length
  front : slice out oob off = spareOf slot oob (kept map i)
  left : ∀ k < oobSize - secOobSize * i, out[oob + off + k]? = slot[oob + secOobSize * i + k]?

theorem Reordered.off_le {i off : Nat} {slot out : List UInt8}
    (done : Reordered oob map i slot out off) : off ≤ secOobSize * i := by
  rw [done.behind]
  exact Nat.mul_le_mul_left _ (length_kept_le map i)

/-- A sector that stays. -/
theorem Reordered.keep {i off : Nat} {slot out : List UInt8}
    (done : Reordered oob map i slot out off)
    (few : i < sectorCount) (bit : map.testBit i = false) :
    Reordered oob map (i + 1) slot out (off + secOobSize) := by
  have more : kept map (i + 1) = kept map i ++ [i] := by
    rw [kept_succ, bit, if_neg Bool.false_ne_true]
  have left := done.left
  have size := done.behind
  unfold oobSize secOobSize sectorCount at *
  refine ⟨?_, done.length, ?_, fun k lt => ?_⟩
  · rw [more, List.length_append, List.length_singleton, size, secOobSize]
    omega
  · rw [more, slice_add, done.front, spareOf, spareOf, List.flatMap_append, List.flatMap_singleton]
    congr 1
    apply List.ext_getElem?
    intro k
    rw [getElem?_slice, getElem?_slice, secOobSize]
    by_cases inside : k < 16
    · rw [if_pos inside, if_pos inside]
      exact left k (by omega)
    · rw [if_neg inside, if_neg inside]
  · unfold secOobSize at *
    have next := left (16 + k) (by unfold oobSize secOobSize sectorCount at lt; omega)
    rw [show oob + (off + 16) + k = oob + off + (16 + k) by omega, next]
    congr 1
    omega

theorem oobReorder_spec {slot : List UInt8} (within : oob + oobSize ≤ slot.length) {i : Nat}
    (few : i ≤ sectorCount) :
    ∃ out off, oobReorder oob map i slot = some (out, off) ∧ Reordered oob map i slot out off := by
  induction i with
  | zero => exact ⟨slot, 0, rfl, rfl, rfl, rfl, fun k _ => rfl⟩
  | succ i ih =>
      obtain ⟨mid, off, loop, done⟩ := ih (Nat.le_of_succ_le few)
      rw [oobReorder, loop, Option.bind_some]
      cases bit : map.testBit i with
      | false => exact ⟨mid, off + secOobSize, rfl, done.keep few bit⟩
      | true =>
          have le := done.off_le
          have left := done.left
          have length := done.length
          unfold oobSize secOobSize sectorCount at *
          obtain ⟨out, copied, outLength, -⟩ :=
            memcpy_eq mid mid (oob + off) (oob + off + 16) (16 * 4 - off - 16) (by omega) (by omega)
          have same : kept map (i + 1) = kept map i := by
            rw [kept_succ, bit, if_pos rfl, List.append_nil]
          refine ⟨out, off, ?_, ?_, outLength.trans length, ?_, fun k lt => ?_⟩
          · simp only [if_true]
            exact Option.map_eq_some_iff.mpr ⟨out, copied, rfl⟩
          · rw [same]
            exact done.behind
          · rw [same, ← done.front]
            apply List.ext_getElem?
            intro k
            rw [getElem?_slice, getElem?_slice]
            by_cases inside : k < off
            · rw [if_pos inside, if_pos inside, getElem?_memcpy copied, if_neg (by omega)]
            · rw [if_neg inside, if_neg inside]
          · unfold oobSize secOobSize sectorCount at *
            rw [getElem?_memcpy copied, if_pos (by omega),
              show oob + off + 16 + (oob + off + k - (oob + off)) = oob + off + (16 + k) by omega,
              left (16 + k) (by omega)]
            congr 1
            omega

theorem kept_add (map n m : Nat) : ∃ more, kept map (n + m) = kept map n ++ more := by
  induction m with
  | zero => exact ⟨[], (List.append_nil _).symm⟩
  | succ m ih =>
      obtain ⟨more, eq⟩ := ih
      exact ⟨_, by rw [← Nat.add_assoc, kept_succ, eq, List.append_assoc]⟩

theorem length_spareOf {slot : List UInt8} (within : oob + oobSize ≤ slot.length)
    {sectors : List Nat} (few : ∀ i ∈ sectors, i < sectorCount) :
    (spareOf slot oob sectors).length = secOobSize * sectors.length := by
  induction sectors with
  | nil => rfl
  | cons i rest ih =>
      have lt := few i List.mem_cons_self
      unfold oobSize secOobSize sectorCount at *
      rw [spareOf, List.flatMap_cons, List.length_append,
        length_slice (by unfold secOobSize; omega)]
      have tail := ih fun j mem => few j (List.mem_cons_of_mem i mem)
      rw [spareOf] at tail
      rw [tail, List.length_cons, secOobSize]
      omega

theorem lt_of_mem_kept {n i : Nat} (mem : i ∈ kept map n) : i < n :=
  List.mem_range.mp (List.mem_filter.mp mem).1

/-- The spare bytes in front when the loop is over. -/
theorem Reordered.front_of_le {slot out : List UInt8} {off n : Nat}
    (done : Reordered oob map (sectorCount - 1) slot out off) (within : oob + oobSize ≤ slot.length)
    (few : n ≤ sectorCount) :
    slice out oob (secOobSize * (kept map n).length) = spareOf slot oob (kept map n) := by
  by_cases all : n = sectorCount
  · subst all
    cases bit : map.testBit (sectorCount - 1) with
    | true =>
        have same : kept map sectorCount = kept map (sectorCount - 1) := by
          rw [show sectorCount = sectorCount - 1 + 1 from rfl, kept_succ, bit, if_pos rfl,
            List.append_nil]
          rfl
        rw [same, ← done.behind]
        exact done.front
    | false =>
        have last : Reordered oob map sectorCount slot out (off + secOobSize) :=
          done.keep (by decide) bit
        rw [← last.front, last.behind]
  · obtain ⟨more, eq⟩ := kept_add map n (sectorCount - 1 - n)
    rw [Nat.add_sub_cancel' (by unfold sectorCount at *; omega)] at eq
    have length := @length_spareOf oob slot within (kept map n) fun i mem =>
      Nat.lt_of_lt_of_le (lt_of_mem_kept mem) few
    have front := done.front
    rw [eq, spareOf, List.flatMap_append, ← spareOf] at front
    have le : secOobSize * (kept map n).length ≤ off := by
      rw [done.behind, eq, List.length_append]
      exact Nat.mul_le_mul_left _ (Nat.le_add_right _ _)
    rw [← take_slice le, front, ← length, List.take_left]

end Reorder

/-! ## Reads -/

section Read

variable {io : IoCmd Addr} {host : Host}

def Direction.Reads (direction : Direction) : Prop :=
  direction = .toHost ∨ direction = .syncRead

theorem oxDma_reads (host : Host) (c : Nat) (state : DmaState) (reads : state.direction.Reads)
    {off prp size : Nat} (some : ¬ (size = 0 ∨ prp = 0)) (within : off + size ≤ state.slot.length) :
    ∃ ok, oxDma host c state off prp size =
        .some ({ state with
          sent := state.sent ++ if ok then [⟨prp, slice state.slot off size⟩] else [] }, ok) ∧
      (host.works c = true → ok = true) := by
  cases state with
  | mk slot secMap direction sent =>
      simp only [oxDma, if_neg some, if_pos within]
      rcases reads with rfl | rfl
      · cases works : host.works c with
        | true => exact ⟨true, by simp, fun _ => rfl⟩
        | false => exact ⟨false, by simp, fun absurd => by cases absurd⟩
      · exact ⟨true, by simp, fun _ => rfl⟩

theorem reads_of_read (read : io.type = .readPg) (sync : Bool) : (io.direction sync).Reads := by
  rw [IoCmd.direction, read]
  cases sync with
  | true => exact Or.inr rfl
  | false => exact Or.inl rfl

/-- The copy of a sector. -/
def IoCmd.transfer (io : IoCmd Addr) (slot : List UInt8) (c : Nat) : Transfer :=
  ⟨io.prp c, slice slot (io.secSz * c) io.secSz⟩

/-- The sectors that the host asks for, from one on. -/
def IoCmd.askedFrom (io : IoCmd Addr) (c n : Nat) : List Nat :=
  (List.range' c n).filter fun c => io.prp c != 0

/-- The sectors that the host asks for. -/
def IoCmd.asked (io : IoCmd Addr) : List Nat :=
  io.askedFrom 0 io.nSectors

/-- `sec_map` after so many sectors. -/
def IoCmd.missing (io : IoCmd Addr) : Nat → Nat
  | 0 => 0
  | c + 1 => if io.prp c = 0 then io.missing c ||| 1 <<< c else io.missing c

theorem IoCmd.testBit_missing (io : IoCmd Addr) (n i : Nat) :
    (io.missing n).testBit i = (decide (i < n) && io.prp i == 0) := by
  induction n with
  | zero => simp [IoCmd.missing]
  | succ n ih =>
      rw [IoCmd.missing]
      by_cases absent : io.prp n = 0
      · rw [if_pos absent, Nat.testBit_or, ih, Nat.one_shiftLeft, Nat.testBit_two_pow]
        by_cases last : n = i
        · subst last
          simp [absent]
        · simp only [last, decide_false, Bool.or_false]
          congr 1
          exact decide_eq_decide.mpr (by omega)
      · rw [if_neg absent, ih]
        by_cases last : i = n
        · subst last
          simp [absent]
        · congr 1
          exact decide_eq_decide.mpr (by omega)

theorem IoCmd.kept_missing (io : IoCmd Addr) :
    kept (io.missing io.nSectors) io.nSectors = io.asked := by
  rw [kept, IoCmd.asked, IoCmd.askedFrom, List.range_eq_range']
  refine List.filter_congr fun i mem => ?_
  have lt : i < io.nSectors := by simpa using List.mem_range'_1.mp mem
  rw [io.testBit_missing]
  simp [lt, bne]

/-- The rounds of the sectors, and that of the spare bytes behind them. -/
theorem dmaLoop_sectors (read : io.type = .readPg) {slot : List UInt8} (positive : io.secSz ≠ 0)
    (within : io.secSz * io.nSectors ≤ slot.length) {rest : List Transfer}
    (last : ∀ state : DmaState, state.slot = slot → state.direction.Reads →
      state.secMap = io.missing io.nSectors → ∃ after ok,
        dmaLoop io host 1 io.nSectors state = some (after, ok) ∧
          after.sent <+: state.sent ++ rest ∧ (ok = true → after.sent = state.sent ++ rest) ∧
          ((∀ c, host.works c = true) → ok = true))
    (c n : Nat) (left : c + n = io.nSectors) (state : DmaState) (same : state.slot = slot)
    (reads : state.direction.Reads) (map : state.secMap = io.missing c) :
    ∃ after ok, dmaLoop io host (n + 1) c state = some (after, ok) ∧
      after.sent <+: state.sent ++ ((io.askedFrom c n).map (io.transfer slot) ++ rest) ∧
      (ok = true →
        after.sent = state.sent ++ ((io.askedFrom c n).map (io.transfer slot) ++ rest)) ∧
      ((∀ c, host.works c = true) → ok = true) := by
  induction n generalizing c state with
  | zero =>
      rw [Nat.add_zero] at left
      subst left
      exact last state same reads map
  | succ n ih =>
      have notLast : c ≠ io.nSectors := by omega
      have front : io.secSz * c + io.secSz ≤ state.slot.length := by
        rw [same, ← Nat.mul_succ]
        exact Nat.le_trans (Nat.mul_le_mul_left _ (by omega)) within
      rw [dmaLoop, dmaRound]
      simp only [notLast, if_false, and_false]
      by_cases absent : io.prp c = 0
      · rw [if_pos absent, Option.bind_some]
        have filtered : io.askedFrom c (n + 1) = io.askedFrom (c + 1) n := by
          rw [IoCmd.askedFrom, IoCmd.askedFrom, List.range'_succ, List.filter_cons]
          simp [absent]
        rw [filtered]
        exact ih (c + 1) (by omega) _ same reads (by rw [IoCmd.missing, if_pos absent, map])
      · have filtered : io.askedFrom c (n + 1) = c :: io.askedFrom (c + 1) n := by
          rw [IoCmd.askedFrom, IoCmd.askedFrom, List.range'_succ, List.filter_cons]
          simp [absent]
        rw [if_neg absent, Option.bind_some, filtered, List.map_cons, List.cons_append]
        have kept : Direction.Reads
            (if io.forceSyncData c = true then io.direction true else state.direction) := by
          split
          · exact reads_of_read read true
          · exact reads
        generalize (if io.forceSyncData c = true then io.direction true else state.direction) =
          direction at kept ⊢
        obtain ⟨ok, copied, works⟩ := oxDma_reads host c
          { state with direction := direction } kept (not_or.mpr ⟨positive, absent⟩) front
        rw [copied, Option.bind_some]
        cases ok with
        | true =>
            obtain ⟨after, ok, loop, part, all, fine⟩ := ih (c + 1) (by omega)
              { state with direction := direction, sent := _ } same kept
              (by rw [IoCmd.missing, if_neg absent, map])
            refine ⟨after, ok, loop, ?_, fun yes => ?_, fine⟩
            · simpa [IoCmd.transfer, same] using part
            · simpa [IoCmd.transfer, same] using all yes
        | false =>
            refine ⟨_, false, rfl, ?_, fun no => (by cases no), fun all => works (all c)⟩
            simp

end Read

/-! ## The spare bytes of a read -/

section Spare

variable {io : IoCmd Addr} {host : Host}

/-- The copy of the spare bytes. -/
def IoCmd.spareTransfer (io : IoCmd Addr) (bytes : List UInt8) : List Transfer :=
  if io.mdPrp = 0 ∨ io.mdSz = 0 then [] else [⟨io.mdPrp, bytes⟩]

/-- Where the spare bytes are in the slot: `oob_addr`. -/
def IoCmd.oobAddr (io : IoCmd Addr) : Nat :=
  io.secSz * io.nSectors

theorem reordered_zero (oob : Nat) (slot : List UInt8) {n : Nat} (few : n ≤ sectorCount) :
    Reordered oob 0 n slot slot (secOobSize * n) := by
  induction n with
  | zero => exact ⟨rfl, rfl, rfl, fun k _ => rfl⟩
  | succ n ih => exact (ih (Nat.le_of_succ_le few)).keep few (Nat.zero_testBit n)

/-- The slot before the copy of the spare bytes. -/
theorem spare_front (few : io.nSectors ≤ sectorCount) {slot : List UInt8} {oob : Nat}
    (within : oob + oobSize ≤ slot.length) :
    ∃ final, (if io.missing io.nSectors ≠ 0 then
          (oobReorder oob (io.missing io.nSectors) (sectorCount - 1) slot).map Prod.fst
        else some slot) = some final ∧
      final.length = slot.length ∧
        slice final oob (secOobSize * io.asked.length) = spareOf slot oob io.asked := by
  by_cases whole : io.missing io.nSectors = 0
  · have done := reordered_zero oob slot few
    rw [← whole] at done
    refine ⟨slot, if_neg (not_not.mpr whole), rfl, ?_⟩
    rw [← io.kept_missing, ← done.behind]
    exact done.front
  · obtain ⟨out, off, loop, done⟩ :=
      @oobReorder_spec oob (io.missing io.nSectors) slot within (sectorCount - 1) (by decide)
    refine ⟨out, ?_, done.length, ?_⟩
    · rw [if_pos whole, loop]
      rfl
    · rw [← io.kept_missing]
      exact done.front_of_le within few

/-- The round of the spare bytes. -/
theorem dmaLoop_spare (host : Host) (read : io.type = .readPg) (few : io.nSectors ≤ sectorCount)
    (small : io.mdSz ≤ oobSize) {slot : List UInt8} (within : io.oobAddr + oobSize ≤ slot.length) :
    ∃ bytes : List UInt8, bytes.length = io.mdSz ∧
      bytes.take (secOobSize * io.asked.length) = (spareOf slot io.oobAddr io.asked).take io.mdSz ∧
      ∀ state : DmaState, state.slot = slot → state.direction.Reads →
        state.secMap = io.missing io.nSectors → ∃ after ok,
          dmaLoop io host 1 io.nSectors state = some (after, ok) ∧
            after.sent <+: state.sent ++ io.spareTransfer bytes ∧
            (ok = true → after.sent = state.sent ++ io.spareTransfer bytes) ∧
            ((∀ c, host.works c = true) → ok = true) := by
  obtain ⟨final, moved, length, front⟩ := spare_front few within
  have inside : io.oobAddr + io.mdSz ≤ final.length := by omega
  refine ⟨slice final io.oobAddr io.mdSz, length_slice inside, ?_, fun state same reads map => ?_⟩
  · rw [← front]
    simp only [slice, List.take_take, Nat.min_comm]
  · rw [dmaLoop, dmaRound]
    simp only [if_true, dmaLoop]
    by_cases absent : io.mdPrp = 0
    · rw [if_pos absent, Option.bind_some, if_pos rfl, IoCmd.spareTransfer, if_pos (Or.inl absent),
        List.append_nil]
      exact ⟨_, true, rfl, List.prefix_refl _, fun _ => rfl, fun _ => rfl⟩
    · have kept : Direction.Reads
          (if io.forceSyncMd = true then io.direction true else state.direction) := by
        split
        · exact reads_of_read read true
        · exact reads
      rw [if_neg absent, map, same, read]
      generalize (if io.forceSyncMd = true then io.direction true else state.direction) =
        direction at kept ⊢
      by_cases empty : io.mdSz = 0
      · rw [IoCmd.spareTransfer, if_pos (Or.inr empty), List.append_nil]
        simp only [empty, ne_eq, not_true_eq_false, false_and, and_false, if_false,
          Option.bind_some, oxDma, true_or, if_true]
        exact ⟨_, true, rfl, List.prefix_refl _, fun _ => rfl, fun _ => rfl⟩
      · rw [IoCmd.spareTransfer, if_neg (not_or.mpr ⟨absent, empty⟩)]
        simp only [empty, ne_eq, not_false_eq_true, and_true]
        rw [IoCmd.oobAddr] at moved inside
        rw [moved, Option.bind_some]
        obtain ⟨ok, copied, works⟩ := oxDma_reads host io.nSectors
          ⟨final, io.missing io.nSectors, direction, state.sent⟩ kept
            (not_or.mpr ⟨empty, absent⟩) inside
        rw [copied, Option.bind_some]
        cases ok with
        | true => exact ⟨_, true, rfl, by simp [IoCmd.oobAddr], fun _ => by simp [IoCmd.oobAddr],
            fun _ => rfl⟩
        | false => exact ⟨_, false, rfl, by simp, fun no => (by cases no), fun all => works (all _)⟩

end Spare

/-! ## What a read delivers -/

section Deliver

variable {io : IoCmd Addr}

/-- The preparation accepts the sizes of the command. -/
def IoCmd.Fits (io : IoCmd Addr) : Prop :=
  DmaSlots.Fits DmaSlots.volt ⟨io.pgSz, io.secSz, io.mdSz⟩

instance IoCmd.decidableFits (io : IoCmd Addr) : Decidable io.Fits :=
  inferInstanceAs (Decidable (DmaSlots.Fits _ _))

theorem IoCmd.Fits.sizes (fits : io.Fits) :
    io.secSz = sectorSize ∧ io.nSectors ≤ sectorCount ∧ io.mdSz ≤ oobSize := by
  rw [IoCmd.Fits, DmaSlots.Fits, not_or, not_or] at fits
  obtain ⟨page, sector, spare⟩ := fits
  exact ⟨not_not.mp sector, Nat.div_le_div_right (Nat.not_lt.mp page), Nat.not_lt.mp spare⟩

theorem IoCmd.Fits.within (fits : io.Fits) {slot : List UInt8} (size : slot.length = slotSize) :
    io.oobAddr + oobSize ≤ slot.length := by
  obtain ⟨sector, few, -⟩ := fits.sizes
  have le := Nat.mul_le_mul_left sectorSize few
  rw [IoCmd.oobAddr, sector, size]
  unfold sectorSize sectorCount oobSize secOobSize slotSize pageSize at *
  unfold sectorSize sectorCount at *
  omega

/-- A read has delivered the sectors that the host asks for, in their order, and behind them the
spare bytes: those of these sectors are in front and in their order.  When a copy has failed, the
read has delivered what comes before. -/
structure Delivered (io : IoCmd Addr) (sector spare : Nat → List UInt8) (sent : List Transfer)
    (ok : Bool) (bytes : List UInt8) : Prop where
  length : bytes.length = io.mdSz
  front : bytes.take (secOobSize * io.asked.length) = (io.asked.flatMap spare).take io.mdSz
  part : sent <+: io.asked.map (fun c => ⟨io.prp c, sector c⟩) ++ io.spareTransfer bytes
  all : ok = true →
    sent = io.asked.map (fun c => ⟨io.prp c, sector c⟩) ++ io.spareTransfer bytes

theorem lt_of_mem_asked {c : Nat} (mem : c ∈ io.asked) : c < io.nSectors := by
  have range := List.mem_range'_1.mp (List.mem_filter.mp mem).1
  omega

/-- The contents matter at the sectors that the host asks for. -/
theorem Delivered.congr {sector spare sector' spare' : Nat → List UInt8} {sent : List Transfer}
    {ok : Bool} {bytes : List UInt8} (delivered : Delivered io sector spare sent ok bytes)
    (sectors : ∀ c < io.nSectors, sector c = sector' c)
    (spares : ∀ c < io.nSectors, spare c = spare' c) :
    Delivered io sector' spare' sent ok bytes := by
  have data : io.asked.map (fun c => (⟨io.prp c, sector c⟩ : Transfer)) =
      io.asked.map fun c => ⟨io.prp c, sector' c⟩ :=
    List.map_congr_left fun c mem => by rw [sectors c (lt_of_mem_asked mem)]
  have front : io.asked.flatMap spare = io.asked.flatMap spare' := by
    rw [List.flatMap_def, List.flatMap_def,
      List.map_congr_left fun c mem => spares c (lt_of_mem_asked mem)]
  exact ⟨delivered.length, front ▸ delivered.front, data ▸ delivered.part, data ▸ delivered.all⟩

theorem hostDmaHelper_read (host : Host) {slot : List UInt8} (read : io.type = .readPg)
    (fits : io.Fits) (size : slot.length = slotSize) :
    ∃ state ok bytes, hostDmaHelper io host slot = some (state, ok) ∧
      Delivered io (fun c => slice slot (io.secSz * c) io.secSz)
        (fun c => slice slot (io.oobAddr + secOobSize * c) secOobSize) state.sent ok bytes ∧
      ((∀ c, host.works c = true) → ok = true) := by
  obtain ⟨sector, few, small⟩ := fits.sizes
  have within := fits.within size
  obtain ⟨bytes, length, front, last⟩ := dmaLoop_spare host read few small within
  obtain ⟨state, ok, loop, part, all, fine⟩ := dmaLoop_sectors read (by rw [sector]; decide)
    (Nat.le_of_add_right_le within) last 0 io.nSectors (Nat.zero_add _)
    ⟨slot, 0, io.direction io.sync, []⟩ rfl (reads_of_read read _) rfl
  refine ⟨state, ok, bytes, ?_, ⟨length, front, part, all⟩, fine⟩
  rw [hostDmaHelper, read]
  exact loop

end Deliver

end OxCtrl.Mmgr
