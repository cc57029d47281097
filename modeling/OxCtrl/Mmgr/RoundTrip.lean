import OxCtrl.Mmgr.HostDma

/-!
# A page between two hosts

A write copies the sectors that have an address from the host to its slot and leaves the rest of the
slot.  The page goes to the medium and from there to the slot of a read, which delivers any of its
sectors with their spare bytes.
-/

namespace OxCtrl.Mmgr

open OxCtrl.Lib
open OxCtrl.DmaSlots (CmdType)

variable {Addr : Type}

/-! ## Writes -/

section Write

variable {io : IoCmd Addr} {host : Host}

def Direction.Writes (direction : Direction) : Prop :=
  direction = .fromHost ∨ direction = .syncWrite

/-- The slot after a copy from the host. -/
structure Copied (slot out : List UInt8) (off : Nat) (bytes : List UInt8) : Prop where
  length : out.length = slot.length
  inside : slice out off bytes.length = bytes
  outside : ∀ k, k < off ∨ off + bytes.length ≤ k → out[k]? = slot[k]?

theorem Copied.slice_behind {slot out bytes : List UInt8} {off at' n : Nat}
    (copied : Copied slot out off bytes) (behind : off + bytes.length ≤ at') :
    slice out at' n = slice slot at' n := by
  apply List.ext_getElem?
  intro k
  rw [getElem?_slice, getElem?_slice]
  by_cases lt : k < n
  · rw [if_pos lt, if_pos lt, copied.outside _ (by omega)]
  · rw [if_neg lt, if_neg lt]

theorem copied_memcpy {slot bytes : List UInt8} {off : Nat}
    (within : off + bytes.length ≤ slot.length) :
    ∃ out, memcpy slot off bytes 0 bytes.length = some out ∧ Copied slot out off bytes := by
  obtain ⟨out, copied, length, -⟩ :=
    memcpy_eq slot bytes off 0 bytes.length within (Nat.le_of_eq (Nat.zero_add _))
  refine ⟨out, copied, length, ?_, fun k apart => ?_⟩
  · apply List.ext_getElem?
    intro k
    rw [getElem?_slice]
    by_cases inside : k < bytes.length
    · rw [if_pos inside, getElem?_memcpy copied, if_pos (by omega)]
      congr 1
      omega
    · rw [if_neg inside, List.getElem?_eq_none (Nat.not_lt.mp inside)]
  · rw [getElem?_memcpy copied, if_neg (by omega)]

theorem oxDma_writes (host : Host) (c : Nat) (state : DmaState) (writes : state.direction.Writes)
    {off prp size : Nat} (some : ¬ (size = 0 ∨ prp = 0)) (within : off + size ≤ state.slot.length) :
    ∃ slot ok, oxDma host c state off prp size = .some ({ state with slot := slot }, ok) ∧
      (ok = true → Copied state.slot slot off (load host.mem prp size)) ∧
      slot.length = state.slot.length ∧ (host.works c = true → ok = true) := by
  have size' := length_load host.mem prp size
  have room : off + (load host.mem prp size).length ≤ state.slot.length := by
    rw [size']
    exact within
  obtain ⟨slot, moved, copied⟩ := copied_memcpy room
  rw [size'] at moved
  cases state with
  | mk old secMap direction sent =>
      simp only [oxDma, if_neg some, moved]
      rcases writes with rfl | rfl
      · cases works : host.works c with
        | true => exact ⟨slot, true, rfl, fun _ => copied, copied.length, fun _ => rfl⟩
        | false => exact ⟨old, false, rfl, fun no => (by cases no), rfl, fun no => (by cases no)⟩
      · exact ⟨slot, true, rfl, fun _ => copied, copied.length, fun _ => rfl⟩

theorem writes_of_write (write : io.type = .writePg) (sync : Bool) :
    (io.direction sync).Writes := by
  rw [IoCmd.direction, write]
  cases sync with
  | true => exact Or.inr rfl
  | false => exact Or.inl rfl

/-- What a write puts at a sector. -/
def IoCmd.sectorOf (io : IoCmd Addr) (host : Host) (slot : List UInt8) (c : Nat) : List UInt8 :=
  if io.prp c = 0 then slice slot (io.secSz * c) io.secSz else load host.mem (io.prp c) io.secSz

/-- What a write puts at the spare bytes. -/
def IoCmd.spareOf (io : IoCmd Addr) (host : Host) (slot : List UInt8) : List UInt8 :=
  if io.mdPrp = 0 ∨ io.mdSz = 0 then slice slot io.oobAddr io.mdSz
  else load host.mem io.mdPrp io.mdSz

/-- The slot after the rounds from a sector on. -/
structure Written (io : IoCmd Addr) (host : Host) (c : Nat) (slot out : List UInt8) : Prop where
  before : ∀ k < io.secSz * c, out[k]? = slot[k]?
  behind : ∀ k, io.oobAddr + io.mdSz ≤ k → out[k]? = slot[k]?
  sectors : ∀ i, c ≤ i → i < io.nSectors →
    slice out (io.secSz * i) io.secSz = io.sectorOf host slot i
  spare : slice out io.oobAddr io.mdSz = io.spareOf host slot

theorem dmaLoop_writes (host : Host) (write : io.type = .writePg) (positive : io.secSz ≠ 0)
    {size : Nat} (within : io.oobAddr + io.mdSz ≤ size) (n c : Nat) (left : c + n = io.nSectors)
    (state : DmaState) (length : state.slot.length = size) (writes : state.direction.Writes) :
    ∃ after ok, dmaLoop io host (n + 1) c state = some (after, ok) ∧
      (ok = true → Written io host c state.slot after.slot) ∧ after.slot.length = size ∧
      ((∀ c, host.works c = true) → ok = true) := by
  induction n generalizing c state with
  | zero =>
      rw [Nat.add_zero] at left
      subst left
      rw [dmaLoop, dmaRound]
      simp only [if_true, dmaLoop]
      have none (i : Nat) (le : io.nSectors ≤ i) (lt : i < io.nSectors) : False := by omega
      by_cases absent : io.mdPrp = 0
      · rw [if_pos absent, Option.bind_some, if_pos rfl]
        refine ⟨_, true, rfl, fun _ => ⟨fun _ _ => rfl, fun _ _ => rfl,
          fun i le lt => (none i le lt).elim, ?_⟩, length, fun _ => rfl⟩
        rw [IoCmd.spareOf, if_pos (Or.inl absent)]
      · have kept : Direction.Writes
            (if io.forceSyncMd = true then io.direction true else state.direction) := by
          split
          · exact writes_of_write write true
          · exact writes
        generalize (if io.forceSyncMd = true then io.direction true else state.direction) =
          direction at kept ⊢
        rw [if_neg absent, write]
        simp only [reduceCtorEq, false_and, and_false, if_false, Option.bind_some]
        by_cases empty : io.mdSz = 0
        · simp only [oxDma, empty, true_or, if_true, Option.bind_some]
          refine ⟨_, true, rfl, fun _ => ⟨fun _ _ => rfl, fun _ _ => rfl,
            fun i le lt => (none i le lt).elim, ?_⟩, length, fun _ => rfl⟩
          rw [IoCmd.spareOf, if_pos (Or.inr empty)]
        · obtain ⟨slot, ok, copied, done, same, works⟩ := oxDma_writes host io.nSectors
            { state with direction := direction } kept (not_or.mpr ⟨empty, absent⟩)
            (Nat.le_trans within (Nat.le_of_eq length.symm))
          rw [IoCmd.oobAddr] at copied
          rw [copied, Option.bind_some]
          cases ok with
          | false =>
              exact ⟨_, false, rfl, fun no => (by cases no), same.trans length,
                fun all => works (all _)⟩
          | true =>
              refine ⟨_, true, rfl, fun _ => ⟨fun k lt => ?_, fun k le => ?_,
                fun i le lt => (none i le lt).elim, ?_⟩, same.trans length, fun _ => rfl⟩
              · exact (done rfl).outside k (Or.inl lt)
              · exact (done rfl).outside k (Or.inr (by rw [length_load]; exact le))
              · have inside := (done rfl).inside
                rw [length_load] at inside
                rw [IoCmd.spareOf, if_neg (not_or.mpr ⟨absent, empty⟩)]
                exact inside
  | succ n ih =>
      have notLast : c ≠ io.nSectors := by omega
      have next : io.secSz * (c + 1) ≤ io.oobAddr := Nat.mul_le_mul_left _ (by omega)
      have front : io.secSz * c + io.secSz ≤ state.slot.length := by
        rw [length, ← Nat.mul_succ]
        exact Nat.le_trans next (Nat.le_of_add_right_le within)
      rw [dmaLoop, dmaRound]
      simp only [notLast, if_false, and_false]
      by_cases absent : io.prp c = 0
      · rw [if_pos absent, Option.bind_some, if_pos rfl]
        obtain ⟨after, ok, loop, done, size, works⟩ := ih (c + 1) (by omega)
          { state with secMap := state.secMap ||| 1 <<< c } length writes
        refine ⟨after, ok, loop, fun yes => ⟨fun k lt => ?_, (done yes).behind, fun i le lt => ?_,
          (done yes).spare⟩, size, works⟩
        · exact (done yes).before k (by rw [Nat.mul_succ]; omega)
        · rcases Nat.eq_or_lt_of_le le with rfl | more
          · rw [IoCmd.sectorOf, if_pos absent]
            apply List.ext_getElem?
            intro k
            rw [getElem?_slice, getElem?_slice]
            by_cases inside : k < io.secSz
            · rw [if_pos inside, if_pos inside, (done yes).before _ (by rw [Nat.mul_succ]; omega)]
            · rw [if_neg inside, if_neg inside]
          · exact (done yes).sectors i more lt
      · have kept : Direction.Writes
            (if io.forceSyncData c = true then io.direction true else state.direction) := by
          split
          · exact writes_of_write write true
          · exact writes
        generalize (if io.forceSyncData c = true then io.direction true else state.direction) =
          direction at kept ⊢
        rw [if_neg absent, Option.bind_some]
        obtain ⟨slot, ok, copied, done, same, works⟩ := oxDma_writes host c
          { state with direction := direction } kept (not_or.mpr ⟨positive, absent⟩) front
        rw [copied, Option.bind_some]
        cases ok with
        | false =>
            exact ⟨_, false, rfl, fun no => (by cases no), same.trans length,
              fun all => works (all c)⟩
        | true =>
            have put := done rfl
            have loaded := length_load host.mem (io.prp c) io.secSz
            obtain ⟨after, ok, loop, done, size, works⟩ := ih (c + 1) (by omega)
              { state with slot := slot, direction := direction } (same.trans length) kept
            refine ⟨after, ok, loop, fun yes => ⟨fun k lt => ?_, fun k le => ?_, fun i le lt => ?_,
              ?_⟩, size, works⟩
            · rw [(done yes).before k (by rw [Nat.mul_succ]; omega)]
              exact put.outside k (Or.inl lt)
            · rw [(done yes).behind k le]
              refine put.outside k (Or.inr ?_)
              rw [loaded, ← Nat.mul_succ]
              exact Nat.le_trans next (Nat.le_of_add_right_le le)
            · rcases Nat.eq_or_lt_of_le le with rfl | more
              · rw [IoCmd.sectorOf, if_neg absent, ← put.inside, loaded]
                apply List.ext_getElem?
                intro k
                rw [getElem?_slice, getElem?_slice]
                by_cases inside : k < io.secSz
                · rw [if_pos inside, if_pos inside, (done yes).before _
                    (by rw [Nat.mul_succ]; omega)]
                · rw [if_neg inside, if_neg inside]
              · have apart : io.secSz * (c + 1) ≤ io.secSz * i := Nat.mul_le_mul_left _ more
                rw [(done yes).sectors i more lt, IoCmd.sectorOf, IoCmd.sectorOf,
                  put.slice_behind (by rw [loaded, ← Nat.mul_succ]; exact apart)]
            · rw [(done yes).spare, IoCmd.spareOf, IoCmd.spareOf,
                put.slice_behind (by rw [loaded, ← Nat.mul_succ]; exact next)]

end Write

/-! ## Through a page and back -/

section RoundTrip

/-- Bytes of a page with its spare bytes. -/
def pageBytes : Nat := pageSize + oobSize

/-- `volt_nand_dma`: the page and the slot after it. -/
def voltNandDma (isRead : Bool) (paddr buf : List UInt8) (sz : Nat) :
    Option (List UInt8 × List UInt8) :=
  if isRead then (memcpy buf 0 paddr 0 sz).map fun buf => (paddr, buf)
  else (memcpy paddr 0 buf 0 sz).map fun paddr => (paddr, buf)

/-- The slot of a read, cleared by `volt_prepare_rw`. -/
def clearedSlot : List UInt8 := List.replicate slotSize 0

theorem hostDmaHelper_write {io : IoCmd Addr} (host : Host) {slot : List UInt8}
    (write : io.type = .writePg) (fits : io.Fits) (size : slot.length = slotSize) :
    ∃ state ok, hostDmaHelper io host slot = some (state, ok) ∧
      (ok = true → Written io host 0 slot state.slot) ∧ state.slot.length = slotSize ∧
      ((∀ c, host.works c = true) → ok = true) := by
  obtain ⟨sector, few, small⟩ := fits.sizes
  have within := fits.within size
  obtain ⟨state, ok, loop, done, length, fine⟩ := dmaLoop_writes host write
    (by rw [sector]; decide) (show io.oobAddr + io.mdSz ≤ slotSize by omega) io.nSectors 0
    (Nat.zero_add _) ⟨slot, 0, io.direction io.sync, []⟩ size (writes_of_write write _)
  refine ⟨state, ok, ?_, done, length, fine⟩
  rw [hostDmaHelper, write]
  exact loop

/-- A page goes from a host through a slot to the medium, and through another slot to a host.  The
slot of the write has what the host has at the address of each sector, and the read delivers the
sectors and the spare bytes that it asks for as they are in that slot. -/
def RoundTrip (w r : IoCmd Addr) (writer reader : Host) (slot page : List UInt8) : Prop :=
  ∃ filled wrote, hostDmaHelper w writer slot = some (filled, wrote) ∧
    ((∀ c, writer.works c = true) → wrote = true) ∧
    (wrote = true → Written w writer 0 slot filled.slot ∧ ∃ stored buf delivered ok bytes,
      voltNandDma false page filled.slot pageBytes = some (stored, filled.slot) ∧
      voltNandDma true stored clearedSlot pageBytes = some (stored, buf) ∧
      hostDmaHelper r reader buf = some (delivered, ok) ∧
      Delivered r (fun c => slice filled.slot (r.secSz * c) r.secSz)
        (fun c => slice filled.slot (r.oobAddr + secOobSize * c) secOobSize)
        delivered.sent ok bytes ∧
      ((∀ c, reader.works c = true) → ok = true))

/-- The sectors of a command and their spare bytes are in the page. -/
theorem IoCmd.Fits.inside {io : IoCmd Addr} (fits : io.Fits) {c : Nat} (lt : c < io.nSectors) :
    io.secSz * c + io.secSz ≤ pageBytes ∧ io.oobAddr + secOobSize * c + secOobSize ≤ pageBytes := by
  obtain ⟨sector, few, -⟩ := fits.sizes
  have le : io.secSz * io.nSectors ≤ sectorSize * sectorCount := by
    rw [sector]
    exact Nat.mul_le_mul_left _ few
  have next : io.secSz * (c + 1) ≤ io.secSz * io.nSectors := Nat.mul_le_mul_left _ lt
  rw [Nat.mul_succ] at next
  rw [IoCmd.oobAddr]
  unfold sectorSize sectorCount pageBytes pageSize oobSize secOobSize at *
  unfold sectorCount
  omega

/-- Every write of a page and every read make a round trip. -/
theorem page_round_trip (w r : IoCmd Addr) (writer reader : Host) (slot page : List UInt8)
    (write : w.type = .writePg) (read : r.type = .readPg) (wFits : w.Fits) (rFits : r.Fits)
    (size : slot.length = slotSize) (pageLong : page.length = pageBytes) :
    RoundTrip w r writer reader slot page := by
  obtain ⟨filled, wrote, run, done, filledSize, fine⟩ := hostDmaHelper_write writer write wFits size
  refine ⟨filled, wrote, run, fine, fun yes => ⟨done yes, ?_⟩⟩
  have long : pageBytes ≤ filled.slot.length := by rw [filledSize]; decide
  obtain ⟨stored, put, storedSize, storedFront⟩ :=
    memcpy_front (Nat.le_of_eq pageLong.symm) long
  have storedLong : pageBytes ≤ stored.length := Nat.le_of_eq (storedSize.trans pageLong).symm
  obtain ⟨buf, got, bufSize, bufFront⟩ :=
    memcpy_front
      (show pageBytes ≤ clearedSlot.length by rw [clearedSlot, List.length_replicate]; decide)
      storedLong
  rw [clearedSlot, List.length_replicate] at bufSize
  have same : buf.take pageBytes = filled.slot.take pageBytes := bufFront.trans storedFront
  obtain ⟨delivered, ok, bytes, sent, part, fine⟩ := hostDmaHelper_read reader read rFits bufSize
  exact ⟨stored, buf, delivered, ok, bytes, by rw [voltNandDma, put]; rfl,
    by rw [voltNandDma, got]; rfl, sent, part.congr
      (fun c lt => slice_of_take same (rFits.inside lt).1)
      fun c lt => slice_of_take same (rFits.inside lt).2, fine⟩

/-- A write of all sectors. -/
def wholeWrite : IoCmd Unit where
  type := .writePg
  ppa := ()
  prp c := 0x10000 + sectorSize * c
  mdPrp := 0x20000
  pgSz := pageSize
  secSz := sectorSize
  mdSz := oobSize
  sync := false
  forceSyncMd := false
  forceSyncData _ := false

/-- A read of one sector with its spare bytes. -/
def sectorRead : IoCmd Unit :=
  { wholeWrite with
    type := .readPg
    prp := fun c => if c = 2 then 0x30000 else 0
    mdPrp := 0x40000
    mdSz := secOobSize }

def countingHost : Host where
  mem := UInt8.ofNat
  works _ := true

theorem page_round_trip_sector :
    RoundTrip wholeWrite sectorRead countingHost countingHost (List.replicate slotSize 0)
      (List.replicate pageBytes 0) :=
  page_round_trip wholeWrite sectorRead countingHost countingHost (List.replicate slotSize 0)
    (List.replicate pageBytes 0) rfl rfl (by decide) (by decide) List.length_replicate
    List.length_replicate

end RoundTrip

end OxCtrl.Mmgr
