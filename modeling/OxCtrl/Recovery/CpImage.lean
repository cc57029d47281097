import OxCtrl.Geometry
import OxCtrl.SeqTransfer
import Mathlib.Data.List.GetD

/-!
# Checkpoint images on the reserved block

`oxb_recovery_flush_cp` serialises the checkpoint entries and writes them to the next
pages of the reserved block, which is erased when they do not fit.  Every page carries
the magic number and the size of the image.  `oxb_recovery_recover` looks for the first
page without the magic number and reads the image that ends there.
-/

namespace OxCtrl.Recovery

open OxCtrl.SeqTransfer

/-! ## Entries and their bytes -/

/-- `struct app_rec_entry`. -/
structure CpEntry where
  type : UInt32
  data : List UInt8
  deriving DecidableEq, Repr

/-- The four bytes of a 32-bit word. -/
def wordBytes32 (word : Nat) : List UInt8 :=
  [UInt8.ofNat word, UInt8.ofNat (word / 2 ^ 8), UInt8.ofNat (word / 2 ^ 16),
    UInt8.ofNat (word / 2 ^ 24)]

/-- The 32-bit word at an offset. -/
def wordAt (buf : Nat → UInt8) (off : Nat) : Nat :=
  (buf off).toNat + 2 ^ 8 * (buf (off + 1)).toNat + 2 ^ 16 * (buf (off + 2)).toNat +
    2 ^ 24 * (buf (off + 3)).toNat

/-- An entry as it is written: eight bytes of header and the data. -/
def CpEntry.bytes (entry : CpEntry) : List UInt8 :=
  wordBytes32 entry.type.toNat ++ wordBytes32 entry.data.length ++ entry.data

/-- The image of the checkpoint list. -/
def cpImage (list : List CpEntry) : List UInt8 :=
  list.flatMap CpEntry.bytes

/-- `oxb_recovery_get`. -/
def oxbRecoveryGet (list : List CpEntry) (type : UInt32) : Option (List UInt8) :=
  (list.find? fun entry => entry.type = type).map CpEntry.data

/-- `oxb_recovery_set`, without the buffers: data that has grown overruns the buffer of its type in
the source.  `Buffers.simulates_list` has the buffers. -/
def oxbRecoverySet (list : List CpEntry) (user : CpEntry) : List CpEntry :=
  if list.any fun entry => entry.type = user.type then
    list.map fun entry => if entry.type = user.type then { entry with data := user.data } else entry
  else user :: list

/-- The loop of `oxb_recovery_read_cp`, for at most `rounds` entries.  An entry that reaches beyond
the image is read out of bounds, which has no result here. -/
def readEntries (buf : Nat → UInt8) (cpSize : Nat) :
    Nat → Nat → List CpEntry → Option (List CpEntry)
  | 0, _, list => some list
  | rounds + 1, off, list =>
      if off < cpSize then
        let size := wordAt buf (off + 4)
        if off + 8 + size ≤ cpSize then
          let entry : CpEntry :=
            { type := UInt32.ofNat (wordAt buf off)
              data := (List.range size).map fun i => buf (off + 8 + i) }
          readEntries buf cpSize rounds ((off + (size + 8)) % 2 ^ 32) (oxbRecoverySet list entry)
        else none
      else some list

/-! ## The reserved block -/

/-- `APP_MAGIC`, which is `NVM_MAGIC`. -/
def appMagic : Nat := 0x3c

/-- `struct app_rec_oob`. -/
structure CpOob where
  magic : Nat
  checkpointSz : Nat
  deriving DecidableEq, Repr

/-- A page of the reserved block. -/
abbrev CpPage := PgIo UInt8 CpOob

/-- The device: the size of a page in a plane, of which `ent_per_pg` is a 16-bit
multiple, and what an erased page reads as. -/
structure CpDev where
  geo : Geometry
  pgSz : Nat
  erased : CpPage
  pg_pos : 0 < pgSz
  ent_lt : pgSz * geo.nOfPlanes < 2 ^ 16
  noMagic : erased.oob.magic ≠ appMagic

namespace CpDev

/-- The image is a table of bytes. -/
def layout (dev : CpDev) : Layout where
  nPl := dev.geo.nOfPlanes
  entPerPg := dev.pgSz * dev.geo.nOfPlanes
  entrySz := 1
  pl_pos := dev.geo.pl_pos
  aligned := Nat.dvd_mul_left ..

/-- `ent_per_pg`. -/
def entPerPg (dev : CpDev) : Nat :=
  dev.pgSz * dev.geo.nOfPlanes

/-- `geometry->blk_size`. -/
def blkSize (dev : CpDev) : Nat :=
  dev.entPerPg * dev.geo.pgPerBlk

/-- `md_pgs`: the pages of an image. -/
def mdPgs (dev : CpDev) (size : Nat) : Nat :=
  size / dev.entPerPg + if 0 < size % dev.entPerPg then 1 else 0

end CpDev

/-- The reserved block and `cur_flush_pg`. -/
structure CpStore where
  blk : Nat → CpPage
  curFlushPg : Nat

variable (dev : CpDev)

/-- The loop of `ftl_blk_current_page`, for at most `rounds` pages: the page where it
stops and the OOB area of the last page with the magic number. -/
def currentPageLoop (blk : Nat → CpPage) (offset : Nat) : Nat → Nat → CpOob → Nat × CpOob
  | 0, pg, oob => (pg, oob)
  | rounds + 1, pg, oob =>
      if (blk pg).oob.magic ≠ appMagic then (pg, oob)
      else if pg + offset < dev.geo.pgPerBlk - offset then
        currentPageLoop blk offset rounds (pg + offset) (blk pg).oob
      else (pg + offset, (blk pg).oob)

/-- `ftl_blk_current_page`. -/
def ftlBlkCurrentPage (blk : Nat → CpPage) (offset : Nat) : Nat × CpOob :=
  currentPageLoop dev blk offset dev.geo.pgPerBlk 0 ⟨0, 0⟩

/-- `MMGR_ERASE_BLK`. -/
def eraseBlk : Nat → CpPage :=
  fun _ => dev.erased

/-- The page of the first part of an image that ends before page `pg`; the page number
has 12 bits. -/
def imageStart (pg mdPgs : Nat) : Nat :=
  (pg + 2 ^ 16 - mdPgs) % 2 ^ 12

/-- What `oxb_recovery_recover` does: the new state, the pages that were read and the
checkpoint list. -/
structure Recovered where
  store : CpStore
  pages : List Nat
  list : List CpEntry

/-- `oxb_recovery_recover` on an empty checkpoint list; `reset` is `core.reset`.  Reading
beyond the block fails, and reading beyond the image crashes. -/
def oxbRecoveryRecover (reset : Bool) (blk : Nat → CpPage) : Option Recovered :=
  let (pg, oob) := ftlBlkCurrentPage dev blk 1
  if pg = 0 ∨ reset = true then some ⟨⟨eraseBlk dev, 0⟩, [], []⟩
  else
    let mdPgs := dev.mdPgs oob.checkpointSz
    let start := imageStart pg mdPgs
    let pages := List.range' start mdPgs
    if pages.all fun page => page < dev.geo.pgPerBlk then
      let buf := transferFrom dev.layout start blk mdPgs 0 oob.checkpointSz fun _ => 0
      (readEntries buf oob.checkpointSz oob.checkpointSz 0 []).map fun list =>
        ⟨⟨blk, pg⟩, pages, list⟩
    else none

/-- Where `oxb_recovery_nvm_write_cp` writes an image of `mdPgs` pages: the state of the
block after a possible erase, and the first page. -/
def cpTarget (store : CpStore) (mdPgs : Nat) : (Nat → CpPage) × Nat :=
  let pg :=
    if store.curFlushPg = 0xffff then (ftlBlkCurrentPage dev store.blk mdPgs).1
    else store.curFlushPg
  if dev.geo.pgPerBlk - mdPgs ≤ pg then (eraseBlk dev, 0) else (store.blk, pg)

/-- The block after the first `count` page writes of an image. -/
def writePages (store : CpStore) (image : List UInt8) (count : Nat) : Nat → CpPage :=
  let target := cpTarget dev store (dev.mdPgs image.length)
  let io : CpPage := ⟨fun _ _ => 0, ⟨appMagic, image.length⟩⟩
  (transferTo dev.layout target.2 (fun x => image.getD x 0) count 0 image.length io target.1).1

/-- `oxb_recovery_nvm_write_cp`. -/
def oxbRecoveryNvmWriteCp (store : CpStore) (image : List UInt8) : Option CpStore :=
  let mdPgs := dev.mdPgs image.length
  if dev.geo.pgPerBlk < mdPgs then none
  else some ⟨writePages dev store image mdPgs, (cpTarget dev store mdPgs).2 + mdPgs⟩

/-- `oxb_recovery_flush_cp`.  `flush_sz` has 32 bits: entries whose total wraps around
overrun the buffer, which has no result here. -/
def oxbRecoveryFlushCp (store : CpStore) (list : List CpEntry) : Option CpStore :=
  if dev.blkSize < (cpImage list).length then none
  else oxbRecoveryNvmWriteCp dev store (cpImage list)

/-! ## Runs -/

/-- Operations on the reserved block. -/
inductive ImageOp where
  | flush (list : List CpEntry)
  | restart (reset : Bool)
  deriving DecidableEq, Repr

/-- One operation.  A rejected checkpoint leaves the block alone; there is no state after a
start-up that fails. -/
def imageStep (store : CpStore) : ImageOp → Option CpStore
  | .flush list => some ((oxbRecoveryFlushCp dev store list).getD store)
  | .restart reset => (oxbRecoveryRecover dev reset store.blk).map Recovered.store

/-- `oxb_recovery_init`: the block is erased and `cur_flush_pg` is not known. -/
def oxbRecoveryInit : CpStore :=
  ⟨eraseBlk dev, 0xffff⟩

/-- A run of operations. -/
def imageRun : List ImageOp → CpStore → Option CpStore
  | [], store => some store
  | op :: ops, store => (imageStep dev store op).bind (imageRun ops)

/-! ## Parsing an image -/

@[simp]
theorem length_wordBytes32 (word : Nat) : (wordBytes32 word).length = 4 :=
  rfl

@[simp]
theorem CpEntry.length_bytes (entry : CpEntry) : entry.bytes.length = entry.data.length + 8 := by
  simp only [CpEntry.bytes, List.length_append, length_wordBytes32]
  omega

@[simp]
theorem cpImage_nil : cpImage [] = [] :=
  rfl

theorem cpImage_cons (entry : CpEntry) (list : List CpEntry) :
    cpImage (entry :: list) = entry.bytes ++ cpImage list :=
  List.flatMap_cons ..

theorem length_le_cpImage (list : List CpEntry) : list.length ≤ (cpImage list).length := by
  induction list with
  | nil => exact Nat.le_refl 0
  | cons entry list ih =>
      rw [cpImage_cons, List.length_append, CpEntry.length_bytes, List.length_cons]
      omega

theorem cpImage_pos {list : List CpEntry} (filled : list ≠ []) : 0 < (cpImage list).length :=
  lt_of_lt_of_le (List.length_pos_iff.mpr filled) (length_le_cpImage list)

/-- The bytes of a list stand in a buffer from an offset on. -/
def Holds (buf : Nat → UInt8) (off : Nat) (bytes : List UInt8) : Prop :=
  ∀ i < bytes.length, buf (off + i) = bytes.getD i 0

theorem holds_append {buf : Nat → UInt8} {off : Nat} {first second : List UInt8}
    (holds : Holds buf off (first ++ second)) :
    Holds buf off first ∧ Holds buf (off + first.length) second := by
  constructor
  · intro i lt
    rw [holds i (by rw [List.length_append]; omega), List.getD_append _ _ _ _ lt]
  · intro i lt
    rw [Nat.add_assoc, holds (first.length + i) (by rw [List.length_append]; omega),
      List.getD_append_right _ _ _ _ (Nat.le_add_right ..), Nat.add_sub_cancel_left]

theorem wordAt_of_holds {buf : Nat → UInt8} {off word : Nat} (small : word < 2 ^ 32)
    (holds : Holds buf off (wordBytes32 word)) : wordAt buf off = word := by
  have byte0 := holds 0 (by simp)
  have byte1 := holds 1 (by simp)
  have byte2 := holds 2 (by simp)
  have byte3 := holds 3 (by simp)
  rw [Nat.add_zero] at byte0
  simp only [wordAt, byte0, byte1, byte2, byte3, wordBytes32, List.getD_cons_zero,
    List.getD_cons_succ, UInt8.toNat_ofNat']
  omega

theorem map_range_of_holds {buf : Nat → UInt8} {off : Nat} {bytes : List UInt8}
    (holds : Holds buf off bytes) :
    ((List.range bytes.length).map fun i => buf (off + i)) = bytes := by
  apply List.ext_getElem
  · simp
  · intro i lt _
    have less : i < bytes.length := by simpa using lt
    rw [List.getElem_map, List.getElem_range, holds i less, List.getD_eq_getElem _ _ less]

/-- Reading an image sets its entries one after the other. -/
theorem readEntries_cpImage {buf : Nat → UInt8} {size : Nat} (small : size < 2 ^ 32)
    {list : List CpEntry} {rounds off : Nat} {acc : List CpEntry}
    (holds : Holds buf off (cpImage list)) (ends : off + (cpImage list).length = size)
    (enough : list.length ≤ rounds) :
    readEntries buf size rounds off acc = some (list.foldl oxbRecoverySet acc) := by
  induction list generalizing rounds off acc with
  | nil =>
      cases rounds with
      | zero => rfl
      | succ rounds =>
          rw [readEntries, if_neg (by simpa using ends.ge)]
          rfl
  | cons entry list ih =>
      cases rounds with
      | zero => simp at enough
      | succ rounds =>
          rw [cpImage_cons, List.length_append, CpEntry.length_bytes] at ends
          rw [cpImage_cons] at holds
          have here := (holds_append holds).1
          have there := (holds_append holds).2
          rw [CpEntry.length_bytes] at there
          rw [CpEntry.bytes] at here
          have header := (holds_append here).1
          have data := (holds_append here).2
          have type := wordAt_of_holds entry.type.toNat_lt (holds_append header).1
          have length := wordAt_of_holds (by omega) (holds_append header).2
          simp only [List.length_append, length_wordBytes32] at length data
          have body := map_range_of_holds data
          have next : (off + (entry.data.length + 8)) % 2 ^ 32 = off + (entry.data.length + 8) :=
            Nat.mod_eq_of_lt (by omega)
          rw [readEntries, if_pos (by omega)]
          simp only [length, type, UInt32.ofNat_toNat, List.foldl_cons]
          rw [if_pos (by omega), body, next]
          exact ih there (by omega) (by simpa using enough)

end OxCtrl.Recovery
