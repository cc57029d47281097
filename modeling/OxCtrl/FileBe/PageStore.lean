import Mathlib.Data.List.Perm.Basic
import Mathlib.Data.List.Nodup
import Mathlib.Tactic.Ring
import OxCtrl.FileBe.Core

/-!
# The file backend is a page store

The blocks of the data file stand in the order of their first write.  The invariant carries that
order: table, metadata file and size of the data file are functions of it, and what the data file
holds for a page of an ordered block is the page of the abstract store.
-/

namespace OxCtrl.FileBe

open OxCtrl.Lib

/-! ## The block table -/

theorem fbeGetBlock_setBlock (lun : Lun) (block : FileBEBlock) {blk pl blk' pl' : Nat}
    (plane : pl < filePlaneCount) (plane' : pl' < filePlaneCount) :
    fbeGetBlock (lun.setBlock blk pl block) blk' pl' =
      if blk' = blk ∧ pl' = pl then block else fbeGetBlock lun blk' pl' := by
  rw [fbeGetBlock, Lun.setBlock]
  dsimp only
  rw [Function.update_apply]
  by_cases same : blk' = blk ∧ pl' = pl
  · rw [if_pos same, same.1, same.2, if_pos rfl]
  · unfold filePlaneCount at *
    rw [if_neg same, if_neg (by omega)]
    rfl

theorem fbeGetBlock_forPlanes (lun : Lun) (change : FileBEBlock → FileBEBlock) {blk blk' pl n : Nat}
    (planes : n ≤ filePlaneCount) (plane : pl < filePlaneCount) :
    fbeGetBlock (lun.forPlanes blk change n) blk' pl =
      if blk' = blk ∧ pl < n then change (fbeGetBlock lun blk' pl)
      else fbeGetBlock lun blk' pl := by
  induction n with
  | zero => rw [if_neg (by omega)]; rfl
  | succ n ih =>
      rw [Lun.forPlanes, fbeGetBlock_setBlock _ _ (by omega) plane]
      by_cases last : blk' = blk ∧ pl = n
      · rw [if_pos last, if_pos ⟨last.1, by omega⟩, ← last.1, ← last.2]
        have before := ih (by omega)
        rw [← last.1, ← last.2, if_neg (by omega)] at before
        rw [before]
      · rw [if_neg last, ih (by omega)]
        by_cases earlier : blk' = blk ∧ pl < n
        · rw [if_pos earlier, if_pos ⟨earlier.1, by omega⟩]
        · rw [if_neg earlier, if_neg (by omega)]

theorem fbeGetBlock_forBlocks (lun : Lun) (change : Nat → FileBEBlock → FileBEBlock)
    {blk pl n : Nat} (plane : pl < filePlaneCount) :
    fbeGetBlock (lun.forBlocks change n) blk pl =
      if blk < n then change blk (fbeGetBlock lun blk pl) else fbeGetBlock lun blk pl := by
  induction n with
  | zero => rw [if_neg (by omega)]; rfl
  | succ n ih =>
      rw [Lun.forBlocks, fbeGetBlock_forPlanes _ _ (Nat.le_refl _) plane, ih]
      by_cases last : blk = n
      · rw [if_pos ⟨last, plane⟩, if_neg (by omega), if_pos (by omega), last]
      · rw [if_neg (by omega)]
        by_cases earlier : blk < n
        · rw [if_pos earlier, if_pos (by omega)]
        · rw [if_neg earlier, if_neg (by omega)]

theorem files_forPlanes (lun : Lun) (blk : Nat) (change : FileBEBlock → FileBEBlock) (n : Nat) :
    (lun.forPlanes blk change n).data = lun.data ∧ (lun.forPlanes blk change n).md = lun.md := by
  induction n with
  | zero => exact ⟨rfl, rfl⟩
  | succ n ih => exact ih

theorem files_forBlocks (lun : Lun) (change : Nat → FileBEBlock → FileBEBlock) (n : Nat) :
    (lun.forBlocks change n).data = lun.data ∧ (lun.forBlocks change n).md = lun.md := by
  induction n with
  | zero => exact ⟨rfl, rfl⟩
  | succ n ih =>
      have planes := files_forPlanes (lun.forBlocks change n) n (change n) filePlaneCount
      exact ⟨planes.1.trans ih.1, planes.2.trans ih.2⟩

/-! ## Regions of the data file -/

/-- The region of a page of the block at a place of the file. -/
def regionAt (place pl pg : Nat) : Nat :=
  pgSize * ((place * filePlaneCount + pl) * filePageCount + pg)

theorem regionAt_eq (place pl pg : Nat) :
    regionAt place pl pg = blkSize * place + planeSize * pl + pg * pgSize := by
  unfold regionAt blkSize planeSize
  ring

theorem regionAt_inside {place pl pg count : Nat} (placed : place < count)
    (plane : pl < filePlaneCount) (page : pg < filePageCount) :
    regionAt place pl pg + pgSize ≤ blkSize * count := by
  have index : (place * filePlaneCount + pl) * filePageCount + pg + 1 ≤
      count * filePlaneCount * filePageCount := by
    unfold filePlaneCount filePageCount at *
    omega
  calc regionAt place pl pg + pgSize
      = pgSize * ((place * filePlaneCount + pl) * filePageCount + pg + 1) := by
        rw [regionAt, Nat.mul_succ]
    _ ≤ pgSize * (count * filePlaneCount * filePageCount) := Nat.mul_le_mul_left _ index
    _ = blkSize * count := by
        unfold blkSize
        ring

theorem regionAt_apart {place pl pg place' pl' pg' : Nat} (plane : pl < filePlaneCount)
    (plane' : pl' < filePlaneCount) (page : pg < filePageCount) (page' : pg' < filePageCount)
    (ne : ¬(place = place' ∧ pl = pl' ∧ pg = pg')) :
    regionAt place pl pg + pgSize ≤ regionAt place' pl' pg' ∨
      regionAt place' pl' pg' + pgSize ≤ regionAt place pl pg := by
  have index : (place * filePlaneCount + pl) * filePageCount + pg + 1 ≤
        (place' * filePlaneCount + pl') * filePageCount + pg' ∨
      (place' * filePlaneCount + pl') * filePageCount + pg' + 1 ≤
        (place * filePlaneCount + pl) * filePageCount + pg := by
    unfold filePlaneCount filePageCount at *
    omega
  rcases index with before | behind
  · left
    rw [regionAt, regionAt, ← Nat.mul_succ]
    exact Nat.mul_le_mul_left _ before
  · right
    rw [regionAt, regionAt, ← Nat.mul_succ]
    exact Nat.mul_le_mul_left _ behind

/-- The pages of one plane of a block fill the plane's part of the block. -/
theorem regionAt_plane {place pl pg : Nat} (page : pg < filePageCount) :
    blkSize * place + planeSize * pl ≤ regionAt place pl pg ∧
      regionAt place pl pg + pgSize ≤ blkSize * place + planeSize * pl + planeSize := by
  rw [regionAt_eq]
  constructor
  · exact Nat.le_add_right _ _
  · have pages : (pg + 1) * pgSize ≤ filePageCount * pgSize := Nat.mul_le_mul_right _ page
    rw [Nat.succ_mul] at pages
    have size : planeSize = filePageCount * pgSize := Nat.mul_comm _ _
    omega

theorem regionAt_other_plane {place pl place' pl' pg : Nat} (plane : pl < filePlaneCount)
    (plane' : pl' < filePlaneCount) (page : pg < filePageCount)
    (ne : ¬(place = place' ∧ pl = pl')) :
    regionAt place pl pg + pgSize ≤ blkSize * place' + planeSize * pl' ∨
      blkSize * place' + planeSize * pl' + planeSize ≤ regionAt place pl pg := by
  have size : planeSize = pgSize * filePageCount := rfl
  have start : blkSize * place' + planeSize * pl' =
      pgSize * ((place' * filePlaneCount + pl') * filePageCount) := by
    unfold blkSize planeSize
    ring
  have index : (place * filePlaneCount + pl) * filePageCount + pg + 1 ≤
        (place' * filePlaneCount + pl') * filePageCount ∨
      (place' * filePlaneCount + pl') * filePageCount + filePageCount ≤
        (place * filePlaneCount + pl) * filePageCount + pg := by
    unfold filePlaneCount filePageCount at *
    omega
  rw [start, regionAt, ← Nat.mul_succ, size, ← Nat.mul_add]
  rcases index with before | behind
  · exact Or.inl (Nat.mul_le_mul_left _ before)
  · exact Or.inr (Nat.mul_le_mul_left _ behind)

/-! ## The invariant -/

/-- The `file_id` of a block when the blocks of the data file stand in an order. -/
def idOf (order : List Nat) (blk : Nat) : Nat :=
  if blk ∈ order then order.idxOf blk + 1 else 0

/-- Table and files of a LUN whose data file holds blocks in an order. -/
structure LunOk (lun : Lun) (order : List Nat) : Prop where
  nodup : order.Nodup
  within : ∀ blk ∈ order, blk < fileBlockCount
  ids : ∀ blk < fileBlockCount, ∀ pl < filePlaneCount,
    (fbeGetBlock lun blk pl).fileId = idOf order blk
  offsets : ∀ blk ∈ order, ∀ pl < filePlaneCount,
    (fbeGetBlock lun blk pl).fileOffset = blkSize * order.idxOf blk
  md : lun.md = some ((List.range fileBlockCount).map (idOf order))
  size : (lun.data.getD []).length = blkSize * order.length

/-- The data file holds the pages of the blocks in the order; the others are zeros. -/
structure Holds (lun : Lun) (order : List Nat) (pages : Ppa → List UInt8) : Prop where
  placed : ∀ ppa : Ppa, ppa.blk.val ∈ order →
    slice (lun.data.getD []) (regionAt (order.idxOf ppa.blk.val) ppa.pl ppa.pg) pgSize = pages ppa
  absent : ∀ ppa : Ppa, ppa.blk.val ∉ order → pages ppa = List.replicate pgSize 0

/-- The LUN stores the pages. -/
def Stores (lun : Lun) (pages : Ppa → List UInt8) : Prop :=
  ∃ order, LunOk lun order ∧ Holds lun order pages

theorem idOf_eq_zero {order : List Nat} {blk : Nat} : idOf order blk = 0 ↔ blk ∉ order := by
  unfold idOf
  by_cases mem : blk ∈ order
  · rw [if_pos mem]
    exact ⟨fun zero => absurd zero (Nat.succ_ne_zero _), fun not_mem => absurd mem not_mem⟩
  · rw [if_neg mem]
    exact ⟨fun _ => mem, fun _ => rfl⟩

/-- A predicate that picks the blocks of the order counts them. -/
theorem countP_blocks {order : List Nat} (nodup : order.Nodup)
    (within : ∀ blk ∈ order, blk < fileBlockCount) {picks : Nat → Bool}
    (iff : ∀ blk < fileBlockCount, picks blk = true ↔ blk ∈ order) :
    (List.range fileBlockCount).countP picks = order.length := by
  rw [List.countP_eq_length_filter]
  apply List.Perm.length_eq
  rw [List.perm_ext_iff_of_nodup (List.nodup_range.filter _) nodup]
  intro blk
  rw [List.mem_filter, List.mem_range]
  constructor
  · rintro ⟨bound, picked⟩
    exact (iff blk bound).1 picked
  · intro mem
    exact ⟨within blk mem, (iff blk (within blk mem)).2 mem⟩

theorem blkSize_pos : 0 < blkSize := by decide

namespace LunOk

variable {lun : Lun} {order : List Nat}

theorem fileId_eq_zero (ok : LunOk lun order) (blk : Fin fileBlockCount)
    (pl : Fin filePlaneCount) : (fbeGetBlock lun blk pl).fileId = 0 ↔ blk.val ∉ order := by
  rw [ok.ids blk blk.isLt pl pl.isLt, idOf_eq_zero]

theorem allocatedCount_eq (ok : LunOk lun order) : allocatedCount lun = order.length := by
  apply countP_blocks ok.nodup ok.within
  intro blk bound
  rw [bne_iff_ne, ok.ids blk bound 0 (by decide), ne_eq, idOf_eq_zero, not_not]

theorem pgOffset_eq (ok : LunOk lun order) {ppa : Ppa} (mem : ppa.blk.val ∈ order) :
    pgOffset lun ppa = regionAt (order.idxOf ppa.blk.val) ppa.pl ppa.pg := by
  rw [pgOffset, ok.offsets _ mem _ ppa.pl.isLt, regionAt_eq]

/-- The data file exists when it holds a block. -/
theorem exists_data (ok : LunOk lun order) {blk : Nat} (mem : blk ∈ order) :
    ∃ file, lun.data = some file ∧ file.length = blkSize * order.length := by
  have size := ok.size
  cases stored : lun.data with
  | none =>
      rw [stored] at size
      have some := Nat.mul_pos blkSize_pos (List.length_pos_of_mem mem)
      exact absurd size (by simp only [Option.getD_none, List.length_nil]; omega)
  | some file =>
      rw [stored] at size
      exact ⟨file, rfl, size⟩

/-- The region of a page is inside the data file. -/
theorem region_inside {ppa : Ppa} (mem : ppa.blk.val ∈ order)
    {file : List UInt8} (length : file.length = blkSize * order.length) :
    regionAt (order.idxOf ppa.blk.val) ppa.pl ppa.pg + pgSize ≤ file.length := by
  rw [length]
  exact regionAt_inside (List.idxOf_lt_length_of_mem mem) ppa.pl.isLt ppa.pg.isLt

end LunOk

/-! ## The first write of a block -/

theorem idxOf_append_fresh {order : List Nat} {blk : Nat} (fresh : blk ∉ order) :
    (order ++ [blk]).idxOf blk = order.length := by
  rw [List.idxOf_append_of_notMem fresh, List.idxOf_cons_self, Nat.add_zero]

theorem idOf_append_fresh {order : List Nat} {blk : Nat} (fresh : blk ∉ order) :
    idOf (order ++ [blk]) blk = order.length + 1 := by
  rw [idOf, if_pos (List.mem_append_right _ (List.mem_singleton_self _)), idxOf_append_fresh fresh]

theorem idOf_append_of_ne {order : List Nat} {blk other : Nat} (ne : other ≠ blk) :
    idOf (order ++ [blk]) other = idOf order other := by
  have iff : other ∈ order ++ [blk] ↔ other ∈ order := by
    rw [List.mem_append, List.mem_singleton, or_iff_left ne]
  unfold idOf
  by_cases mem : other ∈ order
  · rw [if_pos (iff.2 mem), if_pos mem, List.idxOf_append_of_mem mem]
  · rw [if_neg (iff.not.2 mem), if_neg mem]

/-- Changing the entry of the appended block changes the list of ids to that of the longer
order. -/
theorem set_ids {order : List Nat} {blk : Nat} (fresh : blk ∉ order) :
    ((List.range fileBlockCount).map (idOf order)).set blk (order.length + 1) =
      (List.range fileBlockCount).map (idOf (order ++ [blk])) := by
  apply List.ext_getElem?
  intro i
  rw [List.getElem?_set, List.length_map, List.length_range, List.getElem?_map, List.getElem?_map]
  by_cases same : blk = i
  · by_cases bound : blk < fileBlockCount
    · rw [if_pos same, if_pos bound, ← same, List.getElem?_range bound, Option.map_some,
        idOf_append_fresh fresh]
    · rw [if_pos same, if_neg bound, ← same, List.getElem?_eq_none
        (by rw [List.length_range]; omega), Option.map_none]
  · rw [if_neg same]
    by_cases bound : i < fileBlockCount
    · rw [List.getElem?_range bound, Option.map_some, Option.map_some,
        idOf_append_of_ne (Ne.symm same)]
    · rw [List.getElem?_eq_none (by rw [List.length_range]; omega), Option.map_none,
        Option.map_none]

theorem files_assignId (lun : Lun) (blk : Nat) :
    (assignId lun blk).data = lun.data ∧ (assignId lun blk).md = lun.md :=
  files_forPlanes _ _ _ _

/-- The block table when a block has been numbered. -/
theorem fbeGetBlock_assignId {lun : Lun} {order : List Nat} (ok : LunOk lun order)
    {blk blk' pl : Nat} (plane : pl < filePlaneCount) :
    fbeGetBlock (assignId (fbeAppendBlkFile lun) blk) blk' pl =
      if blk' = blk then
        { fbeGetBlock lun blk' pl with
          fileId := order.length + 1, fileOffset := blkSize * order.length }
      else fbeGetBlock lun blk' pl := by
  have count : allocatedCount (fbeAppendBlkFile lun) = order.length := ok.allocatedCount_eq
  rw [assignId, fbeGetBlock_forPlanes _ _ (Nat.le_refl _) plane, count, Nat.add_sub_cancel]
  by_cases same : blk' = blk
  · rw [if_pos ⟨same, plane⟩, if_pos same]
    rfl
  · rw [if_neg (fun both => same both.1), if_neg same]
    rfl

/-- The first write of a block puts it at the end of the order and its zeros at the end of the
data file. -/
theorem newBlk_ok {lun : Lun} {order : List Nat} (ok : LunOk lun order) {ppa : Ppa}
    (fresh : ppa.blk.val ∉ order) :
    ∃ lun', newBlk lun ppa = some lun' ∧ LunOk lun' (order ++ [ppa.blk.val]) ∧
      lun'.data = some (lun.data.getD [] ++ List.replicate blkSize 0) := by
  obtain ⟨data, md⟩ := files_assignId (fbeAppendBlkFile lun) ppa.blk
  rw [show (fbeAppendBlkFile lun).md = lun.md from rfl, ok.md] at md
  have id : (fbeGetBlock (assignId (fbeAppendBlkFile lun) ppa.blk) ppa.blk ppa.pl).fileId =
      order.length + 1 := by
    rw [fbeGetBlock_assignId ok ppa.pl.isLt, if_pos rfl]
  refine ⟨{ assignId (fbeAppendBlkFile lun) ppa.blk with
    md := some ((List.range fileBlockCount).map (idOf (order ++ [ppa.blk.val]))) }, ?_, ?_, data⟩
  · rw [newBlk, fbeUpdateMdFile, md, Option.map_some, id, set_ids fresh]
  constructor
  case nodup => exact List.nodup_append.2 ⟨ok.nodup, List.nodup_singleton _, by
    intro a mem b eq same
    rw [List.mem_singleton.1 eq] at same
    exact fresh (same ▸ mem)⟩
  case within =>
    intro blk mem
    rcases List.mem_append.1 mem with old | new
    · exact ok.within blk old
    · rw [List.mem_singleton.1 new]
      exact ppa.blk.isLt
  case ids =>
    intro blk bound pl plane
    change (fbeGetBlock (assignId (fbeAppendBlkFile lun) ppa.blk) blk pl).fileId = _
    rw [fbeGetBlock_assignId ok plane]
    by_cases same : blk = ppa.blk.val
    · rw [if_pos same, same, idOf_append_fresh fresh]
    · rw [if_neg same, ok.ids blk bound pl plane, idOf_append_of_ne same]
  case offsets =>
    intro blk mem pl plane
    change (fbeGetBlock (assignId (fbeAppendBlkFile lun) ppa.blk) blk pl).fileOffset = _
    rw [fbeGetBlock_assignId ok plane]
    by_cases same : blk = ppa.blk.val
    · rw [if_pos same, same, idxOf_append_fresh fresh]
    · have old : blk ∈ order := by
        rcases List.mem_append.1 mem with old | new
        · exact old
        · exact absurd (List.mem_singleton.1 new) same
      rw [if_neg same, ok.offsets blk old pl plane, List.idxOf_append_of_mem old]
  case md => rfl
  case size =>
    change ((assignId (fbeAppendBlkFile lun) ppa.blk).data.getD []).length = _
    rw [data, fbeAppendBlkFile, Option.getD_some, List.length_append, ok.size,
      List.length_replicate, List.length_append, List.length_singleton, Nat.mul_succ]

/-- An appended block holds zeros on all its pages. -/
theorem Holds.append {lun lun' : Lun} {order : List Nat} {pages : Ppa → List UInt8} {blk : Nat}
    (holds : Holds lun order pages) (ok : LunOk lun order) (fresh : blk ∉ order)
    (data : lun'.data = some (lun.data.getD [] ++ List.replicate blkSize 0)) :
    Holds lun' (order ++ [blk]) pages := by
  constructor
  case placed =>
    intro ppa mem
    rw [data, Option.getD_some]
    by_cases old : ppa.blk.val ∈ order
    · rw [List.idxOf_append_of_mem old, slice_append_left, holds.placed ppa old]
      exact LunOk.region_inside old ok.size
    · have new : ppa.blk.val = blk := by
        rcases List.mem_append.1 mem with old' | new
        · exact absurd old' old
        · exact List.mem_singleton.1 new
      have start : regionAt order.length ppa.pl ppa.pg =
          blkSize * order.length + regionAt 0 ppa.pl ppa.pg := by
        rw [regionAt_eq, regionAt_eq, Nat.mul_zero, Nat.zero_add, Nat.add_assoc]
      have inside := regionAt_inside (Nat.zero_lt_one) ppa.pl.isLt ppa.pg.isLt
      rw [new, idxOf_append_fresh fresh, start, slice_append_right (by rw [ok.size]; omega),
        ok.size, Nat.add_sub_cancel_left, slice_replicate (by omega), holds.absent ppa old]
  case absent =>
    intro ppa not_mem
    exact holds.absent ppa fun old => not_mem (List.mem_append_left _ old)

/-! ## Writing and erasing -/

/-- A LUN that differs in the contents of the data file and in lives only. -/
theorem LunOk.of_same_table {lun lun' : Lun} {order : List Nat} (ok : LunOk lun order)
    (table : ∀ blk pl, pl < filePlaneCount →
      (fbeGetBlock lun' blk pl).fileId = (fbeGetBlock lun blk pl).fileId ∧
        (fbeGetBlock lun' blk pl).fileOffset = (fbeGetBlock lun blk pl).fileOffset)
    (md : lun'.md = lun.md) (size : (lun'.data.getD []).length = (lun.data.getD []).length) :
    LunOk lun' order where
  nodup := ok.nodup
  within := ok.within
  ids := fun blk bound pl plane => (table blk pl plane).1.trans (ok.ids blk bound pl plane)
  offsets := fun blk mem pl plane => (table blk pl plane).2.trans (ok.offsets blk mem pl plane)
  md := md.trans ok.md
  size := size.trans ok.size

/-- A page written to a block of the order. -/
theorem fbeWriteFile_ok {lun : Lun} {order : List Nat} {pages : Ppa → List UInt8}
    (ok : LunOk lun order) (holds : Holds lun order pages) {ppa : Ppa}
    (mem : ppa.blk.val ∈ order) {buf : List UInt8} (long : pgSize ≤ buf.length) :
    ∃ lun', fbeWriteFile lun ppa buf = some lun' ∧ LunOk lun' order ∧
      Holds lun' order (Function.update pages ppa (buf.take pgSize)) := by
  obtain ⟨file, data, length⟩ := ok.exists_data mem
  have page : (buf.take pgSize).length = pgSize := by
    rw [List.length_take, Nat.min_eq_left long]
  have inside := LunOk.region_inside mem length
  have fits : regionAt (order.idxOf ppa.blk.val) ppa.pl ppa.pg + (buf.take pgSize).length ≤
      file.length := by
    rw [page]
    exact inside
  refine ⟨{ lun with data := some (pwrite 0 file (buf.take pgSize) (pgOffset lun ppa)) },
    by rw [fbeWriteFile, data, Option.map_some], ?_, ?_⟩
  · refine ok.of_same_table (fun _ _ _ => ⟨rfl, rfl⟩) rfl ?_
    rw [data, ok.pgOffset_eq mem, Option.getD_some, length_pwrite fits, Option.getD_some]
  · constructor
    case placed =>
      intro other placed
      rw [ok.pgOffset_eq mem, Option.getD_some, Function.update_apply]
      by_cases same : other = ppa
      · have read := @slice_pwrite_self _ 0 _ _ _ fits
        rw [page] at read
        rw [if_pos same, same, read]
      · have old := holds.placed other placed
        rw [data, Option.getD_some] at old
        rw [if_neg same, slice_pwrite_of_apart fits, old]
        rw [page]
        apply regionAt_apart other.pl.isLt ppa.pl.isLt other.pg.isLt ppa.pg.isLt
        rintro ⟨place, plane, pg⟩
        have blk := (List.idxOf_inj placed).1 place
        exact same (Ppa.ext (Fin.ext blk) (Fin.ext plane) (Fin.ext pg))
    case absent =>
      intro other absent
      rw [Function.update_of_ne, holds.absent other absent]
      intro same
      exact absent (same ▸ mem)

/-- The abstract page after an erase of a block and plane. -/
def erased (blk : Fin fileBlockCount) (pl : Fin filePlaneCount) (pages : Ppa → List UInt8)
    (ppa : Ppa) : List UInt8 :=
  if blk = ppa.blk ∧ pl = ppa.pl then List.replicate pgSize 0 else pages ppa

/-- A plane of a block of the order erased. -/
theorem fbeEraseFile_ok {lun : Lun} {order : List Nat} {pages : Ppa → List UInt8}
    (ok : LunOk lun order) (holds : Holds lun order pages) {blk : Fin fileBlockCount}
    {pl : Fin filePlaneCount} (mem : blk.val ∈ order) :
    ∃ lun', fbeEraseFile lun blk pl = some lun' ∧ LunOk lun' order ∧
      Holds lun' order (erased blk pl pages) := by
  obtain ⟨file, data, length⟩ := ok.exists_data mem
  have inside : blkSize * order.idxOf blk.val + planeSize * pl + planeSize ≤ file.length := by
    have all := regionAt_inside (List.idxOf_lt_length_of_mem mem) pl.isLt
      (show filePageCount - 1 < filePageCount by decide)
    rw [regionAt_eq] at all
    have size : (filePageCount - 1) * pgSize + pgSize = planeSize := by decide
    omega
  have fits : blkSize * order.idxOf blk.val + planeSize * pl +
      (List.replicate planeSize (0 : UInt8)).length ≤ file.length := by
    rw [List.length_replicate]
    exact inside
  refine ⟨_, by rw [fbeEraseFile, data, Option.map_some], ?_, ?_⟩
  · refine ok.of_same_table (fun _ _ _ => ⟨rfl, rfl⟩) rfl ?_
    rw [data, ok.offsets _ mem _ pl.isLt, Option.getD_some, length_pwrite fits, Option.getD_some]
  · constructor
    case placed =>
      intro ppa placed
      rw [ok.offsets _ mem _ pl.isLt, Option.getD_some, erased]
      by_cases same : blk = ppa.blk ∧ pl = ppa.pl
      · rw [if_pos same, ← same.1, ← same.2]
        have part := @regionAt_plane (order.idxOf blk.val) pl _ ppa.pg.isLt
        exact slice_pwrite_replicate inside part.1 part.2
      · have old := holds.placed ppa placed
        rw [data, Option.getD_some] at old
        rw [if_neg same, slice_pwrite_of_apart fits, old]
        rw [List.length_replicate]
        apply regionAt_other_plane ppa.pl.isLt pl.isLt ppa.pg.isLt
        rintro ⟨place, plane⟩
        have eq := (List.idxOf_inj placed).1 place
        exact same ⟨Fin.ext eq.symm, Fin.ext plane.symm⟩
    case absent =>
      intro ppa absent
      rw [erased, holds.absent ppa absent, ite_self]

/-! ## Starting on the files -/

/-- Files from which a start finds an order: the data file may be longer. -/
structure FilesOk (lun : Lun) (order : List Nat) : Prop where
  nodup : order.Nodup
  within : ∀ blk ∈ order, blk < fileBlockCount
  md : lun.md = some ((List.range fileBlockCount).map (idOf order))
  enough : blkSize * order.length ≤ (lun.data.getD []).length

theorem LunOk.files {lun : Lun} {order : List Nat} (ok : LunOk lun order) : FilesOk lun order where
  nodup := ok.nodup
  within := ok.within
  md := ok.md
  enough := Nat.le_of_eq ok.size.symm

theorem getD_ids {order : List Nat} {blk : Nat} (bound : blk < fileBlockCount) :
    ((List.range fileBlockCount).map (idOf order)).getD blk 0 = idOf order blk := by
  rw [List.getD_eq_getElem?_getD, List.getElem?_map, List.getElem?_range bound, Option.map_some,
    Option.getD_some]

theorem loadTable_files (lun : Lun) (list : List Nat) :
    (loadTable lun list).data = lun.data ∧ (loadTable lun list).md = lun.md :=
  files_forBlocks _ _ _

/-- The table that a start reads from the metadata file. -/
theorem fbeGetBlock_loadTable {lun : Lun} {order : List Nat} (files : FilesOk lun order)
    {blk pl : Nat} (bound : blk < fileBlockCount) (plane : pl < filePlaneCount) :
    let table := loadTable (fbeInitBlocks lun) ((List.range fileBlockCount).map (idOf order))
    (fbeGetBlock table blk pl).fileId = idOf order blk ∧
      (blk ∈ order → (fbeGetBlock table blk pl).fileOffset = blkSize * order.idxOf blk) := by
  intro table
  have block : fbeGetBlock table blk pl = _ := fbeGetBlock_forBlocks _ _ plane
  rw [if_pos bound, getD_ids bound] at block
  rw [block]
  refine ⟨rfl, fun mem => ?_⟩
  have place : order.idxOf blk < fileBlockCount := by
    have all : (List.range fileBlockCount).countP (fun b => decide (b ∈ order)) = order.length :=
      countP_blocks files.nodup files.within fun b _ => decide_eq_true_iff
    have le : (List.range fileBlockCount).countP (fun b => decide (b ∈ order)) ≤
        (List.range fileBlockCount).length := List.countP_le_length
    rw [all, List.length_range] at le
    exact Nat.lt_of_lt_of_le (List.idxOf_lt_length_of_mem mem) le
  have id : (idOf order blk + 0xffffffff) % 0x100000000 = order.idxOf blk := by
    rw [idOf, if_pos mem]
    unfold fileBlockCount at place
    omega
  change blkSize * ((idOf order blk + 0xffffffff) % 0x100000000) = _
  rw [id]

/-- A start on the files numbers the blocks as before and cuts the data file to them. -/
theorem fbeInit_ok {lun : Lun} {order : List Nat} (files : FilesOk lun order) :
    (fbeInit lun).2 = true ∧ LunOk (fbeInit lun).1 order ∧
      (fbeInit lun).1.data.getD [] = (lun.data.getD []).take (blkSize * order.length) := by
  have init : fbeInit lun =
      fbeDiskMdLoad (fbeInitBlocks lun) ((List.range fileBlockCount).map (idOf order)) := by
    simp only [fbeInit, files.md]
  have count : (List.range fileBlockCount).countP (fun blk =>
      ((List.range fileBlockCount).map (idOf order)).getD blk 0 != 0) = order.length := by
    apply countP_blocks files.nodup files.within
    intro blk bound
    rw [bne_iff_ne, getD_ids bound, ne_eq, idOf_eq_zero, not_not]
  have loaded := loadTable_files (fbeInitBlocks lun) ((List.range fileBlockCount).map (idOf order))
  have read := fun (blk : Nat) (bound : blk < fileBlockCount) (pl : Nat)
    (plane : pl < filePlaneCount) =>
    fbeGetBlock_loadTable files bound plane
  rw [init, fbeDiskMdLoad]
  rw [count]
  -- Only what the table holds matters from here on.
  generalize loadTable (fbeInitBlocks lun) ((List.range fileBlockCount).map (idOf order)) =
    table at *
  have ok : ∀ data : Option (List UInt8), (data.getD []).length = blkSize * order.length →
      LunOk { table with data := data } order := fun data size =>
    { nodup := files.nodup
      within := files.within
      ids := fun blk bound pl plane => (read blk bound pl plane).1
      offsets := fun blk mem pl plane => (read blk (files.within blk mem) pl plane).2 mem
      md := loaded.2.trans files.md
      size := size }
  by_cases empty : order.length = 0
  · rw [if_pos empty, empty, Nat.mul_zero, List.take_zero]
    refine ⟨rfl, ok none ?_, rfl⟩
    rw [empty, Option.getD_none, List.length_nil, Nat.mul_zero]
  · rw [if_neg empty, loaded.1]
    have enough := files.enough
    have pos := Nat.mul_pos blkSize_pos (Nat.pos_of_ne_zero empty)
    cases data : lun.data with
    | none =>
        rw [data, Option.getD_none, List.length_nil] at enough
        omega
    | some file =>
        rw [data, Option.getD_some] at enough
        rw [show (fbeInitBlocks lun).data = some file from data]
        refine ⟨rfl, ok _ ?_, ?_⟩
        · rw [Option.getD_some, length_ftruncate]
        · rw [Option.getD_some, Option.getD_some, ftruncate_of_le enough]

/-- A start keeps the pages of the blocks in the order. -/
theorem Holds.restart {lun : Lun} {order : List Nat} {pages : Ppa → List UInt8}
    (files : FilesOk lun order) (holds : Holds lun order pages) :
    Holds (fbeInit lun).1 order pages := by
  obtain ⟨-, ok, data⟩ := fbeInit_ok files
  constructor
  case placed =>
    intro ppa mem
    have inside := LunOk.region_inside mem ok.size
    rw [← holds.placed ppa mem, data]
    rw [ok.size] at inside
    nth_rewrite 2 [← List.take_append_drop (blkSize * order.length) (lun.data.getD [])]
    rw [slice_append_left]
    rw [List.length_take, Nat.min_eq_left files.enough]
    exact inside
  case absent => exact holds.absent

/-! ## Steps -/

theorem filesOk_appended {lun : Lun} {order : List Nat} (ok : LunOk lun order) (ppa : Ppa) :
    FilesOk (appended lun ppa) order := by
  unfold appended
  by_cases first : (fbeGetBlock lun ppa.blk ppa.pl).fileId = 0
  · rw [if_pos first]
    constructor
    case nodup => exact ok.nodup
    case within => exact ok.within
    case md => exact ok.md
    case enough =>
      rw [fbeAppendBlkFile, Option.getD_some, List.length_append, ok.size]
      exact Nat.le_add_right _ _
  · rw [if_neg first]
    exact ok.files

theorem holds_appended {lun : Lun} {order : List Nat} {pages : Ppa → List UInt8}
    (ok : LunOk lun order) (holds : Holds lun order pages) (ppa : Ppa) :
    Holds (appended lun ppa) order pages := by
  unfold appended
  by_cases first : (fbeGetBlock lun ppa.blk ppa.pl).fileId = 0
  · rw [if_pos first]
    constructor
    case placed =>
      intro other mem
      rw [fbeAppendBlkFile, Option.getD_some, slice_append_left, holds.placed other mem]
      exact LunOk.region_inside mem ok.size
    case absent => exact holds.absent
  · rw [if_neg first]
    exact holds

/-- When a write has updated the metadata file, its block is in the order. -/
theorem updated_ok {lun : Lun} {order : List Nat} {pages : Ppa → List UInt8}
    (ok : LunOk lun order) (holds : Holds lun order pages) (ppa : Ppa) :
    ∃ order', ppa.blk.val ∈ order' ∧ LunOk (updated lun ppa) order' ∧
      Holds (updated lun ppa) order' pages := by
  unfold updated
  by_cases first : (fbeGetBlock lun ppa.blk ppa.pl).fileId = 0
  · have fresh := (ok.fileId_eq_zero ppa.blk ppa.pl).1 first
    obtain ⟨lun', created, ok', data⟩ := newBlk_ok ok fresh
    rw [if_pos first, created, Option.getD_some]
    exact ⟨_, List.mem_append_right _ (List.mem_singleton_self _), ok', holds.append ok fresh data⟩
  · have mem := not_not.1 ((ok.fileId_eq_zero ppa.blk ppa.pl).not.1 first)
    rw [if_neg first]
    exact ⟨order, mem, ok, holds⟩

/-- A write: the block is made where it is missing, then the page is written. -/
theorem fbeProcessIo_writePg {lun : Lun} {order : List Nat} {pages : Ppa → List UInt8}
    (ok : LunOk lun order) (holds : Holds lun order pages) (ppa : Ppa) (buf : DmaBuf) :
    (fbeProcessIo lun (.writePg ppa buf)).2.status = true ∧
      Stores (fbeProcessIo lun (.writePg ppa buf)).1
        (Function.update pages ppa (buf.bytes.take pgSize)) := by
  have prepared :
      (if (fbeGetBlock lun ppa.blk ppa.pl).fileId = 0 then newBlk lun ppa else some lun) =
      some (updated lun ppa) := by
    unfold updated
    by_cases first : (fbeGetBlock lun ppa.blk ppa.pl).fileId = 0
    · have fresh := (ok.fileId_eq_zero ppa.blk ppa.pl).1 first
      obtain ⟨lun', created, -, -⟩ := newBlk_ok ok fresh
      rw [if_pos first, if_pos first, created, Option.getD_some]
    · rw [if_neg first, if_neg first]
  obtain ⟨order', mem, ok', holds'⟩ := updated_ok ok holds ppa
  have long : pgSize ≤ buf.bytes.length := by
    rw [buf.size]
    decide
  obtain ⟨lun', written, ok'', holds''⟩ := fbeWriteFile_ok ok' holds' mem long
  have result : fbeProcessIo lun (.writePg ppa buf) = (lun', ⟨true, buf.bytes⟩) := by
    simp only [fbeProcessIo, prepared, written]
  rw [result]
  exact ⟨rfl, order', ok'', holds''⟩

/-- An erase succeeds while the block has lives left, and then clears its plane. -/
theorem fbeProcessIo_eraseBlk {lun : Lun} {order : List Nat} {pages : Ppa → List UInt8}
    (ok : LunOk lun order) (holds : Holds lun order pages) (blk : Fin fileBlockCount)
    (pl : Fin filePlaneCount) :
    ((fbeProcessIo lun (.eraseBlk blk pl)).2.status = true ∧
        Stores (fbeProcessIo lun (.eraseBlk blk pl)).1 (erased blk pl pages)) ∨
      ((fbeProcessIo lun (.eraseBlk blk pl)).2.status = false ∧
        Stores (fbeProcessIo lun (.eraseBlk blk pl)).1 pages) := by
  by_cases alive : 0 < (fbeGetBlock lun blk pl).life
  · left
    let aged := lun.setBlock blk pl
      { fbeGetBlock lun blk pl with life := (fbeGetBlock lun blk pl).life - 1 }
    have agedOk : LunOk aged order := by
      refine ok.of_same_table (fun blk' pl' plane => ?_) rfl rfl
      rw [fbeGetBlock_setBlock _ _ pl.isLt plane]
      by_cases same : blk' = blk.val ∧ pl' = pl.val
      · rw [if_pos same, same.1, same.2]
        exact ⟨rfl, rfl⟩
      · rw [if_neg same]
        exact ⟨rfl, rfl⟩
    have agedHolds : Holds aged order pages := ⟨holds.placed, holds.absent⟩
    by_cases first : (fbeGetBlock lun blk pl).fileId = 0
    · have result : fbeProcessIo lun (.eraseBlk blk pl) = (aged, ⟨true, []⟩) := by
        simp only [fbeProcessIo, if_pos alive, if_pos first, aged]
      have absent := (ok.fileId_eq_zero blk pl).1 first
      have cleared : erased blk pl pages = pages := by
        funext ppa
        unfold erased
        by_cases same : blk = ppa.blk ∧ pl = ppa.pl
        · rw [if_pos same, holds.absent ppa (same.1 ▸ absent)]
        · rw [if_neg same]
      rw [result, cleared]
      exact ⟨rfl, order, agedOk, agedHolds⟩
    · have mem := not_not.1 ((ok.fileId_eq_zero blk pl).not.1 first)
      obtain ⟨lun', wiped, ok', holds'⟩ :=
        @fbeEraseFile_ok aged order pages agedOk agedHolds blk pl mem
      have result : fbeProcessIo lun (.eraseBlk blk pl) = (lun', ⟨true, []⟩) := by
        simp only [fbeProcessIo, if_pos alive, if_neg first]
        rw [show lun.setBlock _ _ _ = aged from rfl, wiped]
      rw [result]
      exact ⟨rfl, order, ok', holds'⟩
  · right
    have result : fbeProcessIo lun (.eraseBlk blk pl) = (lun, ⟨false, []⟩) := by
      simp only [fbeProcessIo, if_neg alive]
    rw [result]
    exact ⟨rfl, order, ok, holds⟩

theorem fbeProcessIo_readPg {lun : Lun} {pages : Ppa → List UInt8} (stores : Stores lun pages)
    (ppa : Ppa) :
    (fbeProcessIo lun (.readPg ppa)).1 = lun ∧
      (fbeProcessIo lun (.readPg ppa)).2.status = true ∧
        (fbeProcessIo lun (.readPg ppa)).2.buf.take pgSize = pages ppa := by
  obtain ⟨order, ok, holds⟩ := stores
  by_cases first : (fbeGetBlock lun ppa.blk ppa.pl).fileId = 0
  · have absent := (ok.fileId_eq_zero ppa.blk ppa.pl).1 first
    simp only [fbeProcessIo, if_pos first]
    refine ⟨trivial, trivial, ?_⟩
    rw [holds.absent ppa absent, clearedBuf, List.take_replicate, Nat.min_eq_left (by decide)]
  · have mem := not_not.1 ((ok.fileId_eq_zero ppa.blk ppa.pl).not.1 first)
    obtain ⟨file, data, length⟩ := ok.exists_data mem
    have page := holds.placed ppa mem
    rw [data, Option.getD_some] at page
    simp only [fbeProcessIo, if_neg first, fbeReadFile, data, Option.map_some, Option.getD_some]
    refine ⟨trivial, trivial, ?_⟩
    rw [ok.pgOffset_eq mem, take_pread (LunOk.region_inside mem length), page]

/-- One operation moves the LUN as its reply moves the pages. -/
theorem stores_step {lun : Lun} {pages : Ppa → List UInt8} (stores : Stores lun pages) (op : Op) :
    Stores (step lun op).1 fun ppa => applyEvent ppa (pages ppa) (op, (step lun op).2) := by
  have read := fbeProcessIo_readPg stores
  obtain ⟨order, ok, holds⟩ := stores
  cases op with
  | command cmd =>
      cases cmd with
      | readPg ppa =>
          rw [step, (read ppa).1]
          exact ⟨order, ok, holds⟩
      | writePg target buf =>
          obtain ⟨status, written⟩ := fbeProcessIo_writePg ok holds target buf
          have moved : (fun ppa => applyEvent ppa (pages ppa) (.command (.writePg target buf),
              (fbeProcessIo lun (.writePg target buf)).2)) =
                Function.update pages target (buf.bytes.take pgSize) := by
            funext ppa
            rw [Function.update_apply, applyEvent]
            simp only [status, true_and, eq_comm]
          rw [step, moved]
          exact written
      | eraseBlk blk pl =>
          rcases fbeProcessIo_eraseBlk ok holds blk pl with ⟨status, wiped⟩ | ⟨status, kept⟩
          · have moved : (fun ppa => applyEvent ppa (pages ppa) (.command (.eraseBlk blk pl),
                (fbeProcessIo lun (.eraseBlk blk pl)).2)) = erased blk pl pages := by
              funext ppa
              simp only [applyEvent, status, true_and, erased]
            rw [step, moved]
            exact wiped
          · have moved : (fun ppa => applyEvent ppa (pages ppa) (.command (.eraseBlk blk pl),
                (fbeProcessIo lun (.eraseBlk blk pl)).2)) = pages := by
              funext ppa
              simp only [applyEvent, status, Bool.false_eq_true, false_and, if_false]
            rw [step, moved]
            exact kept
  | restart => exact ⟨order, (fbeInit_ok ok.files).2.1, holds.restart ok.files⟩
  | diedAppended ppa =>
      have files := filesOk_appended ok ppa
      exact ⟨order, (fbeInit_ok files).2.1, (holds_appended ok holds ppa).restart files⟩
  | diedUpdated ppa =>
      obtain ⟨order', -, ok', holds'⟩ := updated_ok ok holds ppa
      exact ⟨order', (fbeInit_ok ok'.files).2.1, holds'.restart ok'.files⟩

/-! ## Runs -/

theorem stores_run (ops : List Op) {lun : Lun} {pages : Ppa → List UInt8}
    (stores : Stores lun pages) :
    Stores (system.run lun ops) fun ppa =>
      (ops.zip (system.results lun ops)).foldl (applyEvent ppa) (pages ppa) := by
  induction ops generalizing lun pages with
  | nil => exact stores
  | cons op ops ih => exact ih (stores_step stores op)

/-- The first start makes an empty store. -/
theorem stores_blank : Stores (fbeInit blank).1 fun _ => List.replicate pgSize 0 := by
  have files := files_forBlocks (fbeInitBlocks blank)
    (fun _ block => { block with fileId := 0, fileOffset := 0 }) fileBlockCount
  have cleared : ∀ blk < fileBlockCount, ∀ pl < filePlaneCount,
      (fbeGetBlock ((fbeInitBlocks blank).forBlocks
        (fun _ block => { block with fileId := 0, fileOffset := 0 }) fileBlockCount)
        blk pl).fileId =
          0 := by
    intro blk bound pl plane
    rw [fbeGetBlock_forBlocks _ _ plane, if_pos bound]
  have init : fbeInit blank = (fbeDiskMdCreate (fbeInitBlocks blank), true) := rfl
  rw [init, fbeDiskMdCreate]
  generalize (fbeInitBlocks blank).forBlocks _ fileBlockCount = table at *
  refine ⟨[], ?_, ?_⟩
  · constructor
    case nodup => exact List.nodup_nil
    case within =>
      intro blk mem
      exact absurd mem List.not_mem_nil
    case ids => exact cleared
    case offsets =>
      intro blk mem
      exact absurd mem List.not_mem_nil
    case md => rfl
    case size =>
      change (table.data.getD []).length = _
      rw [files.1]
      rfl
  · exact ⟨fun ppa mem => absurd mem List.not_mem_nil, fun _ _ => rfl⟩

theorem stores_afterRun (ops : List Op) : Stores (afterRun ops) (lastWritten ops) :=
  stores_run ops stores_blank

/-! ## The contract of the backend -/

/-- The `file_id`s of the allocated blocks are `1, …, count`, each that of one block, on all its
planes. -/
structure IdsExact (lun : Lun) : Prop where
  range : ∀ id, (id ≠ 0 ∧ ∃ blk < fileBlockCount, (fbeGetBlock lun blk 0).fileId = id) ↔
    1 ≤ id ∧ id ≤ allocatedCount lun
  injective : ∀ blk < fileBlockCount, ∀ blk' < fileBlockCount,
    (fbeGetBlock lun blk 0).fileId ≠ 0 →
      (fbeGetBlock lun blk 0).fileId = (fbeGetBlock lun blk' 0).fileId → blk = blk'
  planes : ∀ blk < fileBlockCount, ∀ pl < filePlaneCount,
    (fbeGetBlock lun blk pl).fileId = (fbeGetBlock lun blk 0).fileId

/-- Two tables number the blocks the same way. -/
def SameIds (lun lun' : Lun) : Prop :=
  ∀ blk < fileBlockCount, ∀ pl < filePlaneCount,
    (fbeGetBlock lun blk pl).fileId = (fbeGetBlock lun' blk pl).fileId

/-- The page is in an allocated block. -/
def Allocated (lun : Lun) (ppa : Ppa) : Prop :=
  (fbeGetBlock lun ppa.blk ppa.pl).fileId ≠ 0

/-- The regions of pages of allocated blocks are inside the data file and apart. -/
structure RegionsApart (lun : Lun) : Prop where
  inside : ∀ ppa, Allocated lun ppa →
    ∃ file, lun.data = some file ∧ pgOffset lun ppa + pgSize ≤ file.length
  apart : ∀ ppa ppa', Allocated lun ppa → Allocated lun ppa' → ppa ≠ ppa' →
    pgOffset lun ppa + pgSize ≤ pgOffset lun ppa' ∨ pgOffset lun ppa' + pgSize ≤ pgOffset lun ppa

theorem LunOk.idsExact {lun : Lun} {order : List Nat} (ok : LunOk lun order) : IdsExact lun := by
  have plane : 0 < filePlaneCount := by decide
  constructor
  case range =>
    intro id
    rw [ok.allocatedCount_eq]
    constructor
    · rintro ⟨pos, blk, bound, rfl⟩
      rw [ok.ids blk bound 0 plane] at pos ⊢
      have mem := not_not.1 (idOf_eq_zero.not.1 pos)
      rw [idOf, if_pos mem]
      exact ⟨Nat.succ_pos _, List.idxOf_lt_length_of_mem mem⟩
    · rintro ⟨pos, le⟩
      have place : id - 1 < order.length := by omega
      have mem := List.getElem_mem place
      have bound := ok.within _ mem
      refine ⟨by omega, order[id - 1], bound, ?_⟩
      rw [ok.ids _ bound 0 plane, idOf, if_pos mem, ok.nodup.idxOf_getElem]
      omega
  case injective =>
    intro blk bound blk' bound' ne same
    rw [ok.ids blk bound 0 plane] at ne same
    rw [ok.ids blk' bound' 0 plane] at same
    have mem := not_not.1 (idOf_eq_zero.not.1 ne)
    have mem' := not_not.1 (idOf_eq_zero.not.1 (same ▸ ne))
    rw [idOf, idOf, if_pos mem, if_pos mem'] at same
    exact (List.idxOf_inj mem).1 (Nat.succ.inj same)
  case planes =>
    intro blk bound pl plane'
    rw [ok.ids blk bound pl plane', ok.ids blk bound 0 plane]

theorem LunOk.regionsApart {lun : Lun} {order : List Nat} (ok : LunOk lun order) :
    RegionsApart lun := by
  have placed : ∀ ppa, Allocated lun ppa → ppa.blk.val ∈ order := fun ppa allocated =>
    not_not.1 ((ok.fileId_eq_zero ppa.blk ppa.pl).not.1 allocated)
  constructor
  case inside =>
    intro ppa allocated
    have mem := placed ppa allocated
    obtain ⟨file, data, length⟩ := ok.exists_data mem
    refine ⟨file, data, ?_⟩
    rw [ok.pgOffset_eq mem]
    exact LunOk.region_inside mem length
  case apart =>
    intro ppa ppa' allocated allocated' ne
    have mem := placed ppa allocated
    rw [ok.pgOffset_eq mem, ok.pgOffset_eq (placed ppa' allocated')]
    apply regionAt_apart ppa.pl.isLt ppa'.pl.isLt ppa.pg.isLt ppa'.pg.isLt
    rintro ⟨place, pl, pg⟩
    have blk := (List.idxOf_inj mem).1 place
    exact ne (Ppa.ext (Fin.ext blk) (Fin.ext pl) (Fin.ext pg))

theorem LunOk.sameIds {lun lun' : Lun} {order : List Nat} (ok : LunOk lun order)
    (ok' : LunOk lun' order) : SameIds lun lun' := by
  intro blk bound pl plane
  rw [ok.ids blk bound pl plane, ok'.ids blk bound pl plane]

/-- After every run of commands and restarts, also restarts that cut a first write short: the
`file_id`s are exact and a further start finds them again, the regions of the pages are apart and
inside the data file, writes and starts succeed, and a read returns the last page written since
the last erase. -/
theorem file_backend_page_store (ops : List Op) :
    IdsExact (afterRun ops) ∧
      (SameIds (fbeInit (afterRun ops)).1 (afterRun ops) ∧
        ∀ ppa, SameIds (fbeInit (appended (afterRun ops) ppa)).1 (afterRun ops) ∧
          SameIds (fbeInit (updated (afterRun ops) ppa)).1 (updated (afterRun ops) ppa)) ∧
      RegionsApart (afterRun ops) ∧
      (∀ ppa, (fbeProcessIo (afterRun ops) (.readPg ppa)).2.status = true ∧
        (fbeProcessIo (afterRun ops) (.readPg ppa)).2.buf.take pgSize = lastWritten ops ppa) ∧
      (∀ ppa buf, (fbeProcessIo (afterRun ops) (.writePg ppa buf)).2.status = true) ∧
      (fbeInit (afterRun ops)).2 = true ∧
        ∀ ppa, (fbeInit (appended (afterRun ops) ppa)).2 = true := by
  have stores := stores_afterRun ops
  have read := fbeProcessIo_readPg stores
  obtain ⟨order, ok, holds⟩ := stores
  have start := fbeInit_ok ok.files
  refine ⟨ok.idsExact, ⟨start.2.1.sameIds ok, fun ppa => ⟨?_, ?_⟩⟩, ok.regionsApart,
    fun ppa => (read ppa).2, fun ppa buf => (fbeProcessIo_writePg ok holds ppa buf).1, start.1,
    fun ppa => (fbeInit_ok (filesOk_appended ok ppa)).1⟩
  · exact (fbeInit_ok (filesOk_appended ok ppa)).2.1.sameIds ok
  · obtain ⟨order', -, ok', -⟩ := updated_ok ok holds ppa
    exact (fbeInit_ok ok'.files).2.1.sameIds ok'

end OxCtrl.FileBe
