import OxCtrl.Recovery.CpImage
import Mathlib.Data.List.Nodup

/-!
# The newest checkpoint image is found

The pages of the reserved block before `cur_flush_pg` carry the magic number and the
others do not, so the scan of `ftl_blk_current_page` ends behind the newest image.  It
never looks at the last page of the block: an image that fills the block is not found.
-/

namespace OxCtrl.Recovery

open OxCtrl.SeqTransfer

/-! ## Checkpoint entries -/

theorem oxbRecoveryGet_eq_none {list : List CpEntry} {type : UInt32} :
    oxbRecoveryGet list type = none ↔ type ∉ list.map CpEntry.type := by
  simp only [oxbRecoveryGet, Option.map_eq_none_iff, List.find?_eq_none, decide_eq_true_eq,
    List.mem_map, not_exists, not_and]

theorem mem_types_set {list : List CpEntry} {user : CpEntry} {type : UInt32} :
    type ∈ (oxbRecoverySet list user).map CpEntry.type ↔
      type = user.type ∨ type ∈ list.map CpEntry.type := by
  unfold oxbRecoverySet
  split
  case isTrue found =>
    have same : (list.map fun entry =>
        if entry.type = user.type then { entry with data := user.data } else entry).map
          CpEntry.type = list.map CpEntry.type := by
      rw [List.map_map]
      apply List.map_congr_left
      intro entry _
      rw [Function.comp_apply]
      split <;> rfl
    rw [same]
    constructor
    · exact Or.inr
    · rintro (rfl | mem)
      · simpa using found
      · exact mem
  case isFalse => rw [List.map_cons, List.mem_cons]

theorem mem_types_foldl {list acc : List CpEntry} {type : UInt32} :
    type ∈ (list.foldl oxbRecoverySet acc).map CpEntry.type ↔
      type ∈ list.map CpEntry.type ∨ type ∈ acc.map CpEntry.type := by
  induction list generalizing acc with
  | nil => simp
  | cons entry list ih =>
      rw [List.foldl_cons, ih, mem_types_set, List.map_cons, List.mem_cons]
      tauto

/-- Entries of distinct types are put in front of each other. -/
theorem foldl_set_distinct {list acc : List CpEntry}
    (distinct : ((list.reverse ++ acc).map CpEntry.type).Nodup) :
    list.foldl oxbRecoverySet acc = list.reverse ++ acc := by
  induction list generalizing acc with
  | nil => rfl
  | cons entry list ih =>
      rw [List.reverse_cons, List.append_assoc, List.singleton_append] at distinct
      have fresh : entry.type ∉ acc.map CpEntry.type := by
        rw [List.map_append, List.map_cons] at distinct
        exact (List.nodup_cons.mp (List.nodup_append.mp distinct).2.1).1
      have set : oxbRecoverySet acc entry = entry :: acc := by
        rw [oxbRecoverySet, if_neg]
        simpa using fresh
      rw [List.foldl_cons, set, ih distinct, List.reverse_cons, List.append_assoc,
        List.singleton_append]

theorem oxbRecoveryGet_eq_some {list : List CpEntry} (distinct : (list.map CpEntry.type).Nodup)
    {type : UInt32} {data : List UInt8} :
    oxbRecoveryGet list type = some data ↔ ⟨type, data⟩ ∈ list := by
  induction list with
  | nil => simp [oxbRecoveryGet]
  | cons entry list ih =>
      rw [List.map_cons, List.nodup_cons] at distinct
      by_cases same : entry.type = type
      · have first : oxbRecoveryGet (entry :: list) type = some entry.data := by
          simp [oxbRecoveryGet, same]
        rw [first, List.mem_cons]
        constructor
        · intro equal
          cases equal
          cases same
          exact Or.inl rfl
        · rintro (rfl | mem)
          · rfl
          · cases same
            exact absurd (List.mem_map_of_mem mem) distinct.1
      · have later : oxbRecoveryGet (entry :: list) type = oxbRecoveryGet list type := by
          simp [oxbRecoveryGet, same]
        rw [later, ih distinct.2, List.mem_cons]
        constructor
        · exact Or.inr
        · rintro (rfl | mem)
          · exact absurd rfl same
          · exact mem

/-- Reading an image of distinct types rebuilds the entries. -/
theorem oxbRecoveryGet_foldl {list : List CpEntry} (distinct : (list.map CpEntry.type).Nodup)
    (type : UInt32) :
    oxbRecoveryGet (list.foldl oxbRecoverySet []) type = oxbRecoveryGet list type := by
  have reversed : (list.reverse.map CpEntry.type).Nodup := by
    rw [List.map_reverse, List.nodup_reverse]
    exact distinct
  rw [foldl_set_distinct (by rwa [List.append_nil]), List.append_nil]
  apply Option.ext
  intro data
  rw [oxbRecoveryGet_eq_some reversed, oxbRecoveryGet_eq_some distinct, List.mem_reverse]

/-! ## The scan -/

variable {dev : CpDev}

theorem CpDev.entPerPg_pos (dev : CpDev) : 0 < dev.entPerPg :=
  Nat.mul_pos dev.pg_pos dev.geo.pl_pos

theorem CpDev.pgPerBlk_le (dev : CpDev) : dev.geo.pgPerBlk ≤ 2048 := by
  have planes : dev.geo.pgPerBlk * 1 ≤ dev.geo.pgPerBlk * dev.geo.nOfPlanes :=
    Nat.mul_le_mul_left _ dev.geo.pl_pos
  have bound := dev.geo.state_le
  rw [blkMdByteVecSz] at bound
  omega

/-- The pages of an image hold it, and the last one is needed. -/
theorem CpDev.mdPgs_le_iff (dev : CpDev) (size pgs : Nat) :
    dev.mdPgs size ≤ pgs ↔ size ≤ pgs * dev.entPerPg := by
  have pos := dev.entPerPg_pos
  have split := Nat.div_add_mod size dev.entPerPg
  have less := Nat.mod_lt size pos
  have lt_iff := @Nat.div_lt_iff_lt_mul dev.entPerPg size pgs pos
  rw [CpDev.mdPgs]
  by_cases rest : 0 < size % dev.entPerPg
  · rw [if_pos rest, Nat.succ_le_iff, lt_iff, Nat.lt_iff_le_and_ne]
    constructor
    · exact And.left
    · intro le
      refine ⟨le, ?_⟩
      rintro rfl
      rw [Nat.mul_mod_left] at rest
      exact Nat.lt_irrefl 0 rest
  · rw [if_neg rest, Nat.add_zero]
    have whole : size = dev.entPerPg * (size / dev.entPerPg) := by omega
    constructor
    · intro le
      rw [whole, Nat.mul_comm]
      exact Nat.mul_le_mul_right _ le
    · intro le
      rw [whole, Nat.mul_comm] at le
      exact Nat.le_of_mul_le_mul_right le pos

/-- The pages before `cur` carry the magic number and the others do not. -/
structure Frontier (dev : CpDev) (blk : Nat → CpPage) (cur : Nat) : Prop where
  le : cur ≤ dev.geo.pgPerBlk
  written : ∀ pg < cur, (blk pg).oob.magic = appMagic
  free : ∀ pg, cur ≤ pg → pg < dev.geo.pgPerBlk → (blk pg).oob.magic ≠ appMagic

theorem frontier_eraseBlk : Frontier dev (eraseBlk dev) 0 where
  le := Nat.zero_le _
  written := fun pg lt => absurd lt (Nat.not_lt_zero pg)
  free := fun _ _ _ => dev.noMagic

/-- On a block without images, the scan stops at the first page. -/
theorem Frontier.scan_empty {blk : Nat → CpPage} (frontier : Frontier dev blk 0) (offset : Nat) :
    (ftlBlkCurrentPage dev blk offset).1 = 0 := by
  have pos := dev.geo.pg_pos
  have free := frontier.free 0 (Nat.le_refl 0) pos
  obtain ⟨rounds, isSucc⟩ := Nat.exists_eq_succ_of_ne_zero pos.ne'
  rw [ftlBlkCurrentPage, isSucc, currentPageLoop, if_pos free]

/-- The page behind the images that the scan finds. -/
def scanEnd (dev : CpDev) (cur : Nat) : Nat :=
  max 1 (min cur (dev.geo.pgPerBlk - 1))

theorem Frontier.loop {blk : Nat → CpPage} {cur : Nat} (frontier : Frontier dev blk cur)
    (rounds pg : Nat) (oob : CpOob) (lt : pg < cur) (enough : cur ≤ pg + rounds) :
    ∃ stop, stop = max (pg + 1) (min cur (dev.geo.pgPerBlk - 1)) ∧
      currentPageLoop dev blk 1 rounds pg oob = (stop, (blk (stop - 1)).oob) := by
  have le := frontier.le
  induction rounds generalizing pg oob with
  | zero => omega
  | succ rounds ih =>
      have magic := frontier.written pg lt
      rw [currentPageLoop, if_neg (not_not.mpr magic)]
      by_cases more : pg + 1 < dev.geo.pgPerBlk - 1
      · rw [if_pos more]
        by_cases next : pg + 1 < cur
        · obtain ⟨stop, isStop, runs⟩ := ih (pg + 1) (blk pg).oob next (by omega)
          exact ⟨stop, by omega, runs⟩
        · refine ⟨pg + 1, by omega, ?_⟩
          rw [Nat.add_sub_cancel]
          cases rounds with
          | zero => rfl
          | succ rounds =>
              rw [currentPageLoop, if_pos (frontier.free _ (by omega) (by omega))]
      · rw [if_neg more]
        exact ⟨pg + 1, by omega, by rw [Nat.add_sub_cancel]⟩

theorem Frontier.scan {blk : Nat → CpPage} {cur : Nat} (frontier : Frontier dev blk cur)
    (pos : 0 < cur) :
    ftlBlkCurrentPage dev blk 1 = (scanEnd dev cur, (blk (scanEnd dev cur - 1)).oob) := by
  have le := frontier.le
  obtain ⟨stop, isStop, runs⟩ := frontier.loop dev.geo.pgPerBlk 0 ⟨0, 0⟩ pos (by omega)
  rw [Nat.zero_add] at isStop
  rw [ftlBlkCurrentPage, runs, isStop, scanEnd]

/-- The scan misses the last page, unless it is the only one. -/
theorem scanEnd_eq_iff {cur : Nat} (pos : 0 < cur) (le : cur ≤ dev.geo.pgPerBlk) :
    scanEnd dev cur = cur ↔ cur < dev.geo.pgPerBlk ∨ dev.geo.pgPerBlk = 1 := by
  rw [scanEnd]
  omega

/-! ## Images -/

/-- The pages of an image. -/
def CpDev.cpPgs (dev : CpDev) (list : List CpEntry) : Nat :=
  dev.mdPgs (cpImage list).length

/-- The image of a list ends before page `cur`. -/
structure ImageAt (dev : CpDev) (blk : Nat → CpPage) (cur : Nat) (list : List CpEntry) : Prop where
  filled : list ≠ []
  le : cur ≤ dev.geo.pgPerBlk
  fits : dev.cpPgs list ≤ cur
  oob : ∀ pg, cur - dev.cpPgs list ≤ pg → pg < cur →
    (blk pg).oob = ⟨appMagic, (cpImage list).length⟩
  bytes : ∀ user, Holds (transferFrom dev.layout (cur - dev.cpPgs list) blk (dev.cpPgs list) 0
    (cpImage list).length user) 0 (cpImage list)

theorem cpPgs_le_iff {list : List CpEntry} {pgs : Nat} :
    dev.cpPgs list ≤ pgs ↔ (cpImage list).length ≤ pgs * dev.entPerPg :=
  dev.mdPgs_le_iff ..

theorem cpPgs_nil : dev.cpPgs [] = 0 := by
  rw [← Nat.le_zero, cpPgs_le_iff, Nat.zero_mul, cpImage_nil, List.length_nil]

theorem cpPgs_pos {list : List CpEntry} (filled : list ≠ []) : 0 < dev.cpPgs list := by
  have pos := cpImage_pos filled
  by_contra none
  have le := cpPgs_le_iff.mp (Nat.le_of_not_lt none)
  omega

/-- The size of an accepted image has 32 bits. -/
theorem length_lt_of_cpPgs_le {list : List CpEntry} {pgs : Nat} (fits : dev.cpPgs list ≤ pgs)
    (le : pgs ≤ dev.geo.pgPerBlk) : (cpImage list).length < 2 ^ 32 := by
  have size := cpPgs_le_iff.mp fits
  have pages := dev.pgPerBlk_le
  have bytes : dev.entPerPg < 2 ^ 16 := dev.ent_lt
  have product : pgs * dev.entPerPg ≤ 2048 * 2 ^ 16 := Nat.mul_le_mul (by omega) bytes.le
  omega

theorem imageStart_eq {pg pgs : Nat} (le : pgs ≤ pg) (small : pg ≤ dev.geo.pgPerBlk) :
    imageStart pg pgs = pg - pgs := by
  have pages := dev.pgPerBlk_le
  rw [imageStart]
  omega

/-- An image that would begin before the block is sought behind it. -/
theorem pgPerBlk_le_imageStart {pg pgs : Nat} (lt : pg < pgs) (small : pgs ≤ dev.geo.pgPerBlk) :
    dev.geo.pgPerBlk ≤ imageStart pg pgs := by
  have pages := dev.pgPerBlk_le
  rw [imageStart]
  omega

/-- What the newest page header says decides what is read. -/
theorem Frontier.recover {blk : Nat → CpPage} {cur : Nat} (frontier : Frontier dev blk cur)
    (pos : 0 < cur) {size pgs : Nat} (isOob : (blk (scanEnd dev cur - 1)).oob = ⟨appMagic, size⟩)
    (isPgs : dev.mdPgs size = pgs) :
    oxbRecoveryRecover dev false blk =
      if (List.range' (imageStart (scanEnd dev cur) pgs) pgs).all
          fun page => page < dev.geo.pgPerBlk
      then (readEntries (transferFrom dev.layout (imageStart (scanEnd dev cur) pgs) blk pgs 0 size
          fun _ => 0) size size 0 []).map fun list =>
        ⟨⟨blk, scanEnd dev cur⟩, List.range' (imageStart (scanEnd dev cur) pgs) pgs, list⟩
      else none := by
  have some : ¬ (scanEnd dev cur = 0 ∨ false = true) := by
    rw [scanEnd]
    simp
  rw [oxbRecoveryRecover, frontier.scan pos]
  simp only [isOob, isPgs, if_neg some]

/-- An image whose end is found is read. -/
theorem ImageAt.recover {blk : Nat → CpPage} {cur : Nat} {list : List CpEntry}
    (image : ImageAt dev blk cur list) (frontier : Frontier dev blk cur)
    (found : cur < dev.geo.pgPerBlk ∨ dev.geo.pgPerBlk = 1) :
    oxbRecoveryRecover dev false blk =
      some ⟨⟨blk, cur⟩, List.range' (cur - dev.cpPgs list) (dev.cpPgs list),
        list.foldl oxbRecoverySet []⟩ := by
  have le := frontier.le
  have pgs := @cpPgs_pos dev _ image.filled
  have fits := image.fits
  have isEnd := (scanEnd_eq_iff (by omega) le).mpr found
  have oob := image.oob (cur - 1) (by omega) (by omega)
  have isPgs : dev.mdPgs (cpImage list).length = dev.cpPgs list := rfl
  rw [frontier.recover (by omega) (by rw [isEnd]; exact oob) isPgs, isEnd, imageStart_eq fits le,
    if_pos]
  · have read := @readEntries_cpImage _ _ (length_lt_of_cpPgs_le fits le) _ _ 0 []
      (image.bytes fun _ => 0) (Nat.zero_add _) (length_le_cpImage list)
    rw [read, Option.map_some]
  · rw [List.all_eq_true]
    intro page mem
    rw [List.mem_range'_1] at mem
    rw [decide_eq_true_eq]
    omega

/-- An image that begins before the block, by its newest page header, is not read. -/
theorem Frontier.recover_none {blk : Nat → CpPage} {cur : Nat} (frontier : Frontier dev blk cur)
    (pos : 0 < cur) {list : List CpEntry} (small : dev.cpPgs list ≤ dev.geo.pgPerBlk)
    (isOob : (blk (scanEnd dev cur - 1)).oob = ⟨appMagic, (cpImage list).length⟩)
    (short : scanEnd dev cur < dev.cpPgs list) : oxbRecoveryRecover dev false blk = none := by
  have isPgs : dev.mdPgs (cpImage list).length = dev.cpPgs list := rfl
  rw [frontier.recover pos isOob isPgs, if_neg]
  have beyond := pgPerBlk_le_imageStart short small
  rw [List.all_eq_true]
  intro inside
  have first := inside (imageStart (scanEnd dev cur) (dev.cpPgs list))
    (List.mem_range'_1.mpr (by omega))
  rw [decide_eq_true_eq] at first
  omega

/-! ## Writing an image -/

theorem oob_transferTo {start count : Nat} {user : Nat → UInt8} {entLeft : Nat} {io : CpPage}
    {blk : Nat → CpPage} {pg : Nat} (le : start ≤ pg) (lt : pg < start + count) :
    ((transferTo dev.layout start user count 0 entLeft io blk).1 pg).oob = io.oob := by
  obtain ⟨j, rfl⟩ := Nat.exists_eq_add_of_le le
  have less : j < count := by omega
  exact (transferTo_spec start user count 0 entLeft io blk less).1

/-- Pages that are written in order move the frontier. -/
theorem Frontier.transferTo {blk : Nat → CpPage} {start : Nat}
    (frontier : Frontier dev blk start) (user : Nat → UInt8) {count : Nat} (entLeft : Nat)
    (io : CpPage) (magic : io.oob.magic = appMagic) (le : start + count ≤ dev.geo.pgPerBlk) :
    Frontier dev (transferTo dev.layout start user count 0 entLeft io blk).1 (start + count) where
  le := le
  written := by
    intro pg lt
    by_cases before : pg < start
    · rw [transferTo_frame _ _ _ _ _ _ _ (Or.inl (by omega))]
      exact frontier.written pg before
    · rw [oob_transferTo (Nat.le_of_not_lt before) lt]
      exact magic
  free := by
    intro pg ge lt
    rw [transferTo_frame _ _ _ _ _ _ _ (Or.inr (by omega))]
    exact frontier.free pg (by omega) lt

/-- Where the next image can be written. -/
inductive ImageInv (dev : CpDev) (store : CpStore) : Prop where
  | empty (frontier : Frontier dev store.blk 0)
      (fresh : store.curFlushPg = 0 ∨ store.curFlushPg = 0xffff)
  | image (list : List CpEntry) (frontier : Frontier dev store.blk store.curFlushPg)
      (here : ImageAt dev store.blk store.curFlushPg list)
      (full : store.curFlushPg = dev.geo.pgPerBlk → dev.cpPgs list = dev.geo.pgPerBlk)

variable {store : CpStore}

/-- The page behind the newest image. -/
def CpStore.position (store : CpStore) : Nat :=
  if store.curFlushPg = 0xffff then 0 else store.curFlushPg

theorem ImageInv.frontier (inv : ImageInv dev store) : Frontier dev store.blk store.position := by
  cases inv with
  | empty frontier fresh =>
      rcases fresh with zero | unknown
      · simpa [CpStore.position, zero] using frontier
      · simpa [CpStore.position, unknown] using frontier
  | image list frontier here full =>
      have pages := dev.pgPerBlk_le
      have le := frontier.le
      rw [CpStore.position, if_neg (by omega)]
      exact frontier

/-- Where an image goes: the block is erased when the image would reach its end. -/
theorem ImageInv.cpTarget_eq (inv : ImageInv dev store) (pgs : Nat) :
    cpTarget dev store pgs =
      if dev.geo.pgPerBlk - pgs ≤ store.position then (eraseBlk dev, 0)
      else (store.blk, store.position) := by
  have position : (if store.curFlushPg = 0xffff then (ftlBlkCurrentPage dev store.blk pgs).1
      else store.curFlushPg) = store.position := by
    rw [CpStore.position]
    split
    case isTrue unknown =>
      have frontier := inv.frontier
      rw [CpStore.position, if_pos unknown] at frontier
      exact frontier.scan_empty pgs
    case isFalse => rfl
  rw [cpTarget, position]

theorem ImageInv.frontier_cpTarget (inv : ImageInv dev store) (pgs : Nat) :
    Frontier dev (cpTarget dev store pgs).1 (cpTarget dev store pgs).2 := by
  rw [inv.cpTarget_eq]
  split
  · exact frontier_eraseBlk
  · exact inv.frontier

theorem ImageInv.cpTarget_end (inv : ImageInv dev store) (pgs : Nat) :
    (cpTarget dev store pgs).2 = 0 ∨ (cpTarget dev store pgs).2 + pgs < dev.geo.pgPerBlk := by
  rw [inv.cpTarget_eq]
  split
  · exact Or.inl rfl
  · apply Or.inr
    change store.position + pgs < dev.geo.pgPerBlk
    omega

/-- The first pages of an image, and the header that they carry. -/
theorem ImageInv.writePages (inv : ImageInv dev store) {list : List CpEntry}
    (small : dev.cpPgs list ≤ dev.geo.pgPerBlk) {count : Nat} (le : count ≤ dev.cpPgs list) :
    Frontier dev (writePages dev store (cpImage list) count)
        ((cpTarget dev store (dev.cpPgs list)).2 + count) ∧
      ∀ pg, (cpTarget dev store (dev.cpPgs list)).2 ≤ pg →
        pg < (cpTarget dev store (dev.cpPgs list)).2 + count →
        (writePages dev store (cpImage list) count pg).oob =
          ⟨appMagic, (cpImage list).length⟩ := by
  have fits := inv.cpTarget_end (dev.cpPgs list)
  constructor
  · exact (inv.frontier_cpTarget (dev.cpPgs list)).transferTo _ _ _ rfl (by omega)
  · intro pg ge lt
    exact oob_transferTo ge lt

theorem writePages_zero (store : CpStore) (list : List CpEntry) :
    Recovery.writePages dev store (cpImage list) 0 = (cpTarget dev store (dev.cpPgs list)).1 :=
  rfl

/-- The whole image. -/
theorem ImageInv.imageAt (inv : ImageInv dev store) {list : List CpEntry} (filled : list ≠ [])
    (small : dev.cpPgs list ≤ dev.geo.pgPerBlk) :
    ImageAt dev (Recovery.writePages dev store (cpImage list) (dev.cpPgs list))
      ((cpTarget dev store (dev.cpPgs list)).2 + dev.cpPgs list) list where
  filled := filled
  le := (inv.writePages small (Nat.le_refl _)).1.le
  fits := Nat.le_add_left ..
  oob := by
    intro pg ge lt
    rw [Nat.add_sub_cancel] at ge
    exact (inv.writePages small (Nat.le_refl _)).2 pg ge lt
  bytes := by
    intro user x lt
    have enough : (cpImage list).length ≤ dev.cpPgs list * dev.layout.entPerPg :=
      cpPgs_le_iff.mp (Nat.le_refl _)
    have less : x < (cpImage list).length * dev.layout.entrySz := by
      change x < (cpImage list).length * 1
      omega
    rw [Nat.zero_add, Nat.add_sub_cancel]
    exact transferFrom_transferTo _ (fun x => (cpImage list).getD x 0) user enough _ _ less

/-- A checkpoint is accepted when its pages fit in the block. -/
theorem oxbRecoveryFlushCp_eq (store : CpStore) (list : List CpEntry) :
    oxbRecoveryFlushCp dev store list =
      if dev.cpPgs list ≤ dev.geo.pgPerBlk then
        some ⟨writePages dev store (cpImage list) (dev.cpPgs list),
          (cpTarget dev store (dev.cpPgs list)).2 + dev.cpPgs list⟩
      else none := by
  have size : dev.blkSize < (cpImage list).length ↔ ¬ dev.cpPgs list ≤ dev.geo.pgPerBlk := by
    rw [cpPgs_le_iff, CpDev.blkSize, Nat.mul_comm, Nat.not_le]
  rw [oxbRecoveryFlushCp, oxbRecoveryNvmWriteCp]
  by_cases fits : dev.cpPgs list ≤ dev.geo.pgPerBlk
  · rw [if_neg (mt size.mp (not_not.mpr fits)), if_pos fits]
    exact if_neg (Nat.not_lt.mpr fits)
  · rw [if_pos (size.mpr fits), if_neg fits]

theorem oxbRecoveryFlushCp_eq_some {list : List CpEntry} {store' : CpStore}
    (flushed : oxbRecoveryFlushCp dev store list = some store') :
    dev.cpPgs list ≤ dev.geo.pgPerBlk ∧
      store'.blk = writePages dev store (cpImage list) (dev.cpPgs list) ∧
      store'.curFlushPg = (cpTarget dev store (dev.cpPgs list)).2 + dev.cpPgs list := by
  rw [oxbRecoveryFlushCp_eq] at flushed
  split at flushed
  case isTrue fits =>
    cases flushed
    exact ⟨fits, rfl, rfl⟩
  case isFalse => cases flushed

/-- An empty checkpoint is not written; it can only erase the block. -/
theorem ImageInv.flush_nil (inv : ImageInv dev store) {store' : CpStore}
    (flushed : oxbRecoveryFlushCp dev store [] = some store') :
    store' = if dev.geo.pgPerBlk ≤ store.position then ⟨eraseBlk dev, 0⟩
      else ⟨store.blk, store.position⟩ := by
  rw [oxbRecoveryFlushCp_eq, cpPgs_nil, if_pos (Nat.zero_le _)] at flushed
  rw [← Option.some.inj flushed]
  rw [writePages_zero, cpPgs_nil, inv.cpTarget_eq, Nat.sub_zero]
  split <;> rfl

theorem imageInv_eraseBlk : ImageInv dev ⟨eraseBlk dev, 0⟩ :=
  ImageInv.empty frontier_eraseBlk (Or.inl rfl)

theorem ImageInv.settle (inv : ImageInv dev store) : ImageInv dev ⟨store.blk, store.position⟩ := by
  cases inv with
  | empty frontier fresh =>
      apply ImageInv.empty
      · exact frontier
      · rcases fresh with zero | unknown
        · simp [CpStore.position, zero]
        · simp [CpStore.position, unknown]
  | image list frontier here full =>
      have pages := dev.pgPerBlk_le
      have le := frontier.le
      have known : store.position = store.curFlushPg := by
        rw [CpStore.position, if_neg (by omega)]
      rw [known]
      exact ImageInv.image list frontier here full

theorem ImageInv.flush (inv : ImageInv dev store) {list : List CpEntry} {store' : CpStore}
    (flushed : oxbRecoveryFlushCp dev store list = some store') : ImageInv dev store' := by
  by_cases empty : list = []
  · rw [empty] at flushed
    rw [inv.flush_nil flushed]
    split
    · exact imageInv_eraseBlk
    · exact inv.settle
  · obtain ⟨fits, isBlk, isCur⟩ := oxbRecoveryFlushCp_eq_some flushed
    have ends := inv.cpTarget_end (dev.cpPgs list)
    apply ImageInv.image list
    · rw [isBlk, isCur]
      exact (inv.writePages fits (Nat.le_refl _)).1
    · rw [isBlk, isCur]
      exact inv.imageAt empty fits
    · intro full
      omega

/-- An image that fills the block is not found, unless the block has one page. -/
theorem ImageAt.recover_full {blk : Nat → CpPage} {list : List CpEntry}
    (image : ImageAt dev blk dev.geo.pgPerBlk list) (frontier : Frontier dev blk dev.geo.pgPerBlk)
    (full : dev.cpPgs list = dev.geo.pgPerBlk) (many : dev.geo.pgPerBlk ≠ 1) :
    oxbRecoveryRecover dev false blk = none := by
  have pos := dev.geo.pg_pos
  have stop : scanEnd dev dev.geo.pgPerBlk = dev.geo.pgPerBlk - 1 := by
    rw [scanEnd]
    omega
  apply frontier.recover_none pos full.le
  · exact image.oob _ (by omega) (by omega)
  · omega

theorem oxbRecoveryRecover_reset (blk : Nat → CpPage) :
    oxbRecoveryRecover dev true blk = some ⟨⟨eraseBlk dev, 0⟩, [], []⟩ := by
  rw [oxbRecoveryRecover]
  exact if_pos (Or.inr rfl)

theorem Frontier.recover_empty {blk : Nat → CpPage} (frontier : Frontier dev blk 0) :
    oxbRecoveryRecover dev false blk = some ⟨⟨eraseBlk dev, 0⟩, [], []⟩ := by
  rw [oxbRecoveryRecover]
  exact if_pos (Or.inl (frontier.scan_empty 1))

theorem ImageInv.restart (inv : ImageInv dev store) {reset : Bool} {recovered : Recovered}
    (restarts : oxbRecoveryRecover dev reset store.blk = some recovered) :
    ImageInv dev recovered.store := by
  cases reset with
  | true =>
      rw [oxbRecoveryRecover_reset] at restarts
      cases restarts
      exact imageInv_eraseBlk
  | false =>
      cases inv with
      | empty frontier fresh =>
          rw [frontier.recover_empty] at restarts
          cases restarts
          exact imageInv_eraseBlk
      | image list frontier here full =>
          have le := frontier.le
          by_cases found : store.curFlushPg < dev.geo.pgPerBlk ∨ dev.geo.pgPerBlk = 1
          · rw [here.recover frontier found] at restarts
            cases restarts
            exact ImageInv.image list frontier here full
          · have isFull : store.curFlushPg = dev.geo.pgPerBlk := by omega
            rw [isFull] at here frontier
            rw [here.recover_full frontier (full isFull) (by omega)] at restarts
            cases restarts

/-- Every run keeps the images in order. -/
theorem imageInv_run {ops : List ImageOp} (inv : ImageInv dev store) {store' : CpStore}
    (runs : imageRun dev ops store = some store') : ImageInv dev store' := by
  induction ops generalizing store with
  | nil =>
      cases runs
      exact inv
  | cons op ops ih =>
      rw [imageRun, Option.bind_eq_some_iff] at runs
      obtain ⟨next, step, rest⟩ := runs
      apply ih _ rest
      cases op with
      | flush list =>
          cases step
          cases flushed : oxbRecoveryFlushCp dev store list with
          | none => exact inv
          | some store' => exact inv.flush flushed
      | restart reset =>
          rw [imageStep, Option.map_eq_some_iff] at step
          obtain ⟨recovered, restarts, isStore⟩ := step
          cases isStore
          exact inv.restart restarts

theorem imageInv_init : ImageInv dev (oxbRecoveryInit dev) :=
  ImageInv.empty frontier_eraseBlk (Or.inr rfl)

/-! ## The round trip -/

/-- `oxb_recovery_recover` rebuilds the map from types to data of a list. -/
def CpRestored (dev : CpDev) (blk : Nat → CpPage) (list : List CpEntry) : Prop :=
  ∃ recovered, oxbRecoveryRecover dev false blk = some recovered ∧
    ∀ type, oxbRecoveryGet recovered.list type = oxbRecoveryGet list type

/-- The image does not fill the block, unless the block has one page; an empty checkpoint
meets no image, or one that it erases. -/
def CpFits (dev : CpDev) (store : CpStore) (list : List CpEntry) : Prop :=
  if list = [] then store.curFlushPg = 0 ∨ dev.geo.pgPerBlk ≤ store.curFlushPg
  else dev.cpPgs list < dev.geo.pgPerBlk ∨ dev.geo.pgPerBlk = 1

instance instDecidableCpFits (dev : CpDev) (store : CpStore) (list : List CpEntry) :
    Decidable (CpFits dev store list) := by
  unfold CpFits
  infer_instance

theorem restored_filled_iff (inv : ImageInv dev store) {list : List CpEntry} (filled : list ≠ [])
    (distinct : (list.map CpEntry.type).Nodup) {store' : CpStore}
    (flushed : oxbRecoveryFlushCp dev store list = some store') :
    CpRestored dev store'.blk list ↔ dev.cpPgs list < dev.geo.pgPerBlk ∨ dev.geo.pgPerBlk = 1 := by
  obtain ⟨fits, isBlk, isCur⟩ := oxbRecoveryFlushCp_eq_some flushed
  have ends := inv.cpTarget_end (dev.cpPgs list)
  have image := inv.imageAt filled fits
  have frontier := (inv.writePages fits (Nat.le_refl _)).1
  rw [CpRestored, isBlk]
  constructor
  · rintro ⟨recovered, restarts, -⟩
    by_contra full
    have isFull : (cpTarget dev store (dev.cpPgs list)).2 + dev.cpPgs list = dev.geo.pgPerBlk := by
      omega
    rw [isFull] at image frontier
    rw [image.recover_full frontier (by omega) (by omega)] at restarts
    cases restarts
  · intro found
    exact ⟨_, image.recover frontier (by omega), oxbRecoveryGet_foldl distinct⟩

theorem restored_nil_iff (inv : ImageInv dev store) {store' : CpStore}
    (flushed : oxbRecoveryFlushCp dev store [] = some store') :
    CpRestored dev store'.blk [] ↔
      store.curFlushPg = 0 ∨ dev.geo.pgPerBlk ≤ store.curFlushPg := by
  have pages := dev.pgPerBlk_le
  have isStore := inv.flush_nil flushed
  cases inv with
  | empty frontier fresh =>
      constructor
      · intro _
        omega
      · intro _
        have free : Frontier dev store'.blk 0 := by
          rw [isStore]
          split
          · exact frontier_eraseBlk
          · exact frontier
        exact ⟨_, free.recover_empty, fun _ => rfl⟩
  | image list frontier here full =>
      have le := frontier.le
      have pos := @cpPgs_pos dev _ here.filled
      have fits := here.fits
      have known : store.position = store.curFlushPg := by
        rw [CpStore.position, if_neg (by omega)]
      rw [known] at isStore
      by_cases erased : dev.geo.pgPerBlk ≤ store.curFlushPg
      · rw [if_pos erased] at isStore
        rw [isStore]
        constructor
        · exact fun _ => Or.inr erased
        · exact fun _ => ⟨_, frontier_eraseBlk.recover_empty, fun _ => rfl⟩
      · rw [if_neg erased] at isStore
        rw [isStore]
        constructor
        · rintro ⟨recovered, restarts, same⟩
          rw [here.recover frontier (Or.inl (by omega))] at restarts
          cases restarts
          obtain ⟨entry, mem⟩ := List.exists_mem_of_ne_nil list here.filled
          have gone := oxbRecoveryGet_eq_none.mp (same entry.type)
          exact absurd (mem_types_foldl.mpr (Or.inl (List.mem_map_of_mem mem))) gone
        · intro fresh
          omega

/-- After any run, an accepted checkpoint is rebuilt by the next start-up exactly when it
does not fill the block; an empty one exactly when it leaves no image. -/
theorem cp_round_trip_iff (dev : CpDev) {ops : List ImageOp} {store : CpStore}
    (runs : imageRun dev ops (oxbRecoveryInit dev) = some store) {list : List CpEntry}
    (distinct : (list.map CpEntry.type).Nodup) {store' : CpStore}
    (flushed : oxbRecoveryFlushCp dev store list = some store') :
    CpRestored dev store'.blk list ↔ CpFits dev store list := by
  have inv := imageInv_run imageInv_init runs
  rw [CpFits]
  by_cases empty : list = []
  · rw [if_pos empty]
    cases empty
    exact restored_nil_iff inv flushed
  · rw [if_neg empty]
    exact restored_filled_iff inv empty distinct flushed

theorem CpDev.small_pos : 0 < 32 :=
  Nat.succ_pos 31

theorem CpDev.small_lt : 32 * Geometry.small.nOfPlanes < 2 ^ 16 := by
  decide

theorem CpDev.small_noMagic : 0xff ≠ appMagic := by
  decide

/-- A block of two pages with 32 bytes each. -/
def CpDev.small : CpDev where
  geo := Geometry.small
  pgSz := 32
  erased := ⟨fun _ _ => 0xff, ⟨0xff, 0xffffffff⟩⟩
  pg_pos := CpDev.small_pos
  ent_lt := CpDev.small_lt
  noMagic := CpDev.small_noMagic

/-- A checkpoint is rebuilt after another one was flushed, read and erased. -/
theorem cp_round_trip_iff_small :
    ∃ store store',
      imageRun CpDev.small [.restart false, .flush [⟨1, [5]⟩], .restart false]
        (oxbRecoveryInit CpDev.small) = some store ∧
      oxbRecoveryFlushCp CpDev.small store [⟨1, [6]⟩, ⟨2, []⟩] = some store' ∧
      CpRestored CpDev.small store'.blk [⟨1, [6]⟩, ⟨2, []⟩] := by
  have starts : (imageRun CpDev.small [.restart false, .flush [⟨1, [5]⟩], .restart false]
      (oxbRecoveryInit CpDev.small)).isSome = true := by decide +kernel
  obtain ⟨store, runs⟩ := Option.isSome_iff_exists.mp starts
  have accepted : CpDev.small.cpPgs [⟨1, [6]⟩, ⟨2, []⟩] ≤ CpDev.small.geo.pgPerBlk := by decide
  have flushed := @oxbRecoveryFlushCp_eq CpDev.small store [⟨1, [6]⟩, ⟨2, []⟩]
  rw [if_pos accepted] at flushed
  refine ⟨store, _, runs, flushed, ?_⟩
  apply (cp_round_trip_iff CpDev.small runs (by decide) flushed).mpr
  exact Or.inl (by decide)

/-- An image of two pages fills the block: it is accepted, and start-up fails. -/
theorem cp_round_trip_full :
    ∃ store',
      imageRun CpDev.small [.restart false] (oxbRecoveryInit CpDev.small) =
        some ⟨eraseBlk CpDev.small, 0⟩ ∧
      oxbRecoveryFlushCp CpDev.small ⟨eraseBlk CpDev.small, 0⟩ [⟨1, List.replicate 56 7⟩] =
        some store' ∧
      ¬ CpRestored CpDev.small store'.blk [⟨1, List.replicate 56 7⟩] := by
  refine ⟨_, rfl, rfl, ?_⟩
  rintro ⟨recovered, restarts, -⟩
  have fails : (oxbRecoveryRecover CpDev.small false (writePages CpDev.small
      ⟨eraseBlk CpDev.small, 0⟩ (cpImage [⟨1, List.replicate 56 7⟩]) 2)).isNone = true := by
    decide +kernel
  change oxbRecoveryRecover CpDev.small false (writePages CpDev.small
      ⟨eraseBlk CpDev.small, 0⟩ (cpImage [⟨1, List.replicate 56 7⟩]) 2) = some recovered at restarts
  rw [restarts] at fails
  cases fails

end OxCtrl.Recovery
