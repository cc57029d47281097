import OxCtrl.Recovery.CpRecover

/-!
# Crashes while a checkpoint is written

A crash leaves the first pages of the new image on the reserved block.  Their headers
carry the size of the whole image, so the next start-up reads as many pages as the image
has, back into the previous one.  Where the block was erased first, nothing is left.
-/

namespace OxCtrl.Recovery

variable {dev : CpDev} {store : CpStore}

/-- Pages of the image that ends before `cur_flush_pg`. -/
def oldPages (dev : CpDev) (store : CpStore) (list : List CpEntry) : List Nat :=
  List.range' (store.curFlushPg - dev.cpPgs list) (dev.cpPgs list)

/-- Pages that the next image is written to. -/
def newPages (dev : CpDev) (store : CpStore) (list : List CpEntry) : List Nat :=
  List.range' (cpTarget dev store (dev.cpPgs list)).2 (dev.cpPgs list)

/-- Start-up reads exactly the given pages and rebuilds the entries of a list. -/
def ReadsFrom (dev : CpDev) (blk : Nat → CpPage) (pages : List Nat) (list : List CpEntry) : Prop :=
  ∃ recovered, oxbRecoveryRecover dev false blk = some recovered ∧ recovered.pages = pages ∧
    ∀ type, oxbRecoveryGet recovered.list type = oxbRecoveryGet list type

/-- Start-up finds the complete previous checkpoint or the complete new one. -/
def CpAtomic (dev : CpDev) (store : CpStore) (old new : List CpEntry) (blk : Nat → CpPage) : Prop :=
  ReadsFrom dev blk (oldPages dev store old) old ∨ ReadsFrom dev blk (newPages dev store new) new

/-- The crash falls behind the last page of an image that can be found, or before the first
page of one that needs no erase. -/
def SafeCrash (dev : CpDev) (store : CpStore) (new : List CpEntry) (count : Nat) : Prop :=
  count = dev.cpPgs new ∧ (dev.cpPgs new < dev.geo.pgPerBlk ∨ dev.geo.pgPerBlk = 1) ∨
    count = 0 ∧ store.curFlushPg + dev.cpPgs new < dev.geo.pgPerBlk

/-- An image on the block is the newest one. -/
theorem ImageInv.position_of_image (inv : ImageInv dev store) {old : List CpEntry}
    (image : ImageAt dev store.blk store.curFlushPg old) :
    store.position = store.curFlushPg ∧ Frontier dev store.blk store.curFlushPg := by
  have pages := dev.pgPerBlk_le
  have le := image.le
  have known : store.position = store.curFlushPg := by
    rw [CpStore.position, if_neg (by omega)]
  have frontier := inv.frontier
  rw [known] at frontier
  exact ⟨known, frontier⟩

/-- Before the first page, the old image is read unless the block was erased. -/
theorem readsFrom_before (inv : ImageInv dev store) {old new : List CpEntry}
    (image : ImageAt dev store.blk store.curFlushPg old)
    (distinct : (old.map CpEntry.type).Nodup)
    (room : store.curFlushPg + dev.cpPgs new < dev.geo.pgPerBlk) :
    ReadsFrom dev (writePages dev store (cpImage new) 0) (oldPages dev store old) old := by
  obtain ⟨known, frontier⟩ := inv.position_of_image image
  have target := inv.cpTarget_eq (dev.cpPgs new)
  rw [known, if_neg (by omega)] at target
  have untouched : writePages dev store (cpImage new) 0 = store.blk := by
    rw [writePages_zero, target]
  rw [untouched]
  exact ⟨_, image.recover frontier (Or.inl (by omega)), rfl, oxbRecoveryGet_foldl distinct⟩

/-- Behind the last page, the new image is read when it can be found. -/
theorem readsFrom_after (inv : ImageInv dev store) {new : List CpEntry} (filled : new ≠ [])
    (distinct : (new.map CpEntry.type).Nodup) (fits : dev.cpPgs new ≤ dev.geo.pgPerBlk)
    (found : dev.cpPgs new < dev.geo.pgPerBlk ∨ dev.geo.pgPerBlk = 1) :
    ReadsFrom dev (writePages dev store (cpImage new) (dev.cpPgs new)) (newPages dev store new)
      new := by
  have ends := inv.cpTarget_end (dev.cpPgs new)
  have frontier := (inv.writePages fits (Nat.le_refl _)).1
  refine ⟨_, (inv.imageAt filled fits).recover frontier (by omega), ?_,
    oxbRecoveryGet_foldl distinct⟩
  rw [newPages, Nat.add_sub_cancel]

/-- Pages that a header names, when something is read at all. -/
theorem Frontier.recover_pages {blk : Nat → CpPage} {cur : Nat} (frontier : Frontier dev blk cur)
    (pos : 0 < cur) {list : List CpEntry}
    (isOob : (blk (scanEnd dev cur - 1)).oob = ⟨appMagic, (cpImage list).length⟩)
    {recovered : Recovered} (reads : oxbRecoveryRecover dev false blk = some recovered) :
    recovered.pages = List.range' (imageStart (scanEnd dev cur) (dev.cpPgs list))
      (dev.cpPgs list) := by
  have isPgs : dev.mdPgs (cpImage list).length = dev.cpPgs list := rfl
  rw [frontier.recover pos isOob isPgs] at reads
  split at reads
  · obtain ⟨entries, -, rfl⟩ := Option.map_eq_some_iff.mp reads
    rfl
  · cases reads

theorem ImageInv.cpTarget_start (inv : ImageInv dev store) {old : List CpEntry}
    (image : ImageAt dev store.blk store.curFlushPg old) (pgs : Nat) :
    (cpTarget dev store pgs).2 = 0 ∨ (cpTarget dev store pgs).2 = store.curFlushPg := by
  rw [inv.cpTarget_eq, (inv.position_of_image image).1]
  split
  · exact Or.inl rfl
  · exact Or.inr rfl

/-- In the middle of an image, what is read ends behind the last page that was written. -/
theorem pages_between (inv : ImageInv dev store) {new : List CpEntry}
    (fits : dev.cpPgs new ≤ dev.geo.pgPerBlk) {count : Nat} (pos : 0 < count)
    (lt : count < dev.cpPgs new) {recovered : Recovered}
    (reads : oxbRecoveryRecover dev false (writePages dev store (cpImage new) count) =
      some recovered) :
    dev.cpPgs new ≤ (cpTarget dev store (dev.cpPgs new)).2 + count ∧
      recovered.pages = List.range' ((cpTarget dev store (dev.cpPgs new)).2 + count -
        dev.cpPgs new) (dev.cpPgs new) := by
  have ends := inv.cpTarget_end (dev.cpPgs new)
  obtain ⟨frontier, header⟩ := inv.writePages fits lt.le
  generalize (cpTarget dev store (dev.cpPgs new)).2 = start at *
  have isEnd : scanEnd dev (start + count) = start + count :=
    (scanEnd_eq_iff (by omega) frontier.le).mpr (Or.inl (by omega))
  have isOob : (writePages dev store (cpImage new) count (scanEnd dev (start + count) - 1)).oob =
      ⟨appMagic, (cpImage new).length⟩ := by
    rw [isEnd]
    exact header _ (by omega) (by omega)
  by_cases short : start + count < dev.cpPgs new
  · rw [frontier.recover_none (by omega) fits isOob (by omega)] at reads
    cases reads
  · have pages := frontier.recover_pages (by omega) isOob reads
    rw [isEnd, imageStart_eq (Nat.le_of_not_lt short) frontier.le] at pages
    exact ⟨Nat.le_of_not_lt short, pages⟩

theorem not_atomic_between (inv : ImageInv dev store) {old new : List CpEntry}
    (image : ImageAt dev store.blk store.curFlushPg old) (fits : dev.cpPgs new ≤ dev.geo.pgPerBlk)
    {count : Nat} (pos : 0 < count) (lt : count < dev.cpPgs new) :
    ¬ CpAtomic dev store old new (writePages dev store (cpImage new) count) := by
  have start := inv.cpTarget_start image (dev.cpPgs new)
  have oldFits := image.fits
  rintro (⟨recovered, reads, isPages, -⟩ | ⟨recovered, reads, isPages, -⟩)
  · obtain ⟨enough, pages⟩ := pages_between inv fits pos lt reads
    rw [isPages, oldPages, List.range'_inj] at pages
    omega
  · obtain ⟨enough, pages⟩ := pages_between inv fits pos lt reads
    rw [isPages, newPages, List.range'_inj] at pages
    omega

/-- After the erase and before the first page, there is nothing to read. -/
theorem atomic_erased_iff (inv : ImageInv dev store) {old new : List CpEntry}
    (image : ImageAt dev store.blk store.curFlushPg old)
    (erased : dev.geo.pgPerBlk ≤ store.curFlushPg + dev.cpPgs new) :
    CpAtomic dev store old new (writePages dev store (cpImage new) 0) ↔ new = [] := by
  have target := inv.cpTarget_eq (dev.cpPgs new)
  rw [(inv.position_of_image image).1, if_pos (by omega)] at target
  have oldPos := @cpPgs_pos dev _ image.filled
  have blank : writePages dev store (cpImage new) 0 = eraseBlk dev := by
    rw [writePages_zero, target]
  have reads := @Frontier.recover_empty dev _ frontier_eraseBlk
  rw [blank]
  constructor
  · rintro (⟨recovered, restarts, isPages, -⟩ | ⟨recovered, restarts, isPages, -⟩)
    · rw [reads] at restarts
      cases restarts
      have none := congrArg List.length isPages
      rw [oldPages, List.length_range', List.length_nil] at none
      omega
    · rw [reads] at restarts
      cases restarts
      have none := congrArg List.length isPages
      rw [newPages, List.length_range', List.length_nil] at none
      by_contra filled
      have newPos := @cpPgs_pos dev _ filled
      omega
  · rintro rfl
    refine Or.inr ⟨_, reads, ?_, fun _ => rfl⟩
    rw [newPages, cpPgs_nil]
    rfl

/-- An image that fills the block is not read at all. -/
theorem not_atomic_full (inv : ImageInv dev store) {old new : List CpEntry} (filled : new ≠ [])
    (full : dev.cpPgs new = dev.geo.pgPerBlk) (many : dev.geo.pgPerBlk ≠ 1) :
    ¬ CpAtomic dev store old new (writePages dev store (cpImage new) (dev.cpPgs new)) := by
  have ends := inv.cpTarget_end (dev.cpPgs new)
  have image' := inv.imageAt filled full.le
  have frontier := (inv.writePages full.le (Nat.le_refl _)).1
  have isFull : (cpTarget dev store (dev.cpPgs new)).2 + dev.cpPgs new = dev.geo.pgPerBlk := by
    omega
  rw [isFull] at image' frontier
  have fails := image'.recover_full frontier full many
  rintro (⟨recovered, reads, -⟩ | ⟨recovered, reads, -⟩)
  · rw [fails] at reads
    cases reads
  · rw [fails] at reads
    cases reads

/-- After any run, a crash during the next checkpoint leaves the old one or the new one to
read exactly when it falls at a safe point. -/
theorem cp_crash_atomic_iff (dev : CpDev) {ops : List ImageOp} {store : CpStore}
    (runs : imageRun dev ops (oxbRecoveryInit dev) = some store) {old new : List CpEntry}
    (complete : ImageAt dev store.blk store.curFlushPg old)
    (oldDistinct : (old.map CpEntry.type).Nodup) (newDistinct : (new.map CpEntry.type).Nodup)
    (accepted : dev.cpPgs new ≤ dev.geo.pgPerBlk) {count : Nat} (crash : count ≤ dev.cpPgs new) :
    CpAtomic dev store old new (writePages dev store (cpImage new) count) ↔
      SafeCrash dev store new count := by
  have inv := imageInv_run imageInv_init runs
  have pagesPos := dev.geo.pg_pos
  rw [SafeCrash]
  rcases Nat.eq_zero_or_pos count with rfl | pos
  · by_cases room : store.curFlushPg + dev.cpPgs new < dev.geo.pgPerBlk
    · constructor
      · exact fun _ => Or.inr ⟨rfl, room⟩
      · exact fun _ => Or.inl (readsFrom_before inv complete oldDistinct room)
    · rw [atomic_erased_iff inv complete (Nat.le_of_not_lt room)]
      constructor
      · rintro rfl
        rw [cpPgs_nil]
        omega
      · intro safe
        by_contra filled
        have newPos := @cpPgs_pos dev _ filled
        omega
  · by_cases between : count < dev.cpPgs new
    · constructor
      · intro atomic
        exact absurd atomic (not_atomic_between inv complete accepted pos between)
      · intro safe
        omega
    · have last : count = dev.cpPgs new := by omega
      have filled : new ≠ [] := by
        rintro rfl
        rw [cpPgs_nil] at last
        omega
      rw [last]
      by_cases found : dev.cpPgs new < dev.geo.pgPerBlk ∨ dev.geo.pgPerBlk = 1
      · constructor
        · exact fun _ => Or.inl ⟨rfl, found⟩
        · exact fun _ => Or.inr (readsFrom_after inv filled newDistinct accepted found)
      · constructor
        · intro atomic
          exact absurd atomic (not_atomic_full inv filled (by omega) (by omega))
        · intro safe
          omega

theorem CpDev.four_pos : 0 < 4 :=
  Nat.succ_pos 3

theorem CpDev.four_le : 4 ≤ 4096 := by
  decide

theorem CpDev.four_state_le : 4 * Geometry.small.nOfPlanes ≤ blkMdByteVecSz := by
  decide

/-- A block of four pages with 32 bytes each. -/
def CpDev.four : CpDev :=
  { CpDev.small with
    geo := { Geometry.small with
      pgPerBlk := 4
      pg_pos := CpDev.four_pos
      pg_le := CpDev.four_le
      state_le := CpDev.four_state_le } }

/-- The block after the first checkpoint. -/
def CpDev.first (dev : CpDev) (list : List CpEntry) : CpStore :=
  (oxbRecoveryFlushCp dev (oxbRecoveryInit dev) list).getD (oxbRecoveryInit dev)

theorem run_first (dev : CpDev) (list : List CpEntry) :
    imageRun dev [.flush list] (oxbRecoveryInit dev) = some (dev.first list) :=
  rfl

theorem imageAt_first {list : List CpEntry} (filled : list ≠ [])
    (fits : dev.cpPgs list ≤ dev.geo.pgPerBlk) :
    ImageAt dev (dev.first list).blk (dev.first list).curFlushPg list := by
  rw [CpDev.first, oxbRecoveryFlushCp_eq, if_pos fits]
  exact imageInv_init.imageAt filled fits

/-- A crash behind the last page of an image of two pages. -/
theorem cp_crash_atomic_iff_four :
    CpAtomic CpDev.four (CpDev.four.first [⟨1, [5]⟩]) [⟨1, [5]⟩] [⟨1, List.replicate 40 6⟩]
      (writePages CpDev.four (CpDev.four.first [⟨1, [5]⟩])
        (cpImage [⟨1, List.replicate 40 6⟩]) 2) := by
  apply (cp_crash_atomic_iff CpDev.four (run_first _ _) (imageAt_first (by decide) (by decide))
    (by decide) (by decide) (by decide) (by decide)).mpr
  exact Or.inl (by decide)

/-- A checkpoint of one page. -/
def oldCp : List CpEntry :=
  [⟨1, List.replicate 24 5⟩]

/-- A checkpoint of two pages. -/
def newCp : List CpEntry :=
  [⟨1, List.replicate 24 6⟩, ⟨2, List.replicate 24 7⟩]

/-- A crash behind the first page: start-up reads the old image as the first half of the
new one, and finds the new entry of type 1 and no entry of type 2. -/
theorem cp_crash_mixture :
    imageRun CpDev.four [.flush oldCp] (oxbRecoveryInit CpDev.four) =
        some (CpDev.four.first oldCp) ∧
      ImageAt CpDev.four (CpDev.four.first oldCp).blk (CpDev.four.first oldCp).curFlushPg oldCp ∧
      ¬ CpAtomic CpDev.four (CpDev.four.first oldCp) oldCp newCp
        (writePages CpDev.four (CpDev.four.first oldCp) (cpImage newCp) 1) ∧
      (oxbRecoveryRecover CpDev.four false (writePages CpDev.four (CpDev.four.first oldCp)
        (cpImage newCp) 1)).map Recovered.list = some [⟨1, List.replicate 24 6⟩] := by
  refine ⟨run_first _ _, imageAt_first (by decide) (by decide), ?_, by decide +kernel⟩
  have reads : (oxbRecoveryRecover CpDev.four false (writePages CpDev.four
      (CpDev.four.first oldCp) (cpImage newCp) 1)).map Recovered.pages = some [0, 1] := by
    decide +kernel
  have olds : oldPages CpDev.four (CpDev.four.first oldCp) oldCp = [0] := by decide +kernel
  have news : newPages CpDev.four (CpDev.four.first oldCp) newCp = [1, 2] := by decide +kernel
  rintro (⟨recovered, restarts, isPages, -⟩ | ⟨recovered, restarts, isPages, -⟩)
  · rw [restarts, Option.map_some, isPages, olds] at reads
    cases reads
  · rw [restarts, Option.map_some, isPages, news] at reads
    cases reads

end OxCtrl.Recovery
