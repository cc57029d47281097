import OxCtrl.Gc.Core

/-!
# Metadata pages in a victim block

A flush of the block metadata or of the small mapping table writes the number
`tiny.entries * ch + page` to the OOB area of the page.  `block_gc_read_blk` finds such pages in
a victim block and marks them, so that the next checkpoint writes them somewhere else.  It
decodes the number with the number of blocks of a channel and with the entries of a page of the
block metadata, for both tables.
-/

namespace OxCtrl.Gc

/-! ## Model -/

/-- Sizes of a table: `md->entries` and `md->ent_per_pg`. -/
structure MdSizes where
  entries : Nat
  entPerPg : Nat
  entries_pos : 0 < entries
  entPerPg_pos : 0 < entPerPg

/-- `tiny.entries`. -/
def MdSizes.tinyEntries (md : MdSizes) : Nat :=
  md.entries / md.entPerPg + if md.entries % md.entPerPg ≠ 0 then 1 else 0

/-- The 32-bit `index` of `oxb_blk_md_flush` and `oxb_ch_map_flush`, which becomes the LBA in the
OOB area. -/
def MdSizes.flushIndex (md : MdSizes) (ch entI : Nat) : Nat :=
  (md.tinyEntries * ch + entI) % 2 ^ 32

/-- `tiny.dirty` of the block metadata and of the small mapping table, by channel. -/
structure DirtyPages where
  blkMd : Nat → Nat → Bool := fun _ _ => false
  mapMd : Nat → Nat → Bool := fun _ _ => false

/-- `mark_fn`. -/
def markFn (dirty : Nat → Nat → Bool) (ch index : Nat) : Nat → Nat → Bool :=
  Function.update dirty ch (Function.update (dirty ch) index true)

variable (blkMd : MdSizes)

/-- `block_gc_proc_blkmd_pg`; `blkMd` are the sizes in `ch[0]->blk_md`. -/
def blockGcProcBlkmdPg (dirty : DirtyPages) (lba : Nat) : DirtyPages :=
  { dirty with
    blkMd := markFn dirty.blkMd (lba / blkMd.entries) (lba % blkMd.entries / blkMd.entPerPg) }

/-- `block_gc_proc_mapmd_pg`, which takes the same sizes. -/
def blockGcProcMapmdPg (dirty : DirtyPages) (lba : Nat) : DirtyPages :=
  { dirty with
    mapMd := markFn dirty.mapMd (lba / blkMd.entries) (lba % blkMd.entries / blkMd.entPerPg) }

/-- What `block_gc_read_blk` meets in a page: the OOB area of its first sector, and whether the
read and the move of a mapping page succeed. -/
structure VictimPage where
  oob : SecOob
  readOk : Bool
  moved : Bool

/-- The loop body of `block_gc_read_blk` for a page; nothing on an error. -/
def readPg (dirty : DirtyPages) (page : VictimPage) : Option DirtyPages :=
  if ¬ page.readOk then none
  else
    match page.oob.pgType with
    | .map => if page.moved then some dirty else none
    | .blkMd => some (blockGcProcBlkmdPg blkMd dirty page.oob.lba)
    | .mapMd => some (blockGcProcMapmdPg blkMd dirty page.oob.lba)
    | _ => some dirty

/-- The loop of `block_gc_read_blk`, for pages `pgI, pgI + 1, …`, with the marks it leaves. -/
def readPgs (geo : Geometry) (md : BlkMdEntry) (pages : Nat → VictimPage) :
    Nat → Nat → DirtyPages → DirtyPages × Bool
  | 0, _, dirty => (dirty, true)
  | left + 1, pgI, dirty =>
      if blockGcCheckValidPg geo md pgI = 0 then readPgs geo md pages left (pgI + 1) dirty
      else
        match readPg blkMd dirty (pages pgI) with
        | none => (dirty, false)
        | some dirty => readPgs geo md pages left (pgI + 1) dirty

/-- `block_gc_read_blk`: the marks, and whether it succeeds. -/
def blockGcReadBlk (geo : Geometry) (md : BlkMdEntry) (pages : Nat → VictimPage)
    (dirty : DirtyPages) : DirtyPages × Bool :=
  readPgs blkMd geo md pages geo.pgPerBlk 0 dirty

/-! ## Decoding -/

/-- In the numbering of the decoder, the number belongs to page `page` of channel `ch`. -/
structure Decodes (lba ch page : Nat) : Prop where
  above : blkMd.entries * ch + blkMd.entPerPg * page ≤ lba
  below : lba < blkMd.entries * ch + blkMd.entPerPg * (page + 1)
  channel : lba < blkMd.entries * (ch + 1)

instance (lba ch page : Nat) : Decidable (Decodes blkMd lba ch page) :=
  decidable_of_iff (blkMd.entries * ch + blkMd.entPerPg * page ≤ lba ∧
      lba < blkMd.entries * ch + blkMd.entPerPg * (page + 1) ∧ lba < blkMd.entries * (ch + 1))
    ⟨fun all => ⟨all.1, all.2.1, all.2.2⟩, fun all => ⟨all.above, all.below, all.channel⟩⟩

variable {blkMd} {lba ch page : Nat} {dirty : DirtyPages}

theorem decodes_iff : Decodes blkMd lba ch page ↔
    lba / blkMd.entries = ch ∧ lba % blkMd.entries / blkMd.entPerPg = page := by
  have split := Nat.div_add_mod lba blkMd.entries
  have modLt := Nat.mod_lt lba blkMd.entries_pos
  constructor
  · rintro ⟨above, below, channel⟩
    have quotient : lba / blkMd.entries = ch := by
      apply Nat.div_eq_of_lt_le
      · rw [Nat.mul_comm]
        exact (Nat.le_add_right _ _).trans above
      · rwa [Nat.mul_comm]
    refine ⟨quotient, ?_⟩
    rw [quotient] at split
    apply Nat.div_eq_of_lt_le
    · rw [Nat.mul_comm]
      omega
    · rw [Nat.mul_comm]
      omega
  · rintro ⟨rfl, rfl⟩
    have low := Nat.div_mul_le_self (lba % blkMd.entries) blkMd.entPerPg
    have high := Nat.lt_mul_div_succ (lba % blkMd.entries) blkMd.entPerPg_pos
    rw [Nat.mul_comm] at low
    constructor
    · omega
    · omega
    · rw [Nat.mul_add, Nat.mul_one]
      omega

theorem markFn_apply (marks : Nat → Nat → Bool) (index other : Nat) (otherPage : Nat) :
    markFn marks ch index other otherPage =
      (decide (other = ch ∧ otherPage = index) || marks other otherPage) := by
  by_cases same : other = ch
  · subst same
    by_cases samePage : otherPage = index <;> simp [markFn, samePage]
  · simp [markFn, same]

/-- The marks tell which page was marked. -/
theorem markFn_injective {first second firstPage secondPage : Nat}
    (same : markFn (fun _ _ => false) first firstPage =
      markFn (fun _ _ => false) second secondPage) :
    first = second ∧ firstPage = secondPage := by
  have marked := congrFun (congrFun same first) firstPage
  rw [markFn_apply, markFn_apply] at marked
  simpa using marked

theorem MdSizes.tinyEntries_le (md : MdSizes) : md.tinyEntries ≤ md.entries := by
  have split := Nat.div_add_mod md.entries md.entPerPg
  have scaled : md.entries / md.entPerPg ≤ md.entPerPg * (md.entries / md.entPerPg) :=
    Nat.le_mul_of_pos_left _ md.entPerPg_pos
  rw [tinyEntries]
  split <;> omega

theorem MdSizes.tinyEntries_one (md : MdSizes) (one : md.entPerPg = 1) :
    md.tinyEntries = md.entries := by
  rw [tinyEntries, one, Nat.div_one, Nat.mod_one]
  rfl

/-- A table has as many pages as entries only if it has one entry or pages of one entry. -/
theorem MdSizes.eq_one_of_le (md : MdSizes) (le : md.entries ≤ md.tinyEntries) :
    md.entPerPg = 1 ∨ md.entries = 1 := by
  by_contra neither
  rw [not_or] at neither
  have perPos := md.entPerPg_pos
  have entriesPos := md.entries_pos
  have split := Nat.div_add_mod md.entries md.entPerPg
  have doubled : 2 * (md.entries / md.entPerPg) ≤ md.entPerPg * (md.entries / md.entPerPg) :=
    Nat.mul_le_mul_right _ (by omega)
  rw [tinyEntries] at le
  have quotientLe : md.entries / md.entPerPg ≤ 1 := by
    split at le <;> omega
  rcases Nat.le_one_iff_eq_zero_or_eq_one.mp quotientLe with zero | one
  · rw [zero] at le
    split at le <;> omega
  · rw [one] at le split
    split at le <;> omega

/-- The block metadata of a channel has fewer pages than blocks, so the number of a page decodes to
the page only if a page has one entry, or if it is page 0 of channel 0 or of channels with one
block. -/
theorem decodes_blkMd_iff (pageLt : page < blkMd.tinyEntries)
    (fits : blkMd.tinyEntries * ch + page < 2 ^ 32) :
    Decodes blkMd (blkMd.flushIndex ch page) ch page ↔
      blkMd.entPerPg = 1 ∨ (page = 0 ∧ (ch = 0 ∨ blkMd.entries = 1)) := by
  have tinyLe := blkMd.tinyEntries_le
  have scaled : blkMd.tinyEntries * ch ≤ blkMd.entries * ch := Nat.mul_le_mul_right ch tinyLe
  have perPos := blkMd.entPerPg_pos
  rw [MdSizes.flushIndex, Nat.mod_eq_of_lt fits]
  constructor
  · rintro ⟨above, -, -⟩
    by_cases one : blkMd.entPerPg = 1
    · exact Or.inl one
    · have doubled : 2 * page ≤ blkMd.entPerPg * page := Nat.mul_le_mul_right page (by omega)
      have pageZero : page = 0 := by omega
      refine Or.inr ⟨pageZero, ?_⟩
      rcases Nat.eq_zero_or_pos ch with zero | chPos
      · exact Or.inl zero
      · -- the channels before this one have as many pages as blocks
        have same : blkMd.entries * ch ≤ blkMd.tinyEntries * ch := by omega
        have le := Nat.le_of_mul_le_mul_right same chPos
        exact Or.inr ((blkMd.eq_one_of_le le).resolve_left one)
  · rintro (one | ⟨rfl, zero | oneBlk⟩)
    · have tiny := blkMd.tinyEntries_one one
      rw [tiny] at pageLt
      constructor <;> rw [tiny]
      · rw [one, Nat.one_mul]
      · rw [one, Nat.one_mul]
        omega
      · rw [Nat.mul_add, Nat.mul_one]
        omega
    · subst zero
      constructor <;> simp only [Nat.mul_zero, Nat.zero_add, Nat.add_zero, Nat.mul_one]
      · exact Nat.le_refl 0
      · exact perPos
      · exact blkMd.entries_pos
    · have tiny : blkMd.tinyEntries = 1 := by omega
      constructor <;> rw [tiny, oneBlk]
      · omega
      · omega
      · omega

/-! ## Reading the victim -/

theorem readPg_mono {after : DirtyPages} {read : VictimPage}
    (done : readPg blkMd dirty read = some after) :
    (∀ ch page, dirty.blkMd ch page = true → after.blkMd ch page = true) ∧
      ∀ ch page, dirty.mapMd ch page = true → after.mapMd ch page = true := by
  have keep : (∀ ch page, dirty.blkMd ch page = true → dirty.blkMd ch page = true) ∧
      ∀ ch page, dirty.mapMd ch page = true → dirty.mapMd ch page = true :=
    ⟨fun _ _ marked => marked, fun _ _ marked => marked⟩
  rw [readPg] at done
  split at done
  · contradiction
  · split at done
    · split at done
      · rwa [← Option.some.inj done]
      · contradiction
    · rw [← Option.some.inj done]
      refine ⟨fun other otherPage marked => ?_, keep.2⟩
      simp only [blockGcProcBlkmdPg, markFn_apply, marked, Bool.or_true]
    · rw [← Option.some.inj done]
      refine ⟨keep.1, fun other otherPage marked => ?_⟩
      simp only [blockGcProcMapmdPg, markFn_apply, marked, Bool.or_true]
    · rwa [← Option.some.inj done]

variable {geo : Geometry} {md : BlkMdEntry} {pages : Nat → VictimPage}

theorem readPgs_mono (left pgI : Nat) :
    (∀ ch page, dirty.blkMd ch page = true →
        (readPgs blkMd geo md pages left pgI dirty).1.blkMd ch page = true) ∧
      ∀ ch page, dirty.mapMd ch page = true →
        (readPgs blkMd geo md pages left pgI dirty).1.mapMd ch page = true := by
  induction left generalizing pgI dirty with
  | zero => exact ⟨fun _ _ marked => marked, fun _ _ marked => marked⟩
  | succ left ih =>
      rw [readPgs]
      split
      · exact ih (pgI + 1)
      · split
        · exact ⟨fun _ _ marked => marked, fun _ _ marked => marked⟩
        · rename_i after done
          have first := readPg_mono done
          have rest := @ih after (pgI + 1)
          constructor
          · intro other otherPage marked
            exact rest.1 other otherPage (first.1 other otherPage marked)
          · intro other otherPage marked
            exact rest.2 other otherPage (first.2 other otherPage marked)

/-- A read that succeeds has processed every valid page. -/
theorem readPgs_visits {left pgI pg : Nat}
    (success : (readPgs blkMd geo md pages left pgI dirty).2 = true) (first : pgI ≤ pg)
    (last : pg < pgI + left) (valid : blockGcCheckValidPg geo md pg ≠ 0) :
    ∃ before after, readPg blkMd before (pages pg) = some after ∧
      (∀ ch page, after.blkMd ch page = true →
        (readPgs blkMd geo md pages left pgI dirty).1.blkMd ch page = true) ∧
      ∀ ch page, after.mapMd ch page = true →
        (readPgs blkMd geo md pages left pgI dirty).1.mapMd ch page = true := by
  induction left generalizing pgI dirty with
  | zero => omega
  | succ left ih =>
      rw [readPgs] at success ⊢
      by_cases here : pg = pgI
      · subst here
        rw [if_neg valid] at success ⊢
        cases done : readPg blkMd dirty (pages pg) with
        | none =>
            rw [done] at success
            contradiction
        | some after => exact ⟨dirty, after, done, readPgs_mono left (pg + 1)⟩
      · have later : pgI + 1 ≤ pg := by omega
        have bound : pg < pgI + 1 + left := by omega
        split at success
        · rename_i invalid
          rw [if_pos invalid]
          exact ih success later bound
        · rename_i checked
          rw [if_neg checked]
          cases done : readPg blkMd dirty (pages pgI) with
          | none =>
              rw [done] at success
              contradiction
          | some after =>
              rw [done] at success
              exact ih success later bound

/-- A read of a victim that succeeds has marked every metadata page that it found, under the number
that the decoder makes of its LBA. -/
theorem blockGcReadBlk_marks {pg : Nat}
    (success : (blockGcReadBlk blkMd geo md pages dirty).2 = true) (pgLt : pg < geo.pgPerBlk)
    (valid : blockGcCheckValidPg geo md pg ≠ 0) :
    ((pages pg).oob.pgType = .blkMd → Decodes blkMd (pages pg).oob.lba ch page →
        (blockGcReadBlk blkMd geo md pages dirty).1.blkMd ch page = true) ∧
      ((pages pg).oob.pgType = .mapMd → Decodes blkMd (pages pg).oob.lba ch page →
        (blockGcReadBlk blkMd geo md pages dirty).1.mapMd ch page = true) := by
  have bound : pg < 0 + geo.pgPerBlk := by rwa [Nat.zero_add]
  obtain ⟨before, after, done, blk, map⟩ := readPgs_visits success (Nat.zero_le pg) bound valid
  rw [readPg] at done
  split at done
  · contradiction
  · constructor
    · intro type decodes
      obtain ⟨rfl, rfl⟩ := decodes_iff.mp decodes
      simp only [type] at done
      apply blk
      rw [← Option.some.inj done]
      simp [blockGcProcBlkmdPg, markFn_apply]
    · intro type decodes
      obtain ⟨rfl, rfl⟩ := decodes_iff.mp decodes
      simp only [type] at done
      apply map
      rw [← Option.some.inj done]
      simp [blockGcProcMapmdPg, markFn_apply]

/-- A metadata page that a flush has numbered is marked, and no other page, iff the decoder counts
the number to the page. -/
theorem gc_marks_page_iff (blkMd mapMd : MdSizes) (ch page : Nat) :
    ((∀ dirty, blockGcProcBlkmdPg blkMd dirty (blkMd.flushIndex ch page) =
        { dirty with blkMd := markFn dirty.blkMd ch page }) ↔
      Decodes blkMd (blkMd.flushIndex ch page) ch page) ∧
    ((∀ dirty, blockGcProcMapmdPg blkMd dirty (mapMd.flushIndex ch page) =
        { dirty with mapMd := markFn dirty.mapMd ch page }) ↔
      Decodes blkMd (mapMd.flushIndex ch page) ch page) := by
  constructor
  · rw [decodes_iff]
    constructor
    · intro marks
      exact markFn_injective (congrArg DirtyPages.blkMd (marks {}))
    · rintro ⟨sameCh, samePage⟩ dirty
      rw [blockGcProcBlkmdPg, sameCh, samePage]
  · rw [decodes_iff]
    constructor
    · intro marks
      exact markFn_injective (congrArg DirtyPages.mapMd (marks {}))
    · rintro ⟨sameCh, samePage⟩ dirty
      rw [blockGcProcMapmdPg, sameCh, samePage]

/-- Eight blocks in a channel and four entries in a page. -/
def eightBlocks : MdSizes where
  entries := 8
  entPerPg := 4
  entries_pos := Nat.succ_pos 7
  entPerPg_pos := Nat.succ_pos 3

/-- The second page of the block metadata of channel 0 has number 1, and page 0 is marked for
it. -/
theorem gc_marks_other_page :
    eightBlocks.flushIndex 0 1 = 1 ∧
      (blockGcProcBlkmdPg eightBlocks {} (eightBlocks.flushIndex 0 1)).blkMd 0 0 = true ∧
      (blockGcProcBlkmdPg eightBlocks {} (eightBlocks.flushIndex 0 1)).blkMd 0 1 = false ∧
      (blockGcProcMapmdPg eightBlocks {} (eightBlocks.flushIndex 0 1)).mapMd 0 1 = false := by
  decide

end OxCtrl.Gc
