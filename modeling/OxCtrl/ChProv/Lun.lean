import OxCtrl.ChProv.Core
import Mathlib.Data.List.Nodup

/-!
# Representation invariant of one LUN

`LunOk` relates the lists and counters of a LUN to the metadata of its blocks.  It
is stated over the record of the LUN, its row of block metadata, the set `good` of
blocks the LUN must account for, the set `raw` of blocks that were opened without an
erase, and the page that is next in each block, so that the lemmas of this file speak
about one LUN at a time: each says what one list update of `oxb-ch-prov.c`, together
with its metadata update, preserves.
-/

namespace OxCtrl.ChProv

variable {lun : Lun} {blk other : Nat} {type kind : LineType}

/-! ## Open lists after an update -/

@[grind =]
theorem linkOpen_openBlks : (linkOpen type lun blk).openBlks kind =
    if kind = type then blk :: lun.openBlks type else lun.openBlks kind := by
  simp [linkOpen, Function.update_apply]

@[grind =]
theorem linkOpen_nopenBlks : (linkOpen type lun blk).nopenBlks kind =
    if kind = type then lun.nopenBlks type + 1 else lun.nopenBlks kind := by
  simp [linkOpen, Function.update_apply]

@[grind =]
theorem openFirst_openBlks : (openFirst type lun blk).openBlks kind =
    if kind = type then blk :: lun.openBlks type else lun.openBlks kind :=
  linkOpen_openBlks

@[grind =]
theorem openFirst_nopenBlks : (openFirst type lun blk).nopenBlks kind =
    if kind = type then lun.nopenBlks type + 1 else lun.nopenBlks kind :=
  linkOpen_nopenBlks

@[grind =]
theorem unlinkOpen_openBlks : (unlinkOpen type lun blk).openBlks kind =
    if kind = type then (lun.openBlks type).erase blk else lun.openBlks kind := by
  simp [unlinkOpen, Function.update_apply]

@[grind =]
theorem unlinkOpen_nopenBlks : (unlinkOpen type lun blk).nopenBlks kind =
    if kind = type then lun.nopenBlks type - 1 else lun.nopenBlks kind := by
  simp [unlinkOpen, Function.update_apply]

/-- A block that was opened and dropped again leaves the LUN with one free block
less. -/
theorem dropBad_openFirst (notUsed : blk ∉ lun.usedBlks) :
    dropBad type (openFirst type lun blk) blk =
      { lun with
        freeBlks := lun.freeBlks.erase blk
        nfreeBlks := lun.nfreeBlks - 1 } := by
  simp [dropBad, openFirst, linkOpen, List.erase_append_right _ notUsed]

/-! ## The invariant -/

/-- The page that is next in a block, and whether it lies in the block while the block is open.  The
metadata that a channel is started with need not give an open block a page. -/
structure NextPage where
  page : Nat
  inside : Prop
  deriving Inhabited

/-- The block has been erased. -/
def NextPage.ofErase : NextPage where
  page := 0
  inside := True

/-- A page of the block has been handed out. -/
def NextPage.succ (next : NextPage) : NextPage :=
  { next with page := next.page + 1 }

/-- Representation invariant of a LUN. -/
@[grind cases]
structure LunOk (pgPerBlk : Nat) (good raw : Nat → Prop) (md : Nat → BlkMdEntry)
    (next : Nat → NextPage) (lun : Lun) : Prop where
  free_length : lun.nfreeBlks = lun.freeBlks.length
  used_length : lun.nusedBlks = lun.usedBlks.length
  open_length : ∀ type, lun.nopenBlks type = (lun.openBlks type).length
  free_nodup : lun.freeBlks.Nodup
  used_nodup : lun.usedBlks.Nodup
  disjoint : ∀ blk ∈ lun.freeBlks, blk ∉ lun.usedBlks
  mem_iff : ∀ blk, (blk ∈ lun.freeBlks ∨ blk ∈ lun.usedBlks) ↔ good blk
  open_nodup : ∀ type, (lun.openBlks type).Nodup
  open_used : ∀ type, ∀ blk ∈ lun.openBlks type, blk ∈ lun.usedBlks
  open_type : ∀ first second, ∀ blk ∈ lun.openBlks first, blk ∈ lun.openBlks second →
    first = second
  waiting_nodup : lun.waitingCp.Nodup
  waiting_used : ∀ blk ∈ lun.waitingCp, blk ∈ lun.usedBlks
  waiting_flags : ∀ blk ∈ lun.waitingCp, (md blk).flags.used = false ∧
    (md blk).flags.isOpen = false
  open_flags : ∀ type, ∀ blk ∈ lun.openBlks type, ¬ raw blk →
    (md blk).flags.used = true ∧ (md blk).flags.isOpen = true
  open_page : ∀ type, ∀ blk ∈ lun.openBlks type, ¬ raw blk →
    ((next blk).inside → (md blk).currentPg < pgPerBlk) ∧ (md blk).currentPg = (next blk).page
  raw_used : ∀ blk, raw blk → blk ∈ lun.usedBlks ∧ blk ∉ lun.waitingCp ∧
    (md blk).flags.used = false
  open_of_flags : ∀ blk ∈ lun.usedBlks, (md blk).flags.used = true →
    (md blk).flags.isOpen = true → ∃ type, blk ∈ lun.openBlks type
  used_of_flag : ∀ blk, good blk → (md blk).flags.used = true → blk ∈ lun.usedBlks

namespace LunOk

variable {pgPerBlk : Nat} {good raw : Nat → Prop} {md md' : Nat → BlkMdEntry}
  {next next' : Nat → NextPage}

/-- A free block does not carry the used flag. -/
theorem unused_of_free (ok : LunOk pgPerBlk good raw md next lun) (free : blk ∈ lun.freeBlks) :
    (md blk).flags.used = false := by
  have notUsed := ok.disjoint blk free
  have isGood := (ok.mem_iff blk).mp (Or.inl free)
  by_contra flagged
  exact notUsed (ok.used_of_flag blk isGood (by simpa using flagged))

/-- A waiting block is in no open list. -/
theorem not_open_of_waiting (ok : LunOk pgPerBlk good raw md next lun)
    (waiting : blk ∈ lun.waitingCp) : blk ∉ lun.openBlks type := by
  intro isOpen
  have erased : ¬ raw blk := fun isRaw => (ok.raw_used blk isRaw).2.1 waiting
  have clear := (ok.waiting_flags blk waiting).2
  have set := (ok.open_flags type blk isOpen erased).2
  rw [clear] at set
  contradiction

/-- A block that is not in use is in no other list of blocks in use. -/
theorem absent_of_not_used (ok : LunOk pgPerBlk good raw md next lun)
    (notUsed : blk ∉ lun.usedBlks) :
    (∀ type, blk ∉ lun.openBlks type) ∧ blk ∉ lun.waitingCp :=
  ⟨fun type isOpen => notUsed (ok.open_used type blk isOpen),
    fun waiting => notUsed (ok.waiting_used blk waiting)⟩

/-- Only the flags that the lists depend on and the write pointer of open blocks
matter. -/
theorem congr_md (ok : LunOk pgPerBlk good raw md next lun)
    (used : ∀ blk, (md' blk).flags.used = (md blk).flags.used)
    (isOpen : ∀ blk, (md' blk).flags.isOpen = (md blk).flags.isOpen)
    (page : ∀ type, ∀ blk ∈ lun.openBlks type, ¬ raw blk →
      ((next' blk).inside → (md' blk).currentPg < pgPerBlk) ∧
        (md' blk).currentPg = (next' blk).page) :
    LunOk pgPerBlk good raw md' next' lun where
  free_length := ok.free_length
  used_length := ok.used_length
  open_length := ok.open_length
  free_nodup := ok.free_nodup
  used_nodup := ok.used_nodup
  disjoint := ok.disjoint
  mem_iff := ok.mem_iff
  open_nodup := ok.open_nodup
  open_used := ok.open_used
  open_type := ok.open_type
  waiting_nodup := ok.waiting_nodup
  waiting_used := ok.waiting_used
  waiting_flags := by simpa only [used, isOpen] using ok.waiting_flags
  open_flags := by simpa only [used, isOpen] using ok.open_flags
  open_page := page
  raw_used := by simpa only [used] using ok.raw_used
  open_of_flags := by simpa only [used, isOpen] using ok.open_of_flags
  used_of_flag := by simpa only [used] using ok.used_of_flag

/-- Changes of the other flags do not matter. -/
theorem of_usage (ok : LunOk pgPerBlk good raw md next lun)
    (same : ∀ blk, (md' blk).usage = (md blk).usage) : LunOk pgPerBlk good raw md' next lun := by
  simp only [BlkMdEntry.usage, Prod.mk.injEq] at same
  refine ok.congr_md (fun blk => (same blk).1) (fun blk => (same blk).2.1) ?_
  intro type blk listed erased
  rw [(same blk).2.2]
  exact ok.open_page type blk listed erased

/-- The write pointer of a block moves to the page behind the one that was next. -/
theorem bump (ok : LunOk pgPerBlk good raw md next lun) {entry : BlkMdEntry}
    (flags : entry.flags = (md blk).flags) (page : entry.currentPg = (md blk).currentPg + 1)
    (below : ¬ raw blk → (next blk).inside → entry.currentPg < pgPerBlk) :
    LunOk pgPerBlk good raw (Function.update md blk entry)
      (Function.update next blk (next blk).succ) lun := by
  refine ok.congr_md ?_ ?_ ?_
  · intro other
    by_cases same : other = blk <;> simp [same, flags]
  · intro other
    by_cases same : other = blk <;> simp [same, flags]
  · intro type other listed erased
    have old := ok.open_page type other listed erased
    by_cases same : other = blk
    · subst same
      simp only [Function.update_self, NextPage.succ]
      exact ⟨below erased, by rw [page, old.2]⟩
    · simpa [same] using old

/-- The first free block is erased and opened. -/
theorem openFirst (type : LineType) {entry : BlkMdEntry} (ok : LunOk pgPerBlk good raw md next lun)
    (positive : 0 < pgPerBlk) (free : blk ∈ lun.freeBlks)
    (opened : entry.flags.used = true ∧ entry.flags.isOpen = true ∧ entry.currentPg = 0) :
    LunOk pgPerBlk good raw (Function.update md blk entry) (Function.update next blk .ofErase)
      (ChProv.openFirst type lun blk) := by
  have notUsed := ok.disjoint blk free
  obtain ⟨notOpen, notWaiting⟩ := ok.absent_of_not_used notUsed
  constructor
  case open_of_flags =>
    intro other used flagged isOpen
    by_cases same : other = blk
    · exact ⟨type, by grind⟩
    · obtain ⟨kind, mem⟩ := ok.open_of_flags other (by grind [ChProv.openFirst, linkOpen])
        (by simpa [same] using flagged) (by simpa [same] using isOpen)
      exact ⟨kind, by grind⟩
  all_goals grind [ChProv.openFirst, linkOpen, Function.update_apply, NextPage.ofErase]

/-- The first free block is opened without an erase. -/
theorem openRaw (type : LineType) (ok : LunOk pgPerBlk good raw md next lun)
    (free : blk ∈ lun.freeBlks) :
    LunOk pgPerBlk good (fun other => raw other ∨ other = blk) md next
      (ChProv.openFirst type lun blk) := by
  have notUsed := ok.disjoint blk free
  obtain ⟨notOpen, notWaiting⟩ := ok.absent_of_not_used notUsed
  have unused := ok.unused_of_free free
  constructor
  case open_of_flags =>
    intro other used flagged isOpen
    obtain ⟨kind, mem⟩ := ok.open_of_flags other (by grind [ChProv.openFirst, linkOpen])
      flagged isOpen
    exact ⟨kind, by grind⟩
  all_goals grind [ChProv.openFirst, linkOpen]

/-- The erase of the first free block failed: the LUN no longer accounts for it. -/
theorem lose (type : LineType) {entry : BlkMdEntry} (ok : LunOk pgPerBlk good raw md next lun)
    (free : blk ∈ lun.freeBlks) (flags : entry.flags = (md blk).flags) :
    LunOk pgPerBlk (fun other => good other ∧ other ≠ blk) raw (Function.update md blk entry) next
      (dropBad type (ChProv.openFirst type lun blk) blk) := by
  have notUsed := ok.disjoint blk free
  obtain ⟨notOpen, notWaiting⟩ := ok.absent_of_not_used notUsed
  rw [dropBad_openFirst notUsed]
  constructor <;> grind [Function.update_apply]

/-- A block is closed; its write pointer no longer matters. -/
theorem close (ok : LunOk pgPerBlk good raw md next lun) (isOpen : blk ∈ lun.openBlks type)
    {entry : BlkMdEntry}
    (closed : entry.flags.used = (md blk).flags.used ∧ entry.flags.isOpen = false)
    (nextEq : ∀ other, other ≠ blk → next' other = next other) :
    LunOk pgPerBlk good raw (Function.update md blk entry) next' (unlinkOpen type lun blk) := by
  have used := ok.open_used type blk isOpen
  have notWaiting : blk ∉ lun.waitingCp := fun waiting =>
    ok.not_open_of_waiting waiting isOpen
  constructor
  case open_of_flags =>
    intro other used flagged stillOpen
    have differ : other ≠ blk := by grind [Function.update_apply]
    obtain ⟨kind, mem⟩ := ok.open_of_flags other used
      (by simpa [differ] using flagged) (by simpa [differ] using stillOpen)
    exact ⟨kind, by grind⟩
  all_goals grind [unlinkOpen, Function.update_apply]

/-- A waiting block becomes free. -/
theorem moveFree (ok : LunOk pgPerBlk good raw md next lun) {rest : List Nat}
    (waiting : lun.waitingCp = blk :: rest) {entry : BlkMdEntry}
    (cleared : entry.flags.used = false) :
    LunOk pgPerBlk good raw (Function.update md blk entry) next
      (ChProv.moveFree { lun with waitingCp := rest } blk) := by
  have isWaiting : blk ∈ lun.waitingCp := by simp [waiting]
  have used := ok.waiting_used blk isWaiting
  have notOpen : ∀ type, blk ∉ lun.openBlks type := fun type =>
    ok.not_open_of_waiting isWaiting
  constructor <;> simp only [ChProv.moveFree] <;> grind [Function.update_apply]

/-- A used block that is not open starts to wait for the checkpoint. -/
theorem wait (ok : LunOk pgPerBlk good raw md next lun) (isGood : good blk)
    (used : (md blk).flags.used = true) (closed : (md blk).flags.isOpen = false)
    {entry : BlkMdEntry} (cleared : entry.flags.used = false)
    (isOpen : entry.flags.isOpen = (md blk).flags.isOpen) :
    LunOk pgPerBlk good raw (Function.update md blk entry) next
      { lun with waitingCp := blk :: lun.waitingCp } := by
  have isUsed := ok.used_of_flag blk isGood used
  have erased : ¬ raw blk := by
    intro isRaw
    simp [(ok.raw_used blk isRaw).2.2] at used
  have notOpen : ∀ type, blk ∉ lun.openBlks type := by
    intro type listed
    simp [(ok.open_flags type blk listed erased).2] at closed
  constructor <;> grind [Function.update_apply]

/-! ## Start-up -/

/-- A block that the LUN does not account for is in no list. -/
theorem absent_of_new (ok : LunOk pgPerBlk good raw md next lun) (new : ¬ good blk) :
    blk ∉ lun.freeBlks ∧ blk ∉ lun.usedBlks ∧ (∀ type, blk ∉ lun.openBlks type) ∧
      blk ∉ lun.waitingCp := by
  have notUsed : blk ∉ lun.usedBlks := fun used => new ((ok.mem_iff blk).mp (Or.inr used))
  refine ⟨fun free => new ((ok.mem_iff blk).mp (Or.inl free)), notUsed, ?_⟩
  exact ok.absent_of_not_used notUsed

/-- A used block that is not open. -/
theorem allocUsed (ok : LunOk pgPerBlk good raw md next lun) (new : ¬ good blk)
    (closed : (md blk).flags.isOpen = false) :
    LunOk pgPerBlk (fun other => good other ∨ other = blk) raw md next
      { lun with usedBlks := blk :: lun.usedBlks, nusedBlks := lun.nusedBlks + 1 } := by
  obtain ⟨notFree, notUsed, notOpen, notWaiting⟩ := ok.absent_of_new new
  constructor <;> grind

/-- A used block that is open. -/
theorem allocOpen (type : LineType) (ok : LunOk pgPerBlk good raw md next lun) (new : ¬ good blk)
    (used : (md blk).flags.used = true) (isOpen : (md blk).flags.isOpen = true)
    (page : ((next blk).inside → (md blk).currentPg < pgPerBlk) ∧
      (md blk).currentPg = (next blk).page) :
    LunOk pgPerBlk (fun other => good other ∨ other = blk) raw md next
      (linkOpen type { lun with usedBlks := blk :: lun.usedBlks, nusedBlks := lun.nusedBlks + 1 }
        blk) := by
  obtain ⟨notFree, notUsed, notOpen, notWaiting⟩ := ok.absent_of_new new
  constructor
  case open_of_flags =>
    intro other otherUsed flagged otherOpen
    by_cases same : other = blk
    · exact ⟨type, by grind⟩
    · obtain ⟨kind, listed⟩ := ok.open_of_flags other (by grind [linkOpen]) flagged otherOpen
      exact ⟨kind, by grind⟩
  all_goals grind [linkOpen]

/-- A free block, which may be put anywhere in the free list. -/
theorem allocFree (ok : LunOk pgPerBlk good raw md next lun) (new : ¬ good blk)
    (unused : (md blk).flags.used = false) {free : List Nat}
    (perm : free.Perm (blk :: lun.freeBlks)) :
    LunOk pgPerBlk (fun other => good other ∨ other = blk) raw md next
      { lun with freeBlks := free, nfreeBlks := lun.nfreeBlks + 1 } := by
  obtain ⟨notFree, notUsed, -⟩ := ok.absent_of_new new
  exact
    { ok with
      free_length := by simp [perm.length_eq, ok.free_length]
      free_nodup := perm.nodup_iff.mpr (List.nodup_cons.mpr ⟨notFree, ok.free_nodup⟩)
      disjoint := by
        intro other mem
        rcases List.mem_cons.mp (perm.mem_iff.mp mem) with rfl | mem
        · exact notUsed
        · exact ok.disjoint other mem
      mem_iff := by
        intro other
        rw [perm.mem_iff, List.mem_cons, ← ok.mem_iff other]
        tauto
      used_of_flag := by
        rintro other (isGood | rfl) flagged
        · exact ok.used_of_flag other isGood flagged
        · simp [unused] at flagged }

/-- Start-up adds a block to the lists its flags select. -/
theorem alloc (rand : Nat × Nat) (ok : LunOk pgPerBlk good raw md next lun) (new : ¬ good blk)
    (page : (md blk).flags.used = true → (md blk).flags.isOpen = true →
      ((next blk).inside → (md blk).currentPg < pgPerBlk) ∧
        (md blk).currentPg = (next blk).page) :
    LunOk pgPerBlk (fun other => good other ∨ other = blk) raw md next
      (allocLun (md blk).flags rand lun blk) := by
  unfold allocLun
  split
  next used =>
    split
    next isOpen => exact ok.allocOpen _ new used isOpen (page used isOpen)
    next closed => exact ok.allocUsed new (by simpa using closed)
  next unused =>
    -- the position lies in the free list, so the block is inserted
    refine ok.allocFree new (by simpa using unused) (List.perm_insertIdx blk lun.freeBlks ?_)
    rw [← ok.free_length]
    split
    · exact Nat.zero_le _
    next some =>
      have lt := Nat.mod_lt rand.1 (Nat.pos_of_ne_zero some)
      split <;> omega

end LunOk

end OxCtrl.ChProv
