import OxCtrl.ChProv.Runs
import OxCtrl.ChProv.Restart

/-!
# Lists without metadata

Log replay changes the metadata of blocks behind the back of provisioning, and the lists no
longer tell what the flags say.  What the lists say about each other holds whatever the
metadata is: free blocks are not in use, open blocks are, and the blocks of a write line are
open.
-/

namespace OxCtrl.ChProv

variable {env : Env} {chan chan' chan'' : Chan} {lun : Lun} {blk : Nat} {type kind : LineType}
  {vblk other : Vblk}

/-! ## Lists of a LUN -/

/-- The lists of a LUN. -/
structure LunLists (lun : Lun) : Prop where
  free_nodup : lun.freeBlks.Nodup
  disjoint : ∀ blk ∈ lun.freeBlks, blk ∉ lun.usedBlks
  open_nodup : ∀ type, (lun.openBlks type).Nodup
  open_used : ∀ type, ∀ blk ∈ lun.openBlks type, blk ∈ lun.usedBlks
  open_type : ∀ first second, ∀ blk ∈ lun.openBlks first, blk ∈ lun.openBlks second →
    first = second

theorem nodup_insertIdx {list : List Nat} (fresh : blk ∉ list) (nodup : list.Nodup) (pos : Nat) :
    (list.insertIdx pos blk).Nodup := by
  by_cases le : pos ≤ list.length
  · exact (List.perm_insertIdx blk list le).nodup_iff.mpr (List.nodup_cons.mpr ⟨fresh, nodup⟩)
  · rwa [List.insertIdx_of_length_lt (Nat.lt_of_not_le le)]

namespace LunLists

/-- A block joins the used list and an open list. -/
theorem linkOpen (lists : LunLists lun) (lun' : Lun) (type : LineType)
    (notUsed : blk ∉ lun.usedBlks) (isOpen : lun'.openBlks = lun.openBlks)
    (free_nodup : lun'.freeBlks.Nodup)
    (free : ∀ other ∈ lun'.freeBlks, other ∈ lun.freeBlks ∧ other ≠ blk)
    (used : ∀ other, other ∈ lun'.usedBlks ↔ other = blk ∨ other ∈ lun.usedBlks) :
    LunLists (linkOpen type lun' blk) := by
  have notOpen : ∀ kind, blk ∉ lun.openBlks kind := fun kind listed =>
    notUsed (lists.open_used kind blk listed)
  refine ⟨free_nodup, ?_, ?_, ?_, ?_⟩
  · intro other mem inUse
    obtain ⟨wasFree, differ⟩ := free other mem
    rcases (used other).mp inUse with same | wasUsed
    · exact differ same
    · exact lists.disjoint other wasFree wasUsed
  · intro kind
    rw [linkOpen_openBlks, isOpen]
    split
    · exact List.nodup_cons.mpr ⟨notOpen type, lists.open_nodup type⟩
    · exact lists.open_nodup kind
  · intro kind other listed
    rw [linkOpen_openBlks, isOpen] at listed
    apply (used other).mpr
    split at listed
    · rcases List.mem_cons.mp listed with rfl | listed
      · exact Or.inl rfl
      · exact Or.inr (lists.open_used type other listed)
    · exact Or.inr (lists.open_used kind other listed)
  · intro first second other inFirst inSecond
    rw [linkOpen_openBlks, isOpen] at inFirst inSecond
    by_cases new : other = blk
    · subst new
      have isType : ∀ kind, other ∈ (if kind = type then other :: lun.openBlks type
          else lun.openBlks kind) → kind = type := by
        intro kind mem
        by_contra differ
        rw [if_neg differ] at mem
        exact notOpen kind mem
      exact (isType first inFirst).trans (isType second inSecond).symm
    · have old : ∀ kind, other ∈ (if kind = type then blk :: lun.openBlks type
          else lun.openBlks kind) → other ∈ lun.openBlks kind := by
        intro kind mem
        split at mem
        · rename_i same
          rw [same]
          exact (List.mem_cons.mp mem).resolve_left new
        · exact mem
      exact lists.open_type first second other (old first inFirst) (old second inSecond)

theorem openFirst (lists : LunLists lun) (type : LineType) (free : blk ∈ lun.freeBlks) :
    LunLists (openFirst type lun blk) := by
  apply lists.linkOpen _ type (lists.disjoint blk free)
  · rfl
  · exact lists.free_nodup.erase blk
  · intro other mem
    obtain ⟨differ, mem⟩ := lists.free_nodup.mem_erase_iff.mp mem
    exact ⟨mem, differ⟩
  · intro other
    simp only [List.mem_append, List.mem_singleton]
    exact or_comm

/-- A block leaves the free list. -/
theorem dropFree (lists : LunLists lun) (blk nfree : Nat) :
    LunLists { lun with freeBlks := lun.freeBlks.erase blk, nfreeBlks := nfree } where
  free_nodup := lists.free_nodup.erase blk
  disjoint other mem := lists.disjoint other (List.mem_of_mem_erase mem)
  open_nodup := lists.open_nodup
  open_used := lists.open_used
  open_type := lists.open_type

theorem unlinkOpen (lists : LunLists lun) (type : LineType) (blk : Nat) :
    LunLists (unlinkOpen type lun blk) := by
  have old : ∀ kind other, other ∈ (ChProv.unlinkOpen type lun blk).openBlks kind →
      other ∈ lun.openBlks kind := by
    intro kind other mem
    rw [unlinkOpen_openBlks] at mem
    split at mem
    · rename_i same
      rw [same]
      exact List.mem_of_mem_erase mem
    · exact mem
  refine ⟨lists.free_nodup, lists.disjoint, ?_, ?_, ?_⟩
  · intro kind
    rw [unlinkOpen_openBlks]
    split
    · exact (lists.open_nodup type).erase blk
    · exact lists.open_nodup kind
  · exact fun kind other mem => lists.open_used kind other (old kind other mem)
  · exact fun first second other inFirst inSecond =>
      lists.open_type first second other (old first other inFirst) (old second other inSecond)

/-- `ch_prov_blk_alloc` adds a block that is in no list. -/
theorem allocLun (lists : LunLists lun) (flags : BlkFlags) (rand : Nat × Nat)
    (notFree : blk ∉ lun.freeBlks) (notUsed : blk ∉ lun.usedBlks) :
    LunLists (allocLun flags rand lun blk) := by
  rw [ChProv.allocLun]
  split
  · have used : LunLists
        { lun with usedBlks := blk :: lun.usedBlks, nusedBlks := lun.nusedBlks + 1 } := by
      refine ⟨lists.free_nodup, ?_, lists.open_nodup, ?_, lists.open_type⟩
      · intro other mem
        rw [List.mem_cons, not_or]
        refine ⟨?_, lists.disjoint other mem⟩
        rintro rfl
        exact notFree mem
      · exact fun kind other listed => List.mem_cons_of_mem _ (lists.open_used kind other listed)
    dsimp only
    split
    · apply lists.linkOpen _ _ notUsed
      · rfl
      · exact lists.free_nodup
      · intro other mem
        refine ⟨mem, ?_⟩
        rintro rfl
        exact notFree mem
      · exact fun other => List.mem_cons
    · exact used
  · dsimp only
    refine ⟨?_, ?_, lists.open_nodup, lists.open_used, lists.open_type⟩
    · exact nodup_insertIdx notFree lists.free_nodup _
    · intro other mem
      rcases List.eq_or_mem_of_mem_insertIdx mem with rfl | mem
      · exact notUsed
      · exact lists.disjoint other mem

end LunLists

/-! ## Opening blocks -/

/-- The lists of all LUNs. -/
def LunsListed (env : Env) (chan : Chan) : Prop :=
  ∀ lun < env.geo.lunPerCh, LunLists (chan.luns lun)

/-- Blocks are opened: the write lines and the open blocks stay, and so do the closed ones with
their metadata. -/
structure Opens (env : Env) (chan chan' : Chan) : Prop where
  luns : LunsListed env chan'
  line : chan'.line = chan.line
  isOpen : ∀ type vblk, IsOpen env chan type vblk → IsOpen env chan' type vblk
  closed : ∀ vblk, IsClosed env chan vblk →
    IsClosed env chan' vblk ∧ chan'.mdOf vblk = chan.mdOf vblk

namespace Opens

theorem refl (luns : LunsListed env chan) : Opens env chan chan :=
  ⟨luns, rfl, fun _ _ isOpen => isOpen, fun _ closed => ⟨closed, rfl⟩⟩

theorem trans (first : Opens env chan chan') (second : Opens env chan' chan'') :
    Opens env chan chan'' where
  luns := second.luns
  line := second.line.trans first.line
  isOpen type vblk isOpen := second.isOpen type vblk (first.isOpen type vblk isOpen)
  closed vblk closed := by
    obtain ⟨still, same⟩ := first.closed vblk closed
    obtain ⟨after, later⟩ := second.closed vblk still
    exact ⟨after, later.trans same⟩

end Opens

/-- The lists of one LUN change. -/
theorem LunsListed.update (luns : LunsListed env chan) {at' : Nat}
    (eq : chan'.luns = Function.update chan.luns at' lun) (lists : LunLists lun) :
    LunsListed env chan' := by
  intro other otherLt
  rw [eq]
  by_cases same : other = at'
  · rw [same, Function.update_self]
    exact lists
  · rw [Function.update_of_ne same]
    exact luns other otherLt

/-- The first free block of a LUN is taken into the used list and an open list. -/
theorem opens_openFirst (luns : LunsListed env chan) (inRange : vblk.lun < env.geo.lunPerCh)
    (free : vblk.blk ∈ (chan.luns vblk.lun).freeBlks)
    (eq : chan'.luns = Function.update chan.luns vblk.lun
      (openFirst type (chan.luns vblk.lun) vblk.blk))
    (line : chan'.line = chan.line)
    (md : ∀ other, other ≠ vblk → chan'.mdOf other = chan.mdOf other) : Opens env chan chan' where
  luns := luns.update eq ((luns _ inRange).openFirst type free)
  line := line
  isOpen kind other isOpen := by
    refine ⟨isOpen.1, ?_⟩
    rw [eq]
    by_cases same : other.lun = vblk.lun
    · rw [same, Function.update_self, openFirst_openBlks, ← same]
      split
      · rename_i sameKind
        rw [← sameKind]
        exact List.mem_cons_of_mem _ isOpen.2
      · exact isOpen.2
    · rw [Function.update_of_ne same]
      exact isOpen.2
  closed other closed := by
    have differ : other ≠ vblk := by
      rintro rfl
      exact (luns _ inRange).disjoint _ free closed.2.1
    refine ⟨⟨closed.1, ?_, ?_⟩, md other differ⟩
    · rw [eq]
      by_cases same : other.lun = vblk.lun
      · rw [same, Function.update_self]
        exact List.mem_append_left _ (same ▸ closed.2.1)
      · rw [Function.update_of_ne same]
        exact closed.2.1
    · intro kind
      rw [eq]
      by_cases same : other.lun = vblk.lun
      · rw [same, Function.update_self, openFirst_openBlks]
        have blkNe : other.blk ≠ vblk.blk := fun sameBlk =>
          differ (Vblk.eq_of_lun_blk same sameBlk)
        have notOpen := closed.2.2
        rw [same] at notOpen
        split
        · exact List.not_mem_cons_of_ne_of_not_mem blkNe (notOpen type)
        · exact notOpen kind
      · rw [Function.update_of_ne same]
        exact closed.2.2 kind

/-- A free block that could not be erased leaves the lists. -/
theorem opens_lostChan (luns : LunsListed env chan) (inRange : vblk.lun < env.geo.lunPerCh)
    (free : vblk.blk ∈ (chan.luns vblk.lun).freeBlks) :
    Opens env chan (lostChan env type vblk chan) := by
  have lists := luns _ inRange
  have notUsed := lists.disjoint _ free
  have eq : (lostChan env type vblk chan).luns = Function.update chan.luns vblk.lun
      { chan.luns vblk.lun with
        freeBlks := (chan.luns vblk.lun).freeBlks.erase vblk.blk
        nfreeBlks := (chan.luns vblk.lun).nfreeBlks - 1 } := by
    rw [← @dropBad_openFirst _ _ type notUsed]
    simp [lostChan, Chan.setBad, Chan.setMd, mark, Chan.countErase, Chan.setLun]
  have openEq : ∀ lun, ((lostChan env type vblk chan).luns lun).openBlks =
      (chan.luns lun).openBlks := by
    intro lun
    rw [eq]
    by_cases same : lun = vblk.lun <;> simp [same]
  have usedEq : ∀ lun, ((lostChan env type vblk chan).luns lun).usedBlks =
      (chan.luns lun).usedBlks := by
    intro lun
    rw [eq]
    by_cases same : lun = vblk.lun <;> simp [same]
  refine ⟨luns.update eq (lists.dropFree _ _), rfl, ?_, ?_⟩
  · intro kind other isOpen
    exact ⟨isOpen.1, by rw [openEq]; exact isOpen.2⟩
  · intro other closed
    have differ : other ≠ vblk := by
      rintro rfl
      exact notUsed closed.2.1
    refine ⟨⟨closed.1, ?_, ?_⟩, ?_⟩
    · rw [usedEq]
      exact closed.2.1
    · intro kind
      rw [openEq]
      exact closed.2.2 kind
    · rw [lostChan, Chan.mdOf_setLun, Chan.mdOf_setBad, Chan.mdOf_setMd_of_ne differ]
      rfl

theorem blkGetLoop_opens {at' : Nat} (type : LineType) (inRange : at' < env.geo.lunPerCh)
    (nfree : Nat) (luns : LunsListed env chan) :
    Opens env chan (blkGetLoop env at' type nfree chan).1 := by
  induction nfree generalizing chan with
  | zero => exact .refl luns
  | succ nfree ih =>
      cases freeEq : (chan.luns at').freeBlks with
      | nil =>
          simp only [blkGetLoop, freeEq]
          exact .refl luns
      | cons blk rest =>
          have free : blk ∈ (chan.luns at').freeBlks := by simp [freeEq]
          rw [blkGetLoop_cons freeEq]
          cases env.erase chan.erases with
          | noMem =>
              exact @opens_openFirst _ chan (rawChan type ⟨at', blk⟩ chan) type ⟨at', blk⟩ luns
                inRange free rfl rfl fun _ _ => rfl
          | failed =>
              have lost := @opens_lostChan _ chan type ⟨at', blk⟩ luns inRange free
              exact lost.trans (ih lost.luns)
          | ok =>
              apply @opens_openFirst _ chan (openedChan env type ⟨at', blk⟩ chan) type ⟨at', blk⟩
                luns inRange free rfl rfl
              intro other differ
              rw [openedChan, Chan.mdOf_log, Chan.mdOf_setMd_of_ne differ]
              rfl

/-- An open block is marked as a line block. -/
theorem opens_markLine (luns : LunsListed env chan) (isOpen : IsOpen env chan kind vblk) :
    Opens env chan (markLine env vblk type chan) where
  luns := luns
  line := rfl
  isOpen _ _ isOpen := isOpen
  closed other closed := by
    refine ⟨closed, ?_⟩
    have differ : other ≠ vblk := by
      rintro rfl
      exact closed.2.2 kind isOpen.2
    rw [markLine, Chan.mdOf_setMd_of_ne differ, mdOf_mark]

/-! ## Renewing a line -/

/-- Invariant of the loop of `ch_prov_renew_line`. -/
structure Renewing (env : Env) (type : LineType) (first : Chan) (renew : RenewState) : Prop where
  opens : Opens env first renew.chan
  lun : renew.lun < env.geo.lunPerCh
  picked : ∀ vblk ∈ renew.picked, IsOpen env renew.chan type vblk

namespace Renewing

variable {first : Chan} {renew : RenewState}

theorem setChan (ok : Renewing env type first renew) (opens : Opens env renew.chan chan)
    (lflag : Finset Nat) :
    Renewing env type first { renew with chan := chan, lflag := lflag } where
  opens := ok.opens.trans opens
  lun := ok.lun
  picked vblk mem := opens.isOpen type vblk (ok.picked vblk mem)

theorem collect (ok : Renewing env type first renew)
    (found : pickOpen renew.chan renew.lun type renew.picked = some vblk) :
    Renewing env type first (renew.collect env renew.chan type vblk) := by
  obtain ⟨lunEq, listed, -⟩ := pickOpen_eq_some found
  have isOpen : IsOpen env renew.chan type vblk := by
    rw [IsOpen, lunEq]
    exact ⟨ok.lun, listed⟩
  refine ⟨ok.opens.trans (opens_markLine ok.opens.luns isOpen), ok.lun, ?_⟩
  intro other mem
  rcases List.mem_append.mp mem with old | new
  · exact ok.picked other old
  · rw [List.mem_singleton.mp new]
    exact isOpen

theorem visitLun (ok : Renewing env type first renew) :
    Renewing env type first (visitLun env type renew) := by
  rw [ChProv.visitLun]
  split
  · exact ok
  · split
    next found => exact ok.collect found
    next =>
      have opens := blkGetLoop_opens type ok.lun (renew.chan.luns renew.lun).nfreeBlks
        ok.opens.luns
      rw [← chProvBlkGet] at opens
      split
      next got =>
        rw [got] at opens
        exact ok.setChan opens _
      next got =>
        rw [got] at opens
        have opened := ok.setChan opens renew.lflag
        split
        next found => exact opened.collect found
        next => exact opened

theorem next (ok : Renewing env type first renew) :
    Renewing env type first (renew.next env) := by
  refine ⟨ok.opens, ?_, ok.picked⟩
  have := ok.lun
  simp only [RenewState.next]
  split <;> omega

theorem renewLoop (fuel : Nat) (ok : Renewing env type first renew) :
    Renewing env type first (renewLoop env type fuel renew) := by
  induction fuel generalizing renew with
  | zero => exact ok
  | succ fuel ih =>
      rw [ChProv.renewLoop]
      split
      · exact ok
      · exact ih ok.visitLun.next

end Renewing

/-- The blocks of a line are open. -/
def LineListed (env : Env) (chan : Chan) (type : LineType) : Prop :=
  ∀ vblk ∈ (chan.line type).blks, IsOpen env chan type vblk

/-- The lists of a channel. -/
structure Listed (env : Env) (chan : Chan) : Prop where
  luns : LunsListed env chan
  lines : ∀ type, LineListed env chan type

/-- A closed block is on no line. -/
theorem Listed.not_mem (listed : Listed env chan) (closed : IsClosed env chan vblk)
    (type : LineType) : vblk ∉ (chan.line type).blks :=
  fun mem => closed.2.2 type (listed.lines type vblk mem).2

theorem LineListed.keep (listed : LineListed env chan type)
    (line : chan'.line type = chan.line type)
    (isOpen : ∀ vblk, IsOpen env chan type vblk → IsOpen env chan' type vblk) :
    LineListed env chan' type := by
  intro vblk mem
  rw [line] at mem
  exact isOpen vblk (listed vblk mem)

theorem Renewing.installLine {renew : RenewState} (ok : Renewing env type chan renew)
    (others : ∀ kind, kind ≠ type → LineListed env chan kind) :
    Listed env (installLine type renew).1 := by
  have other : ∀ line kind, kind ≠ type →
      LineListed env (renew.chan.setLine type line) kind := by
    intro line kind differ
    apply (others kind differ).keep
    · simp [Chan.setLine, differ, ok.opens.line]
    · exact ok.opens.isOpen kind
  simp only [ChProv.installLine]
  split
  · refine ⟨ok.opens.luns, fun kind => ?_⟩
    by_cases same : kind = type
    · subst same
      intro vblk mem
      simp [Chan.setLine, Line.blks] at mem
    · exact other _ kind same
  · refine ⟨ok.opens.luns, fun kind => ?_⟩
    by_cases same : kind = type
    · subst same
      intro vblk mem
      apply ok.picked vblk
      simpa [Chan.setLine, Line.blks] using mem
    · exact other _ kind same

/-- `ch_prov_renew_line` keeps the lists in order and leaves closed blocks alone. -/
theorem chProvRenewLine_listed (luns : LunsListed env chan)
    (others : ∀ kind, kind ≠ type → LineListed env chan kind) :
    Listed env (chProvRenewLine env type chan).1 ∧
      ∀ vblk, IsClosed env chan vblk → IsClosed env (chProvRenewLine env type chan).1 vblk ∧
        (chProvRenewLine env type chan).1.mdOf vblk = chan.mdOf vblk := by
  have start : Renewing env type chan
      { chan := chan, lun := 0, lflag := allLuns env, picked := [] } :=
    ⟨.refl luns, env.geo.lun_pos, by simp⟩
  have done := start.renewLoop (renewFuel env)
  refine ⟨done.installLine others, fun vblk closed => ?_⟩
  have after := done.opens.closed vblk closed
  simp only [chProvRenewLine, installLine]
  split <;> exact after

theorem Listed.chProvRenewLine (type : LineType) (listed : Listed env chan) :
    Listed env (chProvRenewLine env type chan).1 :=
  (chProvRenewLine_listed listed.luns fun kind _ => listed.lines kind).1

/-! ## Closing blocks -/

theorem lunsListed_chProvBlkClose (luns : LunsListed env chan) (vblk : Vblk) (type : LineType) :
    LunsListed env (chProvBlkClose env vblk type chan) := by
  by_cases inRange : vblk.lun < env.geo.lunPerCh
  · exact luns.update rfl ((luns _ inRange).unlinkOpen type vblk.blk)
  · intro other otherLt
    have differ : other ≠ vblk.lun := by
      rintro rfl
      exact inRange otherLt
    simpa [chProvBlkClose, Chan.setMd, mark, Chan.setLun, differ] using luns other otherLt

/-- Closing a block takes no block off the lists of other lines. -/
theorem isOpen_chProvBlkClose_of_kind (differ : kind ≠ type) (isOpen : IsOpen env chan kind other) :
    IsOpen env (chProvBlkClose env vblk type chan) kind other := by
  refine ⟨isOpen.1, ?_⟩
  have listed := isOpen.2
  by_cases sameLun : other.lun = vblk.lun
  · rw [sameLun] at listed ⊢
    simpa [ChProv.chProvBlkClose, Chan.setMd, mark, Chan.setLun, unlinkOpen_openBlks, differ]
      using listed
  · simpa [ChProv.chProvBlkClose, Chan.setMd, mark, Chan.setLun, sameLun] using listed

theorem LunsListed.isClosed (luns : LunsListed env chan) (isOpen : IsOpen env chan type vblk) :
    IsClosed env (chProvBlkClose env vblk type chan) vblk := by
  have lists := luns _ isOpen.1
  refine ⟨isOpen.1, ?_, ?_⟩
  · simpa [chProvBlkClose, Chan.setMd, mark, Chan.setLun, unlinkOpen] using
      lists.open_used type vblk.blk isOpen.2
  · intro kind
    simp only [chProvBlkClose, Chan.setMd, mark, Chan.setLun, Function.update_self,
      unlinkOpen_openBlks]
    split
    · exact (lists.open_nodup type).not_mem_erase
    · rename_i differ
      exact fun listed => differ (lists.open_type kind type vblk.blk listed isOpen.2)

theorem Listed.setMd (listed : Listed env chan) (vblk : Vblk) (change : BlkMdEntry → BlkMdEntry) :
    Listed env (chan.setMd vblk change) :=
  ⟨listed.luns, listed.lines⟩

theorem Listed.mark (listed : Listed env chan) (vblk : Vblk) : Listed env (mark env chan vblk) :=
  ⟨listed.luns, listed.lines⟩

/-- `ch_prov_blk_amend` on a block of the line. -/
theorem chProvBlkAmend_mem (listed : Listed env chan) (mem : vblk ∈ (chan.line type).blks) :
    Listed env (chProvBlkAmend env vblk type chan).1 ∧
      IsClosed env (chProvBlkAmend env vblk type chan).1 vblk ∧
      (chProvBlkAmend env vblk type chan).1.mdOf vblk =
        { chan.mdOf vblk with
          flags := { (chan.mdOf vblk).flags with line := false, isOpen := false }
          currentPg := env.geo.pgPerBlk } := by
  have isOpen := listed.lines type vblk mem
  have luns := lunsListed_chProvBlkClose listed.luns vblk type
  have others : ∀ kind, kind ≠ type →
      LineListed env (chProvBlkClose env vblk type chan) kind := by
    intro kind differ
    apply (listed.lines kind).keep
    · rfl
    · exact fun other otherOpen => isOpen_chProvBlkClose_of_kind differ otherOpen
  obtain ⟨renewed, keeps⟩ := chProvRenewLine_listed luns others
  obtain ⟨closed, md⟩ := keeps vblk (listed.luns.isClosed isOpen)
  simp only [chProvBlkAmend, if_pos mem]
  refine ⟨(renewed.mark vblk).setMd vblk _, closed, ?_⟩
  rw [Chan.mdOf_setMd, mdOf_mark, md, chProvBlkClose, Chan.mdOf_setMd, mdOf_mark, Chan.mdOf_setLun]

theorem chProvBlkAmend_not_mem (absent : vblk ∉ (chan.line type).blks) :
    chProvBlkAmend env vblk type chan = (chan, -1) := by
  simp [chProvBlkAmend, absent]

theorem Listed.chProvBlkAmend (listed : Listed env chan) (vblk : Vblk) (type : LineType) :
    Listed env (chProvBlkAmend env vblk type chan).1 := by
  by_cases mem : vblk ∈ (chan.line type).blks
  · exact (chProvBlkAmend_mem listed mem).1
  · rw [chProvBlkAmend_not_mem mem]
    exact listed

theorem Listed.chProvBlkPut (listed : Listed env chan) (vblk : Vblk) :
    Listed env (chProvBlkPut vblk chan).1 := by
  rw [ChProv.chProvBlkPut]
  split
  · exact listed
  · split
    · exact listed
    · have lunEq : ∀ lun, (((chan.setMd vblk fun entry =>
          { entry with flags := { entry.flags with used := false } }).setLun vblk.lun fun lun =>
            { lun with waitingCp := vblk.blk :: lun.waitingCp }).luns lun) =
          { chan.luns lun with
            waitingCp := if lun = vblk.lun then vblk.blk :: (chan.luns lun).waitingCp
              else (chan.luns lun).waitingCp } := by
        intro lun
        by_cases same : lun = vblk.lun
        · subst same
          simp [Chan.setLun, Chan.setMd]
        · simp [Chan.setLun, Chan.setMd, same]
      constructor
      · intro lun lunLt
        have lists := listed.luns lun lunLt
        rw [lunEq]
        exact ⟨lists.free_nodup, lists.disjoint, lists.open_nodup, lists.open_used,
          lists.open_type⟩
      · intro type
        apply (listed.lines type).keep
        · rfl
        · intro other isOpen
          refine ⟨isOpen.1, ?_⟩
          rw [lunEq]
          exact isOpen.2

/-! ## Handing out pages -/

/-- Invariant of the loop of `ch_prov_get_ppas`: while a block has been closed and the line was
not renewed, the line may hold it. -/
structure Getting (env : Env) (type : LineType) (renew : Bool) (chan : Chan) : Prop where
  luns : LunsListed env chan
  others : ∀ kind, kind ≠ type → LineListed env chan kind
  own : renew = false → LineListed env chan type

theorem Getting.listed (getting : Getting env type false chan) : Listed env chan := by
  refine ⟨getting.luns, fun kind => ?_⟩
  by_cases same : kind = type
  · rw [same]
    exact getting.own rfl
  · exact getting.others kind same

theorem Getting.takePage {renew : Bool} (getting : Getting env type renew chan) :
    Getting env type (renew || (takePage env type chan).2) (takePage env type chan).1 := by
  simp only [ChProv.takePage]
  split
  · refine ⟨lunsListed_chProvBlkClose getting.luns _ type, ?_, fun open' => by simp at open'⟩
    intro kind differ
    apply (getting.others kind differ).keep
    · rfl
    · exact fun other isOpen => isOpen_chProvBlkClose_of_kind differ isOpen
  · rw [Bool.or_false]
    exact ⟨getting.luns, getting.others, getting.own⟩

theorem Getting.advance {renew : Bool} (getting : Getting env type renew chan) :
    Getting env type renew (advance type chan) := by
  have blks : ∀ kind, ((ChProv.advance type chan).line kind).blks = (chan.line kind).blks := by
    intro kind
    by_cases same : kind = type
    · subst same
      simp [ChProv.advance, Chan.setLine, Line.blks]
    · simp [ChProv.advance, Chan.setLine, same]
  refine ⟨getting.luns, ?_, ?_⟩
  · intro kind differ vblk mem
    rw [blks] at mem
    exact getting.others kind differ vblk mem
  · intro fresh vblk mem
    rw [blks] at mem
    exact getting.own fresh vblk mem

theorem Listed.getting (listed : Listed env chan) (type : LineType) (renew : Bool) :
    Getting env type renew chan :=
  ⟨listed.luns, fun kind _ => listed.lines kind, fun _ => listed.lines type⟩

theorem Getting.getPpasLoop {renew : Bool} (left : Nat) (getting : Getting env type renew chan)
    (pending : left = 0 → renew = false) :
    Listed env (getPpasLoop env type left renew chan).1 := by
  induction left generalizing renew chan with
  | zero =>
      rw [pending rfl] at getting
      exact getting.listed
  | succ left ih =>
      have next := getting.takePage.advance
      simp only [ChProv.getPpasLoop]
      split
      · have renewed := (chProvRenewLine_listed next.luns next.others).1
        split
        next got =>
          rw [got] at renewed
          exact ih (renewed.getting type false) fun _ => rfl
        next got =>
          rw [got] at renewed
          split
          · exact renewed
          · exact ih (renewed.getting type false) fun _ => rfl
      · rename_i stays
        apply ih next
        intro last
        by_contra closed
        exact stays ⟨Or.inr last, Bool.eq_true_of_not_eq_false closed⟩

theorem Listed.chProvGetPpas (listed : Listed env chan) (pgs : Nat) (type : LineType) :
    Listed env (chProvGetPpas env pgs type chan).1 := by
  rw [ChProv.chProvGetPpas]
  split
  · exact listed
  · exact (listed.getting type false).getPpasLoop pgs fun _ => rfl

/-! ## Start-up -/

/-- The blocks in the lists were added before. -/
structure Adding (env : Env) (seen : Vblk → Prop) (chan : Chan) : Prop where
  luns : ∀ lun, LunLists (chan.luns lun)
  free : ∀ lun, ∀ blk ∈ (chan.luns lun).freeBlks, seen ⟨lun, blk⟩
  used : ∀ lun, ∀ blk ∈ (chan.luns lun).usedBlks, seen ⟨lun, blk⟩
  line : chan.line = fun _ => {}

theorem mem_allocLun {flags : BlkFlags} {rand : Nat × Nat} {blk other : Nat} :
    (other ∈ (allocLun flags rand lun blk).freeBlks → other = blk ∨ other ∈ lun.freeBlks) ∧
      (other ∈ (allocLun flags rand lun blk).usedBlks → other = blk ∨ other ∈ lun.usedBlks) := by
  rw [allocLun]
  split
  · dsimp only
    split
    · exact ⟨Or.inr, List.mem_cons.mp⟩
    · exact ⟨Or.inr, List.mem_cons.mp⟩
  · exact ⟨List.eq_or_mem_of_mem_insertIdx, Or.inr⟩

theorem chProvBlkAlloc_line (env : Env) (vblk : Vblk) (chan : Chan) :
    (chProvBlkAlloc env vblk chan).line = chan.line := by
  rw [chProvBlkAlloc]
  split
  · exact (setAvlb_frame env vblk chan false).2.1
  · exact (setAvlb_frame env vblk chan true).2.1

theorem Adding.alloc {seen : Vblk → Prop} (adding : Adding env seen chan) (fresh : ¬ seen vblk) :
    Adding env (fun other => seen other ∨ other = vblk) (chProvBlkAlloc env vblk chan) := by
  obtain ⟨-, others, -⟩ := @chProvBlkAlloc_frame env chan vblk
  have own := @chProvBlkAlloc_lun env chan vblk
  have line := (chProvBlkAlloc_line env vblk chan).trans adding.line
  split at own
  next =>
    have same : ∀ lun, (chProvBlkAlloc env vblk chan).luns lun = chan.luns lun := by
      intro lun
      by_cases here : lun = vblk.lun
      · rw [here, own]
      · exact others lun here
    refine ⟨fun lun => ?_, fun lun blk mem => ?_, fun lun blk mem => ?_, line⟩
    · rw [same]
      exact adding.luns lun
    · rw [same] at mem
      exact Or.inl (adding.free lun blk mem)
    · rw [same] at mem
      exact Or.inl (adding.used lun blk mem)
  next =>
    have notFree : vblk.blk ∉ (chan.luns vblk.lun).freeBlks := fun mem =>
      fresh (adding.free vblk.lun vblk.blk mem)
    have notUsed : vblk.blk ∉ (chan.luns vblk.lun).usedBlks := fun mem =>
      fresh (adding.used vblk.lun vblk.blk mem)
    refine ⟨fun lun => ?_, fun lun blk mem => ?_, fun lun blk mem => ?_, line⟩
    · by_cases here : lun = vblk.lun
      · rw [here, own]
        exact (adding.luns vblk.lun).allocLun _ _ notFree notUsed
      · rw [others lun here]
        exact adding.luns lun
    · by_cases here : lun = vblk.lun
      · subst here
        rw [own] at mem
        rcases mem_allocLun.1 mem with rfl | old
        · exact Or.inr rfl
        · exact Or.inl (adding.free _ _ old)
      · rw [others lun here] at mem
        exact Or.inl (adding.free lun blk mem)
    · by_cases here : lun = vblk.lun
      · subst here
        rw [own] at mem
        rcases mem_allocLun.2 mem with rfl | old
        · exact Or.inr rfl
        · exact Or.inl (adding.used _ _ old)
      · rw [others lun here] at mem
        exact Or.inl (adding.used lun blk mem)

theorem adding_foldl {seen : Vblk → Prop} (blks : List Vblk) (adding : Adding env seen chan)
    (nodup : blks.Nodup) (fresh : ∀ vblk ∈ blks, ¬ seen vblk) :
    Adding env (fun other => seen other ∨ other ∈ blks)
      (blks.foldl (fun chan vblk => chProvBlkAlloc env vblk chan) chan) := by
  induction blks generalizing seen chan with
  | nil => simpa using adding
  | cons vblk blks ih =>
      obtain ⟨new, nodup⟩ := List.nodup_cons.mp nodup
      have allocated := adding.alloc (fresh vblk List.mem_cons_self)
      have rest : ∀ other ∈ blks, ¬ (seen other ∨ other = vblk) := by
        rintro other mem (old | rfl)
        · exact fresh other (List.mem_cons_of_mem vblk mem) old
        · exact new mem
      simpa [or_assoc] using ih allocated nodup rest

/-- The lists after `ch_prov_init_luns`, whatever the metadata is. -/
theorem listed_chProvInitLuns (md : Nat → Nat → BlkMdEntry) :
    Listed env (chProvInitLuns env md) := by
  have empty : Adding env (fun _ => False) { md := md } := by
    refine ⟨fun lun => ?_, by simp, by simp, rfl⟩
    constructor <;> simp
  have added := adding_foldl (allBlks env) empty nodup_allBlks fun _ _ => not_false
  refine ⟨fun lun _ => added.luns lun, fun type vblk mem => ?_⟩
  rw [chProvInitLuns, added.line] at mem
  simp [Line.blks] at mem

theorem Listed.initLines (types : List LineType) (listed : Listed env chan)
    (success : initLines env types chan = some chan') : Listed env chan' := by
  induction types generalizing chan with
  | nil =>
      obtain rfl : chan = chan' := by simpa [ChProv.initLines] using success
      exact listed
  | cons type types ih =>
      have renewed := listed.chProvRenewLine type
      simp only [ChProv.initLines] at success
      split at success
      next result =>
        rw [result] at renewed
        exact ih renewed success
      · contradiction

/-- Start-up puts the lists in order, whatever the loaded metadata is. -/
theorem listed_chProvInit {md : Nat → Nat → BlkMdEntry} (success : chProvInit env md = some chan) :
    Listed env chan :=
  (listed_chProvInitLuns md).initLines _ success

end OxCtrl.ChProv
