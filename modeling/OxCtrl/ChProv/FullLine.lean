import OxCtrl.ChProv.Runs

/-!
# A line without blocks

A renewal that finds no block leaves the line empty, and `ch_prov_get_ppas` returns before it
looks for new blocks if the line is empty.  A free block that comes back later is found by the
next renewal, but no allocation starts one.
-/

namespace OxCtrl.ChProv

open OxCtrl.Lib

variable {env : Env} {start : Vblk → NextPage} {chan : Chan} {type : LineType} {lun : Nat}

/-! ## Allocation of one page -/

/-- The last page of a request is handed out whether the renewal after it succeeds or not. -/
theorem getPpasLoop_one (renew : Bool) : (getPpasLoop env type 1 renew chan).2 = 0 := by
  simp only [getPpasLoop, Nat.lt_irrefl, if_false]
  split
  · split <;> rfl
  · rfl

theorem chProvGetPpas_one : (chProvGetPpas env 1 type chan).2 = 0 ↔ 0 < (chan.line type).nblks := by
  by_cases empty : (chan.line type).nblks < 1
  · rw [chProvGetPpas, if_pos empty]
    simp only [Nat.lt_one_iff.mp empty, Nat.lt_irrefl, iff_false]
    exact Int.negSucc_ne_zero 0
  · rw [chProvGetPpas, if_neg empty]
    constructor
    · intro _
      exact Nat.lt_of_not_le fun none => empty (Nat.lt_succ_of_le none)
    · intro _
      exact getPpasLoop_one false

/-! ## A renewal with a free block -/

theorem chProvBlkGet_free (core : CoreOk env start chan) (inRange : lun < env.geo.lunPerCh)
    (free : (chan.luns lun).freeBlks ≠ []) (erasable : env.erase chan.erases = .ok) :
    ∃ opened vblk, chProvBlkGet env lun type chan = (opened, some vblk) := by
  obtain ⟨blk, rest, freeEq⟩ := List.exists_cons_of_ne_nil free
  have length := (core.luns lun inRange).free_length
  rw [freeEq, List.length_cons] at length
  refine ⟨ChProv.openedChan env type ⟨lun, blk⟩ chan, ⟨lun, blk⟩, ?_⟩
  rw [chProvBlkGet, length]
  simp only [blkGetLoop, freeEq, erasable]
  rfl

theorem chProvBlkGet_none (core : CoreOk env start chan) (inRange : lun < env.geo.lunPerCh)
    (none : (chan.luns lun).freeBlks = []) : chProvBlkGet env lun type chan = (chan, .none) := by
  have length := (core.luns lun inRange).free_length
  rw [none, List.length_nil] at length
  rw [chProvBlkGet, length, blkGetLoop]

/-- The loop has collected a block, or it has not touched the channel yet and still has the LUN
with the free block. -/
def Finds (first : Chan) (lun : Nat) (renew : RenewState) : Prop :=
  renew.picked ≠ [] ∨ (renew.chan = first ∧ lunBit lun ∈ renew.lflag)

theorem Finds.visitLun {first : Chan} {renew : RenewState} (shifts : env.geo.lunPerCh ≤ 32)
    (inRange : lun < env.geo.lunPerCh) (free : (first.luns lun).freeBlks ≠ [])
    (erasable : env.erase first.erases = .ok) (ok : RenewOk env start type first renew)
    (finds : Finds first lun renew) : Finds first lun (visitLun env type renew) := by
  have collected : ∀ (chan : Chan) (vblk : Vblk),
      Finds first lun (renew.collect env chan type vblk) := by
    intro chan vblk
    left
    exact List.append_ne_nil_of_right_ne_nil _ (List.cons_ne_nil vblk [])
  rw [ChProv.visitLun]
  split
  · exact finds
  · cases found : pickOpen renew.chan renew.lun type renew.picked with
    | some vblk => exact collected renew.chan vblk
    | none =>
        dsimp only
        rcases finds with picked | ⟨untouched, listed⟩
        · -- what has been collected stays collected
          split
          · exact Or.inl picked
          · split
            · exact collected _ _
            · exact Or.inl picked
        · have here : renew.lun < env.geo.lunPerCh := ok.lun
          by_cases empty : (renew.chan.luns renew.lun).freeBlks = []
          · rw [chProvBlkGet_none ok.core here empty]
            right
            refine ⟨untouched, Finset.mem_erase.mpr ⟨?_, listed⟩⟩
            intro same
            have sameLun : lun = renew.lun := by
              rwa [lunBit, lunBit, Nat.mod_eq_of_lt (inRange.trans_le shifts),
                Nat.mod_eq_of_lt (here.trans_le shifts)] at same
            rw [untouched, ← sameLun] at empty
            exact free empty
          · have erasableHere : env.erase renew.chan.erases = .ok := by rwa [untouched]
            have opens : ∃ opened vblk,
                chProvBlkGet env renew.lun type renew.chan = (opened, some vblk) :=
              chProvBlkGet_free ok.core here empty erasableHere
            obtain ⟨opened, vblk, got⟩ := opens
            rw [got]
            dsimp only
            have spec := blkGetLoop_spec type here (renew.chan.luns renew.lun).nfreeBlks ok.core
            rw [← chProvBlkGet, got] at spec
            obtain ⟨lunEq, rest, headEq, unmarked⟩ := spec.2.2 vblk rfl
            -- the new block is the first open block and has no line flag
            have again : pickOpen opened renew.lun type renew.picked = some vblk := by
              obtain ⟨vblkLun, blk⟩ := vblk
              subst lunEq
              simp only [Chan.mdOf] at headEq unmarked
              simp [pickOpen, headEq, Chan.mdOf, unmarked]
            rw [again]
            exact collected opened vblk

theorem Finds.renewLoop {first : Chan} {renew : RenewState} (shifts : env.geo.lunPerCh ≤ 32)
    (inRange : lun < env.geo.lunPerCh) (free : (first.luns lun).freeBlks ≠ [])
    (erasable : env.erase first.erases = .ok) (fuel : Nat)
    (ok : RenewOk env start type first renew) (finds : Finds first lun renew) :
    Finds first lun (renewLoop env type fuel renew) := by
  induction fuel generalizing renew with
  | zero => exact finds
  | succ fuel ih =>
      rw [ChProv.renewLoop]
      split
      · exact finds
      · exact ih ok.visitLun.next (finds.visitLun shifts inRange free erasable ok)

/-- `ch_prov_renew_line` finds a block if some LUN has a free one and the next erase succeeds. -/
theorem chProvRenewLine_free (shifts : env.geo.lunPerCh ≤ 32) (core : CoreOk env start chan)
    (inRange : lun < env.geo.lunPerCh) (free : (chan.luns lun).freeBlks ≠ [])
    (erasable : env.erase chan.erases = .ok) : (chProvRenewLine env type chan).2 = 0 := by
  have initial : RenewOk env start type chan
      { chan := chan, lun := 0, lflag := allLuns env, picked := [] } :=
    ⟨core, .refl chan, env.geo.lun_pos, List.nodup_nil, by simp⟩
  have listed : lunBit lun ∈ allLuns env :=
    Finset.mem_image.mpr ⟨lun, Finset.mem_range.mpr inRange, rfl⟩
  have finds := Finds.renewLoop shifts inRange free erasable (renewFuel env) initial
    (Or.inr ⟨rfl, listed⟩)
  have done := renewLoop_renewFuel_done type core
  rw [chProvRenewLine]
  generalize ChProv.renewLoop env type (renewFuel env)
    { chan := chan, lun := 0, lflag := allLuns env, picked := [] } = last at finds done
  have nonempty : last.picked ≠ [] := by
    rcases finds with picked | ⟨_, stillListed⟩
    · exact picked
    · rcases done with given | full
      · rw [given] at stillListed
        exact absurd stillListed (Finset.notMem_empty _)
      · intro empty
        rw [empty] at full
        exact absurd full (by decide)
  have counted : last.picked.length ≠ 0 := fun zero => nonempty (List.length_eq_zero_iff.mp zero)
  rw [installLine]
  simp only [if_neg counted]

/-! ## Recovery of a full channel -/

/-- In a reachable channel in which a LUN has a free block that can be erased, a page is handed
out iff the line has a block, although a renewal of the line would find one. -/
theorem get_ppas_recovers_iff (shifts : env.geo.lunPerCh ≤ 32) {md : Nat → Nat → BlkMdEntry}
    (unused : BadUnused env md) (success : chProvInit env md = some chan) (ops : List Op)
    (inRange : ∀ op ∈ ops, op.InRange env) (lunInRange : lun < env.geo.lunPerCh)
    (free : (((chProv env).run chan ops).luns lun).freeBlks ≠ [])
    (erasable : env.erase ((chProv env).run chan ops).erases = .ok) (type : LineType) :
    ((chProvGetPpas env 1 type ((chProv env).run chan ops)).2 = 0 ↔
        0 < (((chProv env).run chan ops).line type).nblks) ∧
      (chProvGetPpas env 1 type
        (chProvRenewLine env type ((chProv env).run chan ops)).1).2 = 0 := by
  have core := (chanOk_run unused success inRange).core
  constructor
  · exact chProvGetPpas_one
  · apply chProvGetPpas_one.mpr
    apply (chProvRenewLine_spec type core).nonempty
    exact chProvRenewLine_free shifts core lunInRange free erasable

/-- A small channel in which every erase succeeds. -/
def erasingEnv : Env where
  geo := .small
  entPerPg := 4
  bad _ _ := false
  erase _ := .ok
  rand _ _ := (0, 0)

/-- The channel after start-up: the metadata line holds the last four free blocks. -/
def erasingChan : Chan :=
  (chProvInit erasingEnv freshMd).getD {}

theorem chProvInit_erasingEnv : chProvInit erasingEnv freshMd = some erasingChan := by
  have started : (chProvInit erasingEnv freshMd).isSome = true := by decide +kernel
  obtain ⟨chan, success⟩ := Option.isSome_iff_exists.mp started
  rw [erasingChan, success, Option.getD_some]

/-- The metadata line is written to its end; one of its blocks is put, and a checkpoint completes
the put. -/
def fillMetadata : List Op :=
  [.getPpas 8 .metadata, .put ⟨0, 4⟩, .completePuts]

theorem fillMetadata_inRange : ∀ op ∈ fillMetadata, op.InRange erasingEnv := by
  simp [fillMetadata, Op.InRange, erasingEnv, Geometry.small]

theorem get_ppas_recovers_user :
    ((chProvGetPpas erasingEnv 1 .user ((chProv erasingEnv).run erasingChan fillMetadata)).2 = 0 ↔
        0 < (((chProv erasingEnv).run erasingChan fillMetadata).line .user).nblks) ∧
      (chProvGetPpas erasingEnv 1 .user (chProvRenewLine erasingEnv .user
        ((chProv erasingEnv).run erasingChan fillMetadata)).1).2 = 0 :=
  @get_ppas_recovers_iff _ _ 0 (by decide) _ (badUnused_freshMd _)
    chProvInit_erasingEnv fillMetadata
    fillMetadata_inRange (by decide) (by decide +kernel) rfl .user

/-- Block 4 is free and can be erased, and the empty metadata line fails all the same. -/
theorem full_line_stays_empty :
    chProvInit erasingEnv freshMd = some erasingChan ∧
      (∀ op ∈ fillMetadata, op.InRange erasingEnv) ∧
      (((chProv erasingEnv).run erasingChan fillMetadata).luns 0).freeBlks = [4] ∧
      erasingEnv.erase ((chProv erasingEnv).run erasingChan fillMetadata).erases = .ok ∧
      (chProvGetPpas erasingEnv 1 .metadata
        ((chProv erasingEnv).run erasingChan fillMetadata)).2 ≠ 0 :=
  ⟨chProvInit_erasingEnv, fillMetadata_inRange, by decide +kernel, rfl, by decide +kernel⟩

end OxCtrl.ChProv
