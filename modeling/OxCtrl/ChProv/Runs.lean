import OxCtrl.ChProv.WriteLine
import OxCtrl.Lib.System

/-!
# Runs of channel provisioning

Every operation of the provisioning interface keeps the invariant of the channel,
and `ch_prov_init` establishes it.  The two main results read the invariant off: the
lists of every LUN represent the state of its blocks, and between two erases of a
block its pages are handed out in order.
-/

namespace OxCtrl.ChProv

open Lib

variable {env : Env} {start : Vblk → NextPage} {chan chan' : Chan} {type kind : LineType}
  {vblk : Vblk}

/-! ## Forced close -/

theorem isClosed_chProvBlkClose (ok : CoreOk env start chan)
    (isOpen : IsOpen env chan type vblk) :
    IsClosed env (chProvBlkClose env vblk type chan) vblk := by
  have lunOk := ok.luns vblk.lun isOpen.1
  refine ⟨isOpen.1, ?_, ?_⟩
  · simpa [chProvBlkClose, Chan.setMd, mark, Chan.setLun, unlinkOpen] using
      lunOk.open_used type vblk.blk isOpen.2
  · intro kind
    simp only [chProvBlkClose, Chan.setMd, mark, Chan.setLun, Function.update_self,
      unlinkOpen_openBlks]
    split
    · exact (lunOk.open_nodup type).not_mem_erase
    · rename_i differ
      exact fun listed => differ (lunOk.open_type kind type vblk.blk listed isOpen.2)

/-- The write pointer of a closed block may be set to any page. -/
theorem CoreOk.setPage (pg : Nat) (ok : CoreOk env start chan) (closed : IsClosed env chan vblk) :
    CoreOk env start
      ((mark env chan vblk).setMd vblk fun entry => { entry with currentPg := pg }) := by
  have lunOk := ok.luns vblk.lun closed.1
  have isGood := (lunOk.mem_iff vblk.blk).mp (Or.inr closed.2.1)
  refine ok.update (chan.luns vblk.lun) ?_ rfl (fun _ _ => Iff.rfl) (fun _ _ => rfl)
      (fun _ => Iff.rfl) ?_
    (fun inRange => ok.lost_update isGood inRange) ok.trace
  · simp [Chan.setMd, mark]
  · intro _
    refine lunOk.congr_md ?_ ?_ ?_
    · intro blk
      by_cases same : blk = vblk.blk <;> simp [same, mark]
    · intro blk
      by_cases same : blk = vblk.blk <;> simp [same, mark]
    · intro kind blk listed erased
      have differ : blk ≠ vblk.blk := by
        rintro rfl
        exact closed.2.2 kind listed
      simpa [differ, Chan.setMd, mark] using lunOk.open_page kind blk listed erased

theorem ChanOk.chProvBlkAmend (vblk : Vblk)
    (type : LineType) (ok : ChanOk env start chan) :
    ChanOk env start (chProvBlkAmend env vblk type chan).1 := by
  simp only [ChProv.chProvBlkAmend]
  split
  · rename_i mem
    have isOpen := (ok.line type).from_zero.isOpen vblk mem
    have others : ∀ kind, kind ≠ type →
        LineOk env (chProvBlkClose env vblk type chan) kind := by
      intro kind differ
      have line := ok.line kind
      refine ⟨⟨line.from_zero.length, line.from_zero.nodup, ?_⟩, line.current⟩
      intro other otherMem
      have otherOpen := line.from_zero.isOpen other otherMem
      refine isOpen_chProvBlkClose ?_ otherOpen
      rintro rfl
      exact differ ((ok.core.luns _ isOpen.1).open_type kind type _ otherOpen.2 isOpen.2)
    have renewed := chProvRenewLine_spec type (ok.core.chProvBlkClose isOpen)
    have closed := renewed.isClosed vblk (isClosed_chProvBlkClose ok.core isOpen)
    have renewedOk := renewed.chanOk others
    refine ⟨renewedOk.core.setPage _ closed, fun kind => ?_⟩
    exact (renewedOk.line kind).keep rfl fun _ otherOpen => otherOpen
  · exact ok

/-! ## Putting blocks -/

theorem ChanOk.chProvBlkPut (ok : ChanOk env start chan) (lunInRange : vblk.lun < env.geo.lunPerCh)
    (blkInRange : vblk.blk < env.geo.blkPerLun) :
    ChanOk env start (chProvBlkPut vblk chan).1 := by
  simp only [ChProv.chProvBlkPut]
  split
  · exact ok
  split
  · exact ok
  rename_i used closed
  have usedFlag : (chan.md vblk.lun vblk.blk).flags.used = true := by
    simpa [Chan.mdOf] using used
  have closedFlag : (chan.md vblk.lun vblk.blk).flags.isOpen = false := by
    simpa [Chan.mdOf] using closed
  have isGood : Good env chan.grownBad vblk.lun vblk.blk := by
    by_contra lost
    simp [ok.core.lost vblk.lun lunInRange vblk.blk blkInRange lost] at usedFlag
  have lunOk := ok.core.luns vblk.lun lunInRange
  refine ⟨?_, fun kind => (ok.line kind).keep rfl ?_⟩
  · refine ok.core.update _ rfl rfl (fun _ _ => Iff.rfl) (fun _ _ => rfl)
      (fun _ => Iff.rfl) ?_
      (fun inRange => ok.core.lost_update isGood inRange) ok.core.trace
    intro _
    exact lunOk.wait isGood usedFlag closedFlag rfl rfl
  · intro other isOpen
    refine ⟨isOpen.1, ?_⟩
    have listed := isOpen.2
    by_cases same : other.lun = vblk.lun
    · rw [same] at listed ⊢
      simpa [Chan.setLun, Chan.setMd] using listed
    · simpa [Chan.setLun, Chan.setMd, same] using listed

/-- One round of the loop that completes the puts of a LUN. -/
theorem ChanOk.completePut {rest : List Nat} (ok : ChanOk env start chan)
    (inRange : vblk.lun < env.geo.lunPerCh)
    (waiting : (chan.luns vblk.lun).waitingCp = vblk.blk :: rest) :
    ChanOk env start (chProvBlkPutNow env vblk
      (chan.setLun vblk.lun fun old => { old with waitingCp := rest })) := by
  have lunOk := ok.core.luns vblk.lun inRange
  have isGood : Good env chan.grownBad vblk.lun vblk.blk :=
    (lunOk.mem_iff vblk.blk).mp (Or.inr (lunOk.waiting_used vblk.blk (by simp [waiting])))
  refine ⟨?_, fun kind => (ok.line kind).keep rfl ?_⟩
  · refine ok.core.update (moveFree { chan.luns vblk.lun with waitingCp := rest } vblk.blk)
      ?_ rfl (fun _ _ => Iff.rfl) (fun _ _ => rfl)
      (fun _ => Iff.rfl) ?_
      (fun inRange => ok.core.lost_update isGood inRange) ok.core.trace
    · simp [chProvBlkPutNow, Chan.setLun, Chan.setMd, mark]
    · intro _
      exact lunOk.moveFree waiting rfl
  · intro other isOpen
    refine ⟨isOpen.1, ?_⟩
    have listed := isOpen.2
    by_cases same : other.lun = vblk.lun
    · rw [same] at listed ⊢
      simpa [chProvBlkPutNow, Chan.setLun, Chan.setMd, mark, moveFree] using listed
    · simpa [chProvBlkPutNow, Chan.setLun, Chan.setMd, mark, same] using listed

theorem ChanOk.putWaiting {lun : Nat} (waiting : List Nat) (ok : ChanOk env start chan)
    (inRange : lun < env.geo.lunPerCh) (eq : (chan.luns lun).waitingCp = waiting) :
    ChanOk env start (putWaiting env lun waiting chan) := by
  induction waiting generalizing chan with
  | nil => exact ok
  | cons blk rest ih =>
      refine ih (ok.completePut inRange eq) ?_
      simp [chProvBlkPutNow, Chan.setLun, Chan.setMd, mark, moveFree]

theorem ChanOk.completePuts (left lun : Nat) (ok : ChanOk env start chan)
    (inRange : lun + left ≤ env.geo.lunPerCh) :
    ChanOk env start (completePuts env left lun chan) := by
  induction left generalizing lun chan with
  | zero => exact ok
  | succ left ih =>
      exact ih (lun + 1) (ok.putWaiting _ (by omega) rfl) (by omega)

/-! ## Start-up -/

/-- The metadata does not say that a bad block is in use.  Such a block is in no list, and a put of
it would unlink it all the same. -/
def BadUnused (env : Env) (md : Nat → Nat → BlkMdEntry) : Prop :=
  ∀ lun < env.geo.lunPerCh, ∀ blk < env.geo.blkPerLun, env.bad lun blk = true →
    (md lun blk).flags.used = false

/-- Block metadata in which an open block has pages left, and a bad block is not in use. -/
structure MdOk (env : Env) (bad : Nat → Nat → Prop) (md : Nat → Nat → BlkMdEntry) : Prop where
  open_page : ∀ lun < env.geo.lunPerCh, ∀ blk < env.geo.blkPerLun,
    (md lun blk).flags.used = true → (md lun blk).flags.isOpen = true →
      (md lun blk).currentPg < env.geo.pgPerBlk
  bad_unused : ∀ lun < env.geo.lunPerCh, ∀ blk < env.geo.blkPerLun, bad lun blk →
    (md lun blk).flags.used = false

theorem setAvlb_usage (avlb : Bool) (lun blk : Nat) :
    ((setAvlb env vblk avlb chan).md lun blk).usage = (chan.md lun blk).usage := by
  unfold setAvlb
  split
  · rfl
  · simp only [Chan.setMd, mark]
    by_cases sameLun : lun = vblk.lun
    · subst sameLun
      by_cases sameBlk : blk = vblk.blk <;> simp [sameBlk, BlkMdEntry.usage]
    · simp [sameLun]

theorem setAvlb_frame (env : Env) (vblk : Vblk) (chan : Chan) (avlb : Bool) :
    (setAvlb env vblk avlb chan).luns = chan.luns ∧
      (setAvlb env vblk avlb chan).line = chan.line ∧
      (setAvlb env vblk avlb chan).grownBad = chan.grownBad ∧
      (setAvlb env vblk avlb chan).trace = chan.trace := by
  unfold setAvlb
  split <;> exact ⟨rfl, rfl, rfl, rfl⟩

/-- The write pointers of the loaded metadata, and the open blocks that have a page left. -/
def loadedPages (env : Env) (md : Nat → Nat → BlkMdEntry) (vblk : Vblk) : NextPage where
  page := (md vblk.lun vblk.blk).currentPg
  inside :=
    (md vblk.lun vblk.blk).flags.used = true → (md vblk.lun vblk.blk).flags.isOpen = true →
      (md vblk.lun vblk.blk).currentPg < env.geo.pgPerBlk

/-- State of `ch_prov_init_luns` after the blocks of `seen`. -/
structure InitOk (env : Env) (md : Nat → Nat → BlkMdEntry) (seen : List Vblk) (chan : Chan) :
    Prop where
  luns : ∀ lun, LunOk env.geo.pgPerBlk (fun blk => ⟨lun, blk⟩ ∈ seen ∧ env.bad lun blk = false)
    (fun _ => False) (chan.md lun) (fun blk => loadedPages env md ⟨lun, blk⟩) (chan.luns lun)
  usage : ∀ lun blk, (chan.md lun blk).usage = (md lun blk).usage
  line : chan.line = fun _ => {}
  grownBad : chan.grownBad = []
  trace : chan.trace = []

theorem initOk_nil (md : Nat → Nat → BlkMdEntry) : InitOk env md [] { md := md } := by
  refine ⟨fun lun => ?_, fun _ _ => rfl, rfl, rfl, rfl⟩
  constructor <;> simp

theorem InitOk.setAvlb {md : Nat → Nat → BlkMdEntry} {seen : List Vblk} (vblk : Vblk)
    (avlb : Bool) (ok : InitOk env md seen chan) :
    InitOk env md seen (setAvlb env vblk avlb chan) := by
  obtain ⟨luns, line, grownBad, trace⟩ := setAvlb_frame env vblk chan avlb
  refine ⟨fun lun => ?_, fun lun blk => ?_, by rw [line, ok.line], by rw [grownBad, ok.grownBad],
    by rw [trace, ok.trace]⟩
  · rw [luns]
    exact (ok.luns lun).of_usage (setAvlb_usage avlb lun)
  · rw [setAvlb_usage, ok.usage]

theorem InitOk.chProvBlkAlloc {md : Nat → Nat → BlkMdEntry} {seen : List Vblk}
    (ok : InitOk env md seen chan) (new : vblk ∉ seen) :
    InitOk env md (seen ++ [vblk]) (chProvBlkAlloc env vblk chan) := by
  have isVblk : ∀ blk, (⟨vblk.lun, blk⟩ : Vblk) = vblk ↔ blk = vblk.blk := fun blk =>
    ⟨fun same => congrArg Vblk.blk same, fun same => by rw [same]⟩
  unfold ChProv.chProvBlkAlloc
  split
  · rename_i bad
    -- a bad block joins no list
    have avlb := ok.setAvlb vblk false
    refine ⟨fun lun => ?_, avlb.usage, avlb.line, avlb.grownBad, avlb.trace⟩
    have goodEq : (fun blk => ⟨lun, blk⟩ ∈ seen ++ [vblk] ∧ env.bad lun blk = false) =
        fun blk => ⟨lun, blk⟩ ∈ seen ∧ env.bad lun blk = false := by
      funext blk
      simp only [List.mem_append, List.mem_singleton, eq_iff_iff]
      grind
    rw [goodEq]
    exact avlb.luns lun
  · rename_i good
    have avlb := ok.setAvlb vblk true
    refine ⟨fun lun => ?_, avlb.usage, avlb.line, avlb.grownBad, avlb.trace⟩
    by_cases same : lun = vblk.lun
    · subst same
      have goodEq : (fun blk => ⟨vblk.lun, blk⟩ ∈ seen ++ [vblk] ∧ env.bad vblk.lun blk = false) =
          fun blk => (⟨vblk.lun, blk⟩ ∈ seen ∧ env.bad vblk.lun blk = false) ∨ blk = vblk.blk := by
        funext blk
        simp only [List.mem_append, List.mem_singleton, isVblk, eq_iff_iff]
        grind
      rw [goodEq]
      simp only [Chan.setLun, Function.update_self]
      refine (avlb.luns vblk.lun).alloc _ (fun seenBefore => new seenBefore.1) ?_
      intro used isOpen
      have usage := avlb.usage vblk.lun vblk.blk
      simp only [BlkMdEntry.usage, Prod.mk.injEq] at usage
      rw [usage.1] at used
      rw [usage.2.1] at isOpen
      refine ⟨fun inside => ?_, usage.2.2⟩
      rw [usage.2.2]
      exact inside used isOpen
    · have goodEq : (fun blk => ⟨lun, blk⟩ ∈ seen ++ [vblk] ∧ env.bad lun blk = false) =
          fun blk => ⟨lun, blk⟩ ∈ seen ∧ env.bad lun blk = false := by
        funext blk
        have differ : (⟨lun, blk⟩ : Vblk) ≠ vblk := fun eq => same (congrArg Vblk.lun eq)
        simp [differ]
      rw [goodEq]
      simpa [Chan.setLun, same] using avlb.luns lun

theorem mem_allBlks : vblk ∈ allBlks env ↔
    vblk.lun < env.geo.lunPerCh ∧ vblk.blk < env.geo.blkPerLun := by
  obtain ⟨lun, blk⟩ := vblk
  simp [allBlks]

theorem nodup_allBlks : (allBlks env).Nodup := by
  refine List.nodup_flatMap.mpr ⟨?_, ?_⟩
  · intro lun _
    exact List.nodup_range.map fun first second same => congrArg Vblk.blk same
  · refine List.nodup_range.imp ?_
    intro first second differ vblk firstMem secondMem
    simp only [List.mem_map] at firstMem secondMem
    obtain ⟨_, _, rfl⟩ := firstMem
    obtain ⟨_, _, same⟩ := secondMem
    exact differ (congrArg Vblk.lun same).symm

theorem initOk_foldl {md : Nat → Nat → BlkMdEntry} (seen blks : List Vblk)
    (ok : InitOk env md seen chan) (nodup : (seen ++ blks).Nodup) :
    InitOk env md (seen ++ blks)
      (blks.foldl (fun chan vblk => chProvBlkAlloc env vblk chan) chan) := by
  induction blks generalizing seen chan with
  | nil => simpa using ok
  | cons vblk blks ih =>
      have new : vblk ∉ seen := by
        intro mem
        exact (List.nodup_append.mp nodup).2.2 vblk mem vblk List.mem_cons_self rfl
      simpa using ih (seen ++ [vblk]) (ok.chProvBlkAlloc new) (by simpa using nodup)

theorem chanOk_chProvInitLuns {md : Nat → Nat → BlkMdEntry} (unused : BadUnused env md) :
    ChanOk env (loadedPages env md) (chProvInitLuns env md) := by
  have init : InitOk env md (allBlks env) (chProvInitLuns env md) := by
    simpa [chProvInitLuns] using initOk_foldl [] (allBlks env) (initOk_nil md)
      (by simpa using nodup_allBlks)
  refine ⟨⟨?_, ?_, ?_, ?_⟩, ?_⟩
  · intro lun inRange
    have goodEq : Good env (chProvInitLuns env md).grownBad lun =
        fun blk => ⟨lun, blk⟩ ∈ allBlks env ∧ env.bad lun blk = false := by
      funext blk
      simp [Good, init.grownBad, mem_allBlks, inRange]
    have rawEq : Raw [] lun = fun _ => False := by
      funext blk
      simp [Raw]
    rw [goodEq, init.trace, rawEq]
    exact init.luns lun
  · intro lun lunInRange blk blkInRange notGood
    have bad : env.bad lun blk = true := by
      simpa [Good, init.grownBad, blkInRange] using notGood
    have usage := init.usage lun blk
    simp only [BlkMdEntry.usage, Prod.mk.injEq] at usage
    rw [usage.1]
    exact unused lun lunInRange blk blkInRange bad
  · rw [init.trace]
    exact .nil
  · simp [init.trace]
  · intro type
    refine ⟨⟨?_, ?_, ?_⟩, ?_⟩ <;> simp [init.line, Line.blks]

theorem ChanOk.chProvRenewLine (type : LineType)
    (ok : ChanOk env start chan) : ChanOk env start (chProvRenewLine env type chan).1 :=
  (chProvRenewLine_spec type ok.core).chanOk fun kind _ => ok.line kind

theorem ChanOk.initLines (types : List LineType)
    (ok : ChanOk env start chan) (success : initLines env types chan = some chan') :
    ChanOk env start chan' := by
  induction types generalizing chan with
  | nil =>
      obtain rfl : chan = chan' := by simpa [ChProv.initLines] using success
      exact ok
  | cons type types ih =>
      have renewed := ok.chProvRenewLine type
      simp only [ChProv.initLines] at success
      split at success
      · rename_i chan'' result
        rw [result] at renewed
        exact ih renewed success
      · contradiction

theorem chanOk_chProvInit {md : Nat → Nat → BlkMdEntry} (unused : BadUnused env md)
    (success : chProvInit env md = some chan) : ChanOk env (loadedPages env md) chan :=
  (chanOk_chProvInitLuns unused).initLines _ success

/-! ## Runs -/

/-- The operation names a block or a LUN of the channel. -/
def Op.InRange (env : Env) : Op → Prop
  | .put vblk => vblk.lun < env.geo.lunPerCh ∧ vblk.blk < env.geo.blkPerLun
  | .blkGet lun _ => lun < env.geo.lunPerCh
  | _ => True

/-- Channel provisioning as a system driven by its operations. -/
def chProv (env : Env) : System Chan Op Unit where
  step chan op := (step env chan op, ())

theorem ChanOk.step (op : Op) (inRange : op.InRange env)
    (ok : ChanOk env start chan) : ChanOk env start (step env chan op) := by
  cases op with
  | getPpas pgs type => exact ok.chProvGetPpas pgs type
  | amend vblk type => exact ok.chProvBlkAmend vblk type
  | put vblk => exact ok.chProvBlkPut inRange.1 inRange.2
  | completePuts => exact ok.completePuts _ 0 (by simp)
  | renewLine type => exact ok.chProvRenewLine type
  | blkGet lun type =>
      obtain ⟨core, grows, -⟩ := blkGetLoop_spec type inRange
        (chan.luns lun).nfreeBlks ok.core
      exact ⟨core, fun kind => (ok.line kind).keep grows.line (grows.isOpen kind)⟩

/-- The invariant holds in every state that a run from start-up reaches. -/
theorem chanOk_run {md : Nat → Nat → BlkMdEntry} (unused : BadUnused env md)
    (success : chProvInit env md = some chan) {ops : List Op}
    (inRange : ∀ op ∈ ops, op.InRange env) :
    ChanOk env (loadedPages env md) ((chProv env).run chan ops) :=
  (chProv env).run_invariant (fun _ op => op.InRange env) (ChanOk env (loadedPages env md))
    (fun _ op allowed ok => ok.step op allowed)
    (chanOk_chProvInit unused success) ((chProv env).allowed_of_forall_mem inRange chan)

/-- Every block of the channel had a page left if it was open at start-up. -/
def PagesLeft (env : Env) (start : Vblk → NextPage) : Prop :=
  ∀ lun < env.geo.lunPerCh, ∀ blk < env.geo.blkPerLun, (start ⟨lun, blk⟩).inside

theorem MdOk.pagesLeft {bad : Nat → Nat → Prop} {md : Nat → Nat → BlkMdEntry}
    (mdOk : MdOk env bad md) : PagesLeft env (loadedPages env md) :=
  fun lun lunInRange blk blkInRange => mdOk.open_page lun lunInRange blk blkInRange

/-- An open block that has been erased has a page left. -/
theorem CoreOk.page_lt (core : CoreOk env start chan) (left : PagesLeft env start)
    (isOpen : IsOpen env chan type vblk) (erased : ¬ Raw chan.trace vblk.lun vblk.blk) :
    (chan.mdOf vblk).currentPg < env.geo.pgPerBlk :=
  ((core.luns vblk.lun isOpen.1).open_page type vblk.blk isOpen.2 erased).1
    (inside_nextPage (left _ isOpen.1 _ (core.good_of_isOpen isOpen).1) chan.trace)

/-- The metadata that a run leaves behind may start a channel again. -/
theorem ChanOk.mdOk (ok : ChanOk env start chan) (left : PagesLeft env start) :
    MdOk env (fun lun blk => env.bad lun blk = true ∨ ⟨lun, blk⟩ ∈ chan.grownBad) chan.md where
  open_page lun lunInRange blk blkInRange used isOpen := by
    have lunOk := ok.core.luns lun lunInRange
    have isGood : Good env chan.grownBad lun blk := by
      by_contra lost
      simp [ok.core.lost lun lunInRange blk blkInRange lost] at used
    obtain ⟨type, listed⟩ :=
      lunOk.open_of_flags blk (lunOk.used_of_flag blk isGood used) used isOpen
    refine @CoreOk.page_lt env start chan type ⟨lun, blk⟩ ok.core left ⟨lunInRange, listed⟩ ?_
    intro isRaw
    simp [(lunOk.raw_used blk isRaw).2.2] at used
  bad_unused lun lunInRange blk blkInRange bad := by
    refine ok.core.lost lun lunInRange blk blkInRange ?_
    rintro ⟨-, notBad, notGrown⟩
    rcases bad with bad | grown
    · simp [bad] at notBad
    · exact notGrown grown

/-! ## Representation of the blocks -/

/-- Provisioning of a small channel in which the fourth erase fails. -/
def smallEnv : Env where
  geo := .small
  entPerPg := 4
  bad _ blk := blk = 5
  erase n := if n = 3 then .failed else .ok
  rand _ _ := (0, 0)

/-- Block metadata as `oxb_blk_md_create` writes it. -/
def freshMd : Nat → Nat → BlkMdEntry :=
  fun _ _ => {}

theorem mdOk_freshMd (env : Env) (bad : Nat → Nat → Prop) : MdOk env bad freshMd :=
  ⟨by simp [freshMd], by simp [freshMd]⟩

theorem badUnused_freshMd (env : Env) : BadUnused env freshMd :=
  fun _ _ _ _ _ => rfl

/-- A run that fills and recycles the first block of the user line. -/
def smallOps : List Op :=
  [.getPpas 9 .user, .put ⟨0, 0⟩, .completePuts, .renewLine .metadata]

theorem smallOps_inRange : ∀ op ∈ smallOps, op.InRange smallEnv := by
  simp [smallOps, Op.InRange, smallEnv, Geometry.small]

/-- The small channel after start-up. -/
def smallChan : Chan :=
  (chProvInit smallEnv freshMd).getD {}

theorem chProvInit_smallEnv : chProvInit smallEnv freshMd = some smallChan := by
  have started : (chProvInit smallEnv freshMd).isSome = true := by decide +kernel
  obtain ⟨chan, success⟩ := Option.isSome_iff_exists.mp started
  rw [smallChan, success, Option.getD_some]

/-- Pages of a block that a part of the trace hands out, in order. -/
def pagesOf (vblk : Vblk) (events : List Event) : List Nat :=
  events.filterMap fun event =>
    match event with
    | .page other pg => if other = vblk then some pg else none
    | _ => none

theorem pagesOf_append (vblk : Vblk) (first second : List Event) :
    pagesOf vblk (first ++ second) = pagesOf vblk first ++ pagesOf vblk second :=
  List.filterMap_append

/-- Without an erase in between, the pages of a block follow each other. -/
theorem Sequential.pagesOf_eq {pgPerBlk : Nat} {before segment : List Event}
    (sequential : Sequential pgPerBlk start (before ++ segment))
    (noErase : .erase vblk ∉ segment) (erased : .unerased vblk ∉ before ++ segment)
    (inside : (nextPage start before vblk).inside) :
    pagesOf vblk segment =
        List.range' (nextPage start before vblk).page (pagesOf vblk segment).length ∧
      (nextPage start (before ++ segment) vblk).page =
        (nextPage start before vblk).page + (pagesOf vblk segment).length ∧
      ∀ pg ∈ pagesOf vblk segment, pg < pgPerBlk := by
  -- the segment grows at its end, as the trace does
  induction segment using List.reverseRecOn with
  | nil => simp [pagesOf]
  | append_singleton segment event ih =>
      rw [← List.append_assoc] at sequential erased
      obtain ⟨rest, -, last⟩ := sequential.of_append_singleton
      obtain ⟨pages, next, below⟩ := ih rest (fun mem => noErase (List.mem_append_left _ mem))
        fun mem => erased (List.mem_append_left _ mem)
      rw [← List.append_assoc, nextPage_append_singleton, pagesOf_append]
      cases event with
      | erase other =>
          have differ : vblk ≠ other := by
            rintro rfl
            simp at noErase
          have none : pagesOf vblk [.erase other] = [] := by simp [pagesOf]
          rw [none]
          simpa [stepPage, differ] using ⟨pages, next, below⟩
      | unerased other =>
          have none : pagesOf vblk [.unerased other] = [] := by simp [pagesOf]
          rw [none]
          simpa [stepPage] using ⟨pages, next, below⟩
      | page other pg =>
          by_cases same : other = vblk
          · subst same
            obtain ⟨pgEq, pgBelow⟩ := last other pg rfl fun mem =>
              erased (List.mem_append_left _ mem)
            rw [nextPage_append] at pgBelow
            have pgLt := pgBelow (inside_nextPage inside segment)
            have one : pagesOf other [.page other pg] = [pg] := by simp [pagesOf]
            rw [one]
            refine ⟨?_, ?_, ?_⟩
            · rw [List.length_append, List.length_singleton, List.range'_concat, ← pages, one_mul,
                ← next, pgEq]
            · simp [stepPage, NextPage.succ, next]
              omega
            · intro page mem
              rcases List.mem_append.mp mem with old | new
              · exact below page old
              · obtain rfl : page = pg := by simpa using new
                exact pgLt
          · have differ : vblk ≠ other := fun eq => same eq.symm
            have none : pagesOf vblk [.page other pg] = [] := by simp [pagesOf, same]
            rw [none]
            simpa [stepPage, differ] using ⟨pages, next, below⟩

theorem Sequential.of_append {pgPerBlk : Nat} {first second : List Event}
    (sequential : Sequential pgPerBlk start (first ++ second)) :
    Sequential pgPerBlk start first := by
  induction second using List.reverseRecOn with
  | nil => simpa using sequential
  | append_singleton second event ih =>
      rw [← List.append_assoc] at sequential
      exact ih sequential.of_append_singleton.1

/-- A block that is erased was never opened without an erase before. -/
theorem Sequential.not_unerased {pgPerBlk : Nat} {before after : List Event}
    (sequential : Sequential pgPerBlk start (before ++ .erase vblk :: after)) :
    .unerased vblk ∉ before := by
  rw [show before ++ Event.erase vblk :: after = (before ++ [.erase vblk]) ++ after by simp]
    at sequential
  exact sequential.of_append.of_append_singleton.2.1 vblk rfl

/-- In every run, the pages of a block handed out after an erase and before the next
one are `0, 1, 2, …` in this order, all below `pg_per_blk`.  The same holds after the
last erase of a block as long as the block has not been opened without an erase for
lack of memory. -/
theorem pages_between_erases {md : Nat → Nat → BlkMdEntry} (unused : BadUnused env md)
    (success : chProvInit env md = some chan) (ops : List Op)
    (inRange : ∀ op ∈ ops, op.InRange env) (vblk : Vblk) (before segment after : List Event)
    (trace : ((chProv env).run chan ops).trace = before ++ .erase vblk :: segment ++ after)
    (noErase : .erase vblk ∉ segment)
    (ends : .erase vblk ∈ after ∨ .unerased vblk ∉ segment) :
    pagesOf vblk segment = List.range (pagesOf vblk segment).length ∧
      ∀ pg ∈ pagesOf vblk segment, pg < env.geo.pgPerBlk := by
  have sequential := (chanOk_run unused success inRange).core.trace
  rw [trace] at sequential
  have notBefore : .unerased vblk ∉ before := by
    rw [List.append_assoc] at sequential
    exact sequential.not_unerased
  have notInSegment : .unerased vblk ∉ segment := by
    rcases ends with again | notThere
    · obtain ⟨gap, rest, rfl⟩ := List.append_of_mem again
      rw [show before ++ Event.erase vblk :: segment ++ (gap ++ .erase vblk :: rest) =
        (before ++ .erase vblk :: segment ++ gap) ++ .erase vblk :: rest by simp] at sequential
      have := sequential.not_unerased
      simp_all
    · exact notThere
  have untilErase := sequential.of_append
  rw [show before ++ Event.erase vblk :: segment = (before ++ [.erase vblk]) ++ segment by simp]
    at untilErase
  obtain ⟨pages, -, below⟩ := untilErase.pagesOf_eq noErase (by simp [notBefore, notInSegment])
    (by simp [stepPage, NextPage.ofErase])
  refine ⟨?_, below⟩
  rw [nextPage_append_singleton] at pages
  simpa [stepPage, NextPage.ofErase, List.range_eq_range'] using pages

/-- Events of the run on the small channel between the two erases of block 0. -/
def smallSegment : List Event :=
  (((chProv smallEnv).run smallChan smallOps).trace.drop 1).dropLast

theorem pages_between_erases_small :
    pagesOf ⟨0, 0⟩ smallSegment = [0, 1] ∧
      pagesOf ⟨0, 0⟩ smallSegment = List.range (pagesOf ⟨0, 0⟩ smallSegment).length ∧
      ∀ pg ∈ pagesOf ⟨0, 0⟩ smallSegment, pg < 2 := by
  refine ⟨by decide +kernel, ?_⟩
  exact pages_between_erases (badUnused_freshMd _) chProvInit_smallEnv smallOps smallOps_inRange
    ⟨0, 0⟩ [] smallSegment [.erase ⟨0, 0⟩] (by decide +kernel) (by decide +kernel)
    (Or.inl List.mem_cons_self)

end OxCtrl.ChProv
