import OxCtrl.ChProv.Listed
import OxCtrl.ChProv.Restart

/-!
# The used flag of a block

Page allocation, forced closes and new lines never take the used flag off a block; only a put
does.  A block that has the flag at start-up stays off the free lists, and a block that does
not have it gets it only by an erase.
-/

namespace OxCtrl.ChProv

variable {env : Env} {chan chan' chan'' : Chan} {vblk other : Vblk} {type : LineType}

/-! ## Operations other than a put -/

/-- An open block is in use. -/
def OpenUsed (chan : Chan) (vblk : Vblk) : Prop :=
  (chan.mdOf vblk).flags.isOpen = true → (chan.mdOf vblk).flags.used = true

/-- The block waits for a checkpoint. -/
def Waiting (chan : Chan) (vblk : Vblk) : Prop :=
  vblk.blk ∈ (chan.luns vblk.lun).waitingCp

/-- The block stays in use and the waiting list keeps it as it is. -/
structure Steady (vblk : Vblk) (chan chan' : Chan) : Prop where
  used : (chan.mdOf vblk).flags.used = true → (chan'.mdOf vblk).flags.used = true
  openUsed : OpenUsed chan vblk → OpenUsed chan' vblk
  waiting : Waiting chan' vblk ↔ Waiting chan vblk

namespace Steady

theorem refl (vblk : Vblk) (chan : Chan) : Steady vblk chan chan :=
  ⟨id, id, Iff.rfl⟩

theorem trans (first : Steady vblk chan chan') (second : Steady vblk chan' chan'') :
    Steady vblk chan chan'' where
  used := second.used ∘ first.used
  openUsed := second.openUsed ∘ first.openUsed
  waiting := second.waiting.trans first.waiting

/-- An update of metadata that takes the used flag off no block. -/
theorem setMd (other : Vblk) (change : BlkMdEntry → BlkMdEntry)
    (used : (chan.mdOf other).flags.used = true → (change (chan.mdOf other)).flags.used = true)
    (openUsed : OpenUsed chan other → (change (chan.mdOf other)).flags.isOpen = true →
      (change (chan.mdOf other)).flags.used = true) :
    Steady vblk chan (chan.setMd other change) := by
  by_cases same : vblk = other
  · subst same
    refine ⟨?_, ?_, Iff.rfl⟩
    · rwa [Chan.mdOf_setMd]
    · intro before
      rw [OpenUsed, Chan.mdOf_setMd]
      exact openUsed before
  · have md := @Chan.mdOf_setMd_of_ne chan other vblk change same
    refine ⟨?_, ?_, Iff.rfl⟩
    · rw [md]
      exact id
    · rw [OpenUsed, OpenUsed, md]
      exact id

/-- An update of a LUN that keeps the waiting list. -/
theorem setLun {lun : Nat} {change : Lun → Lun}
    (waiting : (change (chan.luns lun)).waitingCp = (chan.luns lun).waitingCp) :
    Steady vblk chan (chan.setLun lun change) := by
  refine ⟨id, id, ?_⟩
  by_cases same : vblk.lun = lun
  · subst same
    simp only [Waiting, Chan.setLun, Function.update_self, waiting]
  · simp only [Waiting, Chan.setLun, Function.update_of_ne same]

/-- Only the metadata and the lists of LUNs matter. -/
theorem congr (steady : Steady vblk chan chan') (md : chan''.md = chan'.md)
    (luns : chan''.luns = chan'.luns) : Steady vblk chan chan'' := by
  have mdOf : chan''.mdOf vblk = chan'.mdOf vblk := by rw [Chan.mdOf, Chan.mdOf, md]
  refine steady.trans ⟨?_, ?_, ?_⟩
  · rw [mdOf]
    exact id
  · rw [OpenUsed, OpenUsed, mdOf]
    exact id
  · rw [Waiting, Waiting, luns]

theorem openFirst (other : Vblk) (type : LineType) : Steady vblk chan
    (chan.setLun other.lun fun lun => ChProv.openFirst type lun other.blk) :=
  setLun rfl

theorem unlinkOpen (other : Vblk) (type : LineType) : Steady vblk chan
    (chan.setLun other.lun fun lun => ChProv.unlinkOpen type lun other.blk) :=
  setLun rfl

theorem mark (other : Vblk) : Steady vblk chan (mark env chan other) :=
  (refl vblk chan).congr rfl rfl

theorem chProvBlkClose (other : Vblk) (type : LineType) :
    Steady vblk chan (chProvBlkClose env other type chan) := by
  have unlinked : Steady vblk chan (ChProv.mark env (chan.setLun other.lun fun lun =>
      ChProv.unlinkOpen type lun other.blk) other) := (unlinkOpen other type).trans (mark other)
  refine unlinked.trans (setMd other (fun entry =>
    { entry with flags := { entry.flags with line := false, isOpen := false } }) id ?_)
  intro _ isOpen
  simp at isOpen

theorem markLine (other : Vblk) (type : LineType) :
    Steady vblk chan (markLine env other type chan) := by
  have marked : Steady vblk chan (ChProv.mark env chan other) := mark other
  exact marked.trans (setMd other _ id id)

theorem rawChan (other : Vblk) (type : LineType) :
    Steady vblk chan (rawChan type other chan) :=
  (openFirst other type).congr rfl rfl

theorem openedChan (other : Vblk) (type : LineType) :
    Steady vblk chan (openedChan env type other chan) := by
  have first : Steady vblk chan (ChProv.mark env (chan.setLun other.lun fun lun =>
      ChProv.openFirst type lun other.blk).countErase other) :=
    (openFirst other type).congr rfl rfl
  have opened := first.trans (setMd other (fun entry =>
    openedMd { entry with eraseCount := entry.eraseCount + 1 }) (fun _ => rfl) fun _ _ => rfl)
  exact opened.congr rfl rfl

theorem lostChan (other : Vblk) (type : LineType) :
    Steady vblk chan (lostChan env type other chan) := by
  have first : Steady vblk chan (ChProv.mark env (chan.setLun other.lun fun lun =>
      ChProv.openFirst type lun other.blk).countErase other) :=
    (openFirst other type).congr rfl rfl
  have counted := first.trans (setMd other (fun entry =>
    { entry with eraseCount := entry.eraseCount + 1 }) id id)
  have lists : Steady vblk chan (((ChProv.mark env (chan.setLun other.lun fun lun =>
      ChProv.openFirst type lun other.blk).countErase other).setMd other fun entry =>
        { entry with eraseCount := entry.eraseCount + 1 }).setBad other) := counted.congr rfl rfl
  have dropped := lists.trans (@setLun _ vblk other.lun (fun lun => dropBad type lun other.blk) rfl)
  exact dropped

theorem blkGetLoop (lun : Nat) (type : LineType) (nfree : Nat) :
    Steady vblk chan (blkGetLoop env lun type nfree chan).1 := by
  induction nfree generalizing chan with
  | zero => exact refl vblk chan
  | succ nfree ih =>
      cases freeEq : (chan.luns lun).freeBlks with
      | nil =>
          simp only [ChProv.blkGetLoop, freeEq]
          exact refl vblk chan
      | cons blk rest =>
          rw [blkGetLoop_cons freeEq]
          cases env.erase chan.erases with
          | noMem => exact rawChan ⟨lun, blk⟩ type
          | failed => exact (lostChan ⟨lun, blk⟩ type).trans ih
          | ok => exact openedChan ⟨lun, blk⟩ type

theorem visitLun {renew : RenewState} (steady : Steady vblk chan renew.chan) :
    Steady vblk chan (visitLun env type renew).chan := by
  rw [ChProv.visitLun]
  split
  · exact steady
  · split
    · exact steady.trans (markLine _ type)
    · have got : Steady vblk chan (ChProv.blkGetLoop env renew.lun type
          (renew.chan.luns renew.lun).nfreeBlks renew.chan).1 :=
        steady.trans (blkGetLoop _ _ _)
      rw [← chProvBlkGet] at got
      split
      next eq =>
        rw [eq] at got
        exact got
      next eq =>
        rw [eq] at got
        split
        · exact got.trans (markLine _ type)
        · exact got

theorem renewLoop {renew : RenewState} (fuel : Nat) (steady : Steady vblk chan renew.chan) :
    Steady vblk chan (renewLoop env type fuel renew).chan := by
  induction fuel generalizing renew with
  | zero => exact steady
  | succ fuel ih =>
      rw [ChProv.renewLoop]
      split
      · exact steady
      · apply ih
        exact steady.visitLun

theorem chProvRenewLine (type : LineType) : Steady vblk chan (chProvRenewLine env type chan).1 := by
  have done : Steady vblk chan (ChProv.renewLoop env type (renewFuel env)
      { chan := chan, lun := 0, lflag := allLuns env, picked := [] }).chan :=
    renewLoop (renewFuel env) (refl vblk chan)
  simp only [ChProv.chProvRenewLine, installLine]
  split
  · exact done.congr rfl rfl
  · exact done.congr rfl rfl

theorem chProvBlkAmend (other : Vblk) (type : LineType) :
    Steady vblk chan (chProvBlkAmend env other type chan).1 := by
  rw [ChProv.chProvBlkAmend]
  split
  · have renewed : Steady vblk chan (ChProv.mark env
        (ChProv.chProvRenewLine env type (ChProv.chProvBlkClose env other type chan)).1 other) :=
      ((chProvBlkClose other type).trans (chProvRenewLine type)).trans (mark other)
    exact renewed.trans (setMd other (fun entry =>
      { entry with currentPg := env.geo.pgPerBlk }) id id)
  · exact refl vblk chan

/-- A page of the block is handed out. -/
theorem handOut (other : Vblk) (pg : Nat) :
    Steady vblk chan ((ChProv.mark env (chan.log (.page other pg)) other).setMd other fun entry =>
      { entry with currentPg := entry.currentPg + 1 }) := by
  have logged : Steady vblk chan (ChProv.mark env (chan.log (.page other pg)) other) :=
    (refl vblk chan).congr rfl rfl
  exact logged.trans (setMd other _ id id)

theorem takePage (type : LineType) : Steady vblk chan (takePage env type chan).1 := by
  simp only [ChProv.takePage]
  split
  · exact (handOut _ _).trans (chProvBlkClose _ type)
  · exact handOut _ _

theorem getPpasLoop (left : Nat) (renew : Bool) :
    Steady vblk chan (getPpasLoop env type left renew chan).1 := by
  induction left generalizing chan renew with
  | zero => exact refl vblk chan
  | succ left ih =>
      have taken : Steady vblk chan (advance type (ChProv.takePage env type chan).1) :=
        (takePage type).trans ⟨id, id, Iff.rfl⟩
      have renewed : Steady vblk chan (ChProv.chProvRenewLine env type
          (advance type (ChProv.takePage env type chan).1)).1 :=
        taken.trans (chProvRenewLine type)
      simp only [ChProv.getPpasLoop]
      split
      · split
        next eq =>
          rw [eq] at renewed
          exact renewed.trans (ih false)
        next eq =>
          rw [eq] at renewed
          split
          · exact renewed
          · exact renewed.trans (ih false)
      · exact taken.trans (ih _)

theorem chProvGetPpas (pgs : Nat) (type : LineType) :
    Steady vblk chan (chProvGetPpas env pgs type chan).1 := by
  rw [ChProv.chProvGetPpas]
  split
  · exact refl vblk chan
  · exact getPpasLoop pgs false

/-- A put of another block, or one that is refused. -/
theorem chProvBlkPut (refused : other = vblk → (chan.mdOf vblk).flags.used = true →
    (chan.mdOf vblk).flags.isOpen = true) : Steady vblk chan (chProvBlkPut other chan).1 := by
  rw [ChProv.chProvBlkPut]
  split
  · exact refl vblk chan
  · split
    · exact refl vblk chan
    · rename_i used closed
      have differ : other ≠ vblk := by
        rintro rfl
        exact closed (refused rfl (by simpa using used))
      have md := @Chan.mdOf_setMd_of_ne chan other vblk
        (fun entry => { entry with flags := { entry.flags with used := false } }) differ.symm
      refine ⟨?_, ?_, ?_⟩
      · rw [Chan.mdOf_setLun, md]
        exact id
      · intro openUsed
        rw [OpenUsed, Chan.mdOf_setLun, md]
        exact openUsed
      · by_cases same : vblk.lun = other.lun
        · have blkNe : vblk.blk ≠ other.blk := fun sameBlk =>
            differ (Vblk.eq_of_lun_blk same sameBlk).symm
          simp [Waiting, Chan.setLun, Chan.setMd, same, blkNe]
        · simp [Waiting, Chan.setLun, Chan.setMd, same]

theorem setAvlb (other : Vblk) (avlb : Bool) :
    Steady vblk chan (setAvlb env other avlb chan) := by
  rw [ChProv.setAvlb]
  split
  · exact refl vblk chan
  · have marked : Steady vblk chan (ChProv.mark env chan other) := mark other
    exact marked.trans (setMd other (fun entry =>
      { entry with flags := { entry.flags with avlb := avlb } }) id id)

theorem chProvBlkAlloc (other : Vblk) : Steady vblk chan (chProvBlkAlloc env other chan) := by
  rw [ChProv.chProvBlkAlloc]
  split
  · exact setAvlb other false
  · refine (setAvlb other true).trans (setLun ?_)
    rw [allocLun]
    split
    · dsimp only
      split
      · rfl
      · rfl
    · rfl

theorem chProvInitLuns (md : Nat → Nat → BlkMdEntry) :
    Steady vblk { md := md } (chProvInitLuns env md) := by
  have alloc : ∀ (blks : List Vblk) (chan : Chan), Steady vblk chan
      (blks.foldl (fun chan vblk => ChProv.chProvBlkAlloc env vblk chan) chan) := by
    intro blks
    induction blks with
    | nil => exact refl vblk
    | cons other blks ih => exact fun chan => (chProvBlkAlloc other).trans (ih _)
  exact alloc (allBlks env) _

theorem initLines (types : List LineType) (success : initLines env types chan = some chan') :
    Steady vblk chan chan' := by
  induction types generalizing chan with
  | nil =>
      obtain rfl : chan = chan' := by simpa [ChProv.initLines] using success
      exact refl vblk chan
  | cons type types ih =>
      have renewed : Steady vblk chan (ChProv.chProvRenewLine env type chan).1 :=
        chProvRenewLine type
      simp only [ChProv.initLines] at success
      split at success
      next result =>
        rw [result] at renewed
        exact renewed.trans (ih success)
      · contradiction

theorem chProvInit {md : Nat → Nat → BlkMdEntry} (success : chProvInit env md = some chan) :
    Steady vblk { md := md } chan :=
  (chProvInitLuns md).trans (initLines _ success)

end Steady

/-! ## Putting blocks -/

theorem putWaiting_luns {lun at' : Nat} (waiting : List Nat) (differ : at' ≠ lun) :
    (putWaiting env lun waiting chan).luns at' = chan.luns at' := by
  induction waiting generalizing chan with
  | nil => rfl
  | cons blk rest ih =>
      rw [putWaiting, ih]
      simp [chProvBlkPutNow, Chan.setLun, Chan.setMd, mark, differ]

/-- A put takes the used flag off the blocks that wait. -/
theorem used_putWaiting (lun : Nat) (waiting : List Nat) :
    ((putWaiting env lun waiting chan).mdOf vblk).flags.used = true ↔
      (chan.mdOf vblk).flags.used = true ∧ ¬ (vblk.lun = lun ∧ vblk.blk ∈ waiting) := by
  induction waiting generalizing chan with
  | nil => simp [putWaiting]
  | cons blk rest ih =>
      rw [putWaiting, ih, chProvBlkPutNow, Chan.mdOf_setLun]
      by_cases same : vblk = ⟨lun, blk⟩
      · rw [same, Chan.mdOf_setMd]
        simp
      · rw [Chan.mdOf_setMd_of_ne same, mdOf_mark, Chan.mdOf_setLun]
        have apart : vblk.lun = lun → vblk.blk ≠ blk := fun sameLun sameBlk =>
          same (Vblk.eq_of_lun_blk sameLun sameBlk)
        rw [List.mem_cons]
        refine and_congr_right fun _ => not_congr (and_congr_right fun sameLun => ?_)
        exact (or_iff_right (apart sameLun)).symm

/-- The put of the waiting blocks takes the used flag off them and off no other block. -/
theorem used_completePuts (left lun : Nat) :
    ((completePuts env left lun chan).mdOf vblk).flags.used = true ↔
      (chan.mdOf vblk).flags.used = true ∧
        ¬ (lun ≤ vblk.lun ∧ vblk.lun < lun + left ∧ Waiting chan vblk) := by
  induction left generalizing lun chan with
  | zero =>
      have none : ¬ (lun ≤ vblk.lun ∧ vblk.lun < lun + 0 ∧ Waiting chan vblk) := by omega
      rw [completePuts]
      tauto
  | succ left ih =>
      rw [completePuts, ih, used_putWaiting]
      by_cases here : vblk.lun = lun
      · have later : ¬ lun + 1 ≤ vblk.lun := by omega
        have inRange : lun ≤ vblk.lun ∧ vblk.lun < lun + (left + 1) := by omega
        rw [Waiting, Waiting, ← here] at *
        tauto
      · have same : Waiting (putWaiting env lun (chan.luns lun).waitingCp chan) vblk ↔
            Waiting chan vblk := by
          rw [Waiting, putWaiting_luns _ here]
          rfl
        have range : (lun + 1 ≤ vblk.lun ∧ vblk.lun < lun + 1 + left) ↔
            (lun ≤ vblk.lun ∧ vblk.lun < lun + (left + 1)) := by omega
        rw [same, ← and_assoc, range, and_assoc]
        tauto

theorem isOpen_putWaiting (lun : Nat) (waiting : List Nat) :
    ((putWaiting env lun waiting chan).mdOf vblk).flags.isOpen =
      (chan.mdOf vblk).flags.isOpen := by
  induction waiting generalizing chan with
  | nil => rfl
  | cons blk rest ih =>
      rw [putWaiting, ih, chProvBlkPutNow, Chan.mdOf_setLun]
      by_cases same : vblk = ⟨lun, blk⟩
      · rw [same, Chan.mdOf_setMd]
        rfl
      · rw [Chan.mdOf_setMd_of_ne same]
        rfl

theorem isOpen_completePuts (left lun : Nat) :
    ((completePuts env left lun chan).mdOf vblk).flags.isOpen = (chan.mdOf vblk).flags.isOpen := by
  induction left generalizing lun chan with
  | zero => rfl
  | succ left ih => rw [completePuts, ih, isOpen_putWaiting]

variable {start : Vblk → NextPage}

/-- Every operation of a running channel keeps open blocks in use. -/
theorem openUsed_step (op : Op) (ok : ChanOk env start chan) (openUsed : OpenUsed chan vblk) :
    OpenUsed (step env chan op) vblk := by
  cases op with
  | getPpas pgs type => exact (Steady.chProvGetPpas pgs type).openUsed openUsed
  | amend other type => exact (Steady.chProvBlkAmend other type).openUsed openUsed
  | renewLine type => exact (Steady.chProvRenewLine type).openUsed openUsed
  | blkGet lun type => exact (Steady.blkGetLoop lun type _).openUsed openUsed
  | put other =>
      by_cases taken : other = vblk ∧ (chan.mdOf vblk).flags.isOpen = false
      · obtain ⟨rfl, closed⟩ := taken
        intro isOpen
        simp only [step, chProvBlkPut] at isOpen ⊢
        split at isOpen
        · rw [closed] at isOpen
          contradiction
        · simp [closed] at isOpen
      · have refused : Steady vblk chan (chProvBlkPut other chan).1 := by
          apply Steady.chProvBlkPut
          intro same _
          by_contra closed
          exact taken ⟨same, by simpa using closed⟩
        exact refused.openUsed openUsed
  | completePuts =>
      intro isOpen
      rw [step, isOpen_completePuts] at isOpen
      rw [step, used_completePuts]
      refine ⟨openUsed isOpen, ?_⟩
      rintro ⟨-, inLun, waiting⟩
      rw [Nat.zero_add] at inLun
      have closed := ((ok.core.luns vblk.lun inLun).waiting_flags vblk.blk waiting).2
      rw [Chan.mdOf, closed] at isOpen
      contradiction

/-- In every metadata image that a running channel writes, an open block is in use. -/
theorem openUsed_run {md : Nat → Nat → BlkMdEntry} (unused : BadUnused env md)
    (init : chProvInit env md = some chan) (image : OpenUsed { md := md } vblk) (ops : List Op)
    (inRange : ∀ op ∈ ops, op.InRange env) : OpenUsed ((chProv env).run chan ops) vblk := by
  have started := (Steady.chProvInit init).openUsed image
  have ok := chanOk_chProvInit unused init
  clear init image
  induction ops generalizing chan with
  | nil => exact started
  | cons op ops ih =>
      have here := inRange op List.mem_cons_self
      exact ih (fun later mem => inRange later (List.mem_cons_of_mem op mem))
        (openUsed_step op ok started) (ok.step op here)

/-! ## Start-up -/

/-- The block is in use, not free, and was not erased. -/
structure InUse (chan : Chan) (vblk : Vblk) : Prop where
  used : (chan.mdOf vblk).flags.used = true
  notFree : vblk.blk ∉ (chan.luns vblk.lun).freeBlks
  spared : ¬ SentErase chan vblk

/-- Blocks in use are kept, and a block comes into use by an erase only. -/
structure Spares (vblk : Vblk) (chan chan' : Chan) : Prop where
  kept : InUse chan vblk → InUse chan' vblk
  erased : ((chan.mdOf vblk).flags.used = true → SentErase chan vblk) →
    (chan'.mdOf vblk).flags.used = true → SentErase chan' vblk

namespace Spares

theorem refl (vblk : Vblk) (chan : Chan) : Spares vblk chan chan :=
  ⟨id, id⟩

theorem trans (first : Spares vblk chan chan') (second : Spares vblk chan' chan'') :
    Spares vblk chan chan'' :=
  ⟨second.kept ∘ first.kept, second.erased ∘ first.erased⟩

/-- The used flag, the free list and the erase commands stay as they are. -/
theorem of_same (used : (chan'.mdOf vblk).flags.used = (chan.mdOf vblk).flags.used)
    (free : (chan'.luns vblk.lun).freeBlks = (chan.luns vblk.lun).freeBlks)
    (sent : SentErase chan' vblk ↔ SentErase chan vblk) : Spares vblk chan chan' := by
  refine ⟨fun kept => ⟨?_, ?_, ?_⟩, fun erased => ?_⟩
  · rw [used]
    exact kept.used
  · rw [free]
    exact kept.notFree
  · rw [sent]
    exact kept.spared
  · rw [used, sent]
    exact erased

theorem markLine (other : Vblk) (type : LineType) :
    Spares vblk chan (markLine env other type chan) := by
  apply of_same
  · by_cases same : vblk = other
    · rw [same, ChProv.markLine, Chan.mdOf_setMd, mdOf_mark]
    · rw [ChProv.markLine, Chan.mdOf_setMd_of_ne same, mdOf_mark]
  · rfl
  · rfl

theorem setLine (type : LineType) (line : Line) : Spares vblk chan (chan.setLine type line) :=
  of_same rfl rfl Iff.rfl

/-- A free block is taken. -/
theorem of_taken {other : Vblk} (free : other.blk ∈ (chan.luns other.lun).freeBlks)
    (fewer : ∀ blk ∈ (chan'.luns vblk.lun).freeBlks, blk ∈ (chan.luns vblk.lun).freeBlks)
    (others : vblk ≠ other → (chan'.mdOf vblk).flags.used = (chan.mdOf vblk).flags.used ∧
      (SentErase chan' vblk ↔ SentErase chan vblk))
    (own : vblk = other → ((chan.mdOf vblk).flags.used = true → SentErase chan vblk) →
      (chan'.mdOf vblk).flags.used = true → SentErase chan' vblk) : Spares vblk chan chan' := by
  constructor
  · intro kept
    have differ : vblk ≠ other := by
      rintro rfl
      exact kept.notFree free
    obtain ⟨used, sent⟩ := others differ
    refine ⟨?_, fun mem => kept.notFree (fewer _ mem), ?_⟩
    · rw [used]
      exact kept.used
    · rw [sent]
      exact kept.spared
  · by_cases same : vblk = other
    · exact own same
    · obtain ⟨used, sent⟩ := others same
      rw [used, sent]
      exact id

theorem openFirst_fewer (other : Vblk) (type : LineType) :
    ∀ blk ∈ ((chan.setLun other.lun fun lun => openFirst type lun other.blk).luns
      vblk.lun).freeBlks, blk ∈ (chan.luns vblk.lun).freeBlks := by
  intro blk mem
  rw [Chan.setLun] at mem
  dsimp only at mem
  by_cases same : vblk.lun = other.lun
  · rw [same, Function.update_self] at mem
    rw [same]
    exact List.mem_of_mem_erase mem
  · rwa [Function.update_of_ne same] at mem

theorem rawChan {other : Vblk} (free : other.blk ∈ (chan.luns other.lun).freeBlks) :
    Spares vblk chan (rawChan type other chan) := by
  have sent : SentErase (ChProv.rawChan type other chan) vblk ↔ SentErase chan vblk := by
    simp [SentErase, ChProv.rawChan, Chan.countErase, Chan.log, Chan.setLun]
  refine of_taken free (openFirst_fewer other type) (fun _ => ⟨rfl, sent⟩) ?_
  intro _ erased used
  exact sent.mpr (erased used)

theorem openedChan {other : Vblk} (free : other.blk ∈ (chan.luns other.lun).freeBlks) :
    Spares vblk chan (openedChan env type other chan) := by
  refine of_taken free (openFirst_fewer other type) ?_ ?_
  · intro differ
    constructor
    · rw [ChProv.openedChan, Chan.mdOf_log, Chan.mdOf_setMd_of_ne differ]
      rfl
    · simp [SentErase, ChProv.openedChan, Chan.countErase, Chan.log, Chan.setLun, Chan.setMd,
        mark, differ]
  · rintro rfl _ _
    exact Or.inl (List.mem_append_right _ List.mem_cons_self)

theorem lostChan {other : Vblk} (free : other.blk ∈ (chan.luns other.lun).freeBlks) :
    Spares vblk chan (lostChan env type other chan) := by
  refine of_taken free ?_ ?_ ?_
  · intro blk mem
    apply openFirst_fewer other type
    by_cases same : vblk.lun = other.lun
    · simpa [ChProv.lostChan, Chan.setBad, Chan.setMd, mark, Chan.countErase, Chan.setLun, same,
        dropBad] using mem
    · simpa [ChProv.lostChan, Chan.setBad, Chan.setMd, mark, Chan.countErase, Chan.setLun, same]
        using mem
  · intro differ
    constructor
    · rw [ChProv.lostChan, Chan.mdOf_setLun, Chan.mdOf_setBad, Chan.mdOf_setMd_of_ne differ]
      rfl
    · simp [SentErase, ChProv.lostChan, Chan.countErase, Chan.setBad, Chan.setLun, Chan.setMd,
        mark, differ]
  · rintro rfl _ _
    exact Or.inr List.mem_cons_self

theorem blkGetLoop (lun : Nat) (type : LineType) (nfree : Nat) :
    Spares vblk chan (blkGetLoop env lun type nfree chan).1 := by
  induction nfree generalizing chan with
  | zero => exact refl vblk chan
  | succ nfree ih =>
      cases freeEq : (chan.luns lun).freeBlks with
      | nil =>
          simp only [ChProv.blkGetLoop, freeEq]
          exact refl vblk chan
      | cons blk rest =>
          have free : blk ∈ (chan.luns lun).freeBlks := by simp [freeEq]
          rw [blkGetLoop_cons freeEq]
          cases env.erase chan.erases with
          | noMem => exact @rawChan chan vblk type ⟨lun, blk⟩ free
          | failed => exact (@lostChan env chan vblk type ⟨lun, blk⟩ free).trans ih
          | ok => exact @openedChan env chan vblk type ⟨lun, blk⟩ free

theorem visitLun {renew : RenewState} (spares : Spares vblk chan renew.chan) :
    Spares vblk chan (visitLun env type renew).chan := by
  rw [ChProv.visitLun]
  split
  · exact spares
  · split
    · exact spares.trans (markLine _ type)
    · have got : Spares vblk chan (chProvBlkGet env renew.lun type renew.chan).1 :=
        spares.trans (blkGetLoop renew.lun type (renew.chan.luns renew.lun).nfreeBlks)
      split
      next eq =>
        rw [eq] at got
        exact got
      next eq =>
        rw [eq] at got
        split
        · exact got.trans (markLine _ type)
        · exact got

theorem renewLoop {renew : RenewState} (fuel : Nat) (spares : Spares vblk chan renew.chan) :
    Spares vblk chan (renewLoop env type fuel renew).chan := by
  induction fuel generalizing renew with
  | zero => exact spares
  | succ fuel ih =>
      rw [ChProv.renewLoop]
      split
      · exact spares
      · apply ih
        exact spares.visitLun

theorem chProvRenewLine (type : LineType) : Spares vblk chan (chProvRenewLine env type chan).1 := by
  have done : Spares vblk chan (ChProv.renewLoop env type (renewFuel env)
      { chan := chan, lun := 0, lflag := allLuns env, picked := [] }).chan :=
    renewLoop (renewFuel env) (refl vblk chan)
  simp only [ChProv.chProvRenewLine, installLine]
  split
  · exact done.trans (setLine type _)
  · exact done.trans (setLine type _)

theorem initLines (types : List LineType) (success : initLines env types chan = some chan') :
    Spares vblk chan chan' := by
  induction types generalizing chan with
  | nil =>
      obtain rfl : chan = chan' := by simpa [ChProv.initLines] using success
      exact refl vblk chan
  | cons type types ih =>
      have renewed : Spares vblk chan (ChProv.chProvRenewLine env type chan).1 :=
        chProvRenewLine type
      simp only [ChProv.initLines] at success
      split at success
      next result =>
        rw [result] at renewed
        exact renewed.trans (ih success)
      · contradiction

theorem used_setAvlb (other : Vblk) (avlb : Bool) :
    ((setAvlb env other avlb chan).mdOf vblk).flags.used = (chan.mdOf vblk).flags.used := by
  have usage := @setAvlb_usage env chan other avlb vblk.lun vblk.blk
  exact congrArg Prod.fst usage

/-- A block with the used flag joins no free list. -/
theorem chProvBlkAlloc (other : Vblk) : Spares vblk chan (chProvBlkAlloc env other chan) := by
  obtain ⟨quiet, others, -⟩ := @chProvBlkAlloc_frame env chan other
  have own := @chProvBlkAlloc_lun env chan other
  have used : ((ChProv.chProvBlkAlloc env other chan).mdOf vblk).flags.used =
      (chan.mdOf vblk).flags.used := by
    rw [ChProv.chProvBlkAlloc]
    split
    · exact used_setAvlb other false
    · exact used_setAvlb other true
  have sent : SentErase (ChProv.chProvBlkAlloc env other chan) vblk ↔ SentErase chan vblk := by
    rw [SentErase, SentErase, quiet.trace, quiet.grownBad]
  refine ⟨fun kept => ⟨?_, ?_, ?_⟩, fun erased => ?_⟩
  · rw [used]
    exact kept.used
  · by_cases here : vblk.lun = other.lun
    · rw [here, own]
      split
      · exact here ▸ kept.notFree
      · by_cases same : vblk = other
        · subst same
          rw [allocLun, if_pos kept.used]
          dsimp only
          split
          · exact kept.notFree
          · exact kept.notFree
        · intro mem
          rcases mem_allocLun.1 mem with sameBlk | mem
          · exact same (Vblk.eq_of_lun_blk here sameBlk)
          · exact kept.notFree (here ▸ mem)
    · rw [others _ here]
      exact kept.notFree
  · rw [sent]
    exact kept.spared
  · rw [used, sent]
    exact erased

theorem chProvInitLuns (md : Nat → Nat → BlkMdEntry) :
    Spares vblk { md := md } (chProvInitLuns env md) := by
  have alloc : ∀ (blks : List Vblk) (chan : Chan), Spares vblk chan
      (blks.foldl (fun chan vblk => ChProv.chProvBlkAlloc env vblk chan) chan) := by
    intro blks
    induction blks with
    | nil => exact refl vblk
    | cons other blks ih => exact fun chan => (chProvBlkAlloc other).trans (ih _)
  exact alloc (allBlks env) _

theorem chProvInit {md : Nat → Nat → BlkMdEntry} (success : chProvInit env md = some chan) :
    Spares vblk { md := md } chan :=
  (chProvInitLuns md).trans (initLines _ success)

end Spares

/-- A block is kept by start-up exactly when its metadata says that it is in use. -/
theorem inUse_chProvInit_iff {md : Nat → Nat → BlkMdEntry}
    (success : chProvInit env md = some chan) :
    InUse chan vblk ↔ (md vblk.lun vblk.blk).flags.used = true := by
  have spares := @Spares.chProvInit env chan vblk md success
  have unsent : ¬ SentErase { md := md } vblk := by simp [SentErase]
  constructor
  · intro kept
    by_contra unused
    exact kept.spared (spares.erased (fun used => absurd used unused) kept.used)
  · intro used
    refine spares.kept ⟨used, ?_, unsent⟩
    simp

end OxCtrl.ChProv
