import OxCtrl.InvalidCount
import OxCtrl.Recovery.ProvReplay

/-!
# Replay of a forced close

`app_tr_clb_thread` closes a block, which moves its write pointer to the end, and invalidates
the rest of the block.  The replay of the `AMEND` record finds the block through the write
line of the restarted channel.  When the block is on another line or on none it is not closed,
and the write pointer of a block that is still open is taken back to the recorded page.
-/

namespace OxCtrl.BlkMdEntry

variable {geo : Geometry} {entry other : BlkMdEntry} {pg : Nat}

variable (geo) in
/-- Every sector of the page is invalid. -/
def PageInvalid (entry : BlkMdEntry) (pg : Nat) : Prop :=
  ∀ pl < geo.nOfPlanes, ∀ sec < geo.secPerPg, entry.isInvalid geo pg pl sec

instance (geo : Geometry) (entry : BlkMdEntry) (pg : Nat) : Decidable (PageInvalid geo entry pg) :=
  inferInstanceAs (Decidable (∀ pl < geo.nOfPlanes, ∀ sec < geo.secPerPg, _))

variable (geo) in
/-- The sectors after a plane that is full are invalid. -/
def PageFills (entry : BlkMdEntry) (pg : Nat) : Prop :=
  ∀ pl < geo.nOfPlanes, entry.pgState (stateIdx geo pg pl) = fullMask geo →
    ∀ later < geo.nOfPlanes, pl < later → ∀ sec < geo.secPerPg, entry.isInvalid geo pg later sec

instance (geo : Geometry) (entry : BlkMdEntry) (pg : Nat) : Decidable (PageFills geo entry pg) :=
  inferInstanceAs (Decidable (∀ pl < geo.nOfPlanes, _ → ∀ later < geo.nOfPlanes, _ →
    ∀ sec < geo.secPerPg, _))

variable (geo) in
/-- The bytes of a page are the same. -/
def SamePage (entry other : BlkMdEntry) (pg : Nat) : Prop :=
  ∀ pl < geo.nOfPlanes, other.pgState (stateIdx geo pg pl) = entry.pgState (stateIdx geo pg pl)

theorem SamePage.isInvalid_eq (same : SamePage geo entry other pg) {pl : Nat}
    (plane : pl < geo.nOfPlanes) (sec : Nat) :
    other.isInvalid geo pg pl sec = entry.isInvalid geo pg pl sec := by
  rw [isInvalid, isInvalid, same pl plane]

theorem SamePage.pageInvalid_iff (same : SamePage geo entry other pg) :
    PageInvalid geo other pg ↔ PageInvalid geo entry pg := by
  refine forall_congr' fun pl => forall_congr' fun plane => ?_
  simp only [same.isInvalid_eq plane]

theorem SamePage.pageFills_iff (same : SamePage geo entry other pg) :
    PageFills geo other pg ↔ PageFills geo entry pg := by
  refine forall_congr' fun pl => forall_congr' fun plane => ?_
  rw [same pl plane]
  refine imp_congr_right fun _ => forall_congr' fun later => forall_congr' fun laterPlane => ?_
  simp only [same.isInvalid_eq laterPlane]

theorem isInvalid_fillPlanes (entry : BlkMdEntry) (pg k pl sec : Nat) :
    (fillPlanes geo pg 0 k entry).isInvalid geo pg pl sec =
      if pl < k then decide (sec < geo.secPerPg) else entry.isInvalid geo pg pl sec := by
  have range : stateIdx geo pg 0 ≤ stateIdx geo pg pl ∧
      stateIdx geo pg pl < stateIdx geo pg 0 + k ↔ pl < k := by
    simp [stateIdx]
  rw [isInvalid, fillPlanes]
  simp only [range]
  split
  · exact getLsbD_fullMask sec
  · rfl

/-- A full-page call leaves the page invalid exactly when its early return finds the rest of the
page invalid. -/
theorem pageInvalid_invalidate_iff (entry : BlkMdEntry) (ppa : Ppa) :
    PageInvalid geo (entry.invalidate geo ppa true) ppa.pg ↔ PageFills geo entry ppa.pg := by
  rw [invalidate, if_pos rfl]
  rcases invalidatePlanes_cases geo ppa.pg geo.nOfPlanes 0 entry with
    ⟨k, kLt, notFull, full, eq⟩ | ⟨notFull, eq⟩
  · simp only [Nat.zero_add] at notFull full
    rw [eq]
    constructor
    · intro invalid pl plane plFull later laterPlane after sec sector
      have first : k ≤ pl := Nat.le_of_not_lt fun lt => notFull pl lt plFull
      have set := invalid later laterPlane sec sector
      rwa [isInvalid_fillPlanes, if_neg (Nat.not_lt.mpr (first.trans after.le))] at set
    · intro fills pl plane sec sector
      rw [isInvalid_fillPlanes]
      split
      · exact decide_eq_true sector
      · rename_i notBefore
        rcases Nat.eq_or_lt_of_le (Nat.le_of_not_lt notBefore) with rfl | after
        · rw [isInvalid, full, getLsbD_fullMask]
          exact decide_eq_true sector
        · exact fills k kLt full pl plane after sec sector
  · simp only [Nat.zero_add] at notFull
    refine ⟨fun _ pl plane plFull => absurd plFull (notFull pl plane), fun _ => ?_⟩
    intro pl plane sec sector
    rw [eq]
    have filled := @isInvalid_fillPlanes geo entry ppa.pg geo.nOfPlanes pl sec
    rw [if_pos plane, decide_eq_true sector] at filled
    exact filled

/-- A full-page call leaves the other pages alone. -/
theorem samePage_invalidate (entry : BlkMdEntry) {ppa : Ppa} (differ : pg ≠ ppa.pg) :
    SamePage geo entry (entry.invalidate geo ppa true) pg := by
  intro pl plane
  have apart : ∀ k ≤ geo.nOfPlanes, ¬ (stateIdx geo ppa.pg 0 ≤ stateIdx geo pg pl ∧
      stateIdx geo pg pl < stateIdx geo ppa.pg 0 + k) := by
    rintro k le ⟨above, below⟩
    simp only [stateIdx, Nat.add_zero] at above below
    have first : ppa.pg.val < pg + 1 := by
      apply Nat.lt_of_mul_lt_mul_right (a := geo.nOfPlanes)
      rw [Nat.succ_mul]
      omega
    have last : pg < ppa.pg.val + 1 := by
      apply Nat.lt_of_mul_lt_mul_right (a := geo.nOfPlanes)
      rw [Nat.succ_mul]
      omega
    omega
  rw [invalidate, if_pos rfl]
  rcases invalidatePlanes_cases geo ppa.pg geo.nOfPlanes 0 entry with
    ⟨k, kLt, -, -, eq⟩ | ⟨-, eq⟩
  · rw [eq]
    exact if_neg (apart k kLt.le)
  · rw [eq]
    exact if_neg (apart geo.nOfPlanes le_rfl)

@[simp]
theorem invalidate_full_currentPg (entry : BlkMdEntry) (ppa : Ppa) :
    (entry.invalidate geo ppa true).currentPg = entry.currentPg := by
  rw [invalidate, if_pos rfl]
  rcases invalidatePlanes_cases geo ppa.pg geo.nOfPlanes 0 entry with ⟨_, _, _, _, eq⟩ | ⟨_, eq⟩
  · rw [eq, fillPlanes]
  · rw [eq, fillPlanes]

variable (geo) in
/-- Full-page calls on the pages from `pg` on. -/
def invalidatePages (ppa : Ppa) : Nat → Nat → BlkMdEntry → BlkMdEntry
  | 0, _, entry => entry
  | left + 1, pg, entry =>
      invalidatePages ppa left (pg + 1) (entry.invalidate geo (ppa.setPg pg) true)

theorem invalidatePages_fields (ppa : Ppa) (left pg : Nat) (entry : BlkMdEntry) :
    (invalidatePages geo ppa left pg entry).flags = entry.flags ∧
      (invalidatePages geo ppa left pg entry).currentPg = entry.currentPg := by
  induction left generalizing pg entry with
  | zero => exact ⟨rfl, rfl⟩
  | succ left ih =>
      have rest := ih (pg + 1) (entry.invalidate geo (ppa.setPg pg) true)
      rwa [invalidate_flags, invalidate_full_currentPg] at rest

theorem setPg_pg {ppa : Ppa} (inRange : pg < 4096) : ((ppa.setPg pg).pg : Nat) = pg :=
  Nat.mod_eq_of_lt inRange

theorem samePage_invalidatePages (ppa : Ppa) (left first : Nat) (entry : BlkMdEntry)
    (inRange : first + left ≤ 4096) (before : pg < first) :
    SamePage geo entry (invalidatePages geo ppa left first entry) pg := by
  induction left generalizing first entry with
  | zero => exact fun _ _ => rfl
  | succ left ih =>
      intro pl plane
      have rest := ih (first + 1) (entry.invalidate geo (ppa.setPg first) true)
        (by omega) (by omega) pl plane
      have differ : pg ≠ ((ppa.setPg first).pg : Nat) := by
        rw [setPg_pg (by omega)]
        exact before.ne
      exact rest.trans (samePage_invalidate entry differ pl plane)

theorem pageInvalid_invalidatePages_iff (ppa : Ppa) (left first : Nat) (entry : BlkMdEntry)
    (inRange : first + left ≤ 4096) :
    (∀ pg, first ≤ pg → pg < first + left →
        PageInvalid geo (invalidatePages geo ppa left first entry) pg) ↔
      ∀ pg, first ≤ pg → pg < first + left → PageFills geo entry pg := by
  refine forall_congr' fun pg => forall_congr' fun atLeast => forall_congr' fun below => ?_
  induction left generalizing first entry with
  | zero => exact absurd below (Nat.not_lt.mpr atLeast)
  | succ left ih =>
      have firstPg : ((ppa.setPg first).pg : Nat) = first := setPg_pg (by omega)
      rcases Nat.eq_or_lt_of_le atLeast with rfl | after
      · have same := @samePage_invalidatePages geo first ppa left (first + 1)
          (entry.invalidate geo (ppa.setPg first) true) (by omega) (Nat.lt_succ_self first)
        rw [invalidatePages, same.pageInvalid_iff]
        have page := @pageInvalid_invalidate_iff geo entry (ppa.setPg first)
        rwa [firstPg] at page
      · have same := @samePage_invalidate geo pg entry (ppa.setPg first)
          (by rw [firstPg]; exact after.ne')
        rw [invalidatePages, ← same.pageFills_iff]
        exact ih (first + 1) _ (by omega) after (by omega)

end OxCtrl.BlkMdEntry

namespace OxCtrl.Recovery

open OxCtrl.Lib
open OxCtrl.Log
open OxCtrl.ChProv
open OxCtrl.BlkMdEntry

universe u

/-- State of a block that was closed by force from page `pg` on. -/
structure ForcedClosed (geo : Geometry) (chan : Chan) (vblk : Vblk) (pg : Nat) : Prop where
  closed : (chan.mdOf vblk).flags.isOpen = false
  absent : ∀ type, vblk ∉ (chan.line type).blks
  pointer : (chan.mdOf vblk).currentPg = geo.pgPerBlk
  invalid : ∀ later, pg ≤ later → later < geo.pgPerBlk → PageInvalid geo (chan.mdOf vblk) later

/-- The block is on the line, or it was closed before. -/
def Closable (geo : Geometry) (chan : Chan) (vblk : Vblk) (type : LineType) : Prop :=
  vblk ∈ (chan.line type).blks ∨
    ((chan.mdOf vblk).flags.isOpen = false ∧ (chan.mdOf vblk).currentPg = geo.pgPerBlk ∧
      ∀ kind, vblk ∉ (chan.line kind).blks)

/-- Every page from page `pg` on is filled by a full-page call. -/
def TailFills (geo : Geometry) (chan : Chan) (vblk : Vblk) (pg : Nat) : Prop :=
  ∀ later, pg ≤ later → later < geo.pgPerBlk → PageFills geo (chan.mdOf vblk) later

/-! ## The record -/

variable {dev : Device} {μ : Type u} {maps : MapFns dev μ}

/-- `oxb_recovery_apply_fix_blk` on the channel of the address. -/
def fixChan (geo : Geometry) (ppa : Ppa) (chan : Chan) : Chan :=
  if ppa.pg.val < geo.pgPerBlk - 1 ∧ (chan.mdOf ppa.vblk).flags.isOpen then
    chan.setMd ppa.vblk fun entry => { entry with currentPg := ppa.pg }
  else chan

theorem applyFixBlk_chan (state : Chans × μ) (ppa : Ppa) :
    (oxbRecoveryApplyFixBlk (provApp dev maps) state ppa).1 ppa.ch =
      fixChan dev.geo ppa (state.1 ppa.ch) := by
  by_cases back : ppa.pg.val < dev.geo.pgPerBlk - 1 ∧
      ((state.1 ppa.ch).mdOf ppa.vblk).flags.isOpen = true
  · have fixed : oxbRecoveryApplyFixBlk (provApp dev maps) state ppa =
        (provApp dev maps).setBlk state ppa
          { (provApp dev maps).getBlk state ppa with currentPg := ppa.pg } := if_pos back
    rw [fixed, fixChan, if_pos back]
    exact Function.update_self _ _ _
  · have same : oxbRecoveryApplyFixBlk (provApp dev maps) state ppa = state := if_neg back
    rw [same, fixChan, if_neg back]

theorem invalidateTail_chan (state : Chans × μ) (ppa : Ppa) (left pg : Nat) :
    (invalidateTail (provApp dev maps) state ppa left pg).1 ppa.ch =
      (state.1 ppa.ch).setMd ppa.vblk (invalidatePages dev.geo ppa left pg) := by
  induction left generalizing state pg with
  | zero => simp [invalidateTail, invalidatePages, Chan.setMd]
  | succ left ih =>
      rw [invalidateTail, ih]
      dsimp only [provApp, invalidate]
      simp [Chan.setMd, Ppa.setPg, Ppa.vblk, invalidatePages]

theorem closeBlk_chan {type : LineType} {code : Nat} (chans : Chans) (ppa : Ppa)
    (typed : lineTypes[code]? = some type) :
    (closeBlk dev chans ppa code).1 ppa.ch =
      (chProvBlkAmend (dev.env ppa.ch) ppa.vblk type (chans ppa.ch)).1 := by
  rw [closeBlk, typed]
  exact Function.update_self _ _ _

/-- The channel after an `AMEND` record. -/
theorem amend_chan {state : RecState (Chans × μ)} {entry : LogEntry} {type : LineType}
    (kind : entry.type = .amend) (typed : lineTypes[entry.provType]? = some type) :
    (oxbRecoveryLogSwitch (provApp dev maps) state entry).1.env.1 entry.amendPpa.ch =
      fixChan dev.geo entry.amendPpa
        ((chProvBlkAmend (dev.env entry.amendPpa.ch) entry.amendPpa.vblk type
          (state.env.1 entry.amendPpa.ch)).1.setMd entry.amendPpa.vblk
            (invalidatePages dev.geo entry.amendPpa (dev.geo.pgPerBlk - entry.amendPpa.pg)
              entry.amendPpa.pg)) := by
  rw [oxbRecoveryLogSwitch, kind]
  dsimp only
  rw [applyFixBlk_chan, invalidateTail_chan]
  dsimp only [provApp]
  rw [closeBlk_chan _ _ typed]

theorem invalid_tail_iff {geo : Geometry} (ppa : Ppa) (entry : BlkMdEntry) :
    (∀ later, ppa.pg.val ≤ later → later < geo.pgPerBlk →
        PageInvalid geo (invalidatePages geo ppa (geo.pgPerBlk - ppa.pg) ppa.pg entry) later) ↔
      ∀ later, ppa.pg.val ≤ later → later < geo.pgPerBlk → PageFills geo entry later := by
  rcases Nat.le_total ppa.pg geo.pgPerBlk with inBlock | outside
  · have last : ppa.pg.val + (geo.pgPerBlk - ppa.pg) = geo.pgPerBlk := Nat.add_sub_of_le inBlock
    have pages := @pageInvalid_invalidatePages_iff geo ppa (geo.pgPerBlk - ppa.pg) ppa.pg entry
      (last.trans_le geo.pg_le)
    rwa [last] at pages
  · constructor
    · exact fun _ later first below => absurd (first.trans_lt below) (Nat.not_lt.mpr outside)
    · exact fun _ later first below => absurd (first.trans_lt below) (Nat.not_lt.mpr outside)

/-- A closed block is left as it is by the fix, and its tail is invalidated. -/
theorem forcedClosed_closed_iff {geo : Geometry} {chan : Chan} {ppa : Ppa}
    (closed : (chan.mdOf ppa.vblk).flags.isOpen = false) :
    ForcedClosed geo (fixChan geo ppa (chan.setMd ppa.vblk
        (invalidatePages geo ppa (geo.pgPerBlk - ppa.pg) ppa.pg))) ppa.vblk ppa.pg ↔
      (∀ type, ppa.vblk ∉ (chan.line type).blks) ∧
        (chan.mdOf ppa.vblk).currentPg = geo.pgPerBlk ∧ TailFills geo chan ppa.vblk ppa.pg := by
  obtain ⟨flags, pointer⟩ := @invalidatePages_fields geo ppa (geo.pgPerBlk - ppa.pg) ppa.pg
    (chan.mdOf ppa.vblk)
  have stays : (chan.setMd ppa.vblk
      (invalidatePages geo ppa (geo.pgPerBlk - ppa.pg) ppa.pg)).mdOf ppa.vblk =
        invalidatePages geo ppa (geo.pgPerBlk - ppa.pg) ppa.pg (chan.mdOf ppa.vblk) :=
    Chan.mdOf_setMd _ _ _
  rw [fixChan, stays, flags, closed, if_neg (by simp)]
  constructor
  · rintro ⟨-, absent, atEnd, invalid⟩
    rw [stays] at atEnd invalid
    exact ⟨absent, pointer.symm.trans atEnd, (invalid_tail_iff ppa _).mp invalid⟩
  · rintro ⟨absent, atEnd, fills⟩
    refine ⟨?_, absent, ?_, ?_⟩
    · rw [stays, flags, closed]
    · rw [stays, pointer, atEnd]
    · rw [stays]
      exact (invalid_tail_iff ppa _).mpr fills

/-- A block that is open stays open. -/
theorem not_forcedClosed_open {geo : Geometry} {chan : Chan} {ppa : Ppa}
    (isOpen : (chan.mdOf ppa.vblk).flags.isOpen = true) :
    ¬ ForcedClosed geo (fixChan geo ppa (chan.setMd ppa.vblk
        (invalidatePages geo ppa (geo.pgPerBlk - ppa.pg) ppa.pg))) ppa.vblk ppa.pg := by
  obtain ⟨flags, -⟩ := @invalidatePages_fields geo ppa (geo.pgPerBlk - ppa.pg) ppa.pg
    (chan.mdOf ppa.vblk)
  intro forced
  have closed := forced.closed
  rw [fixChan] at closed
  split at closed
  · rw [Chan.mdOf_setMd, Chan.mdOf_setMd, flags, isOpen] at closed
    contradiction
  · rw [Chan.mdOf_setMd, flags, isOpen] at closed
    contradiction

/-- An `AMEND` record that finds the lists of the channel in order. -/
theorem forcedClosed_amend_iff {state : RecState (Chans × μ)} {entry : LogEntry}
    {type : LineType} (kind : entry.type = .amend)
    (typed : lineTypes[entry.provType]? = some type)
    (listed : Listed (dev.env entry.amendPpa.ch) (state.env.1 entry.amendPpa.ch)) :
    ForcedClosed dev.geo
        ((oxbRecoveryLogSwitch (provApp dev maps) state entry).1.env.1 entry.amendPpa.ch)
        entry.amendPpa.vblk entry.amendPpa.pg ↔
      Closable dev.geo (state.env.1 entry.amendPpa.ch) entry.amendPpa.vblk type ∧
        TailFills dev.geo (state.env.1 entry.amendPpa.ch) entry.amendPpa.vblk
          entry.amendPpa.pg := by
  rw [amend_chan kind typed]
  generalize entry.amendPpa = ppa at listed ⊢
  generalize state.env.1 ppa.ch = chan at listed ⊢
  by_cases mem : ppa.vblk ∈ (chan.line type).blks
  · obtain ⟨after, closed, md⟩ := chProvBlkAmend_mem listed mem
    have isClosed : ((chProvBlkAmend (dev.env ppa.ch) ppa.vblk type chan).1.mdOf
        ppa.vblk).flags.isOpen = false := by rw [md]
    have sameTail : TailFills dev.geo (chProvBlkAmend (dev.env ppa.ch) ppa.vblk type chan).1
        ppa.vblk ppa.pg ↔ TailFills dev.geo chan ppa.vblk ppa.pg := by
      rw [TailFills, md]
      rfl
    rw [forcedClosed_closed_iff isClosed, sameTail, md]
    exact ⟨fun forced => ⟨Or.inl mem, forced.2.2⟩,
      fun found => ⟨fun kind => after.not_mem closed kind, rfl, found.2⟩⟩
  · rw [chProvBlkAmend_not_mem mem]
    cases isOpen : (chan.mdOf ppa.vblk).flags.isOpen with
    | true =>
        refine iff_of_false (not_forcedClosed_open isOpen) ?_
        rintro ⟨mem' | ⟨closed, -⟩, -⟩
        · exact mem mem'
        · rw [isOpen] at closed
          contradiction
    | false =>
        rw [forcedClosed_closed_iff isOpen]
        constructor
        · rintro ⟨absent, atEnd, fills⟩
          exact ⟨Or.inr ⟨isOpen, atEnd, absent⟩, fills⟩
        · rintro ⟨mem' | ⟨-, atEnd, absent⟩, fills⟩
          · exact absurd mem' mem
          · exact ⟨absent, atEnd, fills⟩

/-- State of a replay that started on the channels. -/
def replayFrom (maps : MapFns dev μ) (start : Chans × μ) (steps : List ReplayStep) :
    RecState (Chans × μ) :=
  (provReplay dev maps).run { env := start } steps

/-- At any point of a replay, an `AMEND` record leaves its block as the forced close left it
exactly when the block is on the line that the record names, or was closed before, and no page
of its tail has a plane that is invalid before one that is not. -/
theorem amend_replayed_iff (maps : MapFns dev μ) {entry : LogEntry} {type : LineType}
    (kind : entry.type = .amend) (typed : lineTypes[entry.provType]? = some type)
    {md : Nat → Nat → BlkMdEntry} {start : Chans × μ}
    (init : chProvInit (dev.env entry.amendPpa.ch) md = some (start.1 entry.amendPpa.ch))
    (steps : List ReplayStep) :
    ForcedClosed dev.geo
        ((oxbRecoveryLogSwitch (provApp dev maps) (replayFrom maps start steps) entry).1.env.1
          entry.amendPpa.ch)
        entry.amendPpa.vblk entry.amendPpa.pg ↔
      Closable dev.geo ((replayFrom maps start steps).env.1 entry.amendPpa.ch)
          entry.amendPpa.vblk type ∧
        TailFills dev.geo ((replayFrom maps start steps).env.1 entry.amendPpa.ch)
          entry.amendPpa.vblk entry.amendPpa.pg :=
  forcedClosed_amend_iff kind typed (listed_run (listed_chProvInit init) steps)

/-! ## A small device -/

/-- A mapping table that holds every page. -/
def plainMap (dev : Device) : MapFns dev (Nat → Ppa) where
  upsertFn state lba ppa oldCaller :=
    if oldCaller ≠ 0 ∧ state.2 lba ≠ oldCaller then (state, state.2 lba, 1)
    else ((state.1, Function.update state.2 lba ppa), state.2 lba, 0)
  upsertMdFn state _ _ _ := (state, 0)
  upsert_touches state lba ppa oldCaller := by
    split
    · exact .refl
    · exact .refl
  upsertMd_touches _ _ _ _ := .refl

/-- Channels with one LUN of 30 blocks of two pages. -/
def restartDevice : Device where
  geo := restartGeo
  entPerPg := 4
  bad _ _ _ := false
  erase _ _ := .ok
  rand _ _ _ := (0, 0)

/-- Channels of fresh blocks after start-up. -/
def freshChans (ch : Fin 4096) : Chan :=
  (chProvInit (restartDevice.env ch) freshMd).getD {}

theorem chProvInit_restartDevice :
    chProvInit (restartDevice.env 0) freshMd = some (freshChans 0) := by
  have started : (chProvInit (restartDevice.env 0) freshMd).isSome = true := by decide +kernel
  obtain ⟨chan, success⟩ := Option.isSome_iff_exists.mp started
  rw [freshChans, success, Option.getD_some]

/-- The record that `app_tr_clb_thread` writes. -/
def amendRecord (ppa : Ppa) (type : Nat) : LogEntry where
  ts := 1
  type := .amend
  word0 := ppa.toNat
  word3 := type

@[simp]
theorem amendRecord_amendPpa (ppa : Ppa) (type : Nat) : (amendRecord ppa type).amendPpa = ppa :=
  Ppa.ofNat_toNat ppa

/-- A block on the user line is closed by force. -/
theorem amend_replayed_user :
    ForcedClosed restartGeo
      ((oxbRecoveryLogSwitch (provApp restartDevice (plainMap restartDevice))
        (replayFrom (plainMap restartDevice) (freshChans, fun _ => 0) [])
        (amendRecord (Ppa.sector 0 0 29 0 0 0) 0)).1.env.1 0) ⟨0, 29⟩ 0 := by
  have ch : (Ppa.sector 0 0 29 0 0 0).ch = 0 := by decide
  have vblk : (Ppa.sector 0 0 29 0 0 0).vblk = ⟨0, 29⟩ := by decide
  have pg : (Ppa.sector 0 0 29 0 0 0).pg = 0 := by decide
  have replayed : ∀ chans : Chans, chProvInit (restartDevice.env 0) freshMd = some (chans 0) →
      ⟨0, 29⟩ ∈ ((chans 0).line .user).blks →
      (∀ page < 2, PageFills restartGeo ((chans 0).mdOf ⟨0, 29⟩) page) →
      ForcedClosed restartGeo
        ((oxbRecoveryLogSwitch (provApp restartDevice (plainMap restartDevice))
          (replayFrom (plainMap restartDevice) (chans, fun _ => 0) [])
          (amendRecord (Ppa.sector 0 0 29 0 0 0) 0)).1.env.1 0) ⟨0, 29⟩ 0 := by
    intro chans init mem fills
    have amended := @amend_replayed_iff restartDevice _ (plainMap restartDevice)
      (amendRecord (Ppa.sector 0 0 29 0 0 0) 0) .user rfl rfl freshMd
      (chans, fun _ => 0) (by rw [amendRecord_amendPpa, ch]; exact init) []
    rw [amendRecord_amendPpa, ch, vblk, pg] at amended
    exact amended.mpr ⟨Or.inl mem, fun page _ below => fills page below⟩
  exact replayed freshChans chProvInit_restartDevice (by decide +kernel) (by decide +kernel)

/-- The first page of a free block is written, and then the block is closed by force: it is on no
line of the restarted channel, and stays open. -/
theorem amend_leaves_open :
    ¬ ForcedClosed restartGeo
      ((oxbRecoveryLogSwitch (provApp restartDevice (plainMap restartDevice))
        (replayFrom (plainMap restartDevice) (freshChans, fun _ => 0)
          [.entry (.ofWrite .write 1 1 5 (Ppa.sector 0 0 1 0 0 0) 0)])
        (amendRecord (Ppa.sector 0 0 1 1 0 0) 0)).1.env.1 0) ⟨0, 1⟩ 1 := by
  intro forced
  exact absurd forced.closed (by decide +kernel)

end OxCtrl.Recovery
