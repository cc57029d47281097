import OxCtrl.ChProv.Steady
import OxCtrl.Recovery.Amend

/-!
# Replay of a put and of the writes after it

A `PUT_BLK` record takes the used flag off its block and puts the block on a waiting list,
which `app_global_init` empties after the whole log.  Records of later writes set the flag
again, but the block stays on the list, so the restart of provisioning finds it free.
-/

namespace OxCtrl.Recovery

open OxCtrl.Lib
open OxCtrl.Log
open OxCtrl.ChProv

universe u

/-- The name of a block in its channel. -/
def vblkOf (block : BlkAddr) : Vblk :=
  ⟨block.2.1, block.2.2⟩

/-- The block of a `PUT_BLK` record. -/
def ReplayStep.putOf : ReplayStep → Option BlkAddr
  | .logPage _ => none
  | .entry log => if log.type = .putBlk then some log.amendPpa.block else none

variable {dev : Device} {μ : Type u} {maps : MapFns dev μ} {block : BlkAddr}

/-- A record that puts the block finds it unused or open. -/
def Refuses (block : BlkAddr) (state : RecState (Chans × μ)) (step : ReplayStep) : Prop :=
  step.putOf = some block → ((state.env.1 block.1).mdOf (vblkOf block)).flags.used = true →
    ((state.env.1 block.1).mdOf (vblkOf block)).flags.isOpen = true

instance (block : BlkAddr) (state : RecState (Chans × μ)) (step : ReplayStep) :
    Decidable (Refuses block state step) :=
  inferInstanceAs (Decidable (_ → _ → _))

/-- The channel of the block, with the used flag and the waiting list of the block kept. -/
def KeepsSteady (block : BlkAddr) (chans chans' : Chans) : Prop :=
  Steady (vblkOf block) (chans block.1) (chans' block.1)

/-! ## Steps -/

theorem keepsSteady_update {chans : Chans} {at' : Fin 4096} {chan : Chan}
    (steady : at' = block.1 → Steady (vblkOf block) (chans at') chan) :
    KeepsSteady block chans (Function.update chans at' chan) := by
  by_cases same : at' = block.1
  · rw [KeepsSteady, ← same, Function.update_self]
    exact steady same
  · rw [KeepsSteady, Function.update_of_ne (Ne.symm same)]
    exact Steady.refl _ _

theorem keepsSteady_closeBlk (chans : Chans) (ppa : Ppa) (type : Nat) :
    KeepsSteady block chans (closeBlk dev chans ppa type).1 := by
  rw [closeBlk]
  split
  · exact Steady.refl _ _
  · exact keepsSteady_update fun _ => Steady.chProvBlkAmend _ _

theorem keepsSteady_invalidate (chans : Chans) (ppa : Ppa) (full : Bool) :
    KeepsSteady block chans (invalidate dev chans ppa full) := by
  apply keepsSteady_update
  intro _
  apply Steady.setMd
  · rw [BlkMdEntry.invalidate_flags]
    exact id
  · rw [BlkMdEntry.invalidate_flags]
    exact id

theorem keepsSteady_touches {chans chans' : Chans}
    (touches : Relation.ReflTransGen (Touches dev) chans chans') :
    KeepsSteady block chans chans' := by
  induction touches with
  | refl => exact Steady.refl _ _
  | tail _ touch ih =>
      apply ih.trans
      cases touch with
      | getPpas at' pgs type => exact keepsSteady_update fun _ => Steady.chProvGetPpas pgs type
      | invalidate ppa full => exact keepsSteady_invalidate _ ppa full
      | closeBlk ppa type => exact keepsSteady_closeBlk _ ppa type

/-- A write record opens the block, closes it, or leaves its flags alone. -/
theorem flags_applyWriteEntry (geo : Geometry) (entry : BlkMdEntry) (pg : Nat) (logPg : Bool) :
    (applyWriteEntry geo entry pg logPg).flags.used = true ∨
      (applyWriteEntry geo entry pg logPg).flags =
        { entry.flags with line := false, isOpen := false } ∨
      (applyWriteEntry geo entry pg logPg).flags = entry.flags := by
  rw [applyWriteEntry]
  split
  · exact Or.inl rfl
  · split
    · exact Or.inr (Or.inl rfl)
    · split
      · exact Or.inr (Or.inr rfl)
      · split
        · exact Or.inr (Or.inr rfl)
        · exact Or.inr (Or.inr rfl)

theorem keepsSteady_write (chans : Chans) (ppa : Ppa) (pg : Nat) (logPg : Bool) :
    KeepsSteady block chans (Function.update chans ppa.ch ((chans ppa.ch).setMd ppa.vblk
      fun _ => applyWriteEntry dev.geo ((chans ppa.ch).mdOf ppa.vblk) pg logPg)) := by
  apply keepsSteady_update
  intro _
  rcases flags_applyWriteEntry dev.geo ((chans ppa.ch).mdOf ppa.vblk) pg logPg with
    used | closed | same
  · exact Steady.setMd _ _ (fun _ => used) fun _ _ => used
  · apply Steady.setMd
    · rw [closed]
      exact id
    · rw [closed]
      intro _ isOpen
      contradiction
  · apply Steady.setMd
    · rw [same]
      exact id
    · rw [same]
      exact id

theorem preserves_keepsSteady (block : BlkAddr) : Preserves (provApp dev maps)
    fun state state' => KeepsSteady block state.1 state'.1 where
  refl _ := Steady.refl _ _
  trans first second := Steady.trans first second
  upsert state lba ppa oldCaller := keepsSteady_touches
    (maps.upsert_touches state lba ppa oldCaller)
  upsertMd state index newPpa oldPpa :=
    keepsSteady_touches (maps.upsertMd_touches state index newPpa oldPpa)
  write state ppa pg logPg := keepsSteady_write state.1 ppa pg logPg
  fix _ _ _ := keepsSteady_update fun _ => Steady.setMd _ _ id id
  mark _ ppa := keepsSteady_update fun _ => Steady.mark ppa.vblk
  invalidate state ppa full := keepsSteady_invalidate state.1 ppa full
  closeBlk state ppa type := keepsSteady_closeBlk state.1 ppa type

/-- A step keeps the block steady, unless it is a put that takes the block. -/
theorem keepsSteady_step {state : RecState (Chans × μ)} {step : ReplayStep}
    (refuses : Refuses block state step) :
    KeepsSteady block state.env.1 ((provReplay dev maps).step state step).1.env.1 := by
  have rule := @preserves_keepsSteady dev _ maps block
  cases step with
  | logPage addr => exact rule.fixLogPage state addr
  | entry log =>
      refine rule.logSwitch state log fun kind => ?_
      apply keepsSteady_update
      intro here
      apply Steady.chProvBlkPut
      intro same used
      rw [here] at used ⊢
      refine refuses ?_ used
      have sameBlock : log.amendPpa.block = block := by
        obtain ⟨ch, lun, blk⟩ := block
        have parts := Vblk.mk.inj same
        exact Prod.ext here (Prod.ext (Fin.ext parts.1) (Fin.ext parts.2))
      rw [ReplayStep.putOf, if_pos kind, sameBlock]

/-- A put that takes the block makes it wait. -/
theorem waiting_step {state : RecState (Chans × μ)} {step : ReplayStep}
    (takes : ¬ Refuses block state step) :
    Waiting (((provReplay dev maps).step state step).1.env.1 block.1) (vblkOf block) := by
  simp only [Refuses, Classical.not_imp] at takes
  obtain ⟨put, used, closed⟩ := takes
  cases step with
  | logPage addr => cases put
  | entry log =>
      rw [ReplayStep.putOf] at put
      split at put
      · rename_i kind
        obtain rfl : log.amendPpa.block = block := Option.some.inj put
        replace used : ((state.env.1 log.amendPpa.ch).mdOf log.amendPpa.vblk).flags.used = true :=
          used
        replace closed :
            ¬ ((state.env.1 log.amendPpa.ch).mdOf log.amendPpa.vblk).flags.isOpen = true := closed
        have taken : (chProvBlkPut log.amendPpa.vblk (state.env.1 log.amendPpa.ch)).1 =
            ((state.env.1 log.amendPpa.ch).setMd log.amendPpa.vblk fun entry =>
              { entry with flags := { entry.flags with used := false } }).setLun
                log.amendPpa.vblk.lun fun lun =>
                  { lun with waitingCp := log.amendPpa.vblk.blk :: lun.waitingCp } := by
          rw [chProvBlkPut, if_neg (not_not.mpr used), if_neg closed]
        have switched : (provReplay dev maps).step state (.entry log) =
            ({ state with env := ((putBlk state.env.1 log.amendPpa).1, state.env.2) }, ()) := by
          simp only [provReplay, oxbRecoveryLogSwitch, kind]
          rfl
        rw [switched]
        simp only [putBlk, Ppa.block, Function.update_self, taken]
        simp [Waiting, Chan.setLun, vblkOf, Ppa.vblk]
      · cases put

/-- A block that waits goes on waiting. -/
theorem waiting_kept {state : RecState (Chans × μ)} (step : ReplayStep)
    (waiting : Waiting (state.env.1 block.1) (vblkOf block)) :
    Waiting (((provReplay dev maps).step state step).1.env.1 block.1) (vblkOf block) := by
  by_cases refuses : Refuses block state step
  · exact (keepsSteady_step refuses).waiting.mpr waiting
  · exact waiting_step refuses

theorem waiting_run {state : RecState (Chans × μ)} (steps : List ReplayStep)
    (waiting : Waiting (state.env.1 block.1) (vblkOf block)) :
    Waiting (((provReplay dev maps).run state steps).env.1 block.1) (vblkOf block) := by
  induction steps generalizing state with
  | nil => exact waiting
  | cons step steps ih => exact ih (waiting_kept step waiting)

/-- A run in which no put takes the block keeps it steady. -/
theorem keepsSteady_run {state : RecState (Chans × μ)} {steps : List ReplayStep}
    (refuses : (provReplay dev maps).Allowed (Refuses block) state steps) :
    KeepsSteady block state.env.1 ((provReplay dev maps).run state steps).env.1 := by
  induction steps generalizing state with
  | nil => exact Steady.refl _ _
  | cons step steps ih => exact (keepsSteady_step refuses.1).trans (ih refuses.2)

/-! ## The write that reopens the block -/

theorem used_applyWriteEntry_zero {geo : Geometry} {entry : BlkMdEntry} {logPg : Bool}
    (openUsed : entry.flags.isOpen = true → entry.flags.used = true) :
    (applyWriteEntry geo entry 0 logPg).flags.used = true := by
  by_cases isOpen : entry.flags.isOpen = true
  · rcases flags_applyWriteEntry geo entry 0 logPg with used | closed | same
    · exact used
    · rw [closed]
      exact openUsed isOpen
    · rw [same]
      exact openUsed isOpen
  · rw [applyWriteEntry, if_pos ⟨rfl, isOpen⟩]

/-- The block is in use after a record of its page zero. -/
theorem used_applyWrite {env : Chans × μ} {log : LogEntry} (logPg inv : Bool)
    (openUsed : OpenUsed (env.1 block.1) (vblkOf block)) (named : log.newPpa.block = block)
    (first : log.newPpa.pg.val = 0) :
    (((oxbRecoveryApplyWrite (provApp dev maps) env log logPg inv).1 block.1).mdOf
      (vblkOf block)).flags.used = true := by
  subst named
  have rule := @preserves_keepsSteady dev _ maps log.newPpa.block
  have written : (((provApp dev maps).setBlk env log.newPpa (applyWriteEntry dev.geo
      ((provApp dev maps).getBlk env log.newPpa) log.newPpa.pg logPg)).1 log.newPpa.ch).mdOf
        log.newPpa.vblk = applyWriteEntry dev.geo ((env.1 log.newPpa.ch).mdOf log.newPpa.vblk) 0
          logPg := by
    simp [provApp, first]
  have marked := (rule.mark ((provApp dev maps).setBlk env log.newPpa (applyWriteEntry dev.geo
      ((provApp dev maps).getBlk env log.newPpa) log.newPpa.pg logPg)) log.newPpa).used
    ((congrArg (fun entry => entry.flags.used) written).trans (used_applyWriteEntry_zero openUsed))
  rw [oxbRecoveryApplyWrite]
  split
  · exact (rule.invalidate _ _ _).used marked
  · exact marked

/-- A step that has a record names its block. -/
theorem record_eq {addr : BlkAddr} {own record : BlkRecord}
    (named : (if addr = block then some own else none) = some record) :
    addr = block ∧ own = record := by
  obtain ⟨same, found⟩ := Option.ite_none_right_eq_some.mp named
  exact ⟨same, Option.some.inj found⟩

theorem used_step {state : RecState (Chans × μ)} {step : ReplayStep} {record : BlkRecord}
    (openUsed : OpenUsed (state.env.1 block.1) (vblkOf block))
    (named : step.recordOf block = some record) (write : record.IsWrite) (first : record.pg = 0) :
    ((((provReplay dev maps).step state step).1.env.1 block.1).mdOf
      (vblkOf block)).flags.used = true := by
  have rule := @preserves_keepsSteady dev _ maps block
  cases step with
  | logPage addr =>
      rw [ReplayStep.recordOf] at named
      obtain ⟨same, rfl⟩ := record_eq named
      exact (rule.invalidate _ _ _).used (used_applyWrite true false openUsed same first)
  | entry log =>
      simp only [ReplayStep.recordOf] at named
      simp only [provReplay, oxbRecoveryLogSwitch]
      cases kind : log.type with
      | write =>
          simp only [kind] at named ⊢
          obtain ⟨same, rfl⟩ := record_eq named
          exact used_applyWrite false false openUsed same first
      | gcWrite =>
          simp only [kind] at named ⊢
          obtain ⟨same, rfl⟩ := record_eq named
          exact used_applyWrite false false openUsed same first
      | gcMap =>
          simp only [kind] at named ⊢
          obtain ⟨same, rfl⟩ := record_eq named
          exact used_applyWrite true false openUsed same first
      | map =>
          simp only [kind] at named ⊢
          obtain ⟨same, rfl⟩ := record_eq named
          exact (rule.upsertMd _ _ _ _).used (used_applyWrite true true openUsed same first)
      | blkMd =>
          simp only [kind] at named ⊢
          obtain ⟨same, rfl⟩ := record_eq named
          exact used_applyWrite true true openUsed same first
      | mapMd =>
          simp only [kind] at named ⊢
          obtain ⟨same, rfl⟩ := record_eq named
          exact used_applyWrite true true openUsed same first
      | abortW =>
          simp only [kind] at named
          obtain ⟨-, rfl⟩ := record_eq named
          exact absurd write id
      | pad => simp [kind] at named
      | pointer => simp [kind] at named
      | amend => simp [kind] at named
      | commit => simp [kind] at named
      | putBlk => simp [kind] at named
      | unknown code => simp [kind] at named

/-! ## The restart -/

/-- The metadata that provisioning is restarted on: put blocks are completed after the log. -/
def restartMd (dev : Device) (block : BlkAddr) (state : RecState (Chans × μ)) :
    Nat → Nat → BlkMdEntry :=
  (completePuts (dev.env block.1) dev.geo.lunPerCh 0 (state.env.1 block.1)).md

theorem used_restartMd_iff {state : RecState (Chans × μ)}
    (inLun : (vblkOf block).lun < dev.geo.lunPerCh) :
    (restartMd dev block state (vblkOf block).lun (vblkOf block).blk).flags.used = true ↔
      ((state.env.1 block.1).mdOf (vblkOf block)).flags.used = true ∧
        ¬ Waiting (state.env.1 block.1) (vblkOf block) := by
  have completed := @used_completePuts (dev.env block.1) (state.env.1 block.1) (vblkOf block)
    dev.geo.lunPerCh 0
  have inRange : 0 ≤ (vblkOf block).lun ∧ (vblkOf block).lun < 0 + dev.geo.lunPerCh :=
    ⟨Nat.zero_le _, by rwa [Nat.zero_add]⟩
  rw [← and_assoc, and_iff_right inRange] at completed
  exact completed

/-- Let the log hold a record of page zero of a block, as it does for a block that was put and
reopened.  After the replay, the completion of put blocks and the restart of provisioning the
block is in use, off the free list and not erased exactly when every `PUT_BLK` record of the
block finds it unused or open. -/
theorem reopened_in_use_iff (maps : MapFns dev μ) {md : Nat → Nat → BlkMdEntry}
    {start : Chans × μ} (inLun : (vblkOf block).lun < dev.geo.lunPerCh)
    (init : chProvInit (dev.env block.1) md = some (start.1 block.1))
    (image : OpenUsed { md := md } (vblkOf block)) {before after : List ReplayStep}
    {step : ReplayStep} {record : BlkRecord} (named : step.recordOf block = some record)
    (write : record.IsWrite) (first : record.pg = 0) {restart : ChProv.Env} {chan : Chan}
    (restarted : chProvInit restart
      (restartMd dev block (replayFrom maps start (before ++ step :: after))) = some chan) :
    InUse chan (vblkOf block) ↔
      (provReplay dev maps).Allowed (Refuses block) { env := start } (before ++ step :: after) := by
  rw [inUse_chProvInit_iff restarted, used_restartMd_iff inLun]
  have started := @Steady.chProvInit (dev.env block.1) (start.1 block.1) (vblkOf block) md init
  constructor
  · rintro ⟨-, notWaiting⟩
    by_contra taken
    obtain ⟨earlier, put, later, split, takes⟩ := System.exists_of_not_allowed _ taken
    apply notWaiting
    rw [split, replayFrom, System.run_append, System.run_cons]
    exact waiting_run later (waiting_step takes)
  · intro refuses
    have whole := keepsSteady_run refuses
    constructor
    · rw [System.allowed_append] at refuses
      obtain ⟨refusesBefore, -, refusesAfter⟩ := refuses
      have openUsed := (keepsSteady_run refusesBefore).openUsed (started.openUsed image)
      rw [replayFrom, System.run_append, System.run_cons]
      exact (keepsSteady_run refusesAfter).used (used_step openUsed named write first)
    · intro waiting
      have listed := started.waiting.mp (whole.waiting.mp waiting)
      simp [Waiting] at listed

/-- A `PUT_BLK` record. -/
def putRecord (ppa : Ppa) : LogEntry where
  ts := 1
  type := .putBlk
  word0 := ppa.toNat

/-- Blocks 0 to 23 fill the lines; block 24 holds data when `used`. -/
def putImage (used : Bool) (lun blk : Nat) : BlkMdEntry :=
  if blk = 24 then { flags := { used := used } } else openImage lun blk

/-- Channels after start-up on the image. -/
def putChans (used : Bool) (ch : Fin 4096) : Chan :=
  (chProvInit (restartDevice.env ch) (putImage used)).getD {}

/-- Block 24 is put, and then its first page is written. -/
def putLog : List ReplayStep :=
  [.entry (putRecord (Ppa.sector 0 0 24 0 0 0)),
    .entry (.ofWrite .write 1 1 5 (Ppa.sector 0 0 24 0 0 0) 0)]

/-- State after the replay of the log on the image. -/
def putReplayed (used : Bool) : RecState (Chans × (Nat → Ppa)) :=
  replayFrom (plainMap restartDevice) (putChans used, fun _ => 0) putLog

theorem chProvInit_putChans (used : Bool) :
    chProvInit (restartDevice.env 0) (putImage used) = some (putChans used 0) := by
  have started : (chProvInit (restartDevice.env 0) (putImage used)).isSome = true := by
    cases used with
    | false => decide +kernel
    | true => decide +kernel
  obtain ⟨chan, success⟩ := Option.isSome_iff_exists.mp started
  rw [putChans, success, Option.getD_some]

/-- The checkpoint was taken after the put: its record is refused, and the block stays in use. -/
theorem reopened_in_use_after_checkpoint :
    ∃ chan, chProvInit (restartDevice.env 0)
        (restartMd restartDevice (0, 0, 24) (putReplayed false)) = some chan ∧
      InUse chan ⟨0, 24⟩ := by
  have started : (chProvInit (restartDevice.env 0)
      (restartMd restartDevice (0, 0, 24) (putReplayed false))).isSome = true := by decide +kernel
  obtain ⟨chan, success⟩ := Option.isSome_iff_exists.mp started
  refine ⟨chan, success, ?_⟩
  have image : OpenUsed { md := putImage false } ⟨0, 24⟩ := by
    intro isOpen
    simp [Chan.mdOf, putImage] at isOpen
  have replayed : ∀ chans : Chans,
      chProvInit (restartDevice.env 0) (putImage false) = some (chans 0) →
      chProvInit (restartDevice.env 0) (restartMd restartDevice (0, 0, 24)
        (replayFrom (plainMap restartDevice) (chans, fun _ => 0) putLog)) = some chan →
      (provReplay restartDevice (plainMap restartDevice)).Allowed (Refuses (0, 0, 24))
        { env := (chans, fun _ => 0) } putLog → InUse chan ⟨0, 24⟩ := by
    intro chans init restarted
    exact (@reopened_in_use_iff restartDevice _ (0, 0, 24) (plainMap restartDevice)
      (putImage false) (chans, fun _ => 0) (by decide) init image
      [.entry (putRecord (Ppa.sector 0 0 24 0 0 0))] []
      (.entry (.ofWrite .write 1 1 5 (Ppa.sector 0 0 24 0 0 0) 0)) (.sector 0) rfl trivial rfl
      (restartDevice.env 0) chan restarted).mpr
  exact replayed (putChans false) (chProvInit_putChans false) success (by decide +kernel)

/-- The checkpoint was taken before the put: the block is free after the restart, although its
first page was written after the put. -/
theorem reopened_block_freed :
    ∃ chan, chProvInit (restartDevice.env 0)
        (restartMd restartDevice (0, 0, 24) (putReplayed true)) = some chan ∧
      (chan.mdOf ⟨0, 24⟩).flags.used = false ∧ 24 ∈ (chan.luns 0).freeBlks := by
  have started : ((chProvInit (restartDevice.env 0)
      (restartMd restartDevice (0, 0, 24) (putReplayed true))).any fun chan =>
        ! (chan.mdOf ⟨0, 24⟩).flags.used && decide (24 ∈ (chan.luns 0).freeBlks)) = true := by
    decide +kernel
  obtain ⟨chan, success, freed⟩ := (Option.any_eq_true _ _).mp started
  simp only [Bool.and_eq_true, Bool.not_eq_true', decide_eq_true_iff] at freed
  exact ⟨chan, success, freed⟩

end OxCtrl.Recovery
