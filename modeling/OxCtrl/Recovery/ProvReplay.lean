import OxCtrl.ChProv.Listed
import OxCtrl.Recovery.WritePointer

/-!
# Log replay over provisioning

Replay runs on channels whose provisioning was started from the metadata of the checkpoint.
`AMEND` and `PUT_BLK` records reach the lists of a channel, all other records only the
metadata.  The mapping table is a parameter: an upsert may evict a page, and the page is
then written to an address that provisioning hands out.
-/

namespace OxCtrl

/-- The block of an address in its channel. -/
def Ppa.vblk (ppa : Ppa) : ChProv.Vblk :=
  ⟨ppa.lun, ppa.blk⟩

end OxCtrl

namespace OxCtrl.Recovery

open OxCtrl.Lib
open OxCtrl.Log
open OxCtrl.ChProv

universe u

/-- The channels of the device, and what they take from outside. -/
structure Device where
  geo : Geometry
  entPerPg : Nat
  bad : Fin 4096 → Nat → Nat → Bool
  erase : Fin 4096 → Nat → EraseOutcome
  rand : Fin 4096 → Nat → Nat → Nat × Nat

/-- The environment of a channel. -/
def Device.env (dev : Device) (ch : Fin 4096) : ChProv.Env where
  geo := dev.geo
  entPerPg := dev.entPerPg
  bad := dev.bad ch
  erase := dev.erase ch
  rand := dev.rand ch

/-- The line types in the order of their codes. -/
def lineTypes : List LineType :=
  [.user, .cold, .metadata]

/-- The channels. -/
abbrev Chans : Type := Fin 4096 → Chan

variable (dev : Device)

/-- `ch_prov->close_blk_fn` on the channel of an address.  There are three lines. -/
def closeBlk (chans : Chans) (ppa : Ppa) (type : Nat) : Chans × Int :=
  match lineTypes[type]? with
  | none => (chans, -1)
  | some type =>
      let (chan, ret) := chProvBlkAmend (dev.env ppa.ch) ppa.vblk type (chans ppa.ch)
      (Function.update chans ppa.ch chan, ret)

/-- `ch_prov->put_blk_fn` on the channel of an address. -/
def putBlk (chans : Chans) (ppa : Ppa) : Chans × Int :=
  let (chan, ret) := chProvBlkPut ppa.vblk (chans ppa.ch)
  (Function.update chans ppa.ch chan, ret)

/-- `md->invalidate_fn` on the channel of an address. -/
def invalidate (chans : Chans) (ppa : Ppa) (full : Bool) : Chans :=
  Function.update chans ppa.ch
    ((chans ppa.ch).setMd ppa.vblk fun entry => entry.invalidate dev.geo ppa full)

/-- What the mapping table does to the channels. -/
inductive Touches : Chans → Chans → Prop where
  /-- An address is handed out. -/
  | getPpas (chans : Chans) (ch : Fin 4096) (pgs : Nat) (type : LineType) :
      Touches chans
        (Function.update chans ch (chProvGetPpas (dev.env ch) pgs type (chans ch)).1)
  /-- The old address of a page is invalidated. -/
  | invalidate (chans : Chans) (ppa : Ppa) (full : Bool) :
      Touches chans (invalidate dev chans ppa full)
  /-- The block of a page that could not be written is closed. -/
  | closeBlk (chans : Chans) (ppa : Ppa) (type : Nat) :
      Touches chans (closeBlk dev chans ppa type).1

/-- A mapping table with state `μ` whose functions reach the channels in these ways only. -/
structure MapFns (μ : Type u) where
  upsertFn : Chans × μ → Nat → Ppa → Ppa → (Chans × μ) × Ppa × Int
  upsertMdFn : Chans × μ → Nat → Ppa → Ppa → (Chans × μ) × Int
  upsert_touches : ∀ state lba ppa oldCaller,
    Relation.ReflTransGen (Touches dev) state.1 (upsertFn state lba ppa oldCaller).1.1
  upsertMd_touches : ∀ state index newPpa oldPpa,
    Relation.ReflTransGen (Touches dev) state.1 (upsertMdFn state index newPpa oldPpa).1.1

variable {μ : Type u} (maps : MapFns dev μ)

/-- The modules over provisioning. -/
def provApp : Oxapp (Chans × μ) where
  geo := dev.geo
  upsertFn := maps.upsertFn
  upsertMdFn := maps.upsertMdFn
  getBlk state ppa := (state.1 ppa.ch).mdOf ppa.vblk
  setBlk state ppa entry :=
    (Function.update state.1 ppa.ch ((state.1 ppa.ch).setMd ppa.vblk fun _ => entry), state.2)
  markFn state ppa :=
    (Function.update state.1 ppa.ch (mark (dev.env ppa.ch) (state.1 ppa.ch) ppa.vblk), state.2)
  invalidateFn state ppa full := (invalidate dev state.1 ppa full, state.2)
  closeBlkFn state ppa type :=
    (((closeBlk dev state.1 ppa type).1, state.2), (closeBlk dev state.1 ppa type).2)
  putBlkFn state ppa := (((putBlk state.1 ppa).1, state.2), (putBlk state.1 ppa).2)

/-- The replay over provisioning. -/
def provReplay : System (RecState (Chans × μ)) ReplayStep Unit where
  step
    | state, .entry log => ((oxbRecoveryLogSwitch (provApp dev maps) state log).1, ())
    | state, .logPage addr => (fixLogPage (provApp dev maps) state addr, ())

/-! ## What a replay preserves -/

section Rule

variable {ε : Type u} {oxapp : Oxapp ε} {R : ε → ε → Prop}

/-- Every update of a replay but a put is in the relation. -/
structure Preserves (oxapp : Oxapp ε) (R : ε → ε → Prop) : Prop where
  refl : ∀ env, R env env
  trans : ∀ {first second third}, R first second → R second third → R first third
  upsert : ∀ env lba ppa oldCaller, R env (oxapp.upsertFn env lba ppa oldCaller).1
  upsertMd : ∀ env index newPpa oldPpa, R env (oxapp.upsertMdFn env index newPpa oldPpa).1
  write : ∀ env ppa pg logPg,
    R env (oxapp.setBlk env ppa (applyWriteEntry oxapp.geo (oxapp.getBlk env ppa) pg logPg))
  fix : ∀ env ppa pg, R env (oxapp.setBlk env ppa { oxapp.getBlk env ppa with currentPg := pg })
  mark : ∀ env ppa, R env (oxapp.markFn env ppa)
  invalidate : ∀ env ppa full, R env (oxapp.invalidateFn env ppa full)
  closeBlk : ∀ env ppa type, R env (oxapp.closeBlkFn env ppa type).1

namespace Preserves

variable (rule : Preserves oxapp R)

include rule

theorem applyWrite (env : ε) (log : LogEntry) (logPg inv : Bool) :
    R env (oxbRecoveryApplyWrite oxapp env log logPg inv) := by
  have written := rule.trans (rule.write env log.newPpa log.newPpa.pg logPg)
    (rule.mark _ log.newPpa)
  rw [oxbRecoveryApplyWrite]
  split
  · exact rule.trans written (rule.invalidate _ _ _)
  · exact written

theorem applyFixBlk (env : ε) (ppa : Ppa) : R env (oxbRecoveryApplyFixBlk oxapp env ppa) := by
  rw [oxbRecoveryApplyFixBlk]
  split
  · exact rule.fix env ppa ppa.pg
  · exact rule.refl env

theorem upsertRecord (state : RecState ε) (log : LogEntry) :
    R state.env (upsertRecord oxapp state log).env := by
  have upserted := rule.upsert state.env log.lba log.newPpa log.oldPpa
  simp only [Recovery.upsertRecord]
  split
  · exact rule.trans upserted (rule.invalidate _ _ _)
  · exact upserted

theorem commitRecord (state : RecState ε) (log : LogEntry) (logN : Nat) :
    R state.env (commitRecord oxapp state log logN).env := by
  rw [Recovery.commitRecord]
  split
  · exact rule.upsertRecord state log
  · split
    · exact rule.invalidate _ _ _
    · exact rule.upsertRecord state log
  · split
    · exact rule.invalidate _ _ _
    · exact rule.upsertMd _ _ _ _
  · exact rule.refl _

theorem drain (logs : List LogEntry) (state : RecState ε) (logN : Nat) :
    R state.env (drain oxapp state logs logN).env := by
  induction logs generalizing state logN with
  | nil => exact rule.refl _
  | cons log logs ih => exact rule.trans (rule.commitRecord state log (logN + 1)) (ih _ _)

theorem btreeCommit (state : RecState ε) (log : LogEntry) :
    R state.env (oxbRecoveryBtreeCommit oxapp state log).env := by
  rw [oxbRecoveryBtreeCommit]
  split
  · exact rule.refl _
  · exact rule.drain _ state 0

theorem invalidateTail (env : ε) (ppa : Ppa) (left pg : Nat) :
    R env (invalidateTail oxapp env ppa left pg) := by
  induction left generalizing env pg with
  | zero => exact rule.refl env
  | succ left ih => exact rule.trans (rule.invalidate env _ true) (ih _ _)

/-- A record is in the relation, if its put is. -/
theorem logSwitch (state : RecState ε) (entry : LogEntry)
    (put : entry.type = .putBlk → R state.env (oxapp.putBlkFn state.env entry.amendPpa).1) :
    R state.env (oxbRecoveryLogSwitch oxapp state entry).1.env := by
  rw [oxbRecoveryLogSwitch]
  split
  · exact rule.refl _
  · exact rule.refl _
  · exact rule.applyWrite state.env entry false false
  · exact rule.applyWrite state.env entry false false
  · exact rule.applyWrite state.env entry true false
  · exact rule.trans (rule.applyWrite state.env entry true true) (rule.upsertMd _ _ _ _)
  · exact rule.applyWrite state.env entry true true
  · exact rule.applyWrite state.env entry true true
  · exact rule.trans (rule.closeBlk _ _ _)
      (rule.trans (rule.invalidateTail _ _ _ _) (rule.applyFixBlk _ _))
  · exact rule.applyFixBlk _ _
  · next kind => exact put kind
  · exact rule.btreeCommit state entry
  · exact rule.refl _

theorem fixLogPage (state : RecState ε) (addr : Nat) :
    R state.env (fixLogPage oxapp state addr).env :=
  rule.trans (rule.applyWrite _ _ _ _) (rule.invalidate _ _ _)

end Preserves

end Rule

/-! ## The lists -/

variable {dev maps}

/-- The lists of a channel stay in order. -/
def KeepsListed (dev : Device) (ch : Fin 4096) (chans chans' : Chans) : Prop :=
  Listed (dev.env ch) (chans ch) → Listed (dev.env ch) (chans' ch)

theorem keepsListed_update {chans : Chans} {ch at' : Fin 4096} {chan : Chan}
    (keeps : Listed (dev.env at') (chans at') → Listed (dev.env at') chan) :
    KeepsListed dev ch chans (Function.update chans at' chan) := by
  intro listed
  by_cases same : ch = at'
  · subst same
    rw [Function.update_self]
    exact keeps listed
  · rwa [Function.update_of_ne same]

theorem keepsListed_closeBlk (ch : Fin 4096) (chans : Chans) (ppa : Ppa) (type : Nat) :
    KeepsListed dev ch chans (closeBlk dev chans ppa type).1 := by
  rw [closeBlk]
  split
  · exact id
  · exact keepsListed_update fun listed => listed.chProvBlkAmend _ _

theorem keepsListed_invalidate (ch : Fin 4096) (chans : Chans) (ppa : Ppa) (full : Bool) :
    KeepsListed dev ch chans (invalidate dev chans ppa full) :=
  keepsListed_update fun listed => listed.setMd _ _

theorem Touches.keepsListed {chans chans' : Chans} (ch : Fin 4096)
    (touches : Touches dev chans chans') : KeepsListed dev ch chans chans' := by
  cases touches with
  | getPpas at' pgs type =>
      exact keepsListed_update fun listed => listed.chProvGetPpas pgs type
  | invalidate ppa full => exact keepsListed_invalidate ch chans ppa full
  | closeBlk ppa type => exact keepsListed_closeBlk ch chans ppa type

theorem keepsListed_touches {chans chans' : Chans} (ch : Fin 4096)
    (touches : Relation.ReflTransGen (Touches dev) chans chans') :
    KeepsListed dev ch chans chans' := by
  induction touches with
  | refl => exact id
  | tail _ touch ih => exact touch.keepsListed ch ∘ ih

theorem preserves_keepsListed (ch : Fin 4096) : Preserves (provApp dev maps)
    fun state state' => KeepsListed dev ch state.1 state'.1 where
  refl _ := id
  trans first second := second ∘ first
  upsert state lba ppa oldCaller :=
    keepsListed_touches ch (maps.upsert_touches state lba ppa oldCaller)
  upsertMd state index newPpa oldPpa :=
    keepsListed_touches ch (maps.upsertMd_touches state index newPpa oldPpa)
  write _ _ _ _ := keepsListed_update fun listed => listed.setMd _ _
  fix _ _ _ := keepsListed_update fun listed => listed.setMd _ _
  mark _ _ := keepsListed_update fun listed => listed.mark _
  invalidate state ppa full := keepsListed_invalidate ch state.1 ppa full
  closeBlk state ppa type := keepsListed_closeBlk ch state.1 ppa type

/-- The lists of a channel are in order all through a replay. -/
theorem listed_run {ch : Fin 4096} {state : RecState (Chans × μ)}
    (listed : Listed (dev.env ch) (state.env.1 ch)) (steps : List ReplayStep) :
    Listed (dev.env ch) (((provReplay dev maps).run state steps).env.1 ch) := by
  induction steps generalizing state with
  | nil => exact listed
  | cons step steps ih =>
      rw [System.run_cons]
      apply ih
      have rule := @preserves_keepsListed dev _ maps ch
      cases step with
      | entry log =>
          have put := @keepsListed_update dev state.env.1 ch log.amendPpa.ch _
            fun listed => listed.chProvBlkPut log.amendPpa.vblk
          exact rule.logSwitch state log (fun _ => put) listed
      | logPage addr => exact rule.fixLogPage state addr listed

end OxCtrl.Recovery
