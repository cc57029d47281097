import OxCtrl.Lib.SlotMap
import OxCtrl.Lib.System

/-!
# DMA slots

The file backend and the volt backend give a DMA slot to each page command.  A channel keeps the
slots in use in `prp_map`.  A slot is given back by the callback, by the clean-up of a command that
was not queued and by the timeout handler, and each of them toggles the bit.
-/

namespace OxCtrl.DmaSlots

open OxCtrl.Lib

/-! ## Backends -/

/-- Sizes of a command that the preparation looks at. -/
structure Sizes where
  pgSz : Nat
  secSz : Nat
  mdSz : Nat
  deriving DecidableEq, Repr

/-- The slots of a channel, and the geometry. -/
structure Backend where
  dmaSlotCh : Nat
  pgSize : Nat
  secPerPg : Nat
  secOobSz : Nat
  slots_pos : 0 < dmaSlotCh
  slots_le : dmaSlotCh ≤ 32

theorem slots_32 : 0 < 32 ∧ 32 ≤ 32 := by decide

/-- `file-be.c` -/
def fileBe : Backend where
  dmaSlotCh := 32
  pgSize := 0x4000
  secPerPg := 4
  secOobSz := 0x10
  slots_pos := slots_32.1
  slots_le := slots_32.2

/-- `volt.c` -/
def volt : Backend where
  dmaSlotCh := 32
  pgSize := 0x4000
  secPerPg := 4
  secOobSz := 0x10
  slots_pos := slots_32.1
  slots_le := slots_32.2

/-- The check of `fbe_prepare_rw` and `volt_prepare_rw`. -/
def Fits (backend : Backend) (sizes : Sizes) : Prop :=
  ¬ (sizes.pgSz > backend.pgSize ∨ sizes.secSz ≠ backend.pgSize / backend.secPerPg ∨
    sizes.mdSz > backend.secOobSz * backend.secPerPg)

instance (backend : Backend) (sizes : Sizes) : Decidable (Fits backend sizes) :=
  inferInstanceAs (Decidable (¬ (_ ∨ _ ∨ _)))

/-! ## Channels -/

inductive CmdType where
  | readPg
  | writePg
  | eraseBlk
  deriving DecidableEq, Repr

/-- `cmdtype == MMGR_WRITE_PG || cmdtype == MMGR_READ_PG` -/
def CmdType.isPage : CmdType → Bool
  | .readPg | .writePg => true
  | .eraseBlk => false

/-- Where a command is: in the loop of `fbe_get_next_prp`, in front of the queue, in front of
`CLEAN`, in the queue, or rejected.  A command in the queue may have been timed out and may have
been called back. -/
inductive Place where
  | searching
  | prepared
  | cleaning
  | queued (timedOut calledBack : Bool)
  | rejected
  deriving DecidableEq, Repr

/-- A command.  `obtained` and `released` count its slots; no code reads them. -/
structure Cmd where
  type : CmdType
  prpIndex : Nat
  place : Place
  obtained : Nat := 0
  released : Nat := 0
  deriving DecidableEq, Repr

/-- A channel: `nextprp`, `prp_map`, and its commands. -/
structure Channel where
  nextprp : Nat := 0
  prpMap : BitVec 32 := 0
  cmds : Nat → Option Cmd := fun _ => none

/-- The shift of `1 << (index - 1)`.  The count has 32 bits, and the machine takes it modulo 32. -/
def bitOf (index : Nat) : Nat :=
  (index + 31) % 32

/-- `fbe_set_prp_map` and `volt_set_prp_map` -/
def setPrpMap (map : BitVec 32) (index : Nat) (flag : Bool) : BitVec 32 :=
  if flag then map ||| BitVec.twoPow 32 (bitOf index) else map ^^^ BitVec.twoPow 32 (bitOf index)

namespace Channel

variable (chan : Channel)

def put (c : Nat) (cmd : Cmd) : Channel :=
  { chan with cmds := Function.update chan.cmds c (some cmd) }

/-- The command gives back the slot in its `prp_index` and goes on to a place. -/
def release (c : Nat) (cmd : Cmd) (place : Place) : Channel :=
  { chan with
    prpMap := setPrpMap chan.prpMap cmd.prpIndex false
    cmds := Function.update chan.cmds c
      (some { cmd with place := place, released := cmd.released + 1 }) }

end Channel

/-- The slot behind `nextprp`. -/
def nextIndex (backend : Backend) (nextprp : Nat) : Nat :=
  if nextprp = backend.dmaSlotCh then 1 else nextprp + 1

/-- A round of `fbe_get_next_prp` and `volt_get_next_prp`. -/
def getNextPrp (backend : Backend) (chan : Channel) (c : Nat) (cmd : Cmd) : Channel :=
  let next := nextIndex backend chan.nextprp
  let chan := { chan with nextprp := next }
  if chan.prpMap &&& BitVec.twoPow 32 (bitOf next) ≠ 0 then chan
  else
    { chan with
      prpMap := chan.prpMap ||| BitVec.twoPow 32 (bitOf next)
      cmds := Function.update chan.cmds c
        (some { cmd with prpIndex := next, place := .prepared, obtained := cmd.obtained + 1 }) }

/-- `fbe_read_page`, `fbe_write_page` and `fbe_erase_blk` up to the loop or the queue.  The memory
of the command still has the `prp_index` of its last use. -/
def prepare (backend : Backend) (chan : Channel) (c : Nat) (type : CmdType) (sizes : Sizes)
    (stale : Nat) : Channel :=
  if type.isPage then
    if Fits backend sizes then chan.put c { type := type, prpIndex := 0, place := .searching }
    else chan.release c { type := type, prpIndex := stale, place := .cleaning } .rejected
  else chan.put c { type := type, prpIndex := stale, place := .prepared }

/-- `fbe_callback`, `volt_callback` and the timeout handlers, as far as the slot goes. -/
def giveBack (chan : Channel) (c : Nat) (cmd : Cmd) (place : Place) : Channel :=
  if cmd.type.isPage then chan.release c cmd place else chan.put c { cmd with place := place }

/-! ## Runs -/

/-- Steps of the threads of a channel. -/
inductive Op where
  | prepare (c : Nat) (type : CmdType) (sizes : Sizes) (stale : Nat)
  /-- A round of the loop over the slots. -/
  | search (c : Nat)
  /-- `fbe_host_dma_helper` fails for a write. -/
  | dmaFails (c : Nat)
  | enqueue (c : Nat) (ok : Bool)
  /-- The release at `CLEAN`. -/
  | clean (c : Nat)
  | timeout (c : Nat)
  | callback (c : Nat)
  deriving DecidableEq, Repr

/-- A step of a command that is there. -/
def cmdStep (backend : Backend) (chan : Channel) (c : Nat) (cmd : Cmd) : Op → Channel
  | .prepare .. => chan
  | .search _ => if cmd.place = .searching then getNextPrp backend chan c cmd else chan
  | .dmaFails _ =>
      if cmd.place = .prepared ∧ cmd.type = .writePg then chan.put c { cmd with place := .cleaning }
      else chan
  | .enqueue _ ok =>
      if cmd.place = .prepared then
        if ok then chan.put c { cmd with place := .queued false false }
        else if cmd.type.isPage then chan.put c { cmd with place := .cleaning }
        else chan.put c { cmd with place := .rejected }
      else chan
  | .clean _ => if cmd.place = .cleaning then chan.release c cmd .rejected else chan
  | .timeout _ =>
      match cmd.place with
      | .queued false calledBack => giveBack chan c cmd (.queued true calledBack)
      | _ => chan
  | .callback _ =>
      match cmd.place with
      | .queued timedOut false => giveBack chan c cmd (.queued timedOut true)
      | _ => chan

/-- The command of a step. -/
def Op.cmd : Op → Nat
  | .prepare c .. | .search c | .dmaFails c | .enqueue c _ | .clean c | .timeout c | .callback c =>
      c

/-- One step.  A step that is not possible changes nothing. -/
def step (backend : Backend) (chan : Channel) (op : Op) : Channel :=
  match chan.cmds op.cmd with
  | some cmd => cmdStep backend chan op.cmd cmd op
  | none =>
      match op with
      | .prepare c type sizes stale => prepare backend chan c type sizes stale
      | _ => chan

/-- Runs of a channel. -/
def dmaSystem (backend : Backend) : System Channel Op Unit where
  step chan op := (step backend chan op, ())

/-! ## Ownership -/

/-- The command has obtained a slot and not released it. -/
def Cmd.Holds (cmd : Cmd) : Prop :=
  cmd.released < cmd.obtained

instance (cmd : Cmd) : Decidable cmd.Holds :=
  inferInstanceAs (Decidable (_ < _))

/-- The bit of the slot that a command holds. -/
def Cmd.slot (cmd : Cmd) : Option Nat :=
  if cmd.Holds then some (bitOf cmd.prpIndex) else none

/-- The bits of the slots that the commands hold. -/
def Channel.held (chan : Channel) (c : Nat) : Option Nat :=
  (chan.cmds c).bind Cmd.slot

/-- The command has been rejected, timed out or called back. -/
def Place.finished : Place → Bool
  | .rejected => true
  | .queued timedOut calledBack => timedOut || calledBack
  | _ => false

/-- A bit is set exactly when its slot belongs to a command, no two commands have the same slot, the
slots are those of the channel, and a slot is released at most once, and once when its command is
finished. -/
structure SlotsOwned (backend : Backend) (chan : Channel) : Prop where
  owned : Owned chan.prpMap chan.held
  inside : ∀ c cmd, chan.cmds c = some cmd → cmd.Holds →
    1 ≤ cmd.prpIndex ∧ cmd.prpIndex ≤ backend.dmaSlotCh
  once : ∀ c cmd, chan.cmds c = some cmd →
    cmd.released ≤ cmd.obtained ∧ (cmd.place.finished = true → cmd.released = cmd.obtained)

/-- A page command is not rejected for its sizes, and a command that has been timed out or called
back is not released again. -/
def Harmless (backend : Backend) (chan : Channel) : Op → Prop
  | .prepare c type sizes _ => chan.cmds c = none → type.isPage = true → Fits backend sizes
  | .timeout c =>
      ∀ cmd, chan.cmds c = some cmd → cmd.type.isPage = true → cmd.place ≠ .queued false true
  | .callback c =>
      ∀ cmd, chan.cmds c = some cmd → cmd.type.isPage = true → cmd.place ≠ .queued true false
  | _ => True

/-! ## Invariant -/

/-- The slots that a command has obtained and released at its place. -/
def Cmd.Ok (cmd : Cmd) : Prop :=
  match cmd.place with
  | .searching => cmd.type.isPage = true ∧ cmd.obtained = 0 ∧ cmd.released = 0
  | .prepared | .queued false false =>
      cmd.released = 0 ∧ cmd.obtained = if cmd.type.isPage then 1 else 0
  | .cleaning => cmd.type.isPage = true ∧ cmd.released = 0 ∧ cmd.obtained = 1
  | .rejected | .queued _ _ => cmd.released = cmd.obtained

/-- The invariant of a channel. -/
structure Inv (backend : Backend) (chan : Channel) : Prop where
  owned : Owned chan.prpMap chan.held
  ok : ∀ c cmd, chan.cmds c = some cmd → cmd.Ok
  inside : ∀ c cmd, chan.cmds c = some cmd → cmd.Holds →
    1 ≤ cmd.prpIndex ∧ cmd.prpIndex ≤ backend.dmaSlotCh
  next_le : chan.nextprp ≤ backend.dmaSlotCh

variable {backend : Backend} {chan : Channel} {c : Nat} {cmd cmd' : Cmd} {place : Place}

theorem bitOf_lt (index : Nat) : bitOf index < 32 :=
  Nat.mod_lt _ (by decide)

theorem slot_of_holds (holds : cmd.Holds) : cmd.slot = some (bitOf cmd.prpIndex) :=
  if_pos holds

theorem slot_of_not_holds (free : ¬ cmd.Holds) : cmd.slot = none :=
  if_neg free

theorem Cmd.Ok.once (ok : cmd.Ok) :
    cmd.released ≤ cmd.obtained ∧ (cmd.place.finished = true → cmd.released = cmd.obtained) := by
  rw [Cmd.Ok] at ok
  cases at' : cmd.place with
  | searching =>
      rw [at'] at ok
      exact ⟨Nat.le_trans (Nat.le_of_eq ok.2.2) (Nat.zero_le _), fun finished => by cases finished⟩
  | prepared =>
      rw [at'] at ok
      exact ⟨Nat.le_trans (Nat.le_of_eq ok.1) (Nat.zero_le _), fun finished => by cases finished⟩
  | cleaning =>
      rw [at'] at ok
      exact ⟨Nat.le_trans (Nat.le_of_eq ok.2.1) (Nat.zero_le _), fun finished => by cases finished⟩
  | rejected =>
      rw [at'] at ok
      exact ⟨Nat.le_of_eq ok, fun _ => ok⟩
  | queued timedOut calledBack =>
      rw [at'] at ok
      cases timedOut <;> cases calledBack
      · exact ⟨Nat.le_trans (Nat.le_of_eq ok.1) (Nat.zero_le _), fun finished => by cases finished⟩
      · exact ⟨Nat.le_of_eq ok, fun _ => ok⟩
      · exact ⟨Nat.le_of_eq ok, fun _ => ok⟩
      · exact ⟨Nat.le_of_eq ok, fun _ => ok⟩

theorem Inv.slotsOwned (inv : Inv backend chan) : SlotsOwned backend chan where
  owned := inv.owned
  inside := inv.inside
  once c cmd found := (inv.ok c cmd found).once

theorem inv_empty (backend : Backend) : Inv backend {} where
  owned := owned_empty
  ok c cmd found := by cases found
  inside c cmd found := by cases found
  next_le := Nat.zero_le _

/-! ## Changes of one command -/

theorem held_update (chan : Channel) (nextprp : Nat) (map : BitVec 32) (c : Nat) (cmd : Cmd) :
    Channel.held ⟨nextprp, map, Function.update chan.cmds c (some cmd)⟩ =
      Function.update chan.held c cmd.slot := by
  funext other
  by_cases same : other = c
  · subst same
    simp [Channel.held]
  · simp [Channel.held, same]

theorem held_eq (found : chan.cmds c = some cmd) : chan.held c = cmd.slot := by
  rw [Channel.held, found]
  rfl

/-- The commands behind a change of one command. -/
theorem Inv.update (inv : Inv backend chan) {nextprp : Nat} {map : BitVec 32}
    (owned : Owned map (Function.update chan.held c cmd'.slot)) (ok : cmd'.Ok)
    (inside : cmd'.Holds → 1 ≤ cmd'.prpIndex ∧ cmd'.prpIndex ≤ backend.dmaSlotCh)
    (next_le : nextprp ≤ backend.dmaSlotCh) :
    Inv backend ⟨nextprp, map, Function.update chan.cmds c (some cmd')⟩ where
  owned := by
    rw [held_update]
    exact owned
  ok other found at' := by
    by_cases same : other = c
    · subst same
      simp only [Function.update_self, Option.some.injEq] at at'
      exact at' ▸ ok
    · simp only [Function.update_of_ne same] at at'
      exact inv.ok other found at'
  inside other found at' := by
    by_cases same : other = c
    · subst same
      simp only [Function.update_self, Option.some.injEq] at at'
      exact at' ▸ inside
    · simp only [Function.update_of_ne same] at at'
      exact inv.inside other found at'
  next_le := next_le

/-- A command moves without a slot, or with its slot. -/
theorem Inv.put (inv : Inv backend chan) (slot : cmd'.slot = chan.held c) (ok : cmd'.Ok)
    (inside : cmd'.Holds → 1 ≤ cmd'.prpIndex ∧ cmd'.prpIndex ≤ backend.dmaSlotCh) :
    Inv backend (chan.put c cmd') := by
  refine inv.update ?_ ok inside inv.next_le
  rw [slot, Function.update_eq_self]
  exact inv.owned

/-- A new command has no slot. -/
theorem Inv.put_new (inv : Inv backend chan) (fresh : chan.cmds c = none) (ok : cmd'.Ok)
    (free : ¬ cmd'.Holds) : Inv backend (chan.put c cmd') := by
  refine inv.put ?_ ok fun holds => absurd holds free
  rw [slot_of_not_holds free, Channel.held, fresh]
  rfl

/-- A command that is there moves and keeps what it has. -/
theorem Inv.move (inv : Inv backend chan) (found : chan.cmds c = some cmd)
    (ok : Cmd.Ok { cmd with place := place }) :
    Inv backend (chan.put c { cmd with place := place }) := by
  refine inv.put ?_ ok (inv.inside c cmd found)
  rw [held_eq found]
  rfl

/-- The holder of a slot releases it. -/
theorem Inv.release (inv : Inv backend chan) (found : chan.cmds c = some cmd)
    (none : cmd.released = 0) (one : cmd.obtained = 1)
    (ok : Cmd.Ok { cmd with place := place, released := cmd.released + 1 }) :
    Inv backend (chan.release c cmd place) := by
  have holds : cmd.Holds := by
    rw [Cmd.Holds, none, one]
    exact Nat.zero_lt_one
  have gone : ¬ Cmd.Holds { cmd with place := place, released := cmd.released + 1 } := by
    simp only [Cmd.Holds, none, one]
    exact Nat.lt_irrefl _
  refine inv.update ?_ ok (fun again => absurd again gone) inv.next_le
  rw [slot_of_not_holds gone]
  exact inv.owned.release ((held_eq found).trans (slot_of_holds holds))

/-- A release by a command without a slot leaves a bit that is wrong. -/
theorem not_owned_release (owned : Owned chan.prpMap chan.held) (free : chan.held c = none)
    (le : cmd.obtained ≤ cmd.released) : ¬ SlotsOwned backend (chan.release c cmd place) := by
  intro after
  have gone : ¬ Cmd.Holds { cmd with place := place, released := cmd.released + 1 } :=
    Nat.not_lt.mpr (Nat.le_succ_of_le le)
  have held : (chan.release c cmd place).held = chan.held := by
    refine (held_update chan _ _ c _).trans ?_
    rw [slot_of_not_holds gone, ← free, Function.update_eq_self]
  have toggled := after.owned
  rw [held] at toggled
  exact owned.not_toggle (bitOf_lt cmd.prpIndex) toggled

theorem nextIndex_inside (next_le : chan.nextprp ≤ backend.dmaSlotCh) :
    1 ≤ nextIndex backend chan.nextprp ∧
      nextIndex backend chan.nextprp ≤ backend.dmaSlotCh := by
  rw [nextIndex]
  split
  · exact ⟨Nat.le_refl _, backend.slots_pos⟩
  · exact ⟨Nat.le_add_left _ _, Nat.lt_of_le_of_ne next_le ‹_›⟩

/-- A round of the loop over the slots. -/
theorem Inv.getNextPrp (inv : Inv backend chan) (found : chan.cmds c = some cmd)
    (searching : cmd.place = .searching) : Inv backend (getNextPrp backend chan c cmd) := by
  have ok := inv.ok c cmd found
  rw [Cmd.Ok, searching] at ok
  obtain ⟨page, obtained, released⟩ := ok
  have next := nextIndex_inside inv.next_le
  rw [DmaSlots.getNextPrp]
  simp only
  split
  · exact ⟨inv.owned, inv.ok, inv.inside, next.2⟩
  · rename_i clear
    have free : chan.prpMap.getLsbD (bitOf (nextIndex backend chan.nextprp)) = false := by
      rw [and_twoPow_ne_zero (bitOf_lt _)] at clear
      exact Bool.eq_false_iff.mpr clear
    have noSlot : chan.held c = none := by
      rw [held_eq found, slot_of_not_holds]
      rw [Cmd.Holds, obtained]
      exact Nat.not_lt_zero _
    refine inv.update ?_ ?_ (fun _ => next) next.2
    · rw [slot_of_holds]
      · exact inv.owned.obtain (bitOf_lt _) free noSlot
      · simp [Cmd.Holds, obtained, released]
    · simp [Cmd.Ok, page, obtained, released]

/-! ## Steps -/

/-- What a command in the queue has. -/
theorem Inv.queued (inv : Inv backend chan) (found : chan.cmds c = some cmd)
    {timedOut calledBack : Bool} (queued : cmd.place = .queued timedOut calledBack) :
    (timedOut || calledBack) = true ∨ cmd.type.isPage = false → cmd.released = cmd.obtained := by
  have ok := inv.ok c cmd found
  rw [Cmd.Ok, queued] at ok
  rintro (finished | erase)
  · cases timedOut <;> cases calledBack
    · cases finished
    · exact ok
    · exact ok
    · exact ok
  · cases timedOut <;> cases calledBack
    · exact ok.1.trans (ok.2.trans (by rw [erase]; rfl)).symm
    · exact ok
    · exact ok
    · exact ok

theorem ok_finished {timedOut calledBack : Bool} (finished : (timedOut || calledBack) = true)
    (at' : cmd.place = .queued timedOut calledBack) (once : cmd.released = cmd.obtained) :
    cmd.Ok := by
  rw [Cmd.Ok, at']
  cases timedOut <;> cases calledBack
  · cases finished
  · exact once
  · exact once
  · exact once

/-- The first timeout or callback of a page command, and any of an erase. -/
theorem Inv.giveBack (inv : Inv backend chan) (found : chan.cmds c = some cmd)
    {timedOut calledBack timedOut' calledBack' : Bool}
    (queued : cmd.place = .queued timedOut calledBack)
    (first : cmd.type.isPage = true → (timedOut || calledBack) = false)
    (finished : (timedOut' || calledBack') = true) :
    Inv backend (giveBack chan c cmd (.queued timedOut' calledBack')) := by
  have ok := inv.ok c cmd found
  rw [DmaSlots.giveBack]
  split
  · rename_i page
    obtain ⟨rfl, rfl⟩ := Bool.or_eq_false_iff.mp (first page)
    rw [Cmd.Ok, queued] at ok
    obtain ⟨released, obtained⟩ := ok
    rw [if_pos page] at obtained
    apply inv.release found released obtained
    exact ok_finished finished rfl (by rw [released, obtained])
  · rename_i erase
    have once := inv.queued found queued (Or.inr (Bool.eq_false_iff.mpr erase))
    apply inv.move found
    exact ok_finished finished rfl once

theorem Inv.prepare (inv : Inv backend chan) (fresh : chan.cmds c = none) {type : CmdType}
    {sizes : Sizes} (fits : type.isPage = true → Fits backend sizes) (stale : Nat) :
    Inv backend (prepare backend chan c type sizes stale) := by
  rw [DmaSlots.prepare]
  split
  · rename_i page
    rw [if_pos (fits page)]
    exact inv.put_new fresh ⟨page, rfl, rfl⟩ (Nat.not_lt_zero _)
  · rename_i erase
    exact inv.put_new fresh ⟨rfl, by rw [if_neg erase]⟩ (Nat.not_lt_zero _)

theorem Inv.enqueue (inv : Inv backend chan) (found : chan.cmds c = some cmd)
    (prepared : cmd.place = .prepared) (ok : Bool) :
    Inv backend (cmdStep backend chan c cmd (.enqueue c ok)) := by
  have before := inv.ok c cmd found
  rw [Cmd.Ok, prepared] at before
  obtain ⟨released, obtained⟩ := before
  rw [cmdStep, if_pos prepared]
  split
  · apply inv.move found
    exact ⟨released, obtained⟩
  · split
    · rename_i page
      apply inv.move found
      exact ⟨page, released, by rw [obtained, if_pos page]⟩
    · rename_i erase
      apply inv.move found
      exact released.trans (by rw [obtained, if_neg erase])

/-- A harmless step keeps the invariant. -/
theorem Inv.step (inv : Inv backend chan) (op : Op) (harmless : Harmless backend chan op) :
    Inv backend (step backend chan op) := by
  cases found : chan.cmds op.cmd with
  | none =>
      cases op with
      | prepare c type sizes stale =>
          have eq : DmaSlots.step backend chan (.prepare c type sizes stale) =
              DmaSlots.prepare backend chan c type sizes stale := by
            simp only [DmaSlots.step, found]
          rw [eq]
          exact inv.prepare found (harmless found) stale
      | search | dmaFails | enqueue | clean | timeout | callback =>
          simp only [DmaSlots.step, found]
          exact inv
  | some cmd =>
      have eq : DmaSlots.step backend chan op = cmdStep backend chan op.cmd cmd op := by
        simp only [DmaSlots.step, found]
      rw [eq]
      cases op with
      | prepare c type sizes stale => exact inv
      | search c =>
          simp only [cmdStep]
          split
          · exact inv.getNextPrp found ‹_›
          · exact inv
      | dmaFails c =>
          simp only [cmdStep]
          split
          · rename_i write
            have before := inv.ok c cmd found
            rw [Cmd.Ok, write.1, write.2] at before
            apply inv.move found
            exact ⟨by rw [write.2]; rfl, before⟩
          · exact inv
      | enqueue c ok =>
          by_cases prepared : cmd.place = .prepared
          · exact inv.enqueue found prepared ok
          · simp only [cmdStep, if_neg prepared]
            exact inv
      | clean c =>
          simp only [cmdStep]
          split
          · rename_i cleaning
            have before := inv.ok c cmd found
            rw [Cmd.Ok, cleaning] at before
            obtain ⟨page, released, obtained⟩ := before
            apply inv.release found released obtained
            simp [Cmd.Ok, released, obtained]
          · exact inv
      | timeout c =>
          simp only [cmdStep]
          split
          · rename_i calledBack queued
            refine inv.giveBack found queued (fun page => ?_) rfl
            cases calledBack with
            | false => rfl
            | true => exact absurd queued (harmless cmd found page)
          · exact inv
      | callback c =>
          simp only [cmdStep]
          split
          · rename_i timedOut queued
            refine inv.giveBack found queued (fun page => ?_) (Bool.or_true _)
            cases timedOut with
            | false => rfl
            | true => exact absurd queued (harmless cmd found page)
          · exact inv

/-- A second release of a page command. -/
theorem not_owned_giveBack (inv : Inv backend chan) (found : chan.cmds c = some cmd)
    {timedOut calledBack : Bool} (queued : cmd.place = .queued timedOut calledBack)
    (finished : (timedOut || calledBack) = true) (page : cmd.type.isPage = true) :
    ¬ SlotsOwned backend (giveBack chan c cmd place) := by
  have once := inv.queued found queued (Or.inl finished)
  have free : chan.held c = none := by
    rw [held_eq found, slot_of_not_holds]
    rw [Cmd.Holds, once]
    exact Nat.lt_irrefl _
  rw [giveBack, if_pos page]
  exact not_owned_release inv.owned free (Nat.le_of_eq once.symm)

/-- A step that is not harmless leaves a bit that is wrong. -/
theorem not_owned_step (op : Op) (harmful : ¬ Harmless backend chan op) (inv : Inv backend chan) :
    ¬ SlotsOwned backend (step backend chan op) := by
  cases op with
  | search | dmaFails | enqueue | clean => exact absurd trivial harmful
  | prepare c type sizes stale =>
      simp only [Harmless, Classical.not_imp] at harmful
      obtain ⟨fresh, page, rejected⟩ := harmful
      simp only [step, Op.cmd, fresh, prepare, if_pos page, if_neg rejected]
      refine not_owned_release inv.owned ?_ (Nat.le_refl _)
      rw [Channel.held, fresh]
      rfl
  | timeout c =>
      simp only [Harmless, not_forall, not_not] at harmful
      obtain ⟨cmd, found, page, queued⟩ := harmful
      simp only [step, Op.cmd, found, cmdStep, queued]
      exact not_owned_giveBack inv found queued rfl page
  | callback c =>
      simp only [Harmless, not_forall, not_not] at harmful
      obtain ⟨cmd, found, page, queued⟩ := harmful
      simp only [step, Op.cmd, found, cmdStep, queued]
      exact not_owned_giveBack inv found queued rfl page

/-- In every run the slots are owned in every state exactly when no page command is rejected for its
sizes and none is both timed out and called back. -/
theorem slots_owned_iff (backend : Backend) (ops : List Op) :
    (∀ before, before <+: ops → SlotsOwned backend ((dmaSystem backend).run {} before)) ↔
      (dmaSystem backend).Allowed (Harmless backend) {} ops :=
  (dmaSystem backend).forall_prefix_iff_allowed (Harmless backend) (Inv backend)
    (SlotsOwned backend) (fun _ op harmless inv => inv.step op harmless)
    (fun _ inv => inv.slotsOwned) (fun _ op harmful inv => not_owned_step op harmful inv)
    (inv_empty backend) ops

/-- A write of two pages at once, in the memory of a command that had the first slot. -/
def rejectedWrite : List Op :=
  [.prepare 0 .writePg { pgSz := 0x8000, secSz := 0x1000, mdSz := 0x40 } 1]

/-- A read that is timed out and then called back. -/
def lateRead : List Op :=
  [.prepare 0 .readPg { pgSz := 0x4000, secSz := 0x1000, mdSz := 0x40 } 0, .search 0,
    .enqueue 0 true, .timeout 0, .callback 0]

/-- Both runs leave the bit of the first slot set, and no command has the slot. -/
theorem slots_leak :
    ¬ SlotsOwned fileBe ((dmaSystem fileBe).run {} rejectedWrite) ∧
      ¬ SlotsOwned volt ((dmaSystem volt).run {} rejectedWrite) ∧
      ¬ SlotsOwned fileBe ((dmaSystem fileBe).run {} lateRead) ∧
      ¬ SlotsOwned volt ((dmaSystem volt).run {} lateRead) := by
  have leak : ∀ backend ops, ((dmaSystem backend).run {} ops).prpMap.getLsbD 0 = true →
      (∀ c, ((dmaSystem backend).run {} ops).held c = none) →
      ¬ SlotsOwned backend ((dmaSystem backend).run {} ops) := by
    intro backend ops set free after
    obtain ⟨c, held⟩ := (after.owned.bits 0 (by decide)).mp set
    rw [free c] at held
    cases held
  refine ⟨leak _ _ (by decide) ?_, leak _ _ (by decide) ?_, leak _ _ (by decide) ?_,
    leak _ _ (by decide) ?_⟩
  all_goals
    intro c
    cases c with
    | zero => rfl
    | succ c => rfl

end OxCtrl.DmaSlots
