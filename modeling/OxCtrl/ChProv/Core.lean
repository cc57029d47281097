import OxCtrl.BlkMd
import Mathlib.Data.Finset.Card
import Mathlib.Logic.Function.Basic

/-!
# Channel provisioning

The state and the operations of `oxb-ch-prov.c`.  A block element is named by its
LUN and its number in the LUN; the intrusive lists are lists of such names, head
first.  `trace` records the erases and the pages written into callers' lists, in
the order in which they happen.

The outcome of every erase attempt is supplied from outside, and so are the values
that `rand` returns while the free lists are filled.  The closing timestamps and
the channel flags set by `check_gc_fn` are read by other modules only and are left
out.
-/

namespace OxCtrl.ChProv

/-- `enum app_line_type`. -/
inductive LineType where
  | user | cold | metadata
  deriving DecidableEq, Repr

/-- `struct ch_prov_blk`, by address. -/
structure Vblk where
  lun : Nat
  blk : Nat
  deriving DecidableEq, Repr

theorem Vblk.eq_of_lun_blk {first second : Vblk} (lun : first.lun = second.lun)
    (blk : first.blk = second.blk) : first = second := by
  cases first
  cases second
  cases lun
  cases blk
  rfl

/-- `struct ch_prov_lun`. -/
structure Lun where
  nfreeBlks : Nat := 0
  nusedBlks : Nat := 0
  nopenBlks : LineType → Nat := fun _ => 0
  freeBlks : List Nat := []
  usedBlks : List Nat := []
  openBlks : LineType → List Nat := fun _ => []
  waitingCp : List Nat := []

/-- `struct ch_prov_line`.  Entries of `vblks` from `nblks` on are stale. -/
structure Line where
  nblks : Nat := 0
  currentBlk : Nat := 0
  vblks : List Vblk := []

/-- The blocks of a line. -/
def Line.blks (line : Line) : List Vblk :=
  line.vblks.take line.nblks

/-- What happens to the blocks of a channel. -/
inductive Event where
  | erase (vblk : Vblk)
  | page (vblk : Vblk) (pg : Nat)
  /-- The block joined an open list although there was no memory for its erase. -/
  | unerased (vblk : Vblk)
  deriving DecidableEq, Repr

/-- Outcome of an attempt to erase a block: no memory for the command, a failed
erase of one of the planes, or success. -/
inductive EraseOutcome where
  | noMem | failed | ok
  deriving DecidableEq, Repr

/-- A channel: `struct ch_prov` with the block metadata of the channel. -/
structure Chan where
  luns : Nat → Lun := fun _ => {}
  line : LineType → Line := fun _ => {}
  md : Nat → Nat → BlkMdEntry := fun _ _ => {}
  dirty : Nat → Bool := fun _ => false
  erases : Nat := 0
  /-- Blocks marked with `set_bbtbl` after a failed erase. -/
  grownBad : List Vblk := []
  trace : List Event := []

/-- What the channel takes from outside. -/
structure Env where
  geo : Geometry
  /-- Entries of the block metadata table per page. -/
  entPerPg : Nat
  /-- A plane of the block is marked in the bad block table. -/
  bad : Nat → Nat → Bool
  /-- Result of the `n`-th erase attempt. -/
  erase : Nat → EraseOutcome
  /-- The two values of `rand` used when a block joins the free list. -/
  rand : Nat → Nat → Nat × Nat

/-- `APP_PROV_LINE_SZ`. -/
def appProvLineSz : Nat := 8

variable (env : Env)

/-! ## State updates -/

/-- Update a LUN. -/
def Chan.setLun (chan : Chan) (lun : Nat) (change : Lun → Lun) : Chan :=
  { chan with luns := Function.update chan.luns lun (change (chan.luns lun)) }

/-- Update the metadata entry of a block. -/
def Chan.setMd (chan : Chan) (vblk : Vblk) (change : BlkMdEntry → BlkMdEntry) : Chan :=
  { chan with
    md := Function.update chan.md vblk.lun
      (Function.update (chan.md vblk.lun) vblk.blk (change (chan.md vblk.lun vblk.blk))) }

/-- Update a write line. -/
def Chan.setLine (chan : Chan) (type : LineType) (line : Line) : Chan :=
  { chan with line := Function.update chan.line type line }

/-- Append to the trace. -/
def Chan.log (chan : Chan) (event : Event) : Chan :=
  { chan with trace := chan.trace ++ [event] }

/-- Count an erase attempt. -/
def Chan.countErase (chan : Chan) : Chan :=
  { chan with erases := chan.erases + 1 }

/-- `set_bbtbl (&vblk->addr, APP_BBT_BAD)`. -/
def Chan.setBad (chan : Chan) (vblk : Vblk) : Chan :=
  { chan with grownBad := vblk :: chan.grownBad }

/-- `md->mark_fn (lch, vblk->blk_i / ent_per_pg)`. -/
def mark (chan : Chan) (vblk : Vblk) : Chan :=
  { chan with
    dirty := Function.update chan.dirty
      ((vblk.lun * env.geo.blkPerLun + vblk.blk) / env.entPerPg) true }

/-- Metadata entry of a block. -/
def Chan.mdOf (chan : Chan) (vblk : Vblk) : BlkMdEntry :=
  chan.md vblk.lun vblk.blk

@[simp]
theorem Chan.mdOf_setMd (chan : Chan) (vblk : Vblk) (change : BlkMdEntry → BlkMdEntry) :
    (chan.setMd vblk change).mdOf vblk = change (chan.mdOf vblk) := by
  simp [Chan.setMd, Chan.mdOf]

theorem Chan.mdOf_setMd_of_ne {chan : Chan} {vblk other : Vblk}
    {change : BlkMdEntry → BlkMdEntry} (differ : other ≠ vblk) :
    (chan.setMd vblk change).mdOf other = chan.mdOf other := by
  by_cases sameLun : other.lun = vblk.lun
  · have blkNe : other.blk ≠ vblk.blk :=
      fun sameBlk => differ (Vblk.eq_of_lun_blk sameLun sameBlk)
    simp [Chan.setMd, Chan.mdOf, sameLun, blkNe]
  · simp [Chan.setMd, Chan.mdOf, sameLun]

@[simp]
theorem Chan.mdOf_setLun (chan : Chan) (lun : Nat) (change : Lun → Lun) (vblk : Vblk) :
    (chan.setLun lun change).mdOf vblk = chan.mdOf vblk :=
  rfl

@[simp]
theorem Chan.mdOf_log (chan : Chan) (event : Event) (vblk : Vblk) :
    (chan.log event).mdOf vblk = chan.mdOf vblk :=
  rfl

@[simp]
theorem Chan.mdOf_countErase (chan : Chan) (vblk : Vblk) :
    chan.countErase.mdOf vblk = chan.mdOf vblk :=
  rfl

@[simp]
theorem Chan.mdOf_setBad (chan : Chan) (vblk other : Vblk) :
    (chan.setBad vblk).mdOf other = chan.mdOf other :=
  rfl

@[simp]
theorem mdOf_mark (chan : Chan) (vblk other : Vblk) :
    (mark env chan vblk).mdOf other = chan.mdOf other :=
  rfl

/-! ## Blocks -/

/-- Put a block at the head of an open list. -/
def linkOpen (type : LineType) (lun : Lun) (blk : Nat) : Lun :=
  { lun with
    openBlks := Function.update lun.openBlks type (blk :: lun.openBlks type)
    nopenBlks := Function.update lun.nopenBlks type (lun.nopenBlks type + 1) }

/-- Take the first free block into the used and open lists. -/
def openFirst (type : LineType) (lun : Lun) (blk : Nat) : Lun :=
  linkOpen type
    { lun with
      freeBlks := lun.freeBlks.erase blk
      usedBlks := lun.usedBlks ++ [blk]
      nfreeBlks := lun.nfreeBlks - 1
      nusedBlks := lun.nusedBlks + 1 } blk

/-- Drop a block whose erase failed from the used and open lists. -/
def dropBad (type : LineType) (lun : Lun) (blk : Nat) : Lun :=
  { lun with
    usedBlks := lun.usedBlks.erase blk
    openBlks := Function.update lun.openBlks type ((lun.openBlks type).erase blk)
    nusedBlks := lun.nusedBlks - 1
    nopenBlks := Function.update lun.nopenBlks type (lun.nopenBlks type - 1) }

/-- Take a block out of the open list. -/
def unlinkOpen (type : LineType) (lun : Lun) (blk : Nat) : Lun :=
  { lun with
    openBlks := Function.update lun.openBlks type ((lun.openBlks type).erase blk)
    nopenBlks := Function.update lun.nopenBlks type (lun.nopenBlks type - 1) }

/-- Move a block from the used to the free list. -/
def moveFree (lun : Lun) (blk : Nat) : Lun :=
  { lun with
    usedBlks := lun.usedBlks.erase blk
    freeBlks := lun.freeBlks ++ [blk]
    nfreeBlks := lun.nfreeBlks + 1
    nusedBlks := lun.nusedBlks - 1 }

/-- Metadata of a block that has been erased and opened. -/
def openedMd (entry : BlkMdEntry) : BlkMdEntry :=
  { entry with
    currentPg := 0
    invalidSec := 0
    flags := { entry.flags with
      used := true, isOpen := true, line := false, metadata := false, cold := false }
    pgState := fun _ => 0 }

/-- The loop of `ch_prov_blk_get`; the first argument is `nfree_blks`. -/
def blkGetLoop (lun : Nat) (type : LineType) : Nat → Chan → Chan × Option Vblk
  | 0, chan => (chan, none)
  | nfree + 1, chan =>
      match (chan.luns lun).freeBlks with
      | [] => (chan, none)
      | blk :: _ =>
          let vblk : Vblk := ⟨lun, blk⟩
          let outcome := env.erase chan.erases
          let chan := chan.setLun lun fun old => openFirst type old blk
          match outcome with
          | .noMem => (chan.countErase.log (.unerased vblk), none)
          | .failed =>
              let chan := mark env chan.countErase vblk
              let chan := chan.setMd vblk fun entry =>
                { entry with eraseCount := entry.eraseCount + 1 }
              -- marked as bad: the block leaves the lists and the next one is tried
              blkGetLoop lun type nfree
                ((chan.setBad vblk).setLun lun fun old => dropBad type old blk)
          | .ok =>
              let chan := mark env chan.countErase vblk
              let chan := chan.setMd vblk fun entry =>
                openedMd { entry with eraseCount := entry.eraseCount + 1 }
              (chan.log (.erase vblk), some vblk)

/-- `ch_prov_blk_get`. -/
def chProvBlkGet (lun : Nat) (type : LineType) (chan : Chan) : Chan × Option Vblk :=
  blkGetLoop env lun type (chan.luns lun).nfreeBlks chan

/-- `ch_prov_blk_close`. -/
def chProvBlkClose (vblk : Vblk) (type : LineType) (chan : Chan) : Chan :=
  let chan := chan.setLun vblk.lun fun lun => unlinkOpen type lun vblk.blk
  (mark env chan vblk).setMd vblk fun entry =>
    { entry with flags := { entry.flags with line := false, isOpen := false } }

/-- `__ch_prov_blk_put`. -/
def chProvBlkPutNow (vblk : Vblk) (chan : Chan) : Chan :=
  let chan := (mark env chan vblk).setMd vblk fun entry =>
    { entry with
      flags := { entry.flags with
        used := false, line := false, metadata := false, cold := false } }
  chan.setLun vblk.lun fun lun => moveFree lun vblk.blk

/-- The waiting list of a LUN is drained from its head. -/
def putWaiting (lun : Nat) : List Nat → Chan → Chan
  | [], chan => chan
  | blk :: rest, chan =>
      putWaiting lun rest
        (chProvBlkPutNow env ⟨lun, blk⟩ (chan.setLun lun fun old =>
          { old with waitingCp := rest }))

/-- `ch_prov_blk_put (lch, 0xffff, 0xffff)`, for LUNs `lun, lun + 1, …`. -/
def completePuts : Nat → Nat → Chan → Chan
  | 0, _, chan => chan
  | left + 1, lun, chan =>
      completePuts left (lun + 1) (putWaiting env lun (chan.luns lun).waitingCp chan)

/-- `ch_prov_blk_put (lch, lun, blk)`. -/
def chProvBlkPut (vblk : Vblk) (chan : Chan) : Chan × Int :=
  if ¬ (chan.mdOf vblk).flags.used then (chan, -1)
  else if (chan.mdOf vblk).flags.isOpen then (chan, -2)
  else
    let chan := chan.setMd vblk fun entry =>
      { entry with flags := { entry.flags with used := false } }
    (chan.setLun vblk.lun fun lun =>
      { lun with waitingCp := vblk.blk :: lun.waitingCp }, 0)

/-! ## Write lines -/

/-- Local variables of `ch_prov_renew_line`: the current LUN, the set bits of
`lflag`, and the blocks collected in `line`. -/
structure RenewState where
  chan : Chan
  lun : Nat
  lflag : Finset Nat
  picked : List Vblk

/-- Bit of a LUN in the 32-bit `lflag`; the shift count is taken modulo the width. -/
def lunBit (lun : Nat) : Nat :=
  lun % 32

/-- `lflag` with the bits of all LUNs set. -/
def allLuns : Finset Nat :=
  (Finset.range env.geo.lunPerCh).image lunBit

/-- The `TAILQ_FOREACH` search: first open block of the LUN that is not marked as
a line block or not yet collected. -/
def pickOpen (chan : Chan) (lun : Nat) (type : LineType) (picked : List Vblk) : Option Vblk :=
  (((chan.luns lun).openBlks type).map fun blk => (⟨lun, blk⟩ : Vblk)).find? fun vblk =>
    ¬ (chan.mdOf vblk).flags.line ∨ vblk ∉ picked

/-- Set the line flags of a collected block. -/
def markLine (vblk : Vblk) (type : LineType) (chan : Chan) : Chan :=
  (mark env chan vblk).setMd vblk fun entry =>
    { entry with
      flags := { entry.flags with
        line := true
        metadata := if type = .metadata then true else entry.flags.metadata
        cold := if type = .cold then true else entry.flags.cold } }

/-- Collect a block. -/
def RenewState.collect (renew : RenewState) (chan : Chan) (type : LineType) (vblk : Vblk) :
    RenewState :=
  { renew with chan := markLine env vblk type chan, picked := renew.picked ++ [vblk] }

/-- Visit of the current LUN in the loop of `ch_prov_renew_line`.  When no open block
can be used a new one is opened; the search that follows finds it at the head of
the open list, so its last alternative is never taken. -/
def visitLun (type : LineType) (renew : RenewState) : RenewState :=
  if lunBit renew.lun ∉ renew.lflag then renew
  else
    match pickOpen renew.chan renew.lun type renew.picked with
    | some vblk => renew.collect env renew.chan type vblk
    | none =>
        match chProvBlkGet env renew.lun type renew.chan with
        | (chan, none) =>
            { renew with chan := chan, lflag := renew.lflag.erase (lunBit renew.lun) }
        | (chan, some _) =>
            match pickOpen chan renew.lun type renew.picked with
            | some vblk => renew.collect env chan type vblk
            | none => { renew with chan := chan }

/-- `NEXT_LUN`. -/
def RenewState.next (renew : RenewState) : RenewState :=
  { renew with lun := if renew.lun = env.geo.lunPerCh - 1 then 0 else renew.lun + 1 }

/-- The loop has ended: no LUN is left or the line is full. -/
def RenewState.Done (renew : RenewState) : Prop :=
  renew.lflag = ∅ ∨ appProvLineSz ≤ renew.picked.length

instance (renew : RenewState) : Decidable renew.Done :=
  inferInstanceAs (Decidable (_ ∨ _))

/-- The loop of `ch_prov_renew_line`. -/
def renewLoop (type : LineType) : Nat → RenewState → RenewState
  | 0, renew => renew
  | fuel + 1, renew =>
      if renew.Done then renew else renewLoop type fuel ((visitLun env type renew).next env)

/-- Visits that the loop needs at most: between two visits that collect a block or
give up a LUN it passes every LUN once. -/
def renewFuel : Nat :=
  (appProvLineSz + 32 + 1) * env.geo.lunPerCh

/-- End of `ch_prov_renew_line`: the collected blocks become the line. -/
def installLine (type : LineType) (renew : RenewState) : Chan × Int :=
  let chan := renew.chan
  let line := chan.line type
  let targets := renew.picked.length
  if targets = 0 then (chan.setLine type { line with nblks := 0 }, -1)
  else
    (chan.setLine type
      { nblks := targets
        currentBlk := if targets ≤ line.currentBlk then 0 else line.currentBlk
        vblks := renew.picked ++ line.vblks.drop targets }, 0)

/-- `ch_prov_renew_line`. -/
def chProvRenewLine (type : LineType) (chan : Chan) : Chan × Int :=
  installLine type (renewLoop env type (renewFuel env)
    { chan := chan, lun := 0, lflag := allLuns env, picked := [] })

/-- `ch_prov_blk_amend`: close the block of `vblk` by force. -/
def chProvBlkAmend (vblk : Vblk) (type : LineType) (chan : Chan) : Chan × Int :=
  let line := chan.line type
  if vblk ∈ line.blks then
    let chan := chProvBlkClose env vblk type chan
    let chan := (chProvRenewLine env type chan).1
    ((mark env chan vblk).setMd vblk fun entry =>
      { entry with currentPg := env.geo.pgPerBlk }, 0)
  else (chan, -1)

/-! ## Page allocation -/

/-- Hand out the next page of the current block of a line: the page is written into
the caller's list, the write pointer moves, and a full block is closed.  The flag
tells that a block has been closed. -/
def takePage (type : LineType) (chan : Chan) : Chan × Bool :=
  let line := chan.line type
  let vblk := line.vblks.getD line.currentBlk ⟨0, 0⟩
  let chan := chan.log (.page vblk (chan.mdOf vblk).currentPg)
  let chan := (mark env chan vblk).setMd vblk fun entry =>
    { entry with currentPg := entry.currentPg + 1 }
  if (chan.mdOf vblk).currentPg = env.geo.pgPerBlk then (chProvBlkClose env vblk type chan, true)
  else (chan, false)

/-- `*li = (*li < nblks - 1) ? *li + 1 : 0`. -/
def advance (type : LineType) (chan : Chan) : Chan :=
  let line := chan.line type
  chan.setLine type
    { line with
      currentBlk := if line.currentBlk + 1 < line.nblks then line.currentBlk + 1 else 0 }

/-- The loop of `ch_prov_get_ppas`, for `pgs_left` pages. -/
def getPpasLoop (type : LineType) : Nat → Bool → Chan → Chan × Int
  | 0, _, chan => (chan, 0)
  | left + 1, renew, chan =>
      let (chan, closed) := takePage env type chan
      let renew := renew || closed
      let chan := advance type chan
      if ((chan.line type).currentBlk = 0 ∨ left = 0) ∧ renew then
        match chProvRenewLine env type chan with
        | (chan, 0) => getPpasLoop type left false chan
        | (chan, _) => if 0 < left then (chan, -1) else getPpasLoop type left false chan
      else getPpasLoop type left renew chan

/-- `ch_prov_get_ppas`. -/
def chProvGetPpas (pgs : Nat) (type : LineType) (chan : Chan) : Chan × Int :=
  if (chan.line type).nblks < 1 then (chan, -1)
  else getPpasLoop env type pgs false chan

/-! ## Start-up -/

/-- Line type that the flags of an open block select. -/
def lineOfFlags (flags : BlkFlags) : LineType :=
  if flags.metadata then .metadata else if flags.cold then .cold else .user

/-- Bring the available flag of a block in line with the bad block table. -/
def setAvlb (vblk : Vblk) (avlb : Bool) (chan : Chan) : Chan :=
  if (chan.mdOf vblk).flags.avlb = avlb then chan
  else
    (mark env chan vblk).setMd vblk fun entry =>
      { entry with flags := { entry.flags with avlb := avlb } }

/-- Add a good block to the lists of its LUN.  A free block goes next to a random
block of the free list, before or after it. -/
def allocLun (flags : BlkFlags) (rand : Nat × Nat) (lun : Lun) (blk : Nat) : Lun :=
  if flags.used then
    let lun := { lun with usedBlks := blk :: lun.usedBlks, nusedBlks := lun.nusedBlks + 1 }
    if flags.isOpen then linkOpen (lineOfFlags flags) lun blk else lun
  else
    let pos := if lun.nfreeBlks = 0 then 0
      else rand.1 % lun.nfreeBlks + (if rand.2 % 2 = 1 then 0 else 1)
    { lun with
      freeBlks := lun.freeBlks.insertIdx pos blk
      nfreeBlks := lun.nfreeBlks + 1 }

/-- `ch_prov_blk_alloc`. -/
def chProvBlkAlloc (vblk : Vblk) (chan : Chan) : Chan :=
  if env.bad vblk.lun vblk.blk then setAvlb env vblk false chan
  else
    let chan := setAvlb env vblk true chan
    chan.setLun vblk.lun fun lun =>
      allocLun (chan.mdOf vblk).flags (env.rand vblk.lun vblk.blk) lun vblk.blk

/-- The block names of the channel in the order of `ch_prov_init_luns`. -/
def allBlks : List Vblk :=
  (List.range env.geo.lunPerCh).flatMap fun lun =>
    (List.range env.geo.blkPerLun).map fun blk => ⟨lun, blk⟩

/-- `ch_prov_init_luns` on the loaded block metadata. -/
def chProvInitLuns (md : Nat → Nat → BlkMdEntry) : Chan :=
  (allBlks env).foldl (fun chan vblk => chProvBlkAlloc env vblk chan) { md := md }

/-- Fill the write lines in turn; a line without blocks makes the start-up fail. -/
def initLines : List LineType → Chan → Option Chan
  | [], chan => some chan
  | type :: types, chan =>
      match chProvRenewLine env type chan with
      | (chan, 0) => initLines types chan
      | (_, _) => none

/-- `ch_prov_init`. -/
def chProvInit (md : Nat → Nat → BlkMdEntry) : Option Chan :=
  initLines env [.user, .cold, .metadata] (chProvInitLuns env md)

/-! ## Runs -/

/-- The operations of the provisioning interface. -/
inductive Op where
  | getPpas (pgs : Nat) (type : LineType)
  | amend (vblk : Vblk) (type : LineType)
  | put (vblk : Vblk)
  | completePuts
  | renewLine (type : LineType)
  | blkGet (lun : Nat) (type : LineType)
  deriving DecidableEq, Repr

/-- One operation. -/
def step (chan : Chan) : Op → Chan
  | .getPpas pgs type => (chProvGetPpas env pgs type chan).1
  | .amend vblk type => (chProvBlkAmend env vblk type chan).1
  | .put vblk => (chProvBlkPut vblk chan).1
  | .completePuts => completePuts env env.geo.lunPerCh 0 chan
  | .renewLine type => (chProvRenewLine env type chan).1
  | .blkGet lun type => (chProvBlkGet env lun type chan).1

end OxCtrl.ChProv
