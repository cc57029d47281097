import OxCtrl.Store

/-!
# Garbage collection of a block

`block_gc_process_blk` of `oxb-gc.c`, with the functions that it calls.  The pages of the
victim have been read to the buffers of the thread.  The valid user sectors are copied to
a write buffer, and a buffer that is full is written to a new page.  Whether there is a
new page is decided by provisioning; page writes succeed.
-/

namespace OxCtrl.Gc

universe u

/-- `enum app_pg_type`; `unknown` stands for all other codes. -/
inductive PgType where
  | reserved | nameSpace | map | mapMd | blkMd | padding | log | unknown
  deriving DecidableEq, Repr

/-- `struct app_sec_oob`. -/
structure SecOob where
  lba : Nat
  pgType : PgType
  deriving DecidableEq, Repr

/-- A sector with its out-of-band area. -/
structure Sector (δ : Type u) where
  data : δ
  oob : SecOob
  deriving DecidableEq, Repr

/-- The pages that provisioning hands out, one for each request.  The victim is closed,
so none of them is its page. -/
structure Dest (geo : Geometry) (victim : BlkAddr) where
  pages : Nat → Option (List Ppa)
  length : ∀ {i ppas}, pages i = some ppas → ppas.length = geo.secPerPlPg
  outside : ∀ {i ppas}, pages i = some ppas → ∀ ppa ∈ ppas, ppa.block ≠ victim
  nodup : ∀ {i ppas}, pages i = some ppas → ppas.Nodup
  disjoint : ∀ {i j first second}, pages i = some first → pages j = some second → i ≠ j →
    first.Disjoint second

/-- The tables, the local variables of `block_gc_process_blk`, and the sectors that were
written. -/
structure GcState (δ : Type u) where
  store : Store Unit
  /-- The sectors in `w_io`. -/
  wIo : Nat → Sector δ
  ppaOff : Nat := 0
  failedSec : Nat := 0
  secOk : Nat := 0
  /-- Number of calls of `block_gc_process_pg`. -/
  calls : Nat := 0
  written : Ppa → Option (Sector δ) := fun _ => none

variable {δ : Type u} (geo : Geometry) {victim : BlkAddr} (dest : Dest geo victim)

/-- `block_gc_check_valid_pg`: the number of planes with a valid sector. -/
def blockGcCheckValidPg (md : BlkMdEntry) (pg : Nat) : Nat :=
  (List.range geo.nOfPlanes).countP fun pl =>
    md.pgState (BlkMdEntry.stateIdx geo pg pl) &&& BlkMdEntry.fullMask geo ≠
      BlkMdEntry.fullMask geo

/-! ## Moving a page -/

/-- `gc_old_ppa` for sector number `secI` of a page. -/
def sectorOf (ppa : Ppa) (secI : Nat) : Ppa :=
  ppa.setSector (secI / geo.secPerPg) (secI % geo.secPerPg)

/-- The loop over the sectors in `block_gc_process_pg`. -/
def remapSector (lbas : Nat → Nat) (nSec : Nat) (ppas : List Ppa) (gcOldPpa : Ppa)
    (store : Store Unit) (secI : Nat) : Store Unit :=
  let new := ppas.getD secI 0
  -- Invalidate padded sectors
  if nSec ≤ secI then store.invalidate geo new false
  else
    match store.upsert (lbas secI) new (sectorOf geo gcOldPpa secI) with
    | (store, old, 0) => if old = 0 then store else store.invalidate geo old false
    | (store, _, _) => store.invalidate geo new false

/-- A page is written. -/
def writePg (written : Ppa → Option (Sector δ)) (ppas : List Ppa) (wIo : Nat → Sector δ) :
    Ppa → Option (Sector δ) :=
  fun ppa =>
    match ppas.idxOf? ppa with
    | some secI => some (wIo secI)
    | none => written ppa

/-- `block_gc_process_pg`, with the number of sectors that it returns. -/
def blockGcProcessPg (state : GcState δ) (nSec : Nat) (gcOldPpa : Ppa) : GcState δ × Nat :=
  let page := dest.pages state.calls
  let state := { state with calls := state.calls + 1 }
  match page with
  | none => (state, 0)
  | some ppas =>
      if ppas.length < geo.secPerPlPg then (state, 0)
      else
        let lbas := fun secI => (state.wIo secI).oob.lba
        ({ state with
            written := writePg state.written ppas state.wIo
            store := (List.range geo.secPerPlPg).foldl
              (remapSector geo lbas nSec ppas gcOldPpa) state.store },
          nSec % 2 ^ 8)

/-- `block_gc_move_sector`.  The flag tells that the sector was copied to the buffer. -/
def blockGcMoveSector (state : GcState δ) (sector : Sector δ) (oldPpa : Ppa) : GcState δ × Bool :=
  match sector.oob.pgType with
  | .nameSpace => ({ state with wIo := Function.update state.wIo state.ppaOff sector }, true)
  | .blkMd | .mapMd | .log => (state, false)
  | .padding | .map | .reserved | .unknown =>
      ({ state with store := state.store.invalidate geo oldPpa false }, false)

/-! ## The block -/

/-- The buffer is written, and the outcome is counted. -/
def flushBuffer (state : GcState δ) (oldPpa : Ppa) : GcState δ :=
  let (after, nsec) := blockGcProcessPg geo dest state state.ppaOff oldPpa
  { after with
    failedSec := (state.failedSec + (state.ppaOff - nsec)) % 2 ^ 8
    secOk := (state.secOk + nsec) % 2 ^ 8
    ppaOff := 0 }

variable (sectors : Nat → Nat → Sector δ) (ppa : Ppa)

/-- The inner loop of `block_gc_process_blk`: sector `secI` of page `pgI`. -/
def processSector (pgI : Nat) (state : GcState δ) (secI : Nat) : GcState δ :=
  let pl := secI / geo.secPerPg
  let sec := secI % geo.secPerPg
  if (state.store.blocks victim).isInvalid geo pgI pl sec then state
  else
    let oldPpa := sectorOf geo (ppa.setPg pgI) secI
    match blockGcMoveSector geo state (sectors pgI secI) oldPpa with
    | (state, false) => state
    | (state, true) =>
        let state := { state with ppaOff := state.ppaOff + 1 }
        if state.ppaOff = geo.secPerPlPg then flushBuffer geo dest state oldPpa else state

/-- The outer loop of `block_gc_process_blk`. -/
def processPage (state : GcState δ) (pgI : Nat) : GcState δ :=
  if blockGcCheckValidPg geo (state.store.blocks victim) pgI = 0 then state
  else (List.range geo.secPerPlPg).foldl (processSector geo dest sectors ppa pgI) state

/-- The rest of the buffer is padded. -/
def padBuffer (state : GcState δ) : GcState δ :=
  { state with
    wIo := fun secI =>
      if state.ppaOff ≤ secI ∧ secI < geo.secPerPlPg then
        { state.wIo secI with oob := { lba := 0, pgType := .padding } }
      else state.wIo secI }

/-- `block_gc_process_blk`; `failedSec` is what it stores to `failed`. -/
def blockGcProcessBlk (state : GcState δ) : GcState δ :=
  let state := (List.range geo.pgPerBlk).foldl (processPage geo dest sectors ppa) state
  if state.ppaOff = 0 then state
  else flushBuffer geo dest (padBuffer geo state) (ppa.setPg (geo.pgPerBlk - 1))

end OxCtrl.Gc
