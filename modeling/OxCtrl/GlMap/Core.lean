import OxCtrl.Log.Entry
import Mathlib.Logic.Function.Basic

/-!
# Global mapping

The state and the operations of `oxb-gl-map.c` and of the small-table functions of
`oxb-ch-map.c`, for one thread.  The mapping pages of a channel are named by their
offset in the small table, and cache entries by their index in `pg_buf`; the
pointer to a cache entry, as it is stored in the small table, is that index.  Page
buffers and NVM pages are functions from the entry number to the entry.

A page write takes its address from global provisioning, or fails; a page read
succeeds or fails.  Both outcomes are supplied from outside.  `cp_running` is not
kept: it is set only while `map_flush_ch_cache` runs.
-/

namespace OxCtrl.GlMap

/-- `struct app_map_entry`. -/
structure MapEntry where
  lba : Nat := 0
  ppa : Nat := 0
  deriving DecidableEq, Repr

/-- `struct map_cache_entry`. -/
structure CacheEntry where
  dirty : Bool := false
  buf : Nat → MapEntry := fun _ => {}
  ppa : Nat := 0
  mdEntry : Option Nat := none

/-- The lists of `struct map_cache`. -/
structure CacheLists where
  mbfHead : List Nat := []
  mbuHead : List Nat := []
  nfree : Nat := 0
  nused : Nat := 0

/-- `struct map_cache`. -/
structure MapCache extends CacheLists where
  pgBuf : Nat → CacheEntry := fun _ => {}

/-- `struct app_map_md`: the small table with its immutable copy, and the tiny
table. -/
structure MapMd where
  tbl : Nat → MapEntry := fun _ => {}
  immut : Nat → MapEntry := fun _ => {}
  tinyTbl : Nat → Nat := fun _ => 0
  tinyDirty : Nat → Bool := fun _ => false

/-- The mapping of a channel. -/
structure MapChan where
  cache : MapCache := {}
  md : MapMd := {}

/-- Record of type `APP_LOG_MAP` or `APP_LOG_MAP_MD`. -/
structure MapLog where
  type : Log.LogType
  lba : Nat
  newPpa : Nat
  oldPpa : Nat

/-- The mapping of all channels and what it does to the rest of the system. -/
structure State where
  chans : Nat → MapChan := fun _ => {}
  nvm : Nat → Nat → MapEntry := fun _ _ => {}
  /-- Attempts to write and to read a page so far. -/
  writes : Nat := 0
  reads : Nat := 0
  logged : List MapLog := []
  /-- Pages passed to `invalidate_fn`. -/
  invalidated : List Nat := []

/-- Sizes of the mapping. -/
structure Conf where
  /-- `app_nch`. -/
  nch : Nat
  /-- `map_ent_per_pg`. -/
  entPerPg : Nat
  /-- `map_md->entries`. -/
  entries : Nat
  /-- `map_md->ent_per_pg`. -/
  mdEntPerPg : Nat
  /-- `MAP_BUF_CH_PGS`. -/
  cap : Nat
  nch_pos : 0 < nch
  nch_lt : nch < 2 ^ 16
  entPerPg_pos : 0 < entPerPg
  entPerPg_lt : entPerPg < 2 ^ 32
  entries_lt : entries < 2 ^ 32
  mdEntPerPg_pos : 0 < mdEntPerPg
  cap_pos : 0 < cap
  cap_lt : cap < 2 ^ 63

/-- What the mapping takes from outside. -/
structure Env where
  conf : Conf
  /-- Address at which a page is written, or `none` if no page is available or the
  write fails. -/
  newFn : State → Option Nat
  /-- The `n`-th page read succeeds. -/
  readOk : Nat → Bool
  /-- Rounds of the flush loops that are followed. -/
  rounds : Nat

/-- `MAP_ADDR_FLAG`. -/
def mapAddrFlag : Nat := 2 ^ 63

/-- `APP_MD_IO_RETRY`. -/
def appMdIoRetry : Nat := 256

/-- `addr->g.flag`. -/
def addrFlag (ppa : Nat) : Bool :=
  mapAddrFlag ≤ ppa

/-- `addr->g.addr`. -/
def addrPtr (ppa : Nat) : Nat :=
  ppa % mapAddrFlag

/-- `tiny.entries`. -/
def Conf.tinyEntries (conf : Conf) : Nat :=
  conf.entries / conf.mdEntPerPg + if conf.entries % conf.mdEntPerPg ≠ 0 then 1 else 0

variable (env : Env)

/-! ## State updates -/

namespace State

/-- Update a channel. -/
def setChan (state : State) (ch : Nat) (change : MapChan → MapChan) : State :=
  { state with chans := Function.update state.chans ch (change (state.chans ch)) }

/-- Update the cache of a channel. -/
def setCache (state : State) (ch : Nat) (change : MapCache → MapCache) : State :=
  state.setChan ch fun chan => { chan with cache := change chan.cache }

/-- Update the lists of a cache. -/
def setLists (state : State) (ch : Nat) (change : CacheLists → CacheLists) : State :=
  state.setCache ch fun cache => { cache with toCacheLists := change cache.toCacheLists }

/-- Update a cache entry. -/
def setSlot (state : State) (ch slot : Nat) (change : CacheEntry → CacheEntry) : State :=
  state.setCache ch fun cache =>
    { cache with pgBuf := Function.update cache.pgBuf slot (change (cache.pgBuf slot)) }

/-- Store a page address in the small table. -/
def setPpa (state : State) (ch off ppa : Nat) : State :=
  state.setChan ch fun chan =>
    { chan with md := { chan.md with
        tbl := Function.update chan.md.tbl off { chan.md.tbl off with ppa := ppa } } }

/-- Store a page address in the immutable copy of the small table. -/
def setImmut (state : State) (ch off ppa : Nat) : State :=
  state.setChan ch fun chan =>
    { chan with md := { chan.md with
        immut := Function.update chan.md.immut off { chan.md.immut off with ppa := ppa } } }

/-- The lists of a cache. -/
def lists (state : State) (ch : Nat) : CacheLists :=
  (state.chans ch).cache.toCacheLists

/-- A cache entry. -/
def slot (state : State) (ch slot : Nat) : CacheEntry :=
  (state.chans ch).cache.pgBuf slot

/-- An entry of the small table. -/
def entry (state : State) (ch off : Nat) : MapEntry :=
  (state.chans ch).md.tbl off

/-- `md->invalidate_fn`, if there is an old page. -/
def invalidate (state : State) (old : Nat) : State :=
  if old = 0 then state else { state with invalidated := state.invalidated ++ [old] }

/-- A page is written and the write is logged. -/
def writePage (state : State) (addr : Nat) (page : Nat → MapEntry) (log : MapLog) : State :=
  { state with
    nvm := Function.update state.nvm addr page
    writes := state.writes + 1
    logged := state.logged ++ [log] }

/-- A page is read, or the read fails. -/
def countRead (state : State) : State :=
  { state with reads := state.reads + 1 }

end State

/-! ## What an update leaves alone -/

namespace State

variable (state : State) (ch other off otherOff idx otherIdx ppa : Nat)

@[simp, grind =]
theorem entry_setLists (change : CacheLists → CacheLists) :
    (state.setLists ch change).entry other off = state.entry other off := by
  by_cases same : other = ch <;> simp [entry, setLists, setCache, setChan, same]

@[simp, grind =]
theorem entry_setSlot (change : CacheEntry → CacheEntry) :
    (state.setSlot ch idx change).entry other off = state.entry other off := by
  by_cases same : other = ch <;> simp [entry, setSlot, setCache, setChan, same]

@[simp, grind =]
theorem entry_setImmut : (state.setImmut ch otherOff ppa).entry other off =
    state.entry other off := by
  by_cases same : other = ch <;> simp [entry, setImmut, setChan, same]

@[simp, grind =]
theorem entry_invalidate (old : Nat) :
    (state.invalidate old).entry ch off = state.entry ch off := by
  unfold invalidate
  split <;> rfl

@[grind =]
theorem entry_setPpa : (state.setPpa ch otherOff ppa).entry other off =
    if other = ch ∧ off = otherOff then { state.entry ch otherOff with ppa := ppa }
    else state.entry other off := by
  by_cases same : other = ch
  · by_cases sameOff : off = otherOff <;> simp [entry, setPpa, setChan, same, sameOff]
  · simp [entry, setPpa, setChan, same]

@[simp, grind =]
theorem slot_setLists (change : CacheLists → CacheLists) :
    (state.setLists ch change).slot other idx = state.slot other idx := by
  by_cases same : other = ch <;> simp [slot, setLists, setCache, setChan, same]

@[simp, grind =]
theorem slot_setPpa : (state.setPpa ch off ppa).slot other idx = state.slot other idx := by
  by_cases same : other = ch <;> simp [slot, setPpa, setChan, same]

@[simp, grind =]
theorem slot_setImmut : (state.setImmut ch off ppa).slot other idx = state.slot other idx := by
  by_cases same : other = ch <;> simp [slot, setImmut, setChan, same]

@[simp, grind =]
theorem slot_invalidate (old : Nat) : (state.invalidate old).slot ch idx = state.slot ch idx := by
  unfold invalidate
  split <;> rfl

@[grind =]
theorem slot_setSlot (change : CacheEntry → CacheEntry) :
    (state.setSlot ch otherIdx change).slot other idx =
      if other = ch ∧ idx = otherIdx then change (state.slot ch otherIdx)
      else state.slot other idx := by
  by_cases same : other = ch
  · by_cases sameIdx : idx = otherIdx <;> simp [slot, setSlot, setCache, setChan, same, sameIdx]
  · simp [slot, setSlot, setCache, setChan, same]

@[simp, grind =]
theorem lists_setSlot (change : CacheEntry → CacheEntry) :
    (state.setSlot ch idx change).lists other = state.lists other := by
  by_cases same : other = ch <;> simp [lists, setSlot, setCache, setChan, same]

@[simp, grind =]
theorem lists_setPpa : (state.setPpa ch off ppa).lists other = state.lists other := by
  by_cases same : other = ch <;> simp [lists, setPpa, setChan, same]

@[simp, grind =]
theorem lists_setImmut : (state.setImmut ch off ppa).lists other = state.lists other := by
  by_cases same : other = ch <;> simp [lists, setImmut, setChan, same]

@[simp, grind =]
theorem lists_invalidate (old : Nat) : (state.invalidate old).lists ch = state.lists ch := by
  unfold invalidate
  split <;> rfl

@[grind =]
theorem lists_setLists (change : CacheLists → CacheLists) :
    (state.setLists ch change).lists other =
      if other = ch then change (state.lists ch) else state.lists other := by
  by_cases same : other = ch <;> simp [lists, setLists, setCache, setChan, same]

@[simp, grind =]
theorem entry_writePage (addr : Nat) (page : Nat → MapEntry) (log : MapLog) :
    (state.writePage addr page log).entry ch off = state.entry ch off :=
  rfl

@[simp, grind =]
theorem slot_writePage (addr : Nat) (page : Nat → MapEntry) (log : MapLog) :
    (state.writePage addr page log).slot ch idx = state.slot ch idx :=
  rfl

@[simp, grind =]
theorem lists_writePage (addr : Nat) (page : Nat → MapEntry) (log : MapLog) :
    (state.writePage addr page log).lists ch = state.lists ch :=
  rfl

@[grind =]
theorem nvm_writePage (addr : Nat) (page : Nat → MapEntry) (log : MapLog) :
    (state.writePage addr page log).nvm idx = if idx = addr then page else state.nvm idx := by
  simp [writePage, Function.update_apply]

@[simp, grind =]
theorem nvm_setLists (change : CacheLists → CacheLists) :
    (state.setLists ch change).nvm = state.nvm :=
  rfl

@[simp, grind =]
theorem nvm_setSlot (change : CacheEntry → CacheEntry) :
    (state.setSlot ch idx change).nvm = state.nvm :=
  rfl

@[simp, grind =]
theorem nvm_setPpa : (state.setPpa ch off ppa).nvm = state.nvm :=
  rfl

@[simp, grind =]
theorem nvm_setImmut : (state.setImmut ch off ppa).nvm = state.nvm :=
  rfl

@[simp, grind =]
theorem nvm_invalidate (old : Nat) : (state.invalidate old).nvm = state.nvm := by
  unfold invalidate
  split <;> rfl

@[simp, grind =]
theorem entry_countRead : state.countRead.entry ch off = state.entry ch off :=
  rfl

@[simp, grind =]
theorem slot_countRead : state.countRead.slot ch idx = state.slot ch idx :=
  rfl

@[simp, grind =]
theorem lists_countRead : state.countRead.lists ch = state.lists ch :=
  rfl

@[simp, grind =]
theorem nvm_countRead : state.countRead.nvm = state.nvm :=
  rfl

@[simp, grind =]
theorem md_setLists (change : CacheLists → CacheLists) :
    ((state.setLists ch change).chans other).md = (state.chans other).md := by
  by_cases same : other = ch <;> simp [setLists, setCache, setChan, same]

@[simp, grind =]
theorem md_setSlot (change : CacheEntry → CacheEntry) :
    ((state.setSlot ch idx change).chans other).md = (state.chans other).md := by
  by_cases same : other = ch <;> simp [setSlot, setCache, setChan, same]

@[simp, grind =]
theorem md_writePage (addr : Nat) (page : Nat → MapEntry) (log : MapLog) :
    ((state.writePage addr page log).chans other).md = (state.chans other).md :=
  rfl

@[simp, grind =]
theorem md_invalidate (old : Nat) :
    ((state.invalidate old).chans other).md = (state.chans other).md := by
  unfold invalidate
  split <;> rfl

@[simp, grind =]
theorem md_countRead : (state.countRead.chans other).md = (state.chans other).md :=
  rfl

@[simp, grind =]
theorem tinyTbl_setPpa : ((state.setPpa ch off ppa).chans other).md.tinyTbl =
    (state.chans other).md.tinyTbl := by
  by_cases same : other = ch <;> simp [setPpa, setChan, same]

@[simp, grind =]
theorem tinyDirty_setPpa : ((state.setPpa ch off ppa).chans other).md.tinyDirty =
    (state.chans other).md.tinyDirty := by
  by_cases same : other = ch <;> simp [setPpa, setChan, same]

@[simp, grind =]
theorem immut_setPpa : ((state.setPpa ch off ppa).chans other).md.immut =
    (state.chans other).md.immut := by
  by_cases same : other = ch <;> simp [setPpa, setChan, same]

@[simp, grind =]
theorem tinyTbl_setImmut : ((state.setImmut ch off ppa).chans other).md.tinyTbl =
    (state.chans other).md.tinyTbl := by
  by_cases same : other = ch <;> simp [setImmut, setChan, same]

@[simp, grind =]
theorem tinyDirty_setImmut : ((state.setImmut ch off ppa).chans other).md.tinyDirty =
    (state.chans other).md.tinyDirty := by
  by_cases same : other = ch <;> simp [setImmut, setChan, same]

@[grind =]
theorem immut_setImmut : ((state.setImmut ch otherOff ppa).chans other).md.immut off =
    if other = ch ∧ off = otherOff then { (state.chans ch).md.immut off with ppa := ppa }
    else (state.chans other).md.immut off := by
  by_cases same : other = ch
  · by_cases sameOff : off = otherOff <;> simp [setImmut, setChan, same, sameOff]
  · simp [setImmut, setChan, same]

end State

/-! ## Small table -/

/-- `oxb_ch_map_mark`. -/
def oxbChMapMark (state : State) (ch index : Nat) : State :=
  state.setChan ch fun chan =>
    { chan with md := { chan.md with tinyDirty := Function.update chan.md.tinyDirty index true } }

section

variable (state : State) (ch other off idx index : Nat)

@[simp, grind =]
theorem entry_oxbChMapMark : (oxbChMapMark state ch index).entry other off =
    state.entry other off := by
  by_cases same : other = ch <;> simp [State.entry, oxbChMapMark, State.setChan, same]

@[simp, grind =]
theorem slot_oxbChMapMark : (oxbChMapMark state ch index).slot other idx =
    state.slot other idx := by
  by_cases same : other = ch <;> simp [State.slot, oxbChMapMark, State.setChan, same]

@[simp, grind =]
theorem lists_oxbChMapMark : (oxbChMapMark state ch index).lists other = state.lists other := by
  by_cases same : other = ch <;> simp [State.lists, oxbChMapMark, State.setChan, same]

@[simp, grind =]
theorem nvm_oxbChMapMark : (oxbChMapMark state ch index).nvm = state.nvm :=
  rfl

@[simp, grind =]
theorem tinyTbl_oxbChMapMark : ((oxbChMapMark state ch index).chans other).md.tinyTbl =
    (state.chans other).md.tinyTbl := by
  by_cases same : other = ch <;> simp [oxbChMapMark, State.setChan, same]

@[simp, grind =]
theorem immut_oxbChMapMark : ((oxbChMapMark state ch index).chans other).md.immut =
    (state.chans other).md.immut := by
  by_cases same : other = ch <;> simp [oxbChMapMark, State.setChan, same]

@[grind =]
theorem tinyDirty_oxbChMapMark (page : Nat) :
    ((oxbChMapMark state ch index).chans other).md.tinyDirty page =
      (decide (other = ch ∧ page = index) || (state.chans other).md.tinyDirty page) := by
  by_cases same : other = ch
  · by_cases samePage : page = index <;> simp [oxbChMapMark, State.setChan, same, samePage]
  · simp [oxbChMapMark, State.setChan, same]

end

/-- Index passed to `mark_fn` for a small-table entry with global index `lba`. -/
def markIndex (conf : Conf) (lba : Nat) : Nat :=
  (lba % conf.entries) / conf.mdEntPerPg

/-- Entries of the small table that page `page` of it holds. -/
def entLeft (conf : Conf) (page : Nat) : Nat :=
  if page < conf.tinyEntries - 1 then conf.mdEntPerPg
  else if conf.entries % conf.mdEntPerPg = 0 then conf.mdEntPerPg
  else conf.entries % conf.mdEntPerPg

/-- A page of the immutable small table as it is written. -/
def smallPage (conf : Conf) (md : MapMd) (page : Nat) : Nat → MapEntry :=
  fun idx => if idx < entLeft conf page then md.immut (page * conf.mdEntPerPg + idx) else {}

/-- `oxb_ch_map_create`. -/
def oxbChMapCreate (conf : Conf) (ch : Nat) : MapMd where
  tbl off := { lba := off * conf.nch + ch, ppa := 0 }
  tinyDirty _ := true

/-- One attempt of `oxb_ch_map_nvm_write`. -/
def oxbChMapNvmWrite (state : State) (ch page : Nat) : State × Option Nat :=
  let md := (state.chans ch).md
  match env.newFn state with
  | none => ({ state with writes := state.writes + 1 }, none)
  | some addr =>
      (state.writePage addr (smallPage env.conf md page)
        ⟨.mapMd, env.conf.tinyEntries * ch + page, addr, md.tinyTbl page⟩, some addr)

/-- The attempts to write a page of the small table, `retry` at most; the attempts
that are left come with the address. -/
def writeSmall (ch page : Nat) : Nat → State → State × Option (Nat × Nat)
  | 0, state => (state, none)
  | retry + 1, state =>
      match oxbChMapNvmWrite env state ch page with
      | (state, some addr) => (state, some (addr, retry + 1))
      | (state, none) => writeSmall ch page retry state

/-- The loop of `oxb_ch_map_flush` for pages `page, page + 1, …`.  The failed attempts
are counted over all pages. -/
def flushSmall (ch : Nat) : Nat → Nat → Nat → State → State × Int
  | 0, _, _, state => (state, 0)
  | left + 1, page, retry, state =>
      if (state.chans ch).md.tinyDirty page then
        match writeSmall env ch page retry state with
        | (state, none) => (state, -1)
        | (state, some (addr, retry)) =>
            let state := state.invalidate ((state.chans ch).md.tinyTbl page)
            flushSmall ch left (page + 1) retry (state.setChan ch fun chan =>
              { chan with md := { chan.md with
                  tinyTbl := Function.update chan.md.tinyTbl page addr
                  tinyDirty := Function.update chan.md.tinyDirty page false } })
      else flushSmall ch left (page + 1) retry state

/-- `oxb_ch_map_flush`. -/
def oxbChMapFlush (state : State) (ch : Nat) : State × Int :=
  flushSmall env ch env.conf.tinyEntries 0 appMdIoRetry state

/-! ## Page cache -/

/-- One attempt of `map_nvm_write` for a cache entry. -/
def mapNvmWrite (state : State) (ch slot lba old : Nat) : State × Bool :=
  match env.newFn state with
  | none => ({ state with writes := state.writes + 1 }, false)
  | some addr =>
      ((state.writePage addr (state.slot ch slot).buf ⟨.map, lba, addr, old⟩).setSlot ch slot
        fun entry => { entry with ppa := addr }, true)

/-- The attempts of `map_evict_process` to write a page, `retry` at most. -/
def writeRetry (ch slot lba old : Nat) : Nat → State → State × Bool
  | 0, state => (state, false)
  | retry + 1, state =>
      match mapNvmWrite env state ch slot lba old with
      | (state, true) => (state, true)
      | (state, false) => writeRetry ch slot lba old retry state

/-- `map_evict_process`. -/
def mapEvictProcess (state : State) (ch slot : Nat) (setImmut : Bool) : State × Int :=
  match (state.slot ch slot).mdEntry with
  | none => (state, 0)
  | some off =>
      let old := (state.slot ch slot).ppa
      let lba := (state.entry ch off).lba
      let written :=
        if (state.slot ch slot).dirty then
          match writeRetry env ch slot lba old appMdIoRetry state with
          | (state, false) =>
              -- the entry goes back to the head of the used list
              (state.setLists ch fun lists =>
                { lists with mbuHead := slot :: lists.mbuHead, nused := lists.nused + 1 }, false)
          | (state, true) =>
              let state := state.setSlot ch slot fun entry => { entry with dirty := false }
              ((oxbChMapMark state ch (markIndex env.conf lba)).invalidate old, true)
        else (state, true)
      match written with
      | (state, false) => (state, -1)
      | (state, true) =>
          (if setImmut then state.setImmut ch off (state.slot ch slot).ppa else state, 0)

/-- `map_evict_pg_cache`. -/
def mapEvictPgCache (state : State) (ch : Nat) (isCheckpoint : Bool) : State × Int :=
  match (state.lists ch).mbuHead with
  | [] => (state, -1)
  | slot :: rest =>
      let state := state.setLists ch fun lists =>
        { lists with mbuHead := rest, nused := lists.nused - 1 }
      match mapEvictProcess env state ch slot isCheckpoint with
      | (state, 0) =>
          let entry := state.slot ch slot
          let state := match entry.mdEntry with
            | some off => state.setPpa ch off entry.ppa
            | none => state
          let state := state.setSlot ch slot fun entry => { entry with ppa := 0, mdEntry := none }
          (state.setLists ch fun lists =>
            { lists with mbfHead := slot :: lists.mbfHead, nfree := lists.nfree + 1 }, 0)
      | (state, _) => (state, -1)

/-- Buffer of a mapping page that does not exist yet. -/
def firstTouch (firstLba : Nat) : Nat → MapEntry :=
  fun idx => { lba := firstLba + idx, ppa := 0 }

/-- The second part of `map_load_pg_cache`: load a page into the first free entry. -/
def loadFree (state : State) (ch off firstLba : Nat) : State × Int :=
  match (state.lists ch).mbfHead with
  | [] => (state, -1)
  | slot :: rest =>
      let state := state.setLists ch fun lists =>
        { lists with mbfHead := rest, nfree := lists.nfree - 1 }
      let state := state.setSlot ch slot fun entry => { entry with mdEntry := some off }
      let ppa := (state.entry ch off).ppa
      let loaded :=
        if ppa = 0 then
          (state.setSlot ch slot fun entry =>
            { entry with buf := firstTouch firstLba, dirty := true }, true)
        else if env.readOk state.reads then
          (state.countRead.setSlot ch slot fun entry =>
            { entry with buf := state.nvm ppa, ppa := ppa }, true)
        else
          (state.countRead.setSlot ch slot fun entry =>
            { entry with mdEntry := none, ppa := 0 }, false)
      match loaded with
      | (state, false) =>
          (state.setLists ch fun lists =>
            { lists with mbfHead := slot :: lists.mbfHead, nfree := lists.nfree + 1 }, -1)
      | (state, true) =>
          ((state.setPpa ch off (mapAddrFlag + slot)).setLists ch fun lists =>
            { lists with mbuHead := lists.mbuHead ++ [slot], nused := lists.nused + 1 }, 0)

/-- `map_load_pg_cache`. -/
def mapLoadPgCache (state : State) (ch off firstLba : Nat) : State × Int :=
  match (state.lists ch).mbfHead with
  | [] =>
      match mapEvictPgCache env state ch false with
      | (state, 0) => loadFree env state ch off firstLba
      | (state, _) => (state, -1)
  | _ :: _ => loadFree env state ch off firstLba

/-- `TAILQ_NEXT`. -/
def tailqNext : List Nat → Nat → Option Nat
  | [], _ => none
  | slot :: rest, current => if slot = current then rest.head? else tailqNext rest current

/-- The used entry after `ent`, or the first one. -/
def nextUsed (used : List Nat) : Option Nat → Option Nat
  | none => used.head?
  | some slot => tailqNext used slot

/-- The loop of `map_flush_ch_cache`, for `n` entries that are left. -/
def flushLoop (ch : Nat) (full : Bool) : Nat → Nat → Option Nat → State → State
  | 0, _, _, state => state
  | _ + 1, 0, _, state => state
  | rounds + 1, n + 1, ent, state =>
      if full ∨ (state.lists ch).mbfHead = [] then
        let ent := if (state.lists ch).mbuHead.head? = ent then none else ent
        match mapEvictPgCache env state ch true with
        | (state, 0) => flushLoop ch full rounds n ent state
        | (state, _) => flushLoop ch full rounds (n + 1) ent state
      else
        match nextUsed (state.lists ch).mbuHead ent with
        | none => flushLoop ch full rounds (n + 1) none state
        | some slot =>
            match mapEvictProcess env state ch slot true with
            | (state, 0) => flushLoop ch full rounds n (some slot) state
            | (state, _) => flushLoop ch full rounds (n + 1) (some slot) state

/-- Eviction of the remaining entries on a clean shutdown. -/
def drainLoop (ch : Nat) : Nat → State → State
  | 0, state => state
  | rounds + 1, state =>
      if (state.lists ch).mbuHead = [] then state
      else drainLoop ch rounds (mapEvictPgCache env state ch true).1

/-- The small table is copied into the immutable one. -/
def copyImmut (conf : Conf) (state : State) (ch : Nat) : State :=
  state.setChan ch fun chan =>
    { chan with md := { chan.md with
        immut := fun off => if off < conf.entries then chan.md.tbl off else chan.md.immut off } }

/-- `map_flush_ch_cache`. -/
def mapFlushChCache (ch : Nat) (full : Bool) (state : State) : State :=
  let state := copyImmut env.conf state ch
  let state := flushLoop env ch full env.rounds (state.lists ch).nused none state
  if full then drainLoop env ch env.rounds state else state

/-- The loop of `map_flush_all_caches`, for the channels below `ch`. -/
def flushCaches : Nat → State → State
  | 0, state => state
  | ch + 1, state => flushCaches ch (mapFlushChCache env ch false state)

/-- `map_flush_all_caches`. -/
def mapFlushAllCaches (state : State) : State :=
  flushCaches env env.conf.nch state

/-- `APP_FLUSH_RETRY`. -/
def appFlushRetry : Nat := 3

/-- The attempts of a checkpoint to flush the small table of a channel. -/
def flushMd (ch : Nat) : Nat → State → State
  | 0, state => state
  | retry + 1, state =>
      match oxbChMapFlush env state ch with
      | (state, 0) => state
      | (state, _) => flushMd ch retry state

/-- A checkpoint flushes the small tables of the channels `ch, ch + 1, …`. -/
def flushMds : Nat → Nat → State → State
  | 0, _, state => state
  | left + 1, ch, state => flushMds left (ch + 1) (flushMd env ch appFlushRetry state)

/-- What `oxb_recovery_checkpoint` does to the mapping. -/
def checkpointMap (state : State) : State :=
  flushMds env env.conf.nch 0 (mapFlushAllCaches env state)

/-! ## Interface -/

/-- Channel of the mapping page of an LBA. -/
def chMap (conf : Conf) (lba : Nat) : Nat :=
  (lba / conf.entPerPg) % conf.nch

/-- Offset of the mapping page of an LBA in the small table of its channel. -/
def pgOff (conf : Conf) (lba : Nat) : Nat :=
  (lba / conf.entPerPg) / conf.nch % 2 ^ 32

/-- Number of the entry of an LBA in its mapping page. -/
def entOff (conf : Conf) (lba : Nat) : Nat :=
  lba % conf.entPerPg

/-- `map_get_cache_entry`. -/
def mapGetCacheEntry (state : State) (lba : Nat) : State × Option Nat :=
  let ch := chMap env.conf lba
  let off := pgOff env.conf lba
  if env.conf.entries ≤ off then (state, none)
  else
    let ppa := (state.entry ch off).ppa
    if ¬ addrFlag ppa then
      match mapLoadPgCache env state ch off (lba / env.conf.entPerPg * env.conf.entPerPg) with
      | (state, 0) => (state, some (addrPtr (state.entry ch off).ppa))
      | (state, _) => (state, none)
    else
      -- the entry becomes the hottest one
      (state.setLists ch fun lists =>
        { lists with mbuHead := lists.mbuHead.erase (addrPtr ppa) ++ [addrPtr ppa] },
        some (addrPtr ppa))

/-- `map_upsert_md`. -/
def mapUpsertMd (state : State) (index newPpa oldPpa : Nat) : State × Int :=
  let ch := index % env.conf.nch
  let off := index / env.conf.nch % 2 ^ 32
  if env.conf.entries ≤ off then (state, -1)
  else if (state.entry ch off).lba ≠ index then (state, -1)
  else
    let ppa := (state.entry ch off).ppa
    let (state, ret) : State × Int :=
      if ¬ addrFlag ppa then
        if ppa ≠ oldPpa then (state, 1)
        else ((oxbChMapMark state ch (markIndex env.conf index)).setPpa ch off newPpa, 0)
      else if (state.slot ch (addrPtr ppa)).ppa ≠ oldPpa then (state, 2)
      else (state.setSlot ch (addrPtr ppa) fun entry => { entry with ppa := newPpa }, 0)
    (state.invalidate oldPpa, ret)

/-- `map_upsert`.  The last component is the value stored in `*old`, if any. -/
def mapUpsert (state : State) (lba ppa oldCaller : Nat) : State × Int × Option Nat :=
  match mapGetCacheEntry env state lba with
  | (state, none) => (state, -1, none)
  | (state, some slot) =>
      let ch := chMap env.conf lba
      let mapEnt := (state.slot ch slot).buf (entOff env.conf lba)
      if mapEnt.lba ≠ lba then (state, -1, none)
      else if oldCaller ≠ 0 ∧ mapEnt.ppa ≠ oldCaller then (state, 1, some mapEnt.ppa)
      else
        (state.setSlot ch slot fun entry =>
          { entry with
            buf := Function.update entry.buf (entOff env.conf lba) { mapEnt with ppa := ppa }
            dirty := true }, 0, some mapEnt.ppa)

/-- `AND64`. -/
def and64 : Nat := 2 ^ 64 - 1

/-- `map_read`. -/
def mapRead (state : State) (lba : Nat) : State × Nat :=
  match mapGetCacheEntry env state lba with
  | (state, none) => (state, and64)
  | (state, some slot) =>
      let mapEnt := (state.slot (chMap env.conf lba) slot).buf (entOff env.conf lba)
      if mapEnt.lba ≠ lba then (state, and64) else (state, mapEnt.ppa)

/-- `map_init` on a new mapping: all cache entries are free, the last one first. -/
def mapInit : State where
  chans ch :=
    { cache := { mbfHead := (List.range env.conf.cap).reverse, nfree := env.conf.cap }
      md := oxbChMapCreate env.conf ch }

end OxCtrl.GlMap
