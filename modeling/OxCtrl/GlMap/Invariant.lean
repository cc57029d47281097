import OxCtrl.GlMap.Core

/-!
# Invariant of the mapping

`PagesOk` says that every entry of the small tables leads to the contents of its
mapping page: to a cache entry that holds the page, or to the NVM page, or nowhere if
the page was never touched.  It holds at every moment at which a page is written.
`ListsOk` says that the free and used lists of a cache partition its entries; it holds
between two operations.  `view` is the mapping that a state represents.
-/

namespace OxCtrl.GlMap

variable {env : Env} {conf : Conf} {state state' state'' : State} {ch off idx slot : Nat}

/-! ## Addresses -/

theorem addrFlag_eq_false {ppa : Nat} : addrFlag ppa = false ↔ ppa < mapAddrFlag := by
  simp [addrFlag]

theorem addrFlag_add (slot : Nat) : addrFlag (mapAddrFlag + slot) = true := by
  simp [addrFlag]

theorem addrPtr_add {slot : Nat} (below : slot < mapAddrFlag) :
    addrPtr (mapAddrFlag + slot) = slot := by
  simp [addrPtr, Nat.mod_eq_of_lt below]

/-! ## What a state represents -/

/-- First LBA of a mapping page. -/
def firstLba (conf : Conf) (ch off : Nat) : Nat :=
  (off * conf.nch + ch) * conf.entPerPg

/-- NVM address of a mapping page; zero if it was never written. -/
def current (state : State) (ch off : Nat) : Nat :=
  if addrFlag (state.entry ch off).ppa then
    (state.slot ch (addrPtr (state.entry ch off).ppa)).ppa
  else (state.entry ch off).ppa

/-- Value of an entry of a mapping page. -/
def view (state : State) (ch off idx : Nat) : Nat :=
  if addrFlag (state.entry ch off).ppa then
    ((state.slot ch (addrPtr (state.entry ch off).ppa)).buf idx).ppa
  else if (state.entry ch off).ppa = 0 then 0
  else (state.nvm (state.entry ch off).ppa idx).ppa

/-- The address is in use for a page of the mapping or of a small table. -/
def Live (conf : Conf) (state : State) (addr : Nat) : Prop :=
  ∃ ch < conf.nch, (∃ off < conf.entries, current state ch off = addr) ∨
    ∃ page < conf.tinyEntries, (state.chans ch).md.tinyTbl page = addr

/-! ## The invariant -/

/-- A cache entry holds a mapping page. -/
structure SlotOk (conf : Conf) (state : State) (ch off slot : Nat) : Prop where
  below : slot < conf.cap
  mdEntry : (state.slot ch slot).mdEntry = some off
  lba : ∀ idx < conf.entPerPg,
    ((state.slot ch slot).buf idx).lba = firstLba conf ch off + idx
  ppa_lt : (state.slot ch slot).ppa < mapAddrFlag
  clean : (state.slot ch slot).dirty = false → (state.slot ch slot).ppa ≠ 0 ∧
    ∀ idx < conf.entPerPg, state.nvm (state.slot ch slot).ppa idx = (state.slot ch slot).buf idx

theorem SlotOk.addrPtr_eq (ok : SlotOk conf state ch off slot) :
    addrPtr (mapAddrFlag + slot) = slot :=
  addrPtr_add (ok.below.trans conf.cap_lt)

/-- An entry of the small table leads to its mapping page. -/
structure PageOk (conf : Conf) (state : State) (ch off : Nat) : Prop where
  lba : (state.entry ch off).lba = off * conf.nch + ch
  cached : addrFlag (state.entry ch off).ppa = true →
    ∃ slot, (state.entry ch off).ppa = mapAddrFlag + slot ∧ SlotOk conf state ch off slot
  stored : addrFlag (state.entry ch off).ppa = false → (state.entry ch off).ppa ≠ 0 →
    ∀ idx < conf.entPerPg,
      (state.nvm (state.entry ch off).ppa idx).lba = firstLba conf ch off + idx

/-- All entries of the small tables lead to their mapping pages. -/
def PagesOk (conf : Conf) (state : State) : Prop :=
  ∀ ch < conf.nch, ∀ off < conf.entries, PageOk conf state ch off

/-- The lists of a cache partition its entries. -/
structure ListsOk (conf : Conf) (state : State) (ch : Nat) : Prop where
  nodup : ((state.lists ch).mbfHead ++ (state.lists ch).mbuHead).Nodup
  length : (state.lists ch).mbfHead.length + (state.lists ch).mbuHead.length = conf.cap
  nfree : (state.lists ch).nfree = (state.lists ch).mbfHead.length
  nused : (state.lists ch).nused = (state.lists ch).mbuHead.length
  below : ∀ slot ∈ (state.lists ch).mbfHead, slot < conf.cap
  free : ∀ slot ∈ (state.lists ch).mbfHead, (state.slot ch slot).mdEntry = none ∧
    (state.slot ch slot).ppa = 0 ∧ (state.slot ch slot).dirty = false
  used : ∀ slot ∈ (state.lists ch).mbuHead, ∃ off < conf.entries,
    (state.entry ch off).ppa = mapAddrFlag + slot
  listed : ∀ off < conf.entries, ∀ slot, (state.entry ch off).ppa = mapAddrFlag + slot →
    slot ∈ (state.lists ch).mbuHead

/-- Invariant of the mapping between two operations. -/
structure Inv (conf : Conf) (state : State) : Prop where
  pages : PagesOk conf state
  lists : ∀ ch < conf.nch, ListsOk conf state ch

/-- Provisioning hands out a page that is not in use, at a non-zero address with bit
63 clear, and page writes and reads succeed. -/
structure Media (env : Env) : Prop where
  fresh : ∀ state, PagesOk env.conf state → ∃ addr, env.newFn state = some addr ∧
    addr ≠ 0 ∧ addr < mapAddrFlag ∧ ¬ Live env.conf state addr
  reads : ∀ n, env.readOk n = true

/-- How a step treats the small tables on NVM: it leaves them alone, and it marks the
index of every page whose address it changes. -/
structure Tracked (conf : Conf) (state state' : State) : Prop where
  tinyTbl : ∀ ch, (state'.chans ch).md.tinyTbl = (state.chans ch).md.tinyTbl
  marked : ∀ ch page, (state.chans ch).md.tinyDirty page = true →
    (state'.chans ch).md.tinyDirty page = true
  changed : ∀ ch < conf.nch, ∀ off < conf.entries, current state' ch off ≠ current state ch off →
    (state'.chans ch).md.tinyDirty (markIndex conf (off * conf.nch + ch)) = true
  small : ∀ ch < conf.nch, ∀ page < conf.tinyEntries,
    state'.nvm ((state.chans ch).md.tinyTbl page) = state.nvm ((state.chans ch).md.tinyTbl page)

namespace Tracked

theorem refl (state : State) : Tracked conf state state :=
  ⟨fun _ => rfl, fun _ _ dirty => dirty, fun _ _ _ _ differ => absurd rfl differ,
    fun _ _ _ _ => rfl⟩

theorem trans (first : Tracked conf state state') (second : Tracked conf state' state'') :
    Tracked conf state state'' where
  tinyTbl ch := (second.tinyTbl ch).trans (first.tinyTbl ch)
  marked ch page dirty := second.marked ch page (first.marked ch page dirty)
  changed ch chLt off offLt differ := by
    by_cases same : current state'' ch off = current state' ch off
    · rw [same] at differ
      exact second.marked ch _ (first.changed ch chLt off offLt differ)
    · exact second.changed ch chLt off offLt same
  small ch chLt page pageLt := by
    have later := second.small ch chLt page pageLt
    rw [first.tinyTbl ch] at later
    exact later.trans (first.small ch chLt page pageLt)

end Tracked

/-- A step that does not change what the state represents. -/
structure Silent (conf : Conf) (state state' : State) : Prop where
  inv : Inv conf state'
  view : ∀ ch < conf.nch, ∀ off < conf.entries, ∀ idx < conf.entPerPg,
    view state' ch off idx = view state ch off idx
  tracked : Tracked conf state state'

namespace Silent

theorem refl (inv : Inv conf state) : Silent conf state state :=
  ⟨inv, fun _ _ _ _ _ _ => rfl, Tracked.refl state⟩

theorem trans (first : Silent conf state state') (second : Silent conf state' state'') :
    Silent conf state state'' :=
  ⟨second.inv, fun ch chLt off offLt idx idxLt =>
    (second.view ch chLt off offLt idx idxLt).trans (first.view ch chLt off offLt idx idxLt),
    first.tracked.trans second.tracked⟩

end Silent

/-! ## Persisting a page -/

/-- The entry is a cache entry that holds a mapping page. -/
structure Holds (conf : Conf) (state : State) (ch off slot : Nat) : Prop where
  ch_lt : ch < conf.nch
  off_lt : off < conf.entries
  ppa : (state.entry ch off).ppa = mapAddrFlag + slot

theorem PagesOk.slotOk (ok : PagesOk conf state) (holds : Holds conf state ch off slot) :
    SlotOk conf state ch off slot := by
  have page := ok ch holds.ch_lt off holds.off_lt
  obtain ⟨found, eq, slotOk⟩ := page.cached (by rw [holds.ppa, addrFlag_add])
  rw [holds.ppa] at eq
  obtain rfl : slot = found := by omega
  exact slotOk

/-- What persisting a cache entry does: its page is clean afterwards, its old contents
are untouched, its index is marked if it moved, and nothing else changes. -/
structure Persisted (env : Env) (state state' : State) (ch off slot : Nat) (setImmut : Bool) :
    Prop where
  entry : ∀ other otherOff, state'.entry other otherOff = state.entry other otherOff
  lists : ∀ other, state'.lists other = state.lists other
  others : ∀ other otherSlot, (other, otherSlot) ≠ (ch, slot) →
    state'.slot other otherSlot = state.slot other otherSlot
  buf : (state'.slot ch slot).buf = (state.slot ch slot).buf
  mdEntry : (state'.slot ch slot).mdEntry = some off
  dirty : (state'.slot ch slot).dirty = false
  ppa : (state'.slot ch slot).ppa ≠ 0 ∧ (state'.slot ch slot).ppa < mapAddrFlag
  stored : ∀ idx < env.conf.entPerPg,
    state'.nvm (state'.slot ch slot).ppa idx = (state.slot ch slot).buf idx
  nvm : ∀ addr, Live env.conf state addr → state'.nvm addr = state.nvm addr
  tinyTbl : ∀ other, (state'.chans other).md.tinyTbl = (state.chans other).md.tinyTbl
  marked : ∀ other page, (state.chans other).md.tinyDirty page = true →
    (state'.chans other).md.tinyDirty page = true
  moved : (state'.slot ch slot).ppa ≠ (state.slot ch slot).ppa →
    (state'.chans ch).md.tinyDirty (markIndex env.conf (off * env.conf.nch + ch)) = true
  immut : ∀ other otherOff, (state'.chans other).md.immut otherOff =
    if setImmut = true ∧ other = ch ∧ otherOff = off then
      { (state.chans ch).md.immut off with ppa := (state'.slot ch slot).ppa }
    else (state.chans other).md.immut otherOff

/-- A dirty page is written at the first attempt. -/
theorem writeRetry_eq {addr : Nat} (new : env.newFn state = some addr) (lba old retry : Nat) :
    writeRetry env ch slot lba old (retry + 1) state =
      ((state.writePage addr (state.slot ch slot).buf ⟨.map, lba, addr, old⟩).setSlot ch slot
        fun entry => { entry with ppa := addr }, true) := by
  simp [writeRetry, mapNvmWrite, new]

/-- State after a dirty page has been written at `addr`. -/
def written (conf : Conf) (state : State) (ch slot lba addr : Nat) : State :=
  let old := (state.slot ch slot).ppa
  let moved := (state.writePage addr (state.slot ch slot).buf ⟨.map, lba, addr, old⟩).setSlot ch
    slot fun entry => { entry with ppa := addr }
  (oxbChMapMark (moved.setSlot ch slot fun entry => { entry with dirty := false }) ch
    (markIndex conf lba)).invalidate old

/-- `map_evict_process` writes a dirty page where provisioning says, and leaves a clean one where it
is. -/
theorem mapEvictProcess_allocated (media : Media env) (pages : PagesOk env.conf state)
    (holds : Holds env.conf state ch off slot) (setImmut : Bool) :
    ∃ done, mapEvictProcess env state ch slot setImmut =
        (if setImmut then done.setImmut ch off (done.slot ch slot).ppa else done, 0) ∧
      (((state.slot ch slot).dirty = false ∧ done = state) ∨
        (state.slot ch slot).dirty = true ∧
          ∃ addr, env.newFn state = some addr ∧ addr ≠ 0 ∧ addr < mapAddrFlag ∧
            ¬ Live env.conf state addr ∧
            done = written env.conf state ch slot (off * env.conf.nch + ch) addr) := by
  have slotOk := pages.slotOk holds
  have lba := (pages ch holds.ch_lt off holds.off_lt).lba
  cases dirty : (state.slot ch slot).dirty with
  | false => exact ⟨state, by simp [mapEvictProcess, slotOk.mdEntry, dirty], Or.inl ⟨rfl, rfl⟩⟩
  | true =>
      obtain ⟨addr, new, addrPos, addrLt, fresh⟩ := media.fresh state pages
      refine ⟨_, ?_, Or.inr ⟨rfl, addr, new, addrPos, addrLt, fresh, rfl⟩⟩
      simp [mapEvictProcess, slotOk.mdEntry, dirty, appMdIoRetry, writeRetry_eq new, written, lba]

/-- `map_evict_process` writes a dirty page and leaves a clean one where it is. -/
theorem mapEvictProcess_eq (media : Media env) (pages : PagesOk env.conf state)
    (holds : Holds env.conf state ch off slot) (setImmut : Bool) :
    ∃ done, mapEvictProcess env state ch slot setImmut =
        (if setImmut then done.setImmut ch off (done.slot ch slot).ppa else done, 0) ∧
      (((state.slot ch slot).dirty = false ∧ done = state) ∨
        ∃ addr, addr ≠ 0 ∧ addr < mapAddrFlag ∧ ¬ Live env.conf state addr ∧
          done = written env.conf state ch slot (off * env.conf.nch + ch) addr) := by
  obtain ⟨done, eq, clean | ⟨-, addr, -, allocated⟩⟩ :=
    mapEvictProcess_allocated media pages holds setImmut
  · exact ⟨done, eq, Or.inl clean⟩
  · exact ⟨done, eq, Or.inr ⟨addr, allocated⟩⟩

section

variable (conf state ch slot) (lba addr : Nat)

theorem slot_written (other otherSlot : Nat) :
    (written conf state ch slot lba addr).slot other otherSlot =
      if other = ch ∧ otherSlot = slot then
        { state.slot ch slot with ppa := addr, dirty := false }
      else state.slot other otherSlot := by
  simp only [written, State.slot_invalidate, slot_oxbChMapMark, State.slot_setSlot,
    State.slot_writePage, and_self, if_true]
  split <;> rfl

theorem nvm_written (page : Nat) :
    (written conf state ch slot lba addr).nvm page =
      if page = addr then (state.slot ch slot).buf else state.nvm page := by
  simp [written, State.nvm_writePage]

end

theorem persisted_written {addr : Nat} (pages : PagesOk env.conf state)
    (holds : Holds env.conf state ch off slot) (addrPos : addr ≠ 0) (addrLt : addr < mapAddrFlag)
    (fresh : ¬ Live env.conf state addr) :
    Persisted env state (written env.conf state ch slot (off * env.conf.nch + ch) addr)
      ch off slot false where
  entry := by simp [written]
  lists := by simp [written]
  others other otherSlot differ := by
    rw [slot_written, if_neg]
    simpa using differ
  buf := by simp [slot_written]
  mdEntry := by simpa [slot_written] using (pages.slotOk holds).mdEntry
  dirty := by simp [slot_written]
  ppa := by simpa [slot_written] using ⟨addrPos, addrLt⟩
  stored := by simp [slot_written, nvm_written]
  nvm live isLive := by
    rw [nvm_written, if_neg]
    rintro rfl
    exact fresh isLive
  tinyTbl := by simp [written]
  marked other page dirty := by simp [written, tinyDirty_oxbChMapMark, dirty]
  moved _ := by simp [written, tinyDirty_oxbChMapMark]
  immut := by simp [written]

theorem persisted_self (pages : PagesOk env.conf state) (holds : Holds env.conf state ch off slot)
    (clean : (state.slot ch slot).dirty = false) :
    Persisted env state state ch off slot false where
  entry _ _ := rfl
  lists _ := rfl
  others _ _ _ := rfl
  buf := rfl
  mdEntry := (pages.slotOk holds).mdEntry
  dirty := clean
  ppa := ⟨((pages.slotOk holds).clean clean).1, (pages.slotOk holds).ppa_lt⟩
  stored := ((pages.slotOk holds).clean clean).2
  nvm _ _ := rfl
  tinyTbl _ := rfl
  marked _ _ dirty := dirty
  moved differ := absurd rfl differ
  immut _ _ := by simp

theorem Persisted.setImmut (persisted : Persisted env state state' ch off slot false) :
    Persisted env state (state'.setImmut ch off (state'.slot ch slot).ppa) ch off slot true where
  entry := by simpa using persisted.entry
  lists := by simpa using persisted.lists
  others := by simpa using persisted.others
  buf := by simpa using persisted.buf
  mdEntry := by simpa using persisted.mdEntry
  dirty := by simpa using persisted.dirty
  ppa := by simpa using persisted.ppa
  stored := by simpa using persisted.stored
  nvm := by simpa using persisted.nvm
  tinyTbl := by simpa using persisted.tinyTbl
  marked := by simpa using persisted.marked
  moved := by simpa using persisted.moved
  immut other otherOff := by
    have same := persisted.immut other otherOff
    rw [State.immut_setImmut, State.slot_setImmut]
    split <;> simp_all

theorem mapEvictProcess_spec (media : Media env) (pages : PagesOk env.conf state)
    (holds : Holds env.conf state ch off slot) (setImmut : Bool) :
    ∃ state', mapEvictProcess env state ch slot setImmut = (state', 0) ∧
      Persisted env state state' ch off slot setImmut := by
  obtain ⟨done, eq, cases⟩ := mapEvictProcess_eq media pages holds setImmut
  have persisted : Persisted env state done ch off slot false := by
    rcases cases with ⟨clean, rfl⟩ | ⟨addr, addrPos, addrLt, fresh, rfl⟩
    · exact persisted_self pages holds clean
    · exact persisted_written pages holds addrPos addrLt fresh
  refine ⟨_, eq, ?_⟩
  cases setImmut with
  | false => exact persisted
  | true => exact persisted.setImmut

/-- Two small-table entries do not share a cache entry. -/
theorem PagesOk.off_unique (pages : PagesOk conf state) {first second : Nat}
    (firstHolds : Holds conf state ch first slot) (secondHolds : Holds conf state ch second slot) :
    first = second := by
  have firstEntry := (pages.slotOk firstHolds).mdEntry
  have secondEntry := (pages.slotOk secondHolds).mdEntry
  exact Option.some.inj (firstEntry.symm.trans secondEntry)

/-- The address of a mapping page is live. -/
theorem live_of_stored (chLt : ch < conf.nch) (offLt : off < conf.entries)
    (stored : addrFlag (state.entry ch off).ppa = false) :
    Live conf state (state.entry ch off).ppa :=
  ⟨ch, chLt, Or.inl ⟨off, offLt, by simp [current, stored]⟩⟩

theorem live_of_holds (pages : PagesOk conf state) (holds : Holds conf state ch off slot) :
    Live conf state (state.slot ch slot).ppa := by
  refine ⟨ch, holds.ch_lt, Or.inl ⟨off, holds.off_lt, ?_⟩⟩
  rw [current, holds.ppa, addrFlag_add, if_pos rfl, (pages.slotOk holds).addrPtr_eq]

section

variable {setImmut : Bool}

theorem Persisted.pageOk {other otherOff : Nat}
    (persisted : Persisted env state state' ch off slot setImmut)
    (pages : PagesOk env.conf state) (holds : Holds env.conf state ch off slot)
    (chLt : other < env.conf.nch) (offLt : otherOff < env.conf.entries) :
    PageOk env.conf state' other otherOff := by
  have page := pages other chLt otherOff offLt
  refine ⟨?_, ?_, ?_⟩ <;> rw [persisted.entry]
  · exact page.lba
  · intro flag
    obtain ⟨found, eq, slotOk⟩ := page.cached flag
    refine ⟨found, eq, ?_⟩
    by_cases same : (other, found) = (ch, slot)
    · obtain ⟨rfl, rfl⟩ : other = ch ∧ found = slot := by simpa using same
      obtain rfl : otherOff = off := pages.off_unique ⟨chLt, offLt, eq⟩ holds
      refine ⟨slotOk.below, persisted.mdEntry, ?_, persisted.ppa.2, ?_⟩
      · rw [persisted.buf]
        exact slotOk.lba
      · intro _
        refine ⟨persisted.ppa.1, ?_⟩
        rw [persisted.buf]
        exact persisted.stored
    · have slotEq := persisted.others other found same
      have live := live_of_holds pages ⟨chLt, offLt, eq⟩
      refine ⟨slotOk.below, ?_, ?_, ?_, ?_⟩ <;> rw [slotEq]
      · exact slotOk.mdEntry
      · exact slotOk.lba
      · exact slotOk.ppa_lt
      · rw [persisted.nvm _ live]
        exact slotOk.clean
  · intro stored
    rw [persisted.nvm _ (live_of_stored chLt offLt stored)]
    exact page.stored stored

theorem Persisted.view_eq {other otherOff : Nat}
    (persisted : Persisted env state state' ch off slot setImmut)
    (chLt : other < env.conf.nch) (offLt : otherOff < env.conf.entries) :
    view state' other otherOff = view state other otherOff := by
  funext idx
  simp only [view, persisted.entry]
  split
  · by_cases same : (other, addrPtr (state.entry other otherOff).ppa) = (ch, slot)
    · obtain ⟨rfl, sameSlot⟩ := Prod.mk.inj same
      rw [sameSlot, persisted.buf]
    · rw [persisted.others _ _ same]
  · rename_i stored
    rw [persisted.nvm _ (live_of_stored chLt offLt (by simpa using stored))]

theorem Persisted.tracked (persisted : Persisted env state state' ch off slot setImmut)
    (pages : PagesOk env.conf state) (holds : Holds env.conf state ch off slot) :
    Tracked env.conf state state' where
  tinyTbl := persisted.tinyTbl
  marked := persisted.marked
  changed other chLt otherOff offLt differ := by
    by_cases flag : addrFlag (state.entry other otherOff).ppa = true
    · obtain ⟨found, eq, foundOk⟩ := (pages other chLt otherOff offLt).cached flag
      simp only [current, persisted.entry, eq, addrFlag_add, if_true,
        foundOk.addrPtr_eq] at differ
      by_cases same : (other, found) = (ch, slot)
      · obtain ⟨rfl, rfl⟩ := Prod.mk.inj same
        rw [pages.off_unique ⟨chLt, offLt, eq⟩ holds]
        exact persisted.moved differ
      · exact absurd (by rw [persisted.others other found same]) differ
    · simp [current, persisted.entry, flag] at differ
  small other chLt page pageLt := persisted.nvm _ ⟨other, chLt, Or.inr ⟨page, pageLt, rfl⟩⟩

end

/-- Pages depend on the small tables, the cache entries and the live NVM pages only. -/
theorem PagesOk.congr (pages : PagesOk conf state)
    (entry : ∀ ch off, state'.entry ch off = state.entry ch off)
    (slot : ∀ ch idx, state'.slot ch idx = state.slot ch idx)
    (nvm : ∀ addr, Live conf state addr → state'.nvm addr = state.nvm addr) :
    PagesOk conf state' := by
  intro ch chLt off offLt
  have page := pages ch chLt off offLt
  refine ⟨?_, ?_, ?_⟩ <;> rw [entry]
  · exact page.lba
  · intro flag
    obtain ⟨found, eq, slotOk⟩ := page.cached flag
    refine ⟨found, eq, slotOk.below, ?_, ?_, ?_, ?_⟩ <;> rw [slot]
    · exact slotOk.mdEntry
    · exact slotOk.lba
    · exact slotOk.ppa_lt
    · rw [nvm _ (live_of_holds pages ⟨chLt, offLt, eq⟩)]
      exact slotOk.clean
  · intro stored
    rw [nvm _ (live_of_stored chLt offLt stored)]
    exact page.stored stored

theorem view_congr (chLt : ch < conf.nch) (offLt : off < conf.entries)
    (entry : ∀ ch off, state'.entry ch off = state.entry ch off)
    (slot : ∀ ch idx, state'.slot ch idx = state.slot ch idx)
    (nvm : ∀ addr, Live conf state addr → state'.nvm addr = state.nvm addr) :
    view state' ch off = view state ch off := by
  funext idx
  simp only [view, entry, slot]
  split
  · rfl
  · rename_i stored
    rw [nvm _ (live_of_stored chLt offLt (by simpa using stored))]

theorem ListsOk.congr (ok : ListsOk conf state ch) (lists : state'.lists ch = state.lists ch)
    (entry : ∀ off, (state'.entry ch off).ppa = (state.entry ch off).ppa)
    (slot : ∀ idx ∈ (state.lists ch).mbfHead, state'.slot ch idx = state.slot ch idx) :
    ListsOk conf state' ch where
  nodup := by simpa only [lists] using ok.nodup
  length := by simpa only [lists] using ok.length
  nfree := by simpa only [lists] using ok.nfree
  nused := by simpa only [lists] using ok.nused
  below := by simpa only [lists] using ok.below
  free idx mem := by
    rw [lists] at mem
    rw [slot idx mem]
    exact ok.free idx mem
  used := by simpa only [lists, entry] using ok.used
  listed := by simpa only [lists, entry] using ok.listed

/-- Persisting a page in place. -/
theorem Persisted.silent {setImmut : Bool}
    (persisted : Persisted env state state' ch off slot setImmut)
    (inv : Inv env.conf state) (holds : Holds env.conf state ch off slot) :
    Silent env.conf state state' := by
  refine ⟨⟨?_, ?_⟩, ?_, persisted.tracked inv.pages holds⟩
  · intro other chLt otherOff offLt
    exact persisted.pageOk inv.pages holds chLt offLt
  · intro other chLt
    refine (inv.lists other chLt).congr (persisted.lists other)
      (fun otherOff => by rw [persisted.entry]) ?_
    intro idx mem
    refine persisted.others other idx ?_
    intro same
    obtain ⟨rfl, rfl⟩ := Prod.mk.inj same
    -- a free entry holds no page
    have blank := ((inv.lists other chLt).free idx mem).1
    rw [(inv.pages.slotOk holds).mdEntry] at blank
    contradiction
  · intro other chLt otherOff offLt idx _
    rw [persisted.view_eq chLt offLt]

theorem Tracked.congr (entry : ∀ ch off, (state'.entry ch off).ppa = (state.entry ch off).ppa)
    (slot : ∀ ch idx, (state'.slot ch idx).ppa = (state.slot ch idx).ppa)
    (nvm : state'.nvm = state.nvm)
    (tinyTbl : ∀ ch, (state'.chans ch).md.tinyTbl = (state.chans ch).md.tinyTbl)
    (tinyDirty : ∀ ch, (state'.chans ch).md.tinyDirty = (state.chans ch).md.tinyDirty) :
    Tracked conf state state' where
  tinyTbl := tinyTbl
  marked ch page dirty := by rw [tinyDirty]; exact dirty
  changed ch _ off _ differ := absurd (by simp only [current, entry, slot]) differ
  small _ _ _ _ := by rw [nvm]

/-- Changing the cache entry of a page keeps the pages if the entry still holds the page. -/
theorem pagesOk_setSlot {change : CacheEntry → CacheEntry} (pages : PagesOk conf state)
    (holds : Holds conf state ch off slot)
    (ok : SlotOk conf (state.setSlot ch slot change) ch off slot) :
    PagesOk conf (state.setSlot ch slot change) := by
  intro other otherLt otherOff otherOffLt
  have page := pages other otherLt otherOff otherOffLt
  refine ⟨?_, ?_, ?_⟩ <;> simp only [State.entry_setSlot, State.nvm_setSlot]
  · exact page.lba
  · intro flag
    obtain ⟨found, eq, foundOk⟩ := page.cached flag
    by_cases same : other = ch ∧ found = slot
    · obtain ⟨rfl, rfl⟩ := same
      obtain rfl : otherOff = off := pages.off_unique ⟨otherLt, otherOffLt, eq⟩ holds
      exact ⟨found, eq, ok⟩
    · have slotEq : (state.setSlot ch slot change).slot other found = state.slot other found := by
        rw [State.slot_setSlot, if_neg same]
      refine ⟨found, eq, foundOk.below, ?_, ?_, ?_, ?_⟩ <;> rw [slotEq]
      · exact foundOk.mdEntry
      · exact foundOk.lba
      · exact foundOk.ppa_lt
      · exact foundOk.clean
  · exact page.stored

/-- The mapping after a change of the cache entry of a page. -/
theorem view_setSlot {change : CacheEntry → CacheEntry} (pages : PagesOk conf state)
    (holds : Holds conf state ch off slot) {other otherOff : Nat}
    (otherLt : other < conf.nch) (otherOffLt : otherOff < conf.entries) :
    view (state.setSlot ch slot change) other otherOff idx =
      if other = ch ∧ otherOff = off then ((change (state.slot ch slot)).buf idx).ppa
      else view state other otherOff idx := by
  by_cases flag : addrFlag (state.entry other otherOff).ppa = true
  · obtain ⟨found, eq, foundOk⟩ := (pages other otherLt otherOff otherOffLt).cached flag
    simp only [view, State.entry_setSlot, eq, addrFlag_add, if_true, foundOk.addrPtr_eq,
      State.slot_setSlot]
    by_cases same : other = ch ∧ found = slot
    · obtain ⟨rfl, rfl⟩ := same
      obtain rfl : otherOff = off := pages.off_unique ⟨otherLt, otherOffLt, eq⟩ holds
      rw [if_pos ⟨rfl, rfl⟩, if_pos ⟨rfl, rfl⟩]
    · rw [if_neg same, if_neg]
      rintro ⟨rfl, rfl⟩
      rw [holds.ppa] at eq
      exact same ⟨rfl, by omega⟩
  · have differ : ¬ (other = ch ∧ otherOff = off) := by
      rintro ⟨rfl, rfl⟩
      rw [holds.ppa, addrFlag_add] at flag
      exact flag rfl
    rw [if_neg differ]
    simp [view, flag]

/-- Changing the cache entry of a page keeps the invariant if the entry still holds the
page. -/
theorem inv_setSlot {change : CacheEntry → CacheEntry} (inv : Inv conf state)
    (holds : Holds conf state ch off slot)
    (ok : SlotOk conf (state.setSlot ch slot change) ch off slot) :
    Inv conf (state.setSlot ch slot change) := by
  refine ⟨pagesOk_setSlot inv.pages holds ok, ?_⟩
  intro other otherLt
  refine (inv.lists other otherLt).congr (by simp) (by simp) ?_
  intro otherSlot free
  rw [State.slot_setSlot, if_neg]
  rintro ⟨rfl, rfl⟩
  have blank := ((inv.lists other otherLt).free otherSlot free).1
  rw [(inv.pages.slotOk holds).mdEntry] at blank
  contradiction

/-- No page is in the cache entry. -/
def Unused (conf : Conf) (state : State) (ch slot : Nat) : Prop :=
  ∀ off < conf.entries, (state.entry ch off).ppa ≠ mapAddrFlag + slot

/-- Changing a cache entry without a page keeps the pages. -/
theorem pagesOk_setSlot_unused {change : CacheEntry → CacheEntry} (pages : PagesOk conf state)
    (unused : Unused conf state ch slot) : PagesOk conf (state.setSlot ch slot change) := by
  intro other otherLt otherOff otherOffLt
  have page := pages other otherLt otherOff otherOffLt
  refine ⟨?_, ?_, ?_⟩ <;> simp only [State.entry_setSlot, State.nvm_setSlot]
  · exact page.lba
  · intro flag
    obtain ⟨found, eq, foundOk⟩ := page.cached flag
    have slotEq : (state.setSlot ch slot change).slot other found = state.slot other found := by
      rw [State.slot_setSlot, if_neg]
      rintro ⟨rfl, rfl⟩
      exact unused otherOff otherOffLt eq
    refine ⟨found, eq, foundOk.below, ?_, ?_, ?_, ?_⟩ <;> rw [slotEq]
    · exact foundOk.mdEntry
    · exact foundOk.lba
    · exact foundOk.ppa_lt
    · exact foundOk.clean
  · exact page.stored

theorem view_setSlot_unused {change : CacheEntry → CacheEntry} (pages : PagesOk conf state)
    (unused : Unused conf state ch slot) {other otherOff : Nat} (otherLt : other < conf.nch)
    (otherOffLt : otherOff < conf.entries) :
    view (state.setSlot ch slot change) other otherOff idx = view state other otherOff idx := by
  simp only [view, State.entry_setSlot, State.nvm_setSlot]
  split
  · rename_i flag
    obtain ⟨found, eq, foundOk⟩ := (pages other otherLt otherOff otherOffLt).cached flag
    rw [eq, foundOk.addrPtr_eq, State.slot_setSlot, if_neg]
    rintro ⟨rfl, rfl⟩
    exact unused otherOff otherOffLt eq
  · rfl

end OxCtrl.GlMap
