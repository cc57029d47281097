import OxCtrl.GlMap.Invariant
import Mathlib.Data.List.Perm.Subperm

/-!
# Page cache of the mapping

Evicting, loading and looking up a page keep the invariant and the mapping that the
state represents.  After a lookup the page is in the cache entry that is returned.
-/

namespace OxCtrl.GlMap

variable {env : Env} {conf : Conf} {state state' state'' : State} {ch off idx slot : Nat}
  {rest : List Nat}

/-! ## Lists -/

/-- Every cache entry is free or in use. -/
theorem ListsOk.perm_range (ok : ListsOk conf state ch) (pages : PagesOk conf state)
    (chLt : ch < conf.nch) :
    ((state.lists ch).mbfHead ++ (state.lists ch).mbuHead).Perm (List.range conf.cap) := by
  have below : ∀ slot ∈ (state.lists ch).mbfHead ++ (state.lists ch).mbuHead, slot < conf.cap := by
    intro slot mem
    rcases List.mem_append.mp mem with free | used
    · exact ok.below slot free
    · obtain ⟨off, offLt, eq⟩ := ok.used slot used
      exact (pages.slotOk ⟨chLt, offLt, eq⟩).below
  apply (ok.nodup.subperm fun slot mem => List.mem_range.mpr (below slot mem)).perm_of_length_le
  rw [List.length_range, List.length_append, ok.length]

/-! ## Eviction -/

/-- State after a persisted page has left the cache. -/
def unmapped (state : State) (ch off slot : Nat) : State :=
  ((state.setPpa ch off (state.slot ch slot).ppa).setSlot ch slot
    fun entry => { entry with ppa := 0, mdEntry := none }).setLists ch
      fun lists => { lists with mbfHead := slot :: lists.mbfHead, nfree := lists.nfree + 1 }

section

variable (state ch off slot) (other otherOff otherSlot : Nat)

theorem entry_unmapped : (unmapped state ch off slot).entry other otherOff =
    if other = ch ∧ otherOff = off then
      { state.entry ch off with ppa := (state.slot ch slot).ppa }
    else state.entry other otherOff := by
  simp [unmapped, State.entry_setPpa]

theorem slot_unmapped : (unmapped state ch off slot).slot other otherSlot =
    if other = ch ∧ otherSlot = slot then
      { state.slot ch slot with ppa := 0, mdEntry := none }
    else state.slot other otherSlot := by
  simp [unmapped, State.slot_setSlot]

theorem nvm_unmapped : (unmapped state ch off slot).nvm = state.nvm := by
  simp [unmapped]

theorem lists_unmapped : (unmapped state ch off slot).lists other =
    if other = ch then
      { state.lists ch with
        mbfHead := slot :: (state.lists ch).mbfHead, nfree := (state.lists ch).nfree + 1 }
    else state.lists other := by
  simp [unmapped, State.lists_setLists]

end

/-- The address of a clean page goes to the small table. -/
theorem pagesOk_setPpa (pages : PagesOk conf state) (holds : Holds conf state ch off slot)
    (clean : (state.slot ch slot).dirty = false) :
    PagesOk conf (state.setPpa ch off (state.slot ch slot).ppa) := by
  intro other chLt otherOff offLt
  have slotOk := pages.slotOk holds
  by_cases same : other = ch ∧ otherOff = off
  · obtain ⟨rfl, rfl⟩ := same
    refine ⟨?_, ?_, ?_⟩ <;> rw [State.entry_setPpa, if_pos ⟨rfl, rfl⟩]
    · exact (pages other chLt otherOff offLt).lba
    · intro flag
      rw [addrFlag_eq_false.mpr slotOk.ppa_lt] at flag
      contradiction
    · intro _ _ idx idxLt
      rw [State.nvm_setPpa]
      simp only [(slotOk.clean clean).2 idx idxLt]
      exact slotOk.lba idx idxLt
  · have page := pages other chLt otherOff offLt
    refine ⟨?_, ?_, ?_⟩ <;> rw [State.entry_setPpa, if_neg same]
    · exact page.lba
    · intro flag
      obtain ⟨found, eq, foundOk⟩ := page.cached flag
      refine ⟨found, eq, foundOk.below, ?_, ?_, ?_, ?_⟩ <;> rw [State.slot_setPpa]
      · exact foundOk.mdEntry
      · exact foundOk.lba
      · exact foundOk.ppa_lt
      · exact foundOk.clean
    · exact page.stored

theorem view_setPpa (pages : PagesOk conf state)
    (holds : Holds conf state ch off slot) (clean : (state.slot ch slot).dirty = false)
    {other otherOff idx : Nat} (idxLt : idx < conf.entPerPg) :
    view (state.setPpa ch off (state.slot ch slot).ppa) other otherOff idx =
      view state other otherOff idx := by
  have slotOk := pages.slotOk holds
  by_cases same : other = ch ∧ otherOff = off
  · obtain ⟨rfl, rfl⟩ := same
    have stored := slotOk.clean clean
    simp only [view, State.entry_setPpa, and_self, if_true, State.nvm_setPpa, holds.ppa,
      addrFlag_add, slotOk.addrPtr_eq, addrFlag_eq_false.mpr slotOk.ppa_lt,
      stored.1, stored.2 idx idxLt]
    simp
  · simp only [view, State.entry_setPpa, if_neg same, State.nvm_setPpa, State.slot_setPpa]

/-- The cache entry of a page whose address is in the small table holds no page. -/
theorem unused_setPpa (pages : PagesOk conf state) (holds : Holds conf state ch off slot) :
    Unused conf (state.setPpa ch off (state.slot ch slot).ppa) ch slot := by
  have slotOk := pages.slotOk holds
  intro other otherLt eq
  by_cases same : other = off
  · subst same
    have below := slotOk.ppa_lt
    simp only [State.entry_setPpa, and_self, if_true] at eq
    omega
  · rw [State.entry_setPpa, if_neg fun both => same both.2] at eq
    exact same (pages.off_unique ⟨holds.ch_lt, otherLt, eq⟩ holds)

/-- The lists of the caches are not part of the mapping. -/
theorem pagesOk_setLists {change : CacheLists → CacheLists} (pages : PagesOk conf state) :
    PagesOk conf (state.setLists ch change) :=
  pages.congr (by simp) (by simp) (by simp)

theorem view_setLists (change : CacheLists → CacheLists) (other otherOff : Nat) :
    view (state.setLists ch change) other otherOff idx = view state other otherOff idx := by
  simp only [view, State.entry_setLists, State.slot_setLists, State.nvm_setLists]

theorem pagesOk_unmapped (pages : PagesOk conf state) (holds : Holds conf state ch off slot)
    (clean : (state.slot ch slot).dirty = false) :
    PagesOk conf (unmapped state ch off slot) := by
  apply pagesOk_setLists
  exact pagesOk_setSlot_unused (pagesOk_setPpa pages holds clean) (unused_setPpa pages holds)

theorem view_unmapped (pages : PagesOk conf state)
    (holds : Holds conf state ch off slot) (clean : (state.slot ch slot).dirty = false)
    {other otherOff idx : Nat} (chLt : other < conf.nch) (offLt : otherOff < conf.entries)
    (idxLt : idx < conf.entPerPg) :
    view (unmapped state ch off slot) other otherOff idx = view state other otherOff idx := by
  have stored := pagesOk_setPpa pages holds clean
  rw [unmapped, view_setLists, view_setSlot_unused stored (unused_setPpa pages holds) chLt offLt,
    view_setPpa pages holds clean idxLt]

theorem current_unmapped (pages : PagesOk conf state)
    (holds : Holds conf state ch off slot) {other otherOff : Nat} (chLt : other < conf.nch)
    (offLt : otherOff < conf.entries) :
    current (unmapped state ch off slot) other otherOff = current state other otherOff := by
  have slotOk := pages.slotOk holds
  by_cases same : other = ch ∧ otherOff = off
  · obtain ⟨rfl, rfl⟩ := same
    simp [current, entry_unmapped, holds.ppa, addrFlag_add,
      slotOk.addrPtr_eq, addrFlag_eq_false.mpr slotOk.ppa_lt]
  · simp only [current, entry_unmapped, if_neg same]
    split
    · rename_i flag
      obtain ⟨found, eq, foundOk⟩ := (pages other chLt otherOff offLt).cached flag
      rw [eq, foundOk.addrPtr_eq, slot_unmapped, if_neg]
      rintro ⟨rfl, rfl⟩
      exact same ⟨rfl, pages.off_unique ⟨chLt, offLt, eq⟩ holds⟩
    · rfl

theorem tracked_unmapped (pages : PagesOk conf state)
    (holds : Holds conf state ch off slot) : Tracked conf state (unmapped state ch off slot) where
  tinyTbl := by simp [unmapped]
  marked := by simp [unmapped]
  changed other chLt otherOff offLt differ :=
    absurd (current_unmapped pages holds chLt offLt) differ
  small _ _ _ _ := by rw [nvm_unmapped]

/-- The lists after the coldest entry has become free. -/
def evictedLists (lists : CacheLists) (slot : Nat) (rest : List Nat) : CacheLists where
  mbfHead := slot :: lists.mbfHead
  mbuHead := rest
  nfree := lists.nfree + 1
  nused := lists.nused - 1

theorem ListsOk.evict (ppa : Nat) (ok : ListsOk conf state ch)
    (used : (state.lists ch).mbuHead = slot :: rest) (pages : PagesOk conf state)
    (holds : Holds conf state ch off slot)
    (lists : state'.lists ch = evictedLists (state.lists ch) slot rest)
    (entry : ∀ other, (state'.entry ch other).ppa =
      if other = off then ppa else (state.entry ch other).ppa)
    (ppaLt : ppa < mapAddrFlag)
    (blank : (state'.slot ch slot).mdEntry = none ∧ (state'.slot ch slot).ppa = 0 ∧
      (state'.slot ch slot).dirty = false)
    (others : ∀ other, other ≠ slot → state'.slot ch other = state.slot ch other) :
    ListsOk conf state' ch := by
  have nodup := ok.nodup
  have length := ok.length
  have nused := ok.nused
  rw [used, List.perm_middle.nodup_iff] at nodup
  rw [used] at length nused
  have fresh : slot ∉ (state.lists ch).mbfHead ++ rest := (List.nodup_cons.mp nodup).1
  refine ⟨?_, ?_, ?_, ?_, ?_, ?_, ?_, ?_⟩ <;> simp only [lists, evictedLists]
  · exact nodup
  · simp only [List.length_cons] at length ⊢
    omega
  · simp [ok.nfree]
  · simp [nused]
  · intro other mem
    rcases List.mem_cons.mp mem with rfl | mem
    · exact (pages.slotOk holds).below
    · exact ok.below other mem
  · intro other mem
    rcases List.mem_cons.mp mem with rfl | free
    · exact blank
    · rw [others other (by rintro rfl; exact fresh (List.mem_append_left _ free))]
      exact ok.free other free
  · intro other mem
    obtain ⟨found, foundLt, eq⟩ := ok.used other (by rw [used]; exact List.mem_cons_of_mem _ mem)
    refine ⟨found, foundLt, ?_⟩
    rw [entry, if_neg, eq]
    rintro rfl
    have same : other = slot := by have := holds.ppa; omega
    exact fresh (List.mem_append_right _ (same ▸ mem))
  · intro other offLt found eq
    rw [entry] at eq
    split at eq
    · omega
    · rename_i differ
      have mem := ok.listed other offLt found eq
      rw [used] at mem
      rcases List.mem_cons.mp mem with rfl | mem
      · exact absurd (pages.off_unique ⟨holds.ch_lt, offLt, eq⟩ holds) differ
      · exact mem

/-- The coldest entry is taken off the used list. -/
def taken (state : State) (ch : Nat) (rest : List Nat) : State :=
  state.setLists ch fun lists => { lists with mbuHead := rest, nused := lists.nused - 1 }

theorem pagesOk_taken (pages : PagesOk conf state) : PagesOk conf (taken state ch rest) :=
  pagesOk_setLists pages

theorem Holds.taken (holds : Holds conf state ch off slot) :
    Holds conf (taken state ch rest) ch off slot :=
  ⟨holds.ch_lt, holds.off_lt, by simpa [GlMap.taken] using holds.ppa⟩

/-- `map_evict_pg_cache` runs `map_evict_process` for the coldest page, which persists it, and frees
its cache entry. -/
theorem mapEvictPgCache_processed (media : Media env) (inv : Inv env.conf state)
    (chLt : ch < env.conf.nch) (used : (state.lists ch).mbuHead = slot :: rest)
    (isCheckpoint : Bool) :
    ∃ off done, Holds env.conf state ch off slot ∧
      mapEvictProcess env (taken state ch rest) ch slot isCheckpoint = (done, 0) ∧
      Persisted env (taken state ch rest) done ch off slot isCheckpoint ∧
      mapEvictPgCache env state ch isCheckpoint = (unmapped done ch off slot, 0) := by
  obtain ⟨off, offLt, eq⟩ :=
    (inv.lists ch chLt).used slot (by rw [used]; exact List.mem_cons_self)
  have holds : Holds env.conf state ch off slot := ⟨chLt, offLt, eq⟩
  obtain ⟨done, processed, persisted⟩ :=
    mapEvictProcess_spec media (pagesOk_taken inv.pages) holds.taken isCheckpoint
  refine ⟨off, done, holds, processed, persisted, ?_⟩
  rw [taken] at processed
  simp only [mapEvictPgCache, used, processed]
  simp [unmapped, persisted.mdEntry]

/-- `map_evict_pg_cache` persists the coldest page and frees its cache entry. -/
theorem mapEvictPgCache_eq (media : Media env) (inv : Inv env.conf state)
    (chLt : ch < env.conf.nch) (used : (state.lists ch).mbuHead = slot :: rest)
    (isCheckpoint : Bool) :
    ∃ off done, Holds env.conf state ch off slot ∧
      Persisted env (taken state ch rest) done ch off slot isCheckpoint ∧
      mapEvictPgCache env state ch isCheckpoint = (unmapped done ch off slot, 0) := by
  obtain ⟨off, done, holds, -, persisted, eq⟩ :=
    mapEvictPgCache_processed media inv chLt used isCheckpoint
  exact ⟨off, done, holds, persisted, eq⟩

namespace Persisted

variable {done : State} {setImmut : Bool}
  (persisted : Persisted env (taken state ch rest) done ch off slot setImmut)
include persisted

theorem entry_unmapped (other otherOff : Nat) : (unmapped done ch off slot).entry other otherOff =
    if other = ch ∧ otherOff = off then { state.entry ch off with ppa := (done.slot ch slot).ppa }
    else state.entry other otherOff := by
  rw [GlMap.entry_unmapped, persisted.entry, persisted.entry]
  simp [taken]

theorem lists_unmapped : (unmapped done ch off slot).lists ch =
    evictedLists (state.lists ch) slot rest := by
  rw [GlMap.lists_unmapped, if_pos rfl, persisted.lists, taken, State.lists_setLists, if_pos rfl]
  rfl

theorem slot_unmapped {other otherSlot : Nat} (differ : (other, otherSlot) ≠ (ch, slot)) :
    (unmapped done ch off slot).slot other otherSlot = state.slot other otherSlot := by
  rw [GlMap.slot_unmapped, if_neg (by simpa using differ), persisted.others _ _ differ]
  simp [taken]

theorem listsOk_unmapped (inv : Inv env.conf state)
    (used : (state.lists ch).mbuHead = slot :: rest) (holds : Holds env.conf state ch off slot)
    {other : Nat} (otherLt : other < env.conf.nch) :
    ListsOk env.conf (unmapped done ch off slot) other := by
  by_cases same : other = ch
  · subst same
    refine ListsOk.evict (done.slot other slot).ppa (inv.lists other otherLt) used inv.pages holds
      persisted.lists_unmapped ?_ persisted.ppa.2 ?_ ?_
    · intro otherOff
      simp only [persisted.entry_unmapped, true_and]
      split <;> rfl
    · simp [GlMap.slot_unmapped, persisted.dirty]
    · intro otherSlot differ
      exact persisted.slot_unmapped (by simp [differ])
  · refine (inv.lists other otherLt).congr ?_ ?_ ?_
    · rw [GlMap.lists_unmapped, if_neg same, persisted.lists, taken, State.lists_setLists,
        if_neg same]
    · intro otherOff
      rw [persisted.entry_unmapped, if_neg (by simp [same])]
    · intro otherSlot _
      exact persisted.slot_unmapped (by simp [same])

/-- Evicting a page is silent. -/
theorem silent_unmapped (inv : Inv env.conf state)
    (used : (state.lists ch).mbuHead = slot :: rest) (holds : Holds env.conf state ch off slot) :
    Silent env.conf state (unmapped done ch off slot) := by
  have := env.conf.cap_lt.le
  have takenPages : PagesOk env.conf (taken state ch rest) := pagesOk_taken inv.pages
  have takenHolds : Holds env.conf (taken state ch rest) ch off slot := holds.taken
  have donePages : PagesOk env.conf done := fun other otherLt otherOff otherOffLt =>
    persisted.pageOk takenPages takenHolds otherLt otherOffLt
  have doneHolds : Holds env.conf done ch off slot :=
    ⟨holds.ch_lt, holds.off_lt, by rw [persisted.entry]; exact takenHolds.ppa⟩
  refine ⟨⟨pagesOk_unmapped donePages doneHolds persisted.dirty, ?_⟩, ?_, ?_⟩
  · intro other otherLt
    exact persisted.listsOk_unmapped inv used holds otherLt
  · intro other otherLt otherOff otherOffLt idx idxLt
    have start : view (taken state ch rest) other otherOff = view state other otherOff :=
      view_congr otherLt otherOffLt (by simp [taken]) (by simp [taken]) (by simp [taken])
    rw [view_unmapped donePages doneHolds persisted.dirty otherLt otherOffLt idxLt,
      persisted.view_eq otherLt otherOffLt, start]
  · have start : Tracked env.conf state (taken state ch rest) :=
      Tracked.congr (by simp [taken]) (by simp [taken]) (by simp [taken]) (by simp [taken])
        (by simp [taken])
    exact (start.trans (persisted.tracked takenPages takenHolds)).trans
      (tracked_unmapped donePages doneHolds)

end Persisted

/-! ## Loading a page -/

/-- Contents of a page that is not in the cache. -/
def pageContents (conf : Conf) (state : State) (ch off : Nat) : Nat → MapEntry :=
  if (state.entry ch off).ppa = 0 then firstTouch (firstLba conf ch off)
  else state.nvm (state.entry ch off).ppa

/-- What loading a page into the first free entry does. -/
structure Loaded (conf : Conf) (state state' : State) (ch off slot : Nat) (rest : List Nat) :
    Prop where
  entry : ∀ other otherOff, state'.entry other otherOff =
    if other = ch ∧ otherOff = off then { state.entry ch off with ppa := mapAddrFlag + slot }
    else state.entry other otherOff
  slots : ∀ other otherSlot, state'.slot other otherSlot =
    if other = ch ∧ otherSlot = slot then
      { dirty := decide ((state.entry ch off).ppa = 0), buf := pageContents conf state ch off
        ppa := (state.entry ch off).ppa, mdEntry := some off }
    else state.slot other otherSlot
  lists : ∀ other, state'.lists other =
    if other = ch then
      { mbfHead := rest, mbuHead := (state.lists ch).mbuHead ++ [slot]
        nfree := (state.lists ch).nfree - 1, nused := (state.lists ch).nused + 1 }
    else state.lists other
  nvm : state'.nvm = state.nvm
  tinyTbl : ∀ other, (state'.chans other).md.tinyTbl = (state.chans other).md.tinyTbl
  tinyDirty : ∀ other, (state'.chans other).md.tinyDirty = (state.chans other).md.tinyDirty

/-- `map_load_pg_cache` with a free entry, for a page that was never touched or can be read. -/
theorem loadFree_loaded
    (readable : (state.entry ch off).ppa = 0 ∨ env.readOk state.reads = true)
    (free : (state.lists ch).mbfHead = slot :: rest)
    (blank : (state.slot ch slot).ppa = 0 ∧ (state.slot ch slot).dirty = false) :
    ∃ state', loadFree env state ch off (firstLba env.conf ch off) = (state', 0) ∧
      Loaded env.conf state state' ch off slot rest := by
  by_cases untouched : (state.entry ch off).ppa = 0
  · refine ⟨?done, ?eq, ?_, ?_, ?_, ?_, ?_, ?_⟩
    case eq =>
      simp only [loadFree, free, State.entry_setSlot, State.entry_setLists, untouched, if_true]
      rfl
    · simp [State.entry_setPpa]
    · intro other otherSlot
      simp only [State.slot_setLists, State.slot_setPpa, State.slot_setSlot, pageContents,
        untouched, blank.1, and_self, if_true, decide_true]
      split <;> rfl
    · intro other
      simp only [State.lists_setLists, State.lists_setPpa, State.lists_setSlot, if_true]
      split <;> rfl
    all_goals simp
  · have read : env.readOk
        ((state.setLists ch fun lists =>
          { lists with mbfHead := rest, nfree := lists.nfree - 1 }).setSlot ch slot
            fun entry => { entry with mdEntry := some off }).reads = true :=
      readable.resolve_left untouched
    refine ⟨?read, ?eqRead, ?_, ?_, ?_, ?_, ?_, ?_⟩
    case eqRead =>
      simp only [loadFree, free, State.entry_setSlot, State.entry_setLists, untouched, if_false,
        read, if_true]
      rfl
    · simp [State.entry_setPpa]
    · intro other otherSlot
      simp only [State.slot_setLists, State.slot_setPpa, State.slot_setSlot, State.slot_countRead,
        pageContents, untouched, blank.2, and_self, if_true, if_false, decide_false]
      split <;> rfl
    · intro other
      simp only [State.lists_setLists, State.lists_setPpa, State.lists_setSlot,
        State.lists_countRead, if_true]
      split <;> rfl
    all_goals simp

/-- `map_load_pg_cache` with a free entry. -/
theorem loadFree_spec (reads : ∀ n, env.readOk n = true)
    (free : (state.lists ch).mbfHead = slot :: rest)
    (blank : (state.slot ch slot).ppa = 0 ∧ (state.slot ch slot).dirty = false) :
    ∃ state', loadFree env state ch off (firstLba env.conf ch off) = (state', 0) ∧
      Loaded env.conf state state' ch off slot rest :=
  loadFree_loaded (Or.inr (reads state.reads)) free blank

namespace Loaded

variable (loaded : Loaded conf state state' ch off slot rest)
include loaded

theorem slotOk (page : PageOk conf state ch off)
    (uncached : addrFlag (state.entry ch off).ppa = false) (below : slot < conf.cap) :
    SlotOk conf state' ch off slot := by
  have slotEq := loaded.slots ch slot
  rw [if_pos ⟨rfl, rfl⟩] at slotEq
  refine ⟨below, ?_, ?_, ?_, ?_⟩ <;> rw [slotEq]
  · intro idx idxLt
    simp only [pageContents]
    split
    · rfl
    · rename_i stored
      exact page.stored uncached stored idx idxLt
  · exact addrFlag_eq_false.mp uncached
  · intro clean
    have stored : (state.entry ch off).ppa ≠ 0 := by simpa using clean
    refine ⟨stored, fun idx _ => ?_⟩
    simp only [loaded.nvm, pageContents, if_neg stored]

theorem pagesOk (pages : PagesOk conf state) (chLt : ch < conf.nch) (offLt : off < conf.entries)
    (uncached : addrFlag (state.entry ch off).ppa = false) (below : slot < conf.cap)
    (unused : ∀ other < conf.entries, (state.entry ch other).ppa ≠ mapAddrFlag + slot) :
    PagesOk conf state' := by
  intro other otherLt otherOff otherOffLt
  have page := pages other otherLt otherOff otherOffLt
  by_cases same : other = ch ∧ otherOff = off
  · obtain ⟨rfl, rfl⟩ := same
    refine ⟨?_, ?_, ?_⟩ <;> rw [loaded.entry, if_pos ⟨rfl, rfl⟩]
    · exact page.lba
    · intro _
      exact ⟨slot, rfl, loaded.slotOk page uncached below⟩
    · intro stored
      rw [addrFlag_add] at stored
      contradiction
  · refine ⟨?_, ?_, ?_⟩ <;> rw [loaded.entry, if_neg same]
    · exact page.lba
    · intro flag
      obtain ⟨found, eq, foundOk⟩ := page.cached flag
      have slotEq : state'.slot other found = state.slot other found := by
        rw [loaded.slots, if_neg]
        rintro ⟨rfl, rfl⟩
        exact unused otherOff otherOffLt eq
      refine ⟨found, eq, foundOk.below, ?_, ?_, ?_, ?_⟩ <;> rw [slotEq]
      · exact foundOk.mdEntry
      · exact foundOk.lba
      · exact foundOk.ppa_lt
      · rw [loaded.nvm]
        exact foundOk.clean
    · rw [loaded.nvm]
      exact page.stored

/-- Loading does not change where the pages are. -/
theorem current_eq (pages : PagesOk conf state)
    (uncached : addrFlag (state.entry ch off).ppa = false) (below : slot < conf.cap)
    (unused : ∀ other < conf.entries, (state.entry ch other).ppa ≠ mapAddrFlag + slot)
    {other otherOff : Nat} (otherLt : other < conf.nch) (otherOffLt : otherOff < conf.entries) :
    current state' other otherOff = current state other otherOff := by
  by_cases same : other = ch ∧ otherOff = off
  · obtain ⟨rfl, rfl⟩ := same
    have page := pages other otherLt otherOff otherOffLt
    simp [current, loaded.entry, addrFlag_add, (loaded.slotOk page uncached below).addrPtr_eq,
      loaded.slots, uncached]
  · simp only [current, loaded.entry, if_neg same]
    split
    · rename_i flag
      obtain ⟨found, eq, foundOk⟩ := (pages other otherLt otherOff otherOffLt).cached flag
      rw [eq, foundOk.addrPtr_eq, loaded.slots, if_neg]
      rintro ⟨rfl, rfl⟩
      exact unused otherOff otherOffLt eq
    · rfl

theorem view_eq (pages : PagesOk conf state)
    (uncached : addrFlag (state.entry ch off).ppa = false) (below : slot < conf.cap)
    (unused : ∀ other < conf.entries, (state.entry ch other).ppa ≠ mapAddrFlag + slot)
    {other otherOff : Nat} (otherLt : other < conf.nch) (otherOffLt : otherOff < conf.entries) :
    view state' other otherOff = view state other otherOff := by
  funext idx
  by_cases same : other = ch ∧ otherOff = off
  · obtain ⟨rfl, rfl⟩ := same
    have page := pages other otherLt otherOff otherOffLt
    simp only [view, loaded.entry, addrFlag_add, (loaded.slotOk page uncached below).addrPtr_eq,
      loaded.slots, uncached, and_self, if_true, pageContents]
    split <;> simp_all [firstTouch]
  · simp only [view, loaded.entry, if_neg same, loaded.nvm]
    split
    · rename_i flag
      obtain ⟨found, eq, foundOk⟩ := (pages other otherLt otherOff otherOffLt).cached flag
      rw [eq, foundOk.addrPtr_eq, loaded.slots, if_neg]
      rintro ⟨rfl, rfl⟩
      exact unused otherOff otherOffLt eq
    · rfl

theorem listsOk (ok : ListsOk conf state ch) (free : (state.lists ch).mbfHead = slot :: rest)
    (offLt : off < conf.entries) (uncached : addrFlag (state.entry ch off).ppa = false) :
    ListsOk conf state' ch := by
  have nodup := ok.nodup
  have length := ok.length
  have nfree := ok.nfree
  rw [free] at nodup length nfree
  have fresh : slot ∉ rest ++ (state.lists ch).mbuHead := (List.nodup_cons.mp nodup).1
  have lists := loaded.lists ch
  rw [if_pos rfl] at lists
  refine ⟨?_, ?_, ?_, ?_, ?_, ?_, ?_, ?_⟩ <;> simp only [lists]
  · rw [← List.append_assoc]
    exact (List.perm_append_singleton slot _).nodup_iff.mpr nodup
  · simp only [List.length_append, List.length_cons, List.length_nil] at length ⊢
    omega
  · simp [nfree]
  · simp [ok.nused]
  · intro other mem
    exact ok.below other (by rw [free]; exact List.mem_cons_of_mem _ mem)
  · intro other mem
    rw [loaded.slots, if_neg]
    · exact ok.free other (by rw [free]; exact List.mem_cons_of_mem _ mem)
    · rintro ⟨_, rfl⟩
      exact fresh (List.mem_append_left _ mem)
  · intro other mem
    rcases List.mem_append.mp mem with used | last
    · obtain ⟨found, foundLt, eq⟩ := ok.used other used
      refine ⟨found, foundLt, ?_⟩
      rw [loaded.entry, if_neg, eq]
      rintro ⟨_, rfl⟩
      rw [eq, addrFlag_add] at uncached
      contradiction
    · obtain rfl : other = slot := by simpa using last
      exact ⟨off, offLt, by simp [loaded.entry]⟩
  · intro other otherLt found eq
    rw [loaded.entry] at eq
    split at eq
    · obtain rfl : found = slot := by simpa using eq.symm
      simp
    · exact List.mem_append_left _ (ok.listed other otherLt found eq)

/-- Loading a page is silent. -/
theorem silent (inv : Inv conf state) (free : (state.lists ch).mbfHead = slot :: rest)
    (chLt : ch < conf.nch) (offLt : off < conf.entries)
    (uncached : addrFlag (state.entry ch off).ppa = false) : Silent conf state state' := by
  have listsOk := inv.lists ch chLt
  have mem : slot ∈ (state.lists ch).mbfHead := by rw [free]; exact List.mem_cons_self
  have below := listsOk.below slot mem
  have : conf.cap ≤ mapAddrFlag := conf.cap_lt.le
  have unused : ∀ other < conf.entries, (state.entry ch other).ppa ≠ mapAddrFlag + slot := by
    intro other otherLt eq
    exact (List.nodup_append.mp listsOk.nodup).2.2 slot mem slot
      (listsOk.listed other otherLt slot eq) rfl
  refine ⟨⟨loaded.pagesOk inv.pages chLt offLt uncached below unused, ?_⟩, ?_, ?_⟩
  · intro other otherLt
    by_cases same : other = ch
    · subst same
      exact loaded.listsOk listsOk free offLt uncached
    · refine (inv.lists other otherLt).congr ?_ ?_ ?_
      · rw [loaded.lists, if_neg same]
      · intro otherOff
        rw [loaded.entry, if_neg (by simp [same])]
      · intro otherSlot _
        rw [loaded.slots, if_neg (by simp [same])]
  · intro other otherLt otherOff otherOffLt idx _
    rw [loaded.view_eq inv.pages uncached below unused otherLt otherOffLt]
  · refine ⟨loaded.tinyTbl, fun other page dirty => by rw [loaded.tinyDirty]; exact dirty, ?_,
      fun _ _ _ _ => by rw [loaded.nvm]⟩
    intro other otherLt otherOff otherOffLt differ
    exact absurd (loaded.current_eq inv.pages uncached below unused otherLt otherOffLt)
      differ

end Loaded

theorem loadFree_silent (media : Media env) (inv : Inv env.conf state) (chLt : ch < env.conf.nch)
    (offLt : off < env.conf.entries) (uncached : addrFlag (state.entry ch off).ppa = false)
    (free : (state.lists ch).mbfHead = slot :: rest) :
    ∃ state', loadFree env state ch off (firstLba env.conf ch off) = (state', 0) ∧
      Silent env.conf state state' ∧ Holds env.conf state' ch off slot := by
  have blank := (inv.lists ch chLt).free slot (by rw [free]; exact List.mem_cons_self)
  obtain ⟨state', eq, loaded⟩ := loadFree_spec media.reads free blank.2
  refine ⟨state', eq, loaded.silent inv free chLt offLt uncached, chLt, offLt, ?_⟩
  rw [loaded.entry, if_pos ⟨rfl, rfl⟩]

/-- `map_load_pg_cache` evicts the coldest page if there is no free entry, and loads
the page. -/
theorem mapLoadPgCache_spec (media : Media env) (inv : Inv env.conf state)
    (chLt : ch < env.conf.nch) (offLt : off < env.conf.entries)
    (uncached : addrFlag (state.entry ch off).ppa = false) :
    ∃ state' slot, mapLoadPgCache env state ch off (firstLba env.conf ch off) = (state', 0) ∧
      Silent env.conf state state' ∧ Holds env.conf state' ch off slot := by
  have listsOk := inv.lists ch chLt
  cases free : (state.lists ch).mbfHead with
  | cons slot rest =>
      obtain ⟨state', eq, silent, holds⟩ := loadFree_silent media inv chLt offLt uncached free
      exact ⟨state', slot, by simpa only [mapLoadPgCache, free] using eq, silent, holds⟩
  | nil =>
      -- all entries are in use, and there is at least one
      have length := listsOk.length
      have capPos := env.conf.cap_pos
      obtain ⟨slot, rest, used⟩ : ∃ slot rest, (state.lists ch).mbuHead = slot :: rest := by
        cases used : (state.lists ch).mbuHead with
        | nil => simp [free, used] at length; omega
        | cons slot rest => exact ⟨slot, rest, rfl⟩
      obtain ⟨other, done, holds, persisted, evicted⟩ :=
        mapEvictPgCache_eq media inv chLt used false
      have silent := persisted.silent_unmapped inv used holds
      have still : addrFlag ((unmapped done ch other slot).entry ch off).ppa = false := by
        rw [persisted.entry_unmapped]
        split
        · exact addrFlag_eq_false.mpr persisted.ppa.2
        · exact uncached
      have lists := persisted.lists_unmapped
      obtain ⟨state', eq, loadSilent, loadHolds⟩ :=
        loadFree_silent media silent.inv chLt offLt still (by rw [lists]; rfl)
      exact ⟨state', slot, by simpa only [mapLoadPgCache, free, evicted] using eq,
        silent.trans loadSilent, loadHolds⟩

/-! ## Lookup -/

/-- An entry becomes the hottest one. -/
def touched (state : State) (ch slot : Nat) : State :=
  state.setLists ch fun lists => { lists with mbuHead := lists.mbuHead.erase slot ++ [slot] }

theorem silent_touched (inv : Inv conf state) (holds : Holds conf state ch off slot) :
    Silent conf state (touched state ch slot) := by
  have listsOk := inv.lists ch holds.ch_lt
  have mem : slot ∈ (state.lists ch).mbuHead := listsOk.listed off holds.off_lt slot holds.ppa
  have perm : (state.lists ch).mbuHead.Perm ((state.lists ch).mbuHead.erase slot ++ [slot]) :=
    (List.perm_cons_erase mem).trans (List.perm_append_singleton slot _).symm
  refine ⟨⟨?_, ?_⟩, ?_, ?_⟩
  · exact inv.pages.congr (by simp [touched]) (by simp [touched]) (by simp [touched])
  · intro other otherLt
    by_cases same : other = ch
    · subst same
      refine ⟨?_, ?_, ?_, ?_, ?_, ?_, ?_, ?_⟩ <;>
        simp only [touched, State.lists_setLists, if_true]
      · exact (perm.append_left _).nodup_iff.mp listsOk.nodup
      · rw [← perm.length_eq]
        exact listsOk.length
      · exact listsOk.nfree
      · rw [← perm.length_eq]
        exact listsOk.nused
      · exact listsOk.below
      · simpa using listsOk.free
      · intro otherSlot otherMem
        simpa using listsOk.used otherSlot (perm.mem_iff.mpr otherMem)
      · intro otherOff otherOffLt otherSlot eq
        exact perm.mem_iff.mp (listsOk.listed otherOff otherOffLt otherSlot (by simpa using eq))
    · refine (inv.lists other otherLt).congr ?_ ?_ ?_
      · rw [touched, State.lists_setLists, if_neg same]
      · simp [touched]
      · simp [touched]
  · intro other otherLt otherOff otherOffLt idx _
    have same : view (touched state ch slot) other otherOff = view state other otherOff :=
      view_congr otherLt otherOffLt (by simp [touched]) (by simp [touched]) (by simp [touched])
    rw [same]
  · exact Tracked.congr (by simp [touched]) (by simp [touched]) (by simp [touched])
      (by simp [touched]) (by simp [touched])

/-- The mapping page of an LBA is in the table. -/
def Covered (conf : Conf) (lba : Nat) : Prop :=
  lba / conf.entPerPg / conf.nch < conf.entries

instance (conf : Conf) (lba : Nat) : Decidable (Covered conf lba) :=
  inferInstanceAs (Decidable (_ < _))

section

variable {lba : Nat}

theorem chMap_lt (conf : Conf) (lba : Nat) : chMap conf lba < conf.nch :=
  Nat.mod_lt _ conf.nch_pos

theorem entOff_lt (conf : Conf) (lba : Nat) : entOff conf lba < conf.entPerPg :=
  Nat.mod_lt _ conf.entPerPg_pos

theorem Covered.pgOff_eq (covered : Covered conf lba) :
    pgOff conf lba = lba / conf.entPerPg / conf.nch :=
  Nat.mod_eq_of_lt (Nat.lt_trans covered conf.entries_lt)

theorem Covered.pgOff_lt (covered : Covered conf lba) : pgOff conf lba < conf.entries := by
  rw [covered.pgOff_eq]
  exact covered

/-- The first LBA of the page of an LBA. -/
theorem Covered.firstLba_eq (covered : Covered conf lba) :
    firstLba conf (chMap conf lba) (pgOff conf lba) = lba / conf.entPerPg * conf.entPerPg := by
  rw [firstLba, covered.pgOff_eq, chMap, Nat.div_add_mod']

theorem Covered.lba_eq (covered : Covered conf lba) :
    firstLba conf (chMap conf lba) (pgOff conf lba) + entOff conf lba = lba := by
  rw [covered.firstLba_eq, entOff, Nat.div_add_mod']

end

/-- `map_get_cache_entry` returns the cache entry that holds the page of the LBA. -/
theorem mapGetCacheEntry_spec {lba : Nat} (media : Media env) (inv : Inv env.conf state)
    (covered : Covered env.conf lba) :
    ∃ state' slot, mapGetCacheEntry env state lba = (state', some slot) ∧
      Silent env.conf state state' ∧
      Holds env.conf state' (chMap env.conf lba) (pgOff env.conf lba) slot := by
  have chLt := chMap_lt env.conf lba
  have offLt := covered.pgOff_lt
  cases flag : addrFlag (state.entry (chMap env.conf lba) (pgOff env.conf lba)).ppa with
  | false =>
      obtain ⟨state', slot, eq, silent, holds⟩ := mapLoadPgCache_spec media inv chLt offLt flag
      have slotOk := silent.inv.pages.slotOk holds
      rw [covered.firstLba_eq] at eq
      refine ⟨state', slot, ?_, silent, holds⟩
      simp [mapGetCacheEntry, offLt.not_ge, flag, eq, holds.ppa, slotOk.addrPtr_eq]
  | true =>
      obtain ⟨slot, eq, slotOk⟩ := (inv.pages _ chLt _ offLt).cached flag
      have holds : Holds env.conf state (chMap env.conf lba) (pgOff env.conf lba) slot :=
        ⟨chLt, offLt, eq⟩
      refine ⟨touched state (chMap env.conf lba) slot, slot, ?_, silent_touched inv holds, chLt,
        offLt, ?_⟩
      · simp [mapGetCacheEntry, offLt.not_ge, eq, addrFlag_add, slotOk.addrPtr_eq, touched]
      · simpa [touched] using eq

end OxCtrl.GlMap
