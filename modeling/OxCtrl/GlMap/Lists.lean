import OxCtrl.GlMap.Cache
import Mathlib.Data.List.Nodup

/-!
# Lists and flags of the mapping cache

Pages are loaded and evicted while NVM reads and writes fail in any pattern.  `CacheOk` is
what every operation keeps: the two lists of a cache partition its entries, and the flags of
the small table and the back pointers of the used entries agree.

`map_evict_process` puts an entry that could not be written back on the used list.  This
is right for `map_evict_pg_cache`, which has taken the entry off the list.
-/

namespace OxCtrl.GlMap

variable {env : Env} {conf : Conf} {state state' state'' : State} {ch off slot : Nat}
  {rest : List Nat}

/-! ## Representation of a cache -/

/-- Representation of the cache of a channel: an entry is in exactly one list and once,
the counters are the lengths, and a small-table entry has `MAP_ADDR_FLAG` iff it is the
address of the one used cache entry with it as `md_entry`. -/
structure CacheRep (conf : Conf) (state : State) (ch : Nat) : Prop where
  one_list : ∀ slot < conf.cap,
    (slot ∈ (state.lists ch).mbfHead ∧ slot ∉ (state.lists ch).mbuHead) ∨
      (slot ∉ (state.lists ch).mbfHead ∧ slot ∈ (state.lists ch).mbuHead)
  free_once : (state.lists ch).mbfHead.Nodup
  used_once : (state.lists ch).mbuHead.Nodup
  nfree : (state.lists ch).nfree = (state.lists ch).mbfHead.length
  nused : (state.lists ch).nused = (state.lists ch).mbuHead.length
  capacity : (state.lists ch).nfree + (state.lists ch).nused = conf.cap
  flag_iff : ∀ off < conf.entries, addrFlag (state.entry ch off).ppa = true ↔
    (∃! slot, slot ∈ (state.lists ch).mbuHead ∧ (state.slot ch slot).mdEntry = some off) ∧
      ∃ slot ∈ (state.lists ch).mbuHead, (state.slot ch slot).mdEntry = some off ∧
        (state.entry ch off).ppa = mapAddrFlag + slot

/-- The invariant of the cache of a channel. -/
structure CacheOk (conf : Conf) (state : State) (ch : Nat) : Prop where
  nodup : ((state.lists ch).mbfHead ++ (state.lists ch).mbuHead).Nodup
  mem : ∀ slot, slot ∈ (state.lists ch).mbfHead ++ (state.lists ch).mbuHead ↔ slot < conf.cap
  nfree : (state.lists ch).nfree = (state.lists ch).mbfHead.length
  nused : (state.lists ch).nused = (state.lists ch).mbuHead.length
  used : ∀ slot ∈ (state.lists ch).mbuHead, ∃ off < conf.entries,
    (state.slot ch slot).mdEntry = some off ∧ (state.entry ch off).ppa = mapAddrFlag + slot
  flagged : ∀ off < conf.entries, addrFlag (state.entry ch off).ppa = true →
    ∃ slot ∈ (state.lists ch).mbuHead, (state.slot ch slot).mdEntry = some off ∧
      (state.entry ch off).ppa = mapAddrFlag + slot
  ppa_lt : ∀ slot < conf.cap, (state.slot ch slot).ppa < mapAddrFlag

namespace CacheOk

theorem capacity (ok : CacheOk conf state ch) :
    (state.lists ch).mbfHead.length + (state.lists ch).mbuHead.length = conf.cap := by
  have perm : ((state.lists ch).mbfHead ++ (state.lists ch).mbuHead).Perm (List.range conf.cap) :=
    (List.perm_ext_iff_of_nodup ok.nodup List.nodup_range).mpr fun slot => by
      rw [ok.mem, List.mem_range]
  simpa using perm.length_eq

/-- The small-table entry of a used cache entry. -/
theorem entry_of_mdEntry (ok : CacheOk conf state ch) (mem : slot ∈ (state.lists ch).mbuHead)
    (mdEntry : (state.slot ch slot).mdEntry = some off) :
    off < conf.entries ∧ (state.entry ch off).ppa = mapAddrFlag + slot := by
  obtain ⟨found, foundLt, foundEntry, eq⟩ := ok.used slot mem
  obtain rfl : found = off := Option.some.inj (foundEntry.symm.trans mdEntry)
  exact ⟨foundLt, eq⟩

theorem rep (ok : CacheOk conf state ch) : CacheRep conf state ch where
  one_list slot below := by
    have disjoint := (List.nodup_append.mp ok.nodup).2.2
    rcases List.mem_append.mp ((ok.mem slot).mpr below) with free | used
    · exact Or.inl ⟨free, fun used => disjoint slot free slot used rfl⟩
    · exact Or.inr ⟨fun free => disjoint slot free slot used rfl, used⟩
  free_once := (List.nodup_append.mp ok.nodup).1
  used_once := (List.nodup_append.mp ok.nodup).2.1
  nfree := ok.nfree
  nused := ok.nused
  capacity := by rw [ok.nfree, ok.nused, ok.capacity]
  flag_iff off offLt := by
    constructor
    · intro flag
      obtain ⟨slot, mem, mdEntry, eq⟩ := ok.flagged off offLt flag
      refine ⟨⟨slot, ⟨mem, mdEntry⟩, ?_⟩, slot, mem, mdEntry, eq⟩
      rintro other ⟨otherMem, otherEntry⟩
      have otherEq := (ok.entry_of_mdEntry otherMem otherEntry).2
      omega
    · rintro ⟨_, slot, _, _, eq⟩
      rw [eq, addrFlag_add]

end CacheOk

/-! ## Steps that leave the lists alone -/

/-- The lists, the flags and the back pointers stay as they are, and page addresses stay
addresses. -/
structure SameCache (state state' : State) : Prop where
  lists : ∀ ch, state'.lists ch = state.lists ch
  entry : ∀ ch off, state'.entry ch off = state.entry ch off
  mdEntry : ∀ ch slot, (state'.slot ch slot).mdEntry = (state.slot ch slot).mdEntry
  ppa_lt : ∀ ch slot, (state.slot ch slot).ppa < mapAddrFlag →
    (state'.slot ch slot).ppa < mapAddrFlag

namespace SameCache

theorem refl (state : State) : SameCache state state :=
  ⟨fun _ => rfl, fun _ _ => rfl, fun _ _ => rfl, fun _ _ below => below⟩

theorem trans (first : SameCache state state') (second : SameCache state' state'') :
    SameCache state state'' where
  lists ch := (second.lists ch).trans (first.lists ch)
  entry ch off := (second.entry ch off).trans (first.entry ch off)
  mdEntry ch slot := (second.mdEntry ch slot).trans (first.mdEntry ch slot)
  ppa_lt ch slot below := second.ppa_lt ch slot (first.ppa_lt ch slot below)

/-- An update of a cache entry that keeps its `md_entry`. -/
theorem setSlot (change : CacheEntry → CacheEntry)
    (mdEntry : (change (state.slot ch slot)).mdEntry = (state.slot ch slot).mdEntry)
    (ppaLt : (state.slot ch slot).ppa < mapAddrFlag →
      (change (state.slot ch slot)).ppa < mapAddrFlag) :
    SameCache state (state.setSlot ch slot change) where
  lists := by simp
  entry := by simp
  mdEntry other otherSlot := by
    rw [State.slot_setSlot]
    split
    · rename_i same
      rw [same.1, same.2, mdEntry]
    · rfl
  ppa_lt other otherSlot below := by
    rw [State.slot_setSlot]
    split
    · rename_i same
      rw [same.1, same.2] at below
      exact ppaLt below
    · exact below

theorem mark (state : State) (ch index : Nat) : SameCache state (oxbChMapMark state ch index) :=
  ⟨by simp, by simp, by simp, by simp⟩

theorem invalidate (state : State) (old : Nat) : SameCache state (state.invalidate old) :=
  ⟨by simp, by simp, by simp, by simp⟩

theorem setImmut (state : State) (ch off ppa : Nat) :
    SameCache state (state.setImmut ch off ppa) :=
  ⟨by simp, by simp, by simp, by simp⟩

theorem copyImmut (state : State) (ch : Nat) : SameCache state (copyImmut conf state ch) := by
  have same : ∀ other, ((GlMap.copyImmut conf state ch).chans other).cache =
      (state.chans other).cache ∧
      ((GlMap.copyImmut conf state ch).chans other).md.tbl = (state.chans other).md.tbl := by
    intro other
    by_cases eq : other = ch <;> simp [GlMap.copyImmut, State.setChan, eq]
  constructor
  · intro other
    simp only [State.lists, (same other).1]
  · intro other otherOff
    simp only [State.entry, (same other).2]
  · intro other otherSlot
    simp only [State.slot, (same other).1]
  · intro other otherSlot below
    simpa only [State.slot, (same other).1] using below

end SameCache

/-- The invariant does not depend on anything else. -/
theorem CacheOk.congr (ok : CacheOk conf state ch) (lists : state'.lists ch = state.lists ch)
    (entry : ∀ off, (state'.entry ch off).ppa = (state.entry ch off).ppa)
    (mdEntry : ∀ slot ∈ (state.lists ch).mbuHead,
      (state'.slot ch slot).mdEntry = (state.slot ch slot).mdEntry)
    (ppaLt : ∀ slot, (state.slot ch slot).ppa < mapAddrFlag →
      (state'.slot ch slot).ppa < mapAddrFlag) :
    CacheOk conf state' ch where
  nodup := by simpa only [lists] using ok.nodup
  mem := by simpa only [lists] using ok.mem
  nfree := by simpa only [lists] using ok.nfree
  nused := by simpa only [lists] using ok.nused
  used slot mem := by
    rw [lists] at mem
    simpa only [mdEntry slot mem, entry] using ok.used slot mem
  flagged off offLt flag := by
    rw [entry] at flag
    obtain ⟨slot, mem, slotEntry, eq⟩ := ok.flagged off offLt flag
    refine ⟨slot, by rwa [lists], ?_, by rwa [entry]⟩
    rw [mdEntry slot mem, slotEntry]
  ppa_lt slot below := ppaLt slot (ok.ppa_lt slot below)

theorem SameCache.cacheOk (same : SameCache state state') (ok : CacheOk conf state ch) :
    CacheOk conf state' ch :=
  ok.congr (same.lists ch) (fun off => by rw [same.entry]) (fun slot _ => same.mdEntry ch slot)
    (same.ppa_lt ch)

/-! ## Writing a page -/

/-- Global provisioning hands out page addresses: bit 63, one of the reserved bits of
`struct nvm_ppa_addr`, is clear. -/
def ReservedClear (env : Env) : Prop :=
  ∀ state addr, env.newFn state = some addr → addr < mapAddrFlag

/-- One of the next `retry` attempts to write a page succeeds. -/
def Writable (env : Env) (state : State) (retry : Nat) : Prop :=
  ∃ tries < retry, (env.newFn { state with writes := state.writes + tries }).isSome

theorem writeRetry_same (clear : ReservedClear env) (lba old retry : Nat) :
    SameCache state (writeRetry env ch slot lba old retry state).1 := by
  induction retry generalizing state with
  | zero => exact SameCache.refl state
  | succ retry ih =>
      cases new : env.newFn state with
      | none =>
          have counted : SameCache state { state with writes := state.writes + 1 } :=
            ⟨fun _ => rfl, fun _ _ => rfl, fun _ _ => rfl, fun _ _ below => below⟩
          simpa only [writeRetry, mapNvmWrite, new] using counted.trans ih
      | some addr =>
          rw [writeRetry_eq new]
          have page : SameCache state
              (state.writePage addr (state.slot ch slot).buf ⟨.map, lba, addr, old⟩) :=
            ⟨fun _ => rfl, fun _ _ => rfl, fun _ _ => rfl, fun _ _ below => below⟩
          apply page.trans
          exact SameCache.setSlot (fun entry => { entry with ppa := addr }) rfl
            fun _ => clear state addr new

theorem writeRetry_iff (lba old retry : Nat) :
    (writeRetry env ch slot lba old retry state).2 = true ↔ Writable env state retry := by
  induction retry generalizing state with
  | zero => simp [writeRetry, Writable]
  | succ retry ih =>
      cases new : env.newFn state with
      | some addr =>
          rw [writeRetry_eq new]
          simp only [true_iff]
          exact ⟨0, retry.succ_pos, by simp [new]⟩
      | none =>
          have next : (writeRetry env ch slot lba old (retry + 1) state).2 =
              (writeRetry env ch slot lba old retry
                { state with writes := state.writes + 1 }).2 := by
            simp only [writeRetry, mapNvmWrite, new]
          rw [next, ih]
          constructor
          · rintro ⟨tries, below, some⟩
            refine ⟨tries + 1, Nat.succ_lt_succ below, ?_⟩
            simpa only [Nat.add_assoc, Nat.add_comm 1 tries] using some
          · rintro ⟨tries, below, some⟩
            cases tries with
            | zero => simp [new] at some
            | succ tries =>
                refine ⟨tries, Nat.lt_of_succ_lt_succ below, ?_⟩
                simpa only [Nat.add_assoc, Nat.add_comm 1 tries] using some

/-- A dirty page could not be written: the entry goes to the head of the used list. -/
def relinked (state : State) (ch slot : Nat) : State :=
  state.setLists ch fun lists =>
    { lists with mbuHead := slot :: lists.mbuHead, nused := lists.nused + 1 }

/-- `map_evict_process` persists the entry, or it links it again. -/
theorem mapEvictProcess_cases (clear : ReservedClear env) (setImmut : Bool)
    (mdEntry : (state.slot ch slot).mdEntry = some off) :
    (∃ done, mapEvictProcess env state ch slot setImmut = (done, 0) ∧ SameCache state done ∧
        ((state.slot ch slot).dirty = true → Writable env state appMdIoRetry)) ∨
      ∃ tried, mapEvictProcess env state ch slot setImmut = (relinked tried ch slot, -1) ∧
        SameCache state tried ∧ (state.slot ch slot).dirty = true ∧
        ¬ Writable env state appMdIoRetry := by
  have finish : ∀ done, SameCache state done → SameCache state
      (if setImmut then done.setImmut ch off (done.slot ch slot).ppa else done) := by
    intro done same
    cases setImmut with
    | false => exact same
    | true => exact same.trans (SameCache.setImmut done ch off _)
  cases dirty : (state.slot ch slot).dirty with
  | false =>
      left
      exact ⟨_, by simp only [mapEvictProcess, mdEntry, dirty]; rfl,
        finish state (SameCache.refl state), fun absent => absurd absent Bool.false_ne_true⟩
  | true =>
      have same : SameCache state (writeRetry env ch slot (state.entry ch off).lba
          (state.slot ch slot).ppa appMdIoRetry state).1 := writeRetry_same clear _ _ _
      have outcome : (writeRetry env ch slot (state.entry ch off).lba
          (state.slot ch slot).ppa appMdIoRetry state).2 = true ↔
            Writable env state appMdIoRetry := writeRetry_iff _ _ _
      generalize wrote : writeRetry env ch slot (state.entry ch off).lba (state.slot ch slot).ppa
        appMdIoRetry state = result at same outcome
      obtain ⟨after, ok⟩ := result
      cases ok with
      | true =>
          left
          refine ⟨_, by simp only [mapEvictProcess, mdEntry, dirty, wrote, if_true]; rfl,
            finish _ ?_, fun _ => outcome.mp rfl⟩
          have clean : SameCache after (after.setSlot ch slot fun entry =>
              { entry with dirty := false }) := SameCache.setSlot _ rfl id
          exact ((same.trans clean).trans (SameCache.mark _ ch _)).trans
            (SameCache.invalidate _ _)
      | false =>
          right
          refine ⟨after, by simp only [mapEvictProcess, mdEntry, dirty, wrote, if_true]; rfl, same,
            rfl, ?_⟩
          intro writable
          exact Bool.false_ne_true (outcome.mpr writable)

/-! ## Eviction -/

theorem CacheOk.evict {ppa : Nat} (ok : CacheOk conf state ch)
    (head : (state.lists ch).mbuHead = slot :: rest)
    (slotEntry : (state.slot ch slot).mdEntry = some off) (ppaLt : ppa < mapAddrFlag)
    (lists : state'.lists ch = evictedLists (state.lists ch) slot rest)
    (entry : ∀ other, (state'.entry ch other).ppa =
      if other = off then ppa else (state.entry ch other).ppa)
    (mdEntry : ∀ other, other ≠ slot →
      (state'.slot ch other).mdEntry = (state.slot ch other).mdEntry)
    (addresses : ∀ other, (state.slot ch other).ppa < mapAddrFlag →
      (state'.slot ch other).ppa < mapAddrFlag) :
    CacheOk conf state' ch := by
  have nodup := ok.nodup
  have nused := ok.nused
  have member := ok.mem
  rw [head, List.perm_middle.nodup_iff] at nodup
  rw [head] at nused
  have fresh : slot ∉ (state.lists ch).mbfHead ++ rest := (List.nodup_cons.mp nodup).1
  have restMem : ∀ other ∈ rest, other ∈ (state.lists ch).mbuHead ∧ other ≠ slot := by
    intro other mem
    refine ⟨by rw [head]; exact List.mem_cons_of_mem slot mem, ?_⟩
    rintro rfl
    exact fresh (List.mem_append_right _ mem)
  have slotPpa := (ok.entry_of_mdEntry (by rw [head]; exact List.mem_cons_self) slotEntry).2
  refine ⟨?nodup, ?mem, ?nfree, ?nused, ?used, ?flagged,
    fun other below => addresses other (ok.ppa_lt other below)⟩ <;>
    simp only [lists, evictedLists]
  case nodup => exact nodup
  case mem =>
    intro other
    rw [← member other, head]
    exact List.perm_middle.symm.mem_iff
  case nfree => rw [ok.nfree, List.length_cons]
  case nused => rw [nused, List.length_cons, Nat.add_sub_cancel]
  case used =>
    intro other mem
    obtain ⟨used, differ⟩ := restMem other mem
    obtain ⟨found, foundLt, foundEntry, eq⟩ := ok.used other used
    refine ⟨found, foundLt, by rw [mdEntry other differ, foundEntry], ?_⟩
    rw [entry, if_neg, eq]
    rintro rfl
    omega
  case flagged =>
    intro other otherLt flag
    rw [entry] at flag
    by_cases same : other = off
    · rw [if_pos same] at flag
      rw [addrFlag_eq_false.mpr ppaLt] at flag
      contradiction
    · rw [if_neg same] at flag
      obtain ⟨found, mem, foundEntry, eq⟩ := ok.flagged other otherLt flag
      have differ : found ≠ slot := by
        rintro rfl
        exact same (Option.some.inj (foundEntry.symm.trans slotEntry))
      rw [head] at mem
      refine ⟨found, (List.mem_cons.mp mem).resolve_left differ, ?_, ?_⟩
      · rw [mdEntry found differ, foundEntry]
      · rw [entry, if_neg same, eq]

/-- The page of an uncached page moves. -/
theorem CacheOk.setPpa {other ppa : Nat} (ok : CacheOk conf state ch)
    (uncached : addrFlag (state.entry other off).ppa = false) (ppaLt : ppa < mapAddrFlag) :
    CacheOk conf (state.setPpa other off ppa) ch := by
  refine ⟨?nodup, ?mem, ?nfree, ?nused, ?used, ?flagged, ?ppa⟩ <;>
    simp only [State.lists_setPpa, State.slot_setPpa, State.entry_setPpa]
  case nodup => exact ok.nodup
  case mem => exact ok.mem
  case nfree => exact ok.nfree
  case nused => exact ok.nused
  case used =>
    intro slot mem
    obtain ⟨found, foundLt, foundEntry, eq⟩ := ok.used slot mem
    refine ⟨found, foundLt, foundEntry, ?_⟩
    rw [if_neg, eq]
    rintro ⟨rfl, rfl⟩
    rw [eq, addrFlag_add] at uncached
    contradiction
  case flagged =>
    intro otherOff otherLt flag
    split at flag
    · rw [addrFlag_eq_false.mpr ppaLt] at flag
      contradiction
    · rename_i differ
      rw [if_neg differ]
      exact ok.flagged otherOff otherLt flag
  case ppa => exact ok.ppa_lt

/-- All caches keep the invariant. -/
def CachesOk (conf : Conf) (state : State) : Prop :=
  ∀ ch < conf.nch, CacheOk conf state ch

theorem SameCache.cachesOk (same : SameCache state state') (ok : CachesOk conf state) :
    CachesOk conf state' :=
  fun ch chLt => same.cacheOk (ok ch chLt)

theorem taken_relinked {tried : State} (ok : CacheOk conf state ch)
    (head : (state.lists ch).mbuHead = slot :: rest)
    (same : SameCache (taken state ch rest) tried) :
    SameCache state (relinked tried ch slot) where
  lists other := by
    rw [relinked, State.lists_setLists, same.lists, same.lists, taken, State.lists_setLists,
      State.lists_setLists]
    split
    · rename_i eq
      -- the counter was not zero, as the list was not empty
      have nused := ok.nused
      rw [head, List.length_cons] at nused
      simp only [eq, if_true, nused, Nat.add_sub_cancel, ← head]
      rw [← nused]
    · rfl
  entry other otherOff := by
    rw [relinked, State.entry_setLists, same.entry, taken, State.entry_setLists]
  mdEntry other otherSlot := by
    rw [relinked, State.slot_setLists, same.mdEntry, taken, State.slot_setLists]
  ppa_lt other otherSlot below := by
    rw [relinked, State.slot_setLists]
    exact same.ppa_lt other otherSlot (by rwa [taken, State.slot_setLists])

section

variable {done : State} (same : SameCache (taken state ch rest) done)
include same

theorem ppa_unmapped (other otherOff : Nat) :
    ((unmapped done ch off slot).entry other otherOff).ppa =
    if other = ch ∧ otherOff = off then (done.slot ch slot).ppa
    else (state.entry other otherOff).ppa := by
  rw [entry_unmapped, same.entry, same.entry, taken, State.entry_setLists, State.entry_setLists]
  split <;> rfl

theorem ppa_lt_of_taken {other otherSlot : Nat}
    (below : (state.slot other otherSlot).ppa < mapAddrFlag) :
    (done.slot other otherSlot).ppa < mapAddrFlag := by
  apply same.ppa_lt
  rwa [taken, State.slot_setLists]

/-- A page that is persisted or clean leaves the cache. -/
theorem cachesOk_unmapped (ok : CachesOk conf state) (chLt : ch < conf.nch)
    (head : (state.lists ch).mbuHead = slot :: rest)
    (slotEntry : (state.slot ch slot).mdEntry = some off) :
    CachesOk conf (unmapped done ch off slot) := by
  have slotMem : slot ∈ (state.lists ch).mbuHead := by rw [head]; exact List.mem_cons_self
  have slotLt : slot < conf.cap := ((ok ch chLt).mem slot).mp (List.mem_append_right _ slotMem)
  have addresses : ∀ other otherSlot, (state.slot other otherSlot).ppa < mapAddrFlag →
      ((unmapped done ch off slot).slot other otherSlot).ppa < mapAddrFlag := by
    intro other otherSlot below
    rw [slot_unmapped]
    split
    · exact Nat.two_pow_pos 63
    · exact ppa_lt_of_taken same below
  have mdEntry : ∀ other otherSlot, ¬ (other = ch ∧ otherSlot = slot) →
      ((unmapped done ch off slot).slot other otherSlot).mdEntry =
        (state.slot other otherSlot).mdEntry := by
    intro other otherSlot differ
    rw [slot_unmapped, if_neg differ, same.mdEntry, taken, State.slot_setLists]
  intro other otherLt
  by_cases eqCh : other = ch
  · subst eqCh
    apply (ok other otherLt).evict head slotEntry
      (ppa_lt_of_taken same ((ok other chLt).ppa_lt slot slotLt))
    · rw [lists_unmapped, if_pos rfl, same.lists, taken, State.lists_setLists, if_pos rfl]
      rfl
    · intro otherOff
      simpa using ppa_unmapped same other otherOff
    · intro otherSlot differ
      exact mdEntry other otherSlot fun both => differ both.2
    · exact addresses other
  · apply (ok other otherLt).congr
    · rw [lists_unmapped, if_neg eqCh, same.lists, taken, State.lists_setLists, if_neg eqCh]
    · intro otherOff
      rw [ppa_unmapped same, if_neg fun both => eqCh both.1]
    · intro otherSlot _
      exact mdEntry other otherSlot fun both => eqCh both.1
    · exact addresses other

end

/-- `map_evict_pg_cache` keeps the invariant, and no page gets into the cache. -/
theorem mapEvictPgCache_ok (clear : ReservedClear env) (ok : CachesOk env.conf state)
    (chLt : ch < env.conf.nch) (isCheckpoint : Bool) :
    CachesOk env.conf (mapEvictPgCache env state ch isCheckpoint).1 ∧
      ∀ other off, addrFlag (state.entry other off).ppa = false →
        addrFlag ((mapEvictPgCache env state ch isCheckpoint).1.entry other off).ppa = false := by
  cases head : (state.lists ch).mbuHead with
  | nil => simpa only [mapEvictPgCache, head] using ⟨ok, fun _ _ flag => flag⟩
  | cons slot rest =>
      have slotMem : slot ∈ (state.lists ch).mbuHead := by rw [head]; exact List.mem_cons_self
      have slotLt : slot < env.conf.cap :=
        ((ok ch chLt).mem slot).mp (List.mem_append_right _ slotMem)
      obtain ⟨off, _, slotEntry, _⟩ := (ok ch chLt).used slot slotMem
      have takenEntry : ((taken state ch rest).slot ch slot).mdEntry = some off := by
        rw [taken, State.slot_setLists, slotEntry]
      rcases mapEvictProcess_cases clear isCheckpoint takenEntry with
        ⟨done, processed, same, _⟩ | ⟨tried, processed, same, _⟩
      · have doneEntry : (done.slot ch slot).mdEntry = some off := by
          rw [same.mdEntry, takenEntry]
        have result : mapEvictPgCache env state ch isCheckpoint =
            (unmapped done ch off slot, 0) := by
          rw [taken] at processed
          simp only [mapEvictPgCache, head, processed, doneEntry]
          rfl
        rw [result]
        constructor
        · exact cachesOk_unmapped same ok chLt head slotEntry
        · intro other otherOff flag
          rw [ppa_unmapped same]
          split
          · exact addrFlag_eq_false.mpr (ppa_lt_of_taken same ((ok ch chLt).ppa_lt slot slotLt))
          · exact flag
      · have result : (mapEvictPgCache env state ch isCheckpoint).1 =
            relinked tried ch slot := by
          rw [taken] at processed
          simp only [mapEvictPgCache, head, processed]
        have restored := taken_relinked (ok ch chLt) head same
        rw [result]
        constructor
        · exact restored.cachesOk ok
        · intro other otherOff flag
          rwa [restored.entry]

/-! ## Loading a page -/

theorem CacheOk.load (ok : CacheOk conf state ch) (free : (state.lists ch).mbfHead = slot :: rest)
    (offLt : off < conf.entries) (uncached : addrFlag (state.entry ch off).ppa = false)
    (lists : state'.lists ch =
      { mbfHead := rest, mbuHead := (state.lists ch).mbuHead ++ [slot]
        nfree := (state.lists ch).nfree - 1, nused := (state.lists ch).nused + 1 })
    (entry : ∀ other, (state'.entry ch other).ppa =
      if other = off then mapAddrFlag + slot else (state.entry ch other).ppa)
    (slotEntry : (state'.slot ch slot).mdEntry = some off)
    (mdEntry : ∀ other, other ≠ slot →
      (state'.slot ch other).mdEntry = (state.slot ch other).mdEntry)
    (addresses : ∀ other, (state.slot ch other).ppa < mapAddrFlag →
      (state'.slot ch other).ppa < mapAddrFlag) :
    CacheOk conf state' ch := by
  have nodup := ok.nodup
  have nfree := ok.nfree
  have member := ok.mem
  rw [free] at nodup nfree
  have fresh : slot ∉ rest ++ (state.lists ch).mbuHead := (List.nodup_cons.mp nodup).1
  have differs : ∀ other ∈ (state.lists ch).mbuHead, other ≠ slot := by
    rintro other mem rfl
    exact fresh (List.mem_append_right _ mem)
  have perm : (rest ++ ((state.lists ch).mbuHead ++ [slot])).Perm
      (slot :: (rest ++ (state.lists ch).mbuHead)) := by
    rw [← List.append_assoc]
    exact List.perm_append_singleton slot _
  refine ⟨?nodup, ?mem, ?nfree, ?nused, ?used, ?flagged,
    fun other below => addresses other (ok.ppa_lt other below)⟩ <;>
    simp only [lists]
  case nodup => exact perm.nodup_iff.mpr nodup
  case mem =>
    intro other
    rw [perm.mem_iff, ← member other, free, List.cons_append]
  case nfree => rw [nfree, List.length_cons, Nat.add_sub_cancel]
  case nused => rw [ok.nused, List.length_append, List.length_singleton]
  case used =>
    intro other mem
    rcases List.mem_append.mp mem with used | last
    · obtain ⟨found, foundLt, foundEntry, eq⟩ := ok.used other used
      refine ⟨found, foundLt, by rw [mdEntry other (differs other used), foundEntry], ?_⟩
      rw [entry, if_neg, eq]
      rintro rfl
      rw [eq, addrFlag_add] at uncached
      contradiction
    · obtain rfl : other = slot := List.mem_singleton.mp last
      exact ⟨off, offLt, slotEntry, by rw [entry, if_pos rfl]⟩
  case flagged =>
    intro other otherLt flag
    by_cases same : other = off
    · subst same
      exact ⟨slot, List.mem_append_right _ (List.mem_singleton.mpr rfl), slotEntry,
        by rw [entry, if_pos rfl]⟩
    · rw [entry, if_neg same] at flag
      obtain ⟨found, mem, foundEntry, eq⟩ := ok.flagged other otherLt flag
      refine ⟨found, List.mem_append_left _ mem, ?_, by rw [entry, if_neg same, eq]⟩
      rw [mdEntry found (differs found mem), foundEntry]

/-- The first free entry is taken for a page. -/
def claimed (state : State) (ch off slot : Nat) (rest : List Nat) : State :=
  (state.setLists ch fun lists => { lists with mbfHead := rest, nfree := lists.nfree - 1 }).setSlot
    ch slot fun entry => { entry with mdEntry := some off }

section

variable {read : State}

theorem slot_claimed (other otherSlot : Nat) :
    ((claimed state ch off slot rest).slot other otherSlot).ppa = (state.slot other otherSlot).ppa ∧
      ((claimed state ch off slot rest).slot other otherSlot).mdEntry =
        if other = ch ∧ otherSlot = slot then some off
        else (state.slot other otherSlot).mdEntry := by
  rw [claimed, State.slot_setSlot, State.slot_setLists, State.slot_setLists]
  split
  · rename_i same
    rw [same.1, same.2]
    exact ⟨rfl, rfl⟩
  · exact ⟨rfl, rfl⟩

/-- The page has been read into the entry. -/
theorem cachesOk_loaded (same : SameCache (claimed state ch off slot rest) read)
    (ok : CachesOk conf state) (chLt : ch < conf.nch)
    (free : (state.lists ch).mbfHead = slot :: rest) (offLt : off < conf.entries)
    (uncached : addrFlag (state.entry ch off).ppa = false) :
    CachesOk conf ((read.setPpa ch off (mapAddrFlag + slot)).setLists ch fun lists =>
      { lists with mbuHead := lists.mbuHead ++ [slot], nused := lists.nused + 1 }) := by
  have entry : ∀ other otherOff, read.entry other otherOff = state.entry other otherOff := by
    intro other otherOff
    rw [same.entry, claimed, State.entry_setSlot, State.entry_setLists]
  have lists : ∀ other, read.lists other = if other = ch then
      { state.lists ch with mbfHead := rest, nfree := (state.lists ch).nfree - 1 }
      else state.lists other := by
    intro other
    rw [same.lists, claimed, State.lists_setSlot, State.lists_setLists]
  have mdEntry : ∀ other otherSlot, (read.slot other otherSlot).mdEntry =
      if other = ch ∧ otherSlot = slot then some off
      else (state.slot other otherSlot).mdEntry := by
    intro other otherSlot
    rw [same.mdEntry, (slot_claimed other otherSlot).2]
  have addresses : ∀ other otherSlot, (state.slot other otherSlot).ppa < mapAddrFlag →
      (read.slot other otherSlot).ppa < mapAddrFlag := by
    intro other otherSlot below
    apply same.ppa_lt
    rwa [(slot_claimed other otherSlot).1]
  intro other otherLt
  by_cases eqCh : other = ch
  · subst eqCh
    apply (ok other otherLt).load free offLt uncached
    · rw [State.lists_setLists, if_pos rfl, State.lists_setPpa, lists, if_pos rfl]
    · intro otherOff
      rw [State.entry_setLists, State.entry_setPpa, entry, entry]
      simp only [true_and]
      split <;> rfl
    · rw [State.slot_setLists, State.slot_setPpa, mdEntry, if_pos ⟨rfl, rfl⟩]
    · intro otherSlot differ
      rw [State.slot_setLists, State.slot_setPpa, mdEntry, if_neg fun both => differ both.2]
    · intro otherSlot below
      rw [State.slot_setLists, State.slot_setPpa]
      exact addresses other otherSlot below
  · apply (ok other otherLt).congr
    · rw [State.lists_setLists, if_neg eqCh, State.lists_setPpa, lists, if_neg eqCh]
    · intro otherOff
      rw [State.entry_setLists, State.entry_setPpa, if_neg fun both => eqCh both.1, entry]
    · intro otherSlot _
      rw [State.slot_setLists, State.slot_setPpa, mdEntry, if_neg fun both => eqCh both.1]
    · intro otherSlot below
      rw [State.slot_setLists, State.slot_setPpa]
      exact addresses other otherSlot below

/-- The page could not be read: the entry is free again. -/
theorem cachesOk_rolledBack (ok : CachesOk conf state) (chLt : ch < conf.nch)
    (free : (state.lists ch).mbfHead = slot :: rest) :
    CachesOk conf (((claimed state ch off slot rest).countRead.setSlot ch slot fun entry =>
      { entry with mdEntry := none, ppa := 0 }).setLists ch fun lists =>
        { lists with mbfHead := slot :: lists.mbfHead, nfree := lists.nfree + 1 }) := by
  intro other otherLt
  have nfree := (ok ch chLt).nfree
  rw [free, List.length_cons] at nfree
  apply (ok other otherLt).congr
  · rw [State.lists_setLists, State.lists_setSlot, State.lists_setSlot, State.lists_countRead,
      State.lists_countRead, claimed, State.lists_setSlot, State.lists_setSlot,
      State.lists_setLists, State.lists_setLists]
    split
    · rename_i eq
      simp only [eq, if_true, nfree, Nat.add_sub_cancel, ← free]
      rw [← nfree]
    · rfl
  · intro otherOff
    rw [State.entry_setLists, State.entry_setSlot, State.entry_countRead, claimed,
      State.entry_setSlot, State.entry_setLists]
  · intro otherSlot mem
    rw [State.slot_setLists, State.slot_setSlot, if_neg, State.slot_countRead,
      (slot_claimed other otherSlot).2, if_neg]
    all_goals
      rintro ⟨rfl, rfl⟩
      have nodup := (ok other otherLt).nodup
      rw [free] at nodup
      exact (List.nodup_cons.mp nodup).1 (List.mem_append_right _ mem)
  · intro otherSlot below
    rw [State.slot_setLists, State.slot_setSlot]
    split
    · exact Nat.two_pow_pos 63
    · rwa [State.slot_countRead, (slot_claimed other otherSlot).1]

end

/-- The second part of `map_load_pg_cache` keeps the invariant. -/
theorem loadFree_ok (ok : CachesOk env.conf state) (chLt : ch < env.conf.nch)
    (offLt : off < env.conf.entries) (uncached : addrFlag (state.entry ch off).ppa = false)
    (firstLba : Nat) : CachesOk env.conf (loadFree env state ch off firstLba).1 := by
  cases free : (state.lists ch).mbfHead with
  | nil => simpa only [loadFree, free] using ok
  | cons slot rest =>
      have slotMem : slot ∈ (state.lists ch).mbfHead := by rw [free]; exact List.mem_cons_self
      have unflagged := addrFlag_eq_false.mp uncached
      simp only [loadFree, free, State.entry_setSlot, State.entry_setLists]
      by_cases untouched : (state.entry ch off).ppa = 0
      · rw [if_pos untouched]
        have same : SameCache (claimed state ch off slot rest)
            ((claimed state ch off slot rest).setSlot ch slot fun entry =>
              { entry with buf := firstTouch firstLba, dirty := true }) :=
          SameCache.setSlot _ rfl id
        exact cachesOk_loaded same ok chLt free offLt uncached
      · rw [if_neg untouched]
        cases readOk : env.readOk state.reads with
        | true =>
            have counted : SameCache (claimed state ch off slot rest)
                (claimed state ch off slot rest).countRead :=
              ⟨fun _ => rfl, fun _ _ => rfl, fun _ _ => rfl, fun _ _ below => below⟩
            have same : SameCache (claimed state ch off slot rest)
                ((claimed state ch off slot rest).countRead.setSlot ch slot fun entry =>
                  { entry with buf := state.nvm (state.entry ch off).ppa
                               ppa := (state.entry ch off).ppa }) :=
              counted.trans (SameCache.setSlot _ rfl fun _ => unflagged)
            rw [if_pos (by exact readOk)]
            exact cachesOk_loaded same ok chLt free offLt uncached
        | false =>
            have failed : ¬ env.readOk state.reads = true := by
              rw [readOk]
              exact Bool.false_ne_true
            rw [if_neg (by exact failed)]
            exact cachesOk_rolledBack ok chLt free

/-- `map_load_pg_cache` keeps the invariant. -/
theorem mapLoadPgCache_ok (clear : ReservedClear env) (ok : CachesOk env.conf state)
    (chLt : ch < env.conf.nch) (offLt : off < env.conf.entries)
    (uncached : addrFlag (state.entry ch off).ppa = false) (firstLba : Nat) :
    CachesOk env.conf (mapLoadPgCache env state ch off firstLba).1 := by
  cases free : (state.lists ch).mbfHead with
  | cons slot rest =>
      simpa only [mapLoadPgCache, free] using loadFree_ok ok chLt offLt uncached firstLba
  | nil =>
      have evicted := mapEvictPgCache_ok clear ok chLt false
      simp only [mapLoadPgCache, free]
      generalize mapEvictPgCache env state ch false = result at evicted
      obtain ⟨after, ret⟩ := result
      split
      · rename_i eq
        obtain ⟨rfl, rfl⟩ := Prod.mk.inj eq
        exact loadFree_ok evicted.1 chLt offLt (evicted.2 ch off uncached) firstLba
      · rename_i eq
        obtain ⟨rfl, rfl⟩ := Prod.mk.inj eq
        exact evicted.1

end OxCtrl.GlMap
