import OxCtrl.GlMap.SmallTable
import OxCtrl.GlMap.Lists
import OxCtrl.Lib.System

/-!
# Runs of the mapping cache

Loads, upserts, relocations of mapping pages, evictions and the steps of a checkpoint come
in any order.  A checkpoint that persists an entry in place calls `map_evict_process` on an
entry that is still on the used list, and the entry is linked twice if it cannot be
written.  `cache_ok` therefore asks that a dirty entry that is persisted in place is
written by one of the attempts.
-/

namespace OxCtrl.GlMap

open Lib

variable {env : Env} {conf : Conf} {state : State} {ch off slot : Nat}

/-! ## Interface -/

/-- An entry becomes the hottest one. -/
theorem cachesOk_touched (ok : CachesOk conf state) (chLt : ch < conf.nch)
    (mem : slot ∈ (state.lists ch).mbuHead) : CachesOk conf (touched state ch slot) := by
  have perm : (state.lists ch).mbuHead.Perm ((state.lists ch).mbuHead.erase slot ++ [slot]) :=
    (List.perm_cons_erase mem).trans (List.perm_append_singleton slot _).symm
  intro other otherLt
  by_cases same : other = ch
  · subst same
    constructor <;>
      simp only [touched, State.lists_setLists, State.slot_setLists, State.entry_setLists, if_true]
    case nodup => exact (perm.append_left _).nodup_iff.mp (ok other chLt).nodup
    case mem =>
      intro otherSlot
      rw [← (ok other chLt).mem otherSlot]
      exact (perm.append_left _).symm.mem_iff
    case nfree => exact (ok other chLt).nfree
    case nused =>
      rw [← perm.length_eq]
      exact (ok other chLt).nused
    case used =>
      intro otherSlot otherMem
      exact (ok other chLt).used otherSlot (perm.mem_iff.mpr otherMem)
    case flagged =>
      intro otherOff otherLt flag
      obtain ⟨found, foundMem, both⟩ := (ok other chLt).flagged otherOff otherLt flag
      exact ⟨found, perm.mem_iff.mp foundMem, both⟩
    case ppa_lt => exact (ok other chLt).ppa_lt
  · apply (ok other otherLt).congr
    · rw [touched, State.lists_setLists, if_neg same]
    · simp [touched]
    · simp [touched]
    · simp [touched]

/-- `map_get_cache_entry` keeps the invariant. -/
theorem mapGetCacheEntry_ok (clear : ReservedClear env) (ok : CachesOk env.conf state) (lba : Nat) :
    CachesOk env.conf (mapGetCacheEntry env state lba).1 := by
  have chLt : chMap env.conf lba < env.conf.nch := chMap_lt env.conf lba
  by_cases outside : env.conf.entries ≤ pgOff env.conf lba
  · simpa only [mapGetCacheEntry, if_pos outside] using ok
  · have offLt : pgOff env.conf lba < env.conf.entries := Nat.lt_of_not_le outside
    cases flag : addrFlag (state.entry (chMap env.conf lba) (pgOff env.conf lba)).ppa with
    | false =>
        have loaded := mapLoadPgCache_ok clear ok chLt offLt flag
          (lba / env.conf.entPerPg * env.conf.entPerPg)
        simp only [mapGetCacheEntry, if_neg outside, flag, Bool.false_eq_true, not_false_eq_true,
          if_true]
        generalize mapLoadPgCache env state (chMap env.conf lba) (pgOff env.conf lba)
          (lba / env.conf.entPerPg * env.conf.entPerPg) = result at loaded
        obtain ⟨after, ret⟩ := result
        split <;>
        · rename_i eq
          obtain ⟨rfl, rfl⟩ := Prod.mk.inj eq
          exact loaded
    | true =>
        obtain ⟨slot, mem, _, eq⟩ := (ok _ chLt).flagged _ offLt flag
        have below := ((ok _ chLt).mem slot).mp (List.mem_append_right _ mem)
        have pointer := addrPtr_add (below.trans env.conf.cap_lt)
        have result : (mapGetCacheEntry env state lba).1 =
            touched state (chMap env.conf lba) slot := by
          simp [mapGetCacheEntry, outside, eq, addrFlag_add, pointer, touched]
        rw [result]
        exact cachesOk_touched ok chLt mem

/-- `map_upsert_md` keeps the invariant. -/
theorem mapUpsertMd_ok {newPpa : Nat} (ok : CachesOk env.conf state) (index oldPpa : Nat)
    (newLt : newPpa < mapAddrFlag) :
    CachesOk env.conf (mapUpsertMd env state index newPpa oldPpa).1 := by
  simp only [mapUpsertMd]
  split
  · exact ok
  · split
    · exact ok
    · apply (SameCache.invalidate _ oldPpa).cachesOk
      split
      · rename_i unflagged
        have uncached : addrFlag
            (state.entry (index % env.conf.nch) (index / env.conf.nch % 2 ^ 32)).ppa = false := by
          simpa using unflagged
        split
        · exact ok
        · -- the address of a page that is not cached
          have marked := (SameCache.mark state (index % env.conf.nch)
            (markIndex env.conf index)).cachesOk ok
          intro ch chLt
          generalize eq : oxbChMapMark state (index % env.conf.nch)
            (markIndex env.conf index) = before at marked
          have still : addrFlag
              (before.entry (index % env.conf.nch) (index / env.conf.nch % 2 ^ 32)).ppa =
                false := by
            rw [← eq, entry_oxbChMapMark]
            exact uncached
          exact (marked ch chLt).setPpa still newLt
      · split
        · exact ok
        · exact (SameCache.setSlot (fun entry => { entry with ppa := newPpa }) rfl
            fun _ => newLt).cachesOk ok

/-- `map_upsert` keeps the invariant. -/
theorem mapUpsert_ok (clear : ReservedClear env) (ok : CachesOk env.conf state)
    (lba ppa oldCaller : Nat) : CachesOk env.conf (mapUpsert env state lba ppa oldCaller).1 := by
  have found := mapGetCacheEntry_ok clear ok lba
  simp only [mapUpsert]
  generalize mapGetCacheEntry env state lba = result at found
  obtain ⟨after, entry⟩ := result
  cases entry with
  | none => exact found
  | some slot =>
      dsimp only
      split
      · exact found
      · split
        · exact found
        · exact (SameCache.setSlot (fun entry => { entry with
            buf := Function.update entry.buf (entOff env.conf lba)
              { (after.slot (chMap env.conf lba) slot).buf (entOff env.conf lba) with ppa := ppa }
            dirty := true }) rfl id).cachesOk found

/-- A checkpoint persists a used entry in place. -/
theorem persist_ok (clear : ReservedClear env) (ok : CachesOk env.conf state)
    (chLt : ch < env.conf.nch) (mem : slot ∈ (state.lists ch).mbuHead)
    (written : (state.slot ch slot).dirty = true → Writable env state appMdIoRetry) :
    CachesOk env.conf (mapEvictProcess env state ch slot true).1 := by
  obtain ⟨off, _, slotEntry, _⟩ := (ok ch chLt).used slot mem
  rcases mapEvictProcess_cases clear true slotEntry with
    ⟨done, processed, same, _⟩ | ⟨tried, _, _, dirty, failed⟩
  · rw [processed]
    exact same.cachesOk ok
  · exact absurd (written dirty) failed

/-- An entry that is persisted in place and could not be written is linked twice. -/
theorem persist_fails (clear : ReservedClear env) (ok : CachesOk env.conf state)
    (chLt : ch < env.conf.nch) (mem : slot ∈ (state.lists ch).mbuHead)
    (dirty : (state.slot ch slot).dirty = true) (failed : ¬ Writable env state appMdIoRetry) :
    ((mapEvictProcess env state ch slot true).1.lists ch).mbuHead =
        slot :: (state.lists ch).mbuHead ∧
      ¬ CacheRep env.conf (mapEvictProcess env state ch slot true).1 ch := by
  obtain ⟨off, _, slotEntry, _⟩ := (ok ch chLt).used slot mem
  rcases mapEvictProcess_cases clear true slotEntry with
    ⟨_, _, _, writable⟩ | ⟨tried, processed, same, _, _⟩
  · exact absurd (writable dirty) failed
  · have twice : ((mapEvictProcess env state ch slot true).1.lists ch).mbuHead =
        slot :: (state.lists ch).mbuHead := by
      rw [processed, relinked, State.lists_setLists, if_pos rfl, same.lists]
    refine ⟨twice, fun rep => ?_⟩
    have once := rep.used_once
    rw [twice] at once
    exact (List.nodup_cons.mp once).1 mem

/-! ## Runs -/

/-- Operations on the caches.  A checkpoint copies the small table of a channel, and then
evicts or persists used entries one by one. -/
inductive CacheOp where
  | load (lba : Nat)
  | upsert (lba ppa oldCaller : Nat)
  | upsertMd (index newPpa oldPpa : Nat)
  | evict (ch : Nat) (isCheckpoint : Bool)
  | copyImmut (ch : Nat)
  | persist (ch slot : Nat)

/-- The caches as a system. -/
def cacheSystem (env : Env) : System State CacheOp Unit where
  step
    | state, .load lba => ((mapGetCacheEntry env state lba).1, ())
    | state, .upsert lba ppa oldCaller => ((mapUpsert env state lba ppa oldCaller).1, ())
    | state, .upsertMd index newPpa oldPpa => ((mapUpsertMd env state index newPpa oldPpa).1, ())
    | state, .evict ch isCheckpoint => ((mapEvictPgCache env state ch isCheckpoint).1, ())
    | state, .copyImmut ch => (copyImmut env.conf state ch, ())
    | state, .persist ch slot => ((mapEvictProcess env state ch slot true).1, ())

/-- The channels exist, a relocated page has an address, and a checkpoint takes the entries
it persists from the used list. -/
def CacheOp.Enabled (conf : Conf) (state : State) : CacheOp → Prop
  | .load _ => True
  | .upsert _ _ _ => True
  | .upsertMd _ newPpa _ => newPpa < mapAddrFlag
  | .evict ch _ => ch < conf.nch
  | .copyImmut ch => ch < conf.nch
  | .persist ch slot => ch < conf.nch ∧ slot ∈ (state.lists ch).mbuHead

/-- A dirty entry that is persisted in place is written by one of the attempts. -/
def CacheOp.Written (env : Env) (state : State) : CacheOp → Prop
  | .persist ch slot => (state.slot ch slot).dirty = true → Writable env state appMdIoRetry
  | _ => True

/-- State of the caches after `map_init`: all entries are free and blank, and no
small-table entry has the flag. -/
structure Started (conf : Conf) (state : State) : Prop where
  lists : ∀ ch < conf.nch,
    state.lists ch = { mbfHead := (List.range conf.cap).reverse, nfree := conf.cap }
  blank : ∀ ch < conf.nch, ∀ slot < conf.cap, (state.slot ch slot).ppa = 0
  unflagged : ∀ ch < conf.nch, ∀ off < conf.entries, addrFlag (state.entry ch off).ppa = false

theorem mapInit_started (env : Env) : Started env.conf (mapInit env) where
  lists _ _ := rfl
  blank _ _ _ _ := rfl
  unflagged _ _ _ _ := rfl

theorem Started.cachesOk (started : Started conf state) : CachesOk conf state := by
  intro ch chLt
  have lists := started.lists ch chLt
  refine ⟨?nodup, ?mem, ?nfree, ?nused, ?used, ?flagged, ?ppa⟩
  case nodup =>
    rw [lists, List.append_nil]
    exact List.nodup_reverse.mpr List.nodup_range
  case mem =>
    intro slot
    rw [lists, List.append_nil, List.mem_reverse, List.mem_range]
  case nfree => rw [lists, List.length_reverse, List.length_range]
  case nused => rw [lists, List.length_nil]
  case used =>
    intro slot mem
    rw [lists] at mem
    exact absurd mem List.not_mem_nil
  case flagged =>
    intro off offLt flag
    rw [started.unflagged ch chLt off offLt] at flag
    contradiction
  case ppa =>
    intro slot below
    rw [started.blank ch chLt slot below]
    exact Nat.two_pow_pos 63

/-- Every operation keeps the invariant. -/
theorem cacheSystem_step (clear : ReservedClear env) (op : CacheOp)
    (enabled : op.Enabled env.conf state) (written : op.Written env state)
    (ok : CachesOk env.conf state) : CachesOk env.conf ((cacheSystem env).step state op).1 := by
  cases op with
  | load lba => exact mapGetCacheEntry_ok clear ok lba
  | upsert lba ppa oldCaller => exact mapUpsert_ok clear ok lba ppa oldCaller
  | upsertMd index newPpa oldPpa => exact mapUpsertMd_ok ok index oldPpa enabled
  | evict ch isCheckpoint => exact (mapEvictPgCache_ok clear ok enabled isCheckpoint).1
  | copyImmut ch => exact (SameCache.copyImmut state ch).cachesOk ok
  | persist ch slot => exact persist_ok clear ok enabled.1 enabled.2 written

/-- In a run from `map_init` in which every dirty entry that is persisted in place is
written, the lists, the counters, the flags and the back pointers of all caches agree. -/
theorem cache_ok (clear : ReservedClear env) (started : Started env.conf state)
    {ops : List CacheOp} (enabled : (cacheSystem env).Allowed (CacheOp.Enabled env.conf) state ops)
    (written : (cacheSystem env).Allowed (CacheOp.Written env) state ops) :
    ∀ ch < env.conf.nch, CacheRep env.conf ((cacheSystem env).run state ops) ch := by
  have ok : CachesOk env.conf ((cacheSystem env).run state ops) := by
    apply (cacheSystem env).run_invariant _ (CachesOk env.conf) _ started.cachesOk
      (enabled.and written)
    intro before op allowed
    exact cacheSystem_step clear op allowed.1 allowed.2
  intro ch chLt
  exact (ok ch chLt).rep

theorem two_lt_cap : 2 < 2 ^ 63 := by
  decide

/-- One channel, two mapping pages of two entries, two cache entries. -/
def Conf.twoEntries : Conf :=
  { Conf.small with
    cap := 2
    cap_pos := Nat.two_pos
    cap_lt := two_lt_cap }

/-- The first attempt to write a page fails, and so does the first read. -/
def faulty : Env where
  conf := .twoEntries
  newFn state := if state.writes = 0 then none else some 5
  readOk n := n ≠ 0
  rounds := 0

theorem faulty_clear : ReservedClear faulty := by
  intro state addr new
  simp only [faulty] at new
  split at new
  · contradiction
  · obtain rfl := Option.some.inj new
    decide

/-- A page is persisted at the second attempt and evicted, and loaded again at the second
attempt. -/
theorem cache_ok_faulty :
    CacheRep faulty.conf ((cacheSystem faulty).run (mapInit faulty)
      [.load 0, .persist 0 1, .evict 0 false, .load 0, .load 0, .upsertMd 0 7 5]) 0 := by
  refine cache_ok faulty_clear (mapInit_started faulty) ?_ ?_ 0 Nat.one_pos
  · refine ⟨trivial, ⟨Nat.one_pos, by decide⟩, Nat.one_pos, trivial, trivial, ?_, trivial⟩
    exact (by decide : (7 : Nat) < 2 ^ 63)
  · exact ⟨trivial, fun _ => ⟨1, by decide, by decide⟩, trivial, trivial, trivial, trivial, trivial⟩

/-- No page can be written. -/
def broken : Env where
  conf := .twoEntries
  newFn _ := none
  readOk _ := true
  rounds := 1

/-- A page is loaded, and the checkpoint that persists it in place fails to write it: the
entry is linked twice in the used list, and the counters add up to three for two entries. -/
theorem persist_links_twice :
    (cacheSystem broken).Allowed (CacheOp.Enabled broken.conf) (mapInit broken)
        [.load 0, .copyImmut 0, .persist 0 1] ∧
      ((cacheSystem broken).run (mapInit broken)
        [.load 0, .copyImmut 0, .persist 0 1]).lists 0 = ⟨[0], [1, 1], 1, 2⟩ ∧
      (mapFlushAllCaches broken ((cacheSystem broken).run (mapInit broken) [.load 0])).lists 0 =
        ⟨[0], [1, 1], 1, 2⟩ ∧
      ¬ CacheRep broken.conf ((cacheSystem broken).run (mapInit broken)
        [.load 0, .copyImmut 0, .persist 0 1]) 0 := by
  have lists : ((cacheSystem broken).run (mapInit broken)
      [.load 0, .copyImmut 0, .persist 0 1]).lists 0 = ⟨[0], [1, 1], 1, 2⟩ := by
    rfl
  refine ⟨⟨trivial, Nat.one_pos, ⟨Nat.one_pos, by decide⟩, trivial⟩, lists, rfl, ?_⟩
  intro rep
  have once := rep.used_once
  rw [lists] at once
  exact absurd once (by decide)

/-! ## A checkpoint is a run -/

/-- The loop of `map_flush_ch_cache` evicts and persists used entries. -/
theorem flushLoop_run (chLt : ch < env.conf.nch) (full : Bool) (rounds n : Nat) (ent : Option Nat)
    (state : State) : ∃ ops, (cacheSystem env).Allowed (CacheOp.Enabled env.conf) state ops ∧
      (cacheSystem env).run state ops = flushLoop env ch full rounds n ent state := by
  induction rounds generalizing n ent state with
  | zero => exact ⟨[], trivial, by rw [flushLoop]; rfl⟩
  | succ rounds ih =>
      cases n with
      | zero => exact ⟨[], trivial, by rw [flushLoop]; rfl⟩
      | succ n =>
          rw [flushLoop]
          split
          · have first : CacheOp.Enabled env.conf state (.evict ch true) := chLt
            have step : ((cacheSystem env).step state (.evict ch true)).1 =
                (mapEvictPgCache env state ch true).1 := rfl
            generalize mapEvictPgCache env state ch true = result at step
            obtain ⟨after, ret⟩ := result
            dsimp only at step ⊢
            split <;>
            · rename_i eq
              obtain ⟨rfl, rfl⟩ := Prod.mk.inj eq
              obtain ⟨ops, allowed, run⟩ := ih _ _ _
              exact ⟨.evict ch true :: ops, ⟨first, by rwa [step]⟩,
                by rw [System.run_cons, step, run]⟩
          · split
            · exact ih (n + 1) none state
            · rename_i slot next
              have first : CacheOp.Enabled env.conf state (.persist ch slot) :=
                ⟨chLt, mem_of_nextUsed next⟩
              have step : ((cacheSystem env).step state (.persist ch slot)).1 =
                  (mapEvictProcess env state ch slot true).1 := rfl
              generalize mapEvictProcess env state ch slot true = result at step
              obtain ⟨after, ret⟩ := result
              dsimp only at step ⊢
              split <;>
              · rename_i eq
                obtain ⟨rfl, rfl⟩ := Prod.mk.inj eq
                obtain ⟨ops, allowed, run⟩ := ih _ _ _
                exact ⟨.persist ch slot :: ops, ⟨first, by rwa [step]⟩,
                  by rw [System.run_cons, step, run]⟩

theorem drainLoop_run (chLt : ch < env.conf.nch) (rounds : Nat) (state : State) :
    ∃ ops, (cacheSystem env).Allowed (CacheOp.Enabled env.conf) state ops ∧
      (cacheSystem env).run state ops = drainLoop env ch rounds state := by
  induction rounds generalizing state with
  | zero => exact ⟨[], trivial, rfl⟩
  | succ rounds ih =>
      rw [drainLoop]
      split
      · exact ⟨[], trivial, rfl⟩
      · obtain ⟨ops, allowed, run⟩ := ih (mapEvictPgCache env state ch true).1
        exact ⟨.evict ch true :: ops, ⟨chLt, allowed⟩, run⟩

/-- `map_flush_ch_cache` is a run of evictions and of entries that are persisted in place. -/
theorem mapFlushChCache_run (chLt : ch < env.conf.nch) (full : Bool) (state : State) :
    ∃ ops, (cacheSystem env).Allowed (CacheOp.Enabled env.conf) state ops ∧
      (cacheSystem env).run state ops = mapFlushChCache env ch full state := by
  let copied := copyImmut env.conf state ch
  obtain ⟨flushed, flushedAllowed, flushedRun⟩ :=
    flushLoop_run chLt full env.rounds (copied.lists ch).nused none copied
  cases full with
  | false => exact ⟨.copyImmut ch :: flushed, ⟨chLt, flushedAllowed⟩, flushedRun⟩
  | true =>
      obtain ⟨drained, drainedAllowed, drainedRun⟩ :=
        drainLoop_run chLt env.rounds ((cacheSystem env).run copied flushed)
      refine ⟨.copyImmut ch :: (flushed ++ drained), ⟨chLt, ?_⟩, ?_⟩
      · exact (System.allowed_append _ _ _ _ _).mpr ⟨flushedAllowed, drainedAllowed⟩
      · rw [System.run_cons]
        calc
          (cacheSystem env).run copied (flushed ++ drained)
            = (cacheSystem env).run ((cacheSystem env).run copied flushed) drained :=
              System.run_append _ _ _ _
          _ = drainLoop env ch env.rounds ((cacheSystem env).run copied flushed) := drainedRun
          _ = mapFlushChCache env ch true state := by rw [flushedRun]; rfl

/-- `map_flush_all_caches` is a run. -/
theorem flushCaches_run {n : Nat} (le : n ≤ env.conf.nch) (state : State) :
    ∃ ops, (cacheSystem env).Allowed (CacheOp.Enabled env.conf) state ops ∧
      (cacheSystem env).run state ops = flushCaches env n state := by
  induction n generalizing state with
  | zero => exact ⟨[], trivial, rfl⟩
  | succ ch ih =>
      obtain ⟨first, firstAllowed, firstRun⟩ := mapFlushChCache_run le false state
      obtain ⟨rest, restAllowed, restRun⟩ :=
        ih (Nat.le_of_succ_le le) ((cacheSystem env).run state first)
      refine ⟨first ++ rest, (System.allowed_append _ _ _ _ _).mpr ⟨firstAllowed, restAllowed⟩, ?_⟩
      rw [System.run_append, restRun, firstRun, flushCaches]

end OxCtrl.GlMap
