import OxCtrl.GlMap.Cache

/-!
# Flush of the page cache

A checkpoint copies the small tables and persists every cached page.  It does not
change what the state represents, and afterwards the immutable small table of each
channel holds the NVM address of every page.
-/

namespace OxCtrl.GlMap

variable {env : Env} {conf : Conf} {state state' state'' : State} {ch off idx slot : Nat}
  {rest : List Nat}

/-! ## The copy -/

section

variable (conf state ch) (other otherOff : Nat)

@[simp]
theorem entry_copyImmut : (copyImmut conf state ch).entry other otherOff =
    state.entry other otherOff := by
  by_cases same : other = ch <;> simp [State.entry, copyImmut, State.setChan, same]

@[simp]
theorem slot_copyImmut : (copyImmut conf state ch).slot other idx = state.slot other idx := by
  by_cases same : other = ch <;> simp [State.slot, copyImmut, State.setChan, same]

@[simp]
theorem lists_copyImmut : (copyImmut conf state ch).lists other = state.lists other := by
  by_cases same : other = ch <;> simp [State.lists, copyImmut, State.setChan, same]

@[simp]
theorem tinyTbl_copyImmut : ((copyImmut conf state ch).chans other).md.tinyTbl =
    (state.chans other).md.tinyTbl := by
  by_cases same : other = ch <;> simp [copyImmut, State.setChan, same]

@[simp]
theorem tinyDirty_copyImmut : ((copyImmut conf state ch).chans other).md.tinyDirty =
    (state.chans other).md.tinyDirty := by
  by_cases same : other = ch <;> simp [copyImmut, State.setChan, same]

theorem immut_copyImmut : ((copyImmut conf state ch).chans other).md.immut otherOff =
    if other = ch ∧ otherOff < conf.entries then state.entry ch otherOff
    else (state.chans other).md.immut otherOff := by
  by_cases same : other = ch <;> simp [copyImmut, State.setChan, State.entry, same]

end

theorem silent_copyImmut (inv : Inv conf state) : Silent conf state (copyImmut conf state ch) := by
  refine ⟨⟨?_, ?_⟩, ?_, ?_⟩
  · exact inv.pages.congr (by simp) (by simp) fun _ _ => rfl
  · intro other otherLt
    exact (inv.lists other otherLt).congr (by simp) (by simp) (by simp)
  · intro other otherLt otherOff otherOffLt idx _
    have same : view (copyImmut conf state ch) other otherOff = view state other otherOff :=
      view_congr otherLt otherOffLt (by simp) (by simp) fun _ _ => rfl
    rw [same]
  · exact Tracked.congr (by simp) (by simp) rfl (by simp) (by simp)

/-! ## Other channels -/

/-- A step that leaves the other channels alone. -/
structure Frame (ch : Nat) (state state' : State) : Prop where
  immut : ∀ other, other ≠ ch → (state'.chans other).md.immut = (state.chans other).md.immut
  current : ∀ other, other ≠ ch → ∀ off, current state' other off = current state other off

namespace Frame

theorem refl (ch : Nat) (state : State) : Frame ch state state :=
  ⟨fun _ _ => rfl, fun _ _ _ => rfl⟩

theorem trans (first : Frame ch state state') (second : Frame ch state' state'') :
    Frame ch state state'' :=
  ⟨fun other differ => (second.immut other differ).trans (first.immut other differ),
    fun other differ off => (second.current other differ off).trans
      (first.current other differ off)⟩

end Frame

theorem Persisted.frame {setImmut : Bool}
    (persisted : Persisted env state state' ch off slot setImmut) : Frame ch state state' where
  immut other differ := by
    funext otherOff
    rw [persisted.immut, if_neg (by simp [differ])]
  current other differ otherOff := by
    rw [current, current, persisted.entry, persisted.others _ _ (by simp [differ])]

theorem frame_taken : Frame ch state (taken state ch rest) :=
  ⟨fun _ _ => by simp [taken], fun _ _ _ => by simp [current, taken]⟩

theorem frame_unmapped : Frame ch state (unmapped state ch off slot) where
  immut other _ := by simp [unmapped]
  current other differ otherOff := by
    simp only [current, entry_unmapped, slot_unmapped, differ, false_and, if_false]

theorem frame_copyImmut : Frame ch state (copyImmut conf state ch) where
  immut other differ := by
    funext otherOff
    rw [immut_copyImmut, if_neg (by simp [differ])]
  current other _ otherOff := by simp [current]

/-- A step of a flush: it is silent, and leaves the other channels alone. -/
structure Flushed (conf : Conf) (ch : Nat) (state state' : State) : Prop where
  silent : Silent conf state state'
  frame : Frame ch state state'

namespace Flushed

theorem refl (ch : Nat) (inv : Inv conf state) : Flushed conf ch state state :=
  ⟨Silent.refl inv, Frame.refl ch state⟩

theorem trans (first : Flushed conf ch state state') (second : Flushed conf ch state' state'') :
    Flushed conf ch state state'' :=
  ⟨first.silent.trans second.silent, first.frame.trans second.frame⟩

end Flushed

/-! ## The loops -/

theorem mem_of_tailqNext {slots : List Nat} {before : Nat}
    (next : tailqNext slots before = some slot) : slot ∈ slots := by
  induction slots with
  | nil => simp [tailqNext] at next
  | cons first rest ih =>
      rw [tailqNext] at next
      split at next
      · exact List.mem_cons_of_mem _ (List.mem_of_mem_head? next)
      · exact List.mem_cons_of_mem _ (ih next)

theorem mem_of_nextUsed {slots : List Nat} {ent : Option Nat}
    (next : nextUsed slots ent = some slot) : slot ∈ slots := by
  cases ent with
  | none => exact List.mem_of_mem_head? next
  | some before => exact mem_of_tailqNext next

/-- `map_evict_process` on a used entry. -/
theorem mapEvictProcess_used (media : Media env) (inv : Inv env.conf state)
    (chLt : ch < env.conf.nch) (used : slot ∈ (state.lists ch).mbuHead) (setImmut : Bool) :
    ∃ off state', Holds env.conf state ch off slot ∧
      mapEvictProcess env state ch slot setImmut = (state', 0) ∧
      Persisted env state state' ch off slot setImmut := by
  obtain ⟨off, offLt, eq⟩ := (inv.lists ch chLt).used slot used
  have holds : Holds env.conf state ch off slot := ⟨chLt, offLt, eq⟩
  obtain ⟨state', processed, persisted⟩ := mapEvictProcess_spec media inv.pages holds setImmut
  exact ⟨off, state', holds, processed, persisted⟩

/-- `map_evict_pg_cache` is a step of a flush, also when there is nothing to evict. -/
theorem mapEvictPgCache_flushed (media : Media env) (inv : Inv env.conf state)
    (chLt : ch < env.conf.nch) (isCheckpoint : Bool) :
    Flushed env.conf ch state (mapEvictPgCache env state ch isCheckpoint).1 := by
  cases used : (state.lists ch).mbuHead with
  | nil => simpa [mapEvictPgCache, used] using Flushed.refl ch inv
  | cons slot rest =>
      obtain ⟨off, done, holds, persisted, eq⟩ :=
        mapEvictPgCache_eq media inv chLt used isCheckpoint
      rw [eq]
      exact ⟨persisted.silent_unmapped inv used holds,
        (frame_taken.trans persisted.frame).trans frame_unmapped⟩

theorem flushLoop_flushed (media : Media env) (chLt : ch < env.conf.nch) (full : Bool)
    (rounds n : Nat) (ent : Option Nat) (inv : Inv env.conf state) :
    Flushed env.conf ch state (flushLoop env ch full rounds n ent state) := by
  induction rounds generalizing n ent state with
  | zero => exact Flushed.refl ch inv
  | succ rounds ih =>
      cases n with
      | zero => exact Flushed.refl ch inv
      | succ n =>
          simp only [flushLoop]
          split
          · have evicted := mapEvictPgCache_flushed media inv chLt true
            split <;> rename_i eq <;> rw [eq] at evicted <;>
              exact evicted.trans (ih _ _ evicted.silent.inv)
          · split
            · exact ih _ _ inv
            · rename_i slot next
              have used := mem_of_nextUsed next
              obtain ⟨off, done, holds, processed, persisted⟩ :=
                mapEvictProcess_used media inv chLt used true
              have silent := persisted.silent inv holds
              rw [processed]
              exact Flushed.trans ⟨silent, persisted.frame⟩ (ih _ _ silent.inv)

theorem drainLoop_flushed (media : Media env) (chLt : ch < env.conf.nch) (rounds : Nat)
    (inv : Inv env.conf state) : Flushed env.conf ch state (drainLoop env ch rounds state) := by
  induction rounds generalizing state with
  | zero => exact Flushed.refl ch inv
  | succ rounds ih =>
      rw [drainLoop]
      split
      · exact Flushed.refl ch inv
      · have evicted := mapEvictPgCache_flushed media inv chLt true
        exact evicted.trans (ih evicted.silent.inv)

theorem mapFlushChCache_flushed (media : Media env) (chLt : ch < env.conf.nch) (full : Bool)
    (inv : Inv env.conf state) :
    Flushed env.conf ch state (mapFlushChCache env ch full state) := by
  have copied : Flushed env.conf ch state (copyImmut env.conf state ch) :=
    ⟨silent_copyImmut inv, frame_copyImmut⟩
  have flushed := flushLoop_flushed media chLt full env.rounds
    ((copyImmut env.conf state ch).lists ch).nused none copied.silent.inv
  rw [mapFlushChCache]
  split
  · exact (copied.trans flushed).trans (drainLoop_flushed media chLt _ flushed.silent.inv)
  · exact copied.trans flushed

theorem flushCaches_silent (media : Media env) {n : Nat} (le : n ≤ env.conf.nch)
    (inv : Inv env.conf state) : Silent env.conf state (flushCaches env n state) := by
  induction n generalizing state with
  | zero => exact Silent.refl inv
  | succ ch ih =>
      have flushed := (mapFlushChCache_flushed media le false inv).silent
      exact flushed.trans (ih (by omega) flushed.inv)

/-- `map_flush_all_caches` does not change the mapping. -/
theorem mapFlushAllCaches_silent (media : Media env) (inv : Inv env.conf state) :
    Silent env.conf state (mapFlushAllCaches env state) :=
  flushCaches_silent media le_rfl inv

/-! ## The immutable small table -/

/-- The immutable small table holds the address of every page that is not on the list
of cache entries still to be persisted. -/
structure Copied (conf : Conf) (state : State) (ch : Nat) (todo : List Nat) : Prop where
  lba : ∀ off < conf.entries, ((state.chans ch).md.immut off).lba = off * conf.nch + ch
  stored : ∀ off < conf.entries, addrFlag (state.entry ch off).ppa = false →
    ((state.chans ch).md.immut off).ppa = (state.entry ch off).ppa
  cached : ∀ off < conf.entries, ∀ slot, (state.entry ch off).ppa = mapAddrFlag + slot →
    slot ∉ todo → ((state.chans ch).md.immut off).ppa = (state.slot ch slot).ppa

theorem copied_copyImmut (inv : Inv conf state) (chLt : ch < conf.nch) :
    Copied conf (copyImmut conf state ch) ch (state.lists ch).mbuHead := by
  refine ⟨?_, ?_, ?_⟩ <;> intro off offLt
  · rw [immut_copyImmut, if_pos ⟨rfl, offLt⟩]
    exact (inv.pages ch chLt off offLt).lba
  · intro _
    rw [immut_copyImmut, if_pos ⟨rfl, offLt⟩, entry_copyImmut]
  · intro slot eq unlisted
    rw [entry_copyImmut] at eq
    exact absurd ((inv.lists ch chLt).listed off offLt slot eq) unlisted

theorem Copied.taken {todo : List Nat} (copied : Copied conf state ch todo) :
    Copied conf (taken state ch rest) ch todo := by
  refine ⟨?_, ?_, ?_⟩ <;> simp only [GlMap.taken, State.md_setLists, State.entry_setLists,
    State.slot_setLists]
  · exact copied.lba
  · exact copied.stored
  · exact copied.cached

theorem Copied.persisted {todo : List Nat} (copied : Copied env.conf state ch (slot :: todo))
    (pages : PagesOk env.conf state) (holds : Holds env.conf state ch off slot)
    (persisted : Persisted env state state' ch off slot true) :
    Copied env.conf state' ch todo := by
  refine ⟨?_, ?_, ?_⟩ <;> intro other otherLt <;> rw [persisted.immut]
  · split
    · rename_i same
      obtain ⟨-, -, rfl⟩ := same
      exact copied.lba other otherLt
    · exact copied.lba other otherLt
  · rw [persisted.entry]
    intro stored
    rw [if_neg]
    · exact copied.stored other otherLt stored
    · rintro ⟨-, -, rfl⟩
      rw [holds.ppa, addrFlag_add] at stored
      contradiction
  · rw [persisted.entry]
    intro found eq unlisted
    by_cases same : found = slot
    · subst same
      obtain rfl := pages.off_unique ⟨holds.ch_lt, otherLt, eq⟩ holds
      rw [if_pos ⟨rfl, rfl, rfl⟩]
    · rw [if_neg, persisted.others _ _ (by simp [same])]
      · exact copied.cached other otherLt found eq (by simp [same, unlisted])
      · rintro ⟨-, -, rfl⟩
        rw [holds.ppa] at eq
        omega

theorem Copied.unmapped {todo : List Nat} (copied : Copied conf state ch todo)
    (pages : PagesOk conf state) (holds : Holds conf state ch off slot) (done : slot ∉ todo) :
    Copied conf (unmapped state ch off slot) ch todo := by
  have immut : ((GlMap.unmapped state ch off slot).chans ch).md.immut =
      (state.chans ch).md.immut := by simp [GlMap.unmapped]
  refine ⟨?_, ?_, ?_⟩ <;> intro other otherLt <;> rw [immut]
  · exact copied.lba other otherLt
  · rw [entry_unmapped]
    split
    · rename_i same
      obtain ⟨-, rfl⟩ := same
      intro _
      exact copied.cached other otherLt slot holds.ppa done
    · exact copied.stored other otherLt
  · rw [entry_unmapped]
    split
    · intro found eq
      have below := (pages.slotOk holds).ppa_lt
      simp only at eq
      omega
    · rename_i differ
      intro found eq unlisted
      rw [slot_unmapped, if_neg]
      · exact copied.cached other otherLt found eq unlisted
      · rintro ⟨-, rfl⟩
        exact differ ⟨rfl, pages.off_unique ⟨holds.ch_lt, otherLt, eq⟩ holds⟩

theorem tailqNext_append {done todo : List Nat} {before : Nat}
    (nodup : (done ++ todo).Nodup) (last : done.getLast? = some before) :
    tailqNext (done ++ todo) before = todo.head? := by
  induction done with
  | nil => simp at last
  | cons first rest ih =>
      rw [List.cons_append, List.nodup_cons] at nodup
      rw [List.cons_append, tailqNext]
      cases rest with
      | nil =>
          obtain rfl : first = before := by simpa using last
          simp
      | cons second rest =>
          have lastRest : (second :: rest).getLast? = some before := by simpa using last
          have mem : before ∈ second :: rest := List.mem_of_getLast? lastRest
          rw [if_neg, ih nodup.2 lastRest]
          rintro rfl
          exact nodup.1 (List.mem_append_left _ mem)

theorem nextUsed_append {done todo : List Nat} (nodup : (done ++ todo).Nodup) :
    nextUsed (done ++ todo) done.getLast? = todo.head? := by
  cases last : done.getLast? with
  | none => simp [nextUsed, List.getLast?_eq_none_iff.mp last]
  | some before => exact tailqNext_append nodup last

/-- The loop of a checkpoint evicts or persists every used entry once, `todo` are those that are
left. -/
theorem flushLoop_rule (media : Media env) (chLt : ch < env.conf.nch)
    {P : State → List Nat → Prop}
    (evict : ∀ {state done : State} {slot off : Nat} {rest : List Nat}, Inv env.conf state →
      (state.lists ch).mbuHead = slot :: rest → slot ∉ rest → Holds env.conf state ch off slot →
      mapEvictProcess env (taken state ch rest) ch slot true = (done, 0) →
      Persisted env (taken state ch rest) done ch off slot true →
      P state (slot :: rest) → P (unmapped done ch off slot) rest)
    (persist : ∀ {state state' : State} {slot off : Nat} {todo : List Nat}, Inv env.conf state →
      Holds env.conf state ch off slot → mapEvictProcess env state ch slot true = (state', 0) →
      Persisted env state state' ch off slot true → P state (slot :: todo) → P state' todo)
    {rounds : Nat} {done todo : List Nat} (enough : todo.length ≤ rounds) (inv : Inv env.conf state)
    (used : (state.lists ch).mbuHead = done ++ todo)
    (start : (state.lists ch).mbfHead = [] → done = []) (before : P state todo) :
    P (flushLoop env ch false rounds todo.length done.getLast? state) [] := by
  induction todo generalizing rounds done state with
  | nil => cases rounds <;> exact before
  | cons slot rest ih =>
      obtain ⟨rounds, rfl⟩ : ∃ n, rounds = n + 1 := ⟨rounds - 1, by simp at enough; omega⟩
      simp only [List.length_cons, Nat.add_le_add_iff_right] at enough
      simp only [List.length_cons, flushLoop, Bool.false_eq_true, false_or]
      have nodup := (List.nodup_append.mp (inv.lists ch chLt).nodup).2.1
      rw [used] at nodup
      split
      · rename_i empty
        obtain rfl := start empty
        rw [List.nil_append] at used nodup
        obtain ⟨off, done, holds, processed, persisted, eq⟩ :=
          mapEvictPgCache_processed media inv chLt used true
        have silent := persisted.silent_unmapped inv used holds
        have notLater : slot ∉ rest := (List.nodup_cons.mp nodup).1
        rw [eq]
        simpa using @ih _ _ [] enough silent.inv
          (by rw [persisted.lists_unmapped]; rfl) (fun _ => rfl)
          (evict inv used notLater holds processed persisted before)
      · rename_i nonempty
        have mem : slot ∈ (state.lists ch).mbuHead := by simp [used]
        obtain ⟨off, state', holds, processed, persisted⟩ :=
          mapEvictProcess_used media inv chLt mem true
        have silent := persisted.silent inv holds
        rw [used, nextUsed_append nodup]
        simp only [List.head?_cons, processed]
        have later := @ih _ _ (done ++ [slot]) enough silent.inv
          (by rw [persisted.lists, used]; simp) (by rw [persisted.lists]; simp [nonempty])
          (persist inv holds processed persisted before)
        simpa using later

/-- The loop of a checkpoint persists every used entry once. -/
theorem flushLoop_copied (media : Media env) (chLt : ch < env.conf.nch) {rounds : Nat}
    {done todo : List Nat} (enough : todo.length ≤ rounds) (inv : Inv env.conf state)
    (used : (state.lists ch).mbuHead = done ++ todo)
    (start : (state.lists ch).mbfHead = [] → done = [])
    (copied : Copied env.conf state ch todo) :
    Copied env.conf (flushLoop env ch false rounds todo.length done.getLast? state) ch [] := by
  apply @flushLoop_rule env state ch media chLt (fun state todo => Copied env.conf state ch todo)
    _ _ rounds done todo enough inv used start copied
  · intro state done slot off rest inv used notLater holds _ persisted copied
    have pages : PagesOk env.conf (taken state ch rest) := pagesOk_taken inv.pages
    apply (copied.taken.persisted pages holds.taken persisted).unmapped _ _ notLater
    · intro _ otherLt _ otherOffLt
      exact persisted.pageOk pages holds.taken otherLt otherOffLt
    · exact ⟨chLt, holds.off_lt, by rw [persisted.entry]; exact holds.taken.ppa⟩
  · intro state state' slot off todo inv holds _ persisted copied
    exact copied.persisted inv.pages holds persisted

/-- The immutable small table holds the address of every page. -/
def Snapshot (conf : Conf) (state : State) (ch : Nat) : Prop :=
  ∀ off < conf.entries,
    (state.chans ch).md.immut off = ⟨off * conf.nch + ch, current state ch off⟩

theorem Copied.snapshot (copied : Copied conf state ch []) (pages : PagesOk conf state)
    (chLt : ch < conf.nch) : Snapshot conf state ch := by
  intro off offLt
  have ppa : ((state.chans ch).md.immut off).ppa = current state ch off := by
    cases flag : addrFlag (state.entry ch off).ppa with
    | false => simpa [current, flag] using copied.stored off offLt flag
    | true =>
        obtain ⟨slot, eq, slotOk⟩ := (pages ch chLt off offLt).cached flag
        rw [copied.cached off offLt slot eq List.not_mem_nil, current, eq, addrFlag_add,
          if_pos rfl, slotOk.addrPtr_eq]
  rw [← ppa, ← copied.lba off offLt]

theorem mapFlushChCache_snapshot (media : Media env) (chLt : ch < env.conf.nch)
    (rounds : env.conf.cap ≤ env.rounds) (inv : Inv env.conf state) :
    Snapshot env.conf (mapFlushChCache env ch false state) ch := by
  have silent : Silent env.conf state (copyImmut env.conf state ch) := silent_copyImmut inv
  have listsOk := silent.inv.lists ch chLt
  have length := listsOk.length
  have enough : ((copyImmut env.conf state ch).lists ch).mbuHead.length ≤ env.rounds := by omega
  have copied := @flushLoop_copied _ _ _ media chLt _ [] _ enough silent.inv rfl
    (fun _ => rfl) (by simpa using copied_copyImmut inv chLt)
  have flushed := flushLoop_flushed media chLt false env.rounds
    ((copyImmut env.conf state ch).lists ch).nused none silent.inv
  rw [listsOk.nused] at flushed
  simp only [mapFlushChCache, listsOk.nused, Bool.false_eq_true, if_false]
  exact copied.snapshot flushed.silent.inv.pages chLt

theorem Snapshot.frame {other : Nat} (snapshot : Snapshot conf state other)
    (frame : Frame ch state state') (differ : other ≠ ch) : Snapshot conf state' other := by
  intro off offLt
  rw [frame.immut other differ, frame.current other differ]
  exact snapshot off offLt

theorem flushCaches_snapshot_of_le (media : Media env) {n : Nat} (le : n ≤ env.conf.nch)
    (inv : Inv env.conf state) (above : n ≤ ch) (snapshot : Snapshot env.conf state ch) :
    Snapshot env.conf (flushCaches env n state) ch := by
  induction n generalizing state with
  | zero => exact snapshot
  | succ n ih =>
      have flushed := mapFlushChCache_flushed media le false inv
      exact ih (by omega) flushed.silent.inv (by omega)
        (snapshot.frame flushed.frame (by omega))

theorem flushCaches_snapshot (media : Media env) {n : Nat} (le : n ≤ env.conf.nch)
    (rounds : env.conf.cap ≤ env.rounds) (inv : Inv env.conf state) (chLt : ch < n) :
    Snapshot env.conf (flushCaches env n state) ch := by
  induction n generalizing state with
  | zero => omega
  | succ n ih =>
      have flushed := mapFlushChCache_flushed media le false inv
      by_cases last : ch = n
      · subst last
        rw [flushCaches]
        exact flushCaches_snapshot_of_le media (by omega) flushed.silent.inv le_rfl
          (mapFlushChCache_snapshot media le rounds inv)
      · exact ih (by omega) flushed.silent.inv (by omega)

/-- `map_flush_all_caches` leaves the address of every page in the immutable small
tables. -/
theorem mapFlushAllCaches_snapshot (media : Media env) (rounds : env.conf.cap ≤ env.rounds)
    (inv : Inv env.conf state) (chLt : ch < env.conf.nch) :
    Snapshot env.conf (mapFlushAllCaches env state) ch :=
  flushCaches_snapshot media le_rfl rounds inv chLt

end OxCtrl.GlMap
