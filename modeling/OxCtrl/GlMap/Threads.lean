import OxCtrl.GlMap.Refinement

/-!
# Threads of the mapping

`map_upsert` in any number of threads, beside evictions and the persists of a checkpoint, one
step at a time.  `tbl_mutex` admits one eviction or persist of a channel at a time; it takes no
other lock, and an upsert holds the mutex of its page only while it looks the page up.  A page is
copied to NVM entry by entry.

The used list decides which entry is evicted or persisted next.  A lookup moves entries in this
list at any time, so the choice is left open.  A thread that finds no free entry evicts one in
steps of its own before it looks the page up.
-/

namespace OxCtrl.GlMap

open Lib Relation

/-! ## State -/

/-- Arguments of `map_upsert`. -/
structure UpsertCall where
  lba : Nat
  ppa : Nat
  oldCaller : Nat
  deriving DecidableEq, Repr

/-- Where a thread is in `map_upsert`. -/
inductive UpsertPc where
  | idle
  /-- `map_get_cache_entry` has loaded the page, and is about to read its pointer. -/
  | loaded (call : UpsertCall)
  /-- `map_get_cache_entry` has returned. -/
  | found (call : UpsertCall) (slot : Nat)
  /-- The LBA of the entry is the right one. -/
  | checked (call : UpsertCall) (slot : Nat)
  deriving DecidableEq, Repr

/-- The call that a thread is in. -/
def UpsertPc.call? : UpsertPc → Option UpsertCall
  | .idle => none
  | .loaded call => some call
  | .found call _ => some call
  | .checked call _ => some call

/-- Where a thread is in `map_evict_process`, and in `map_evict_pg_cache` after it. -/
inductive JobPc where
  /-- About to test the dirty flag. -/
  | test
  /-- The entries below `next` are copied; `retry` attempts are left. -/
  | copy (retry next : Nat)
  /-- The page is written. -/
  | clear
  /-- The flag is clear. -/
  | finish (wrote : Bool)
  /-- The address goes to the small table. -/
  | writeBack
  | release
  | insert
  deriving DecidableEq, Repr

/-- An eviction, or a persist in place. -/
structure Job where
  slot : Nat
  off : Nat
  evicts : Bool
  setImmut : Bool
  old : Nat := 0
  /-- Buffers of the page write. -/
  image : Nat → MapEntry := fun _ => {}
  pc : JobPc := .test

/-- The mapping with its threads. -/
structure Threads where
  state : State
  /-- The job that holds `tbl_mutex` of a channel. -/
  jobs : Nat → Option Job := fun _ => none
  upserts : Nat → UpsertPc := fun _ => .idle

namespace Threads

/-- Move a thread of `map_upsert`. -/
def setUpsert (threads : Threads) (thread : Nat) (pc : UpsertPc) : Threads :=
  { threads with upserts := Function.update threads.upserts thread pc }

/-- Change the job of a channel. -/
def setJob (threads : Threads) (ch : Nat) (job : Option Job) : Threads :=
  { threads with jobs := Function.update threads.jobs ch job }

@[simp]
theorem state_setUpsert (threads : Threads) (thread : Nat) (pc : UpsertPc) :
    (threads.setUpsert thread pc).state = threads.state :=
  rfl

@[simp]
theorem jobs_setUpsert (threads : Threads) (thread : Nat) (pc : UpsertPc) :
    (threads.setUpsert thread pc).jobs = threads.jobs :=
  rfl

@[simp]
theorem state_setJob (threads : Threads) (ch : Nat) (job : Option Job) :
    (threads.setJob ch job).state = threads.state :=
  rfl

@[simp]
theorem jobs_setJob (threads : Threads) (ch : Nat) (job : Option Job) :
    (threads.setJob ch job).jobs = Function.update threads.jobs ch job :=
  rfl

end Threads

/-! ## Lookup -/

/-- What `map_get_cache_entry` knows when it releases the mutex of the page. -/
inductive Lookup where
  | failed
  | cached (slot : Nat)
  | loaded
  deriving DecidableEq, Repr

section

variable (env : Env)

/-- `map_get_cache_entry` until it releases the mutex of the page. -/
def lookup (state : State) (lba : Nat) (cpRunning : Bool) : State × Lookup :=
  let ch := chMap env.conf lba
  let off := pgOff env.conf lba
  if env.conf.entries ≤ off then (state, .failed)
  else
    let ppa := (state.entry ch off).ppa
    if ¬ addrFlag ppa then
      match loadFree env state ch off (lba / env.conf.entPerPg * env.conf.entPerPg) with
      | (state, 0) => (state, .loaded)
      | (state, _) => (state, .failed)
    else (if cpRunning then state else touched state ch (addrPtr ppa), .cached (addrPtr ppa))

/-! ## Steps -/

/-- Steps of the threads. -/
inductive MapStep where
  /-- A thread calls `map_upsert`. -/
  | lookup (thread : Nat) (call : UpsertCall) (cpRunning : Bool)
  /-- It reads the pointer of the page it has loaded. -/
  | pointer (thread : Nat)
  /-- It compares the LBA. -/
  | compare (thread : Nat)
  /-- It updates the entry, under the spin lock of the page. -/
  | update (thread : Nat)
  /-- The lookup of a `map_read`. -/
  | read (lba : Nat) (cpRunning : Bool)
  /-- `map_evict_pg_cache` takes an entry off the used list. -/
  | evict (ch slot : Nat) (isCheckpoint : Bool)
  /-- A checkpoint calls `map_evict_process`. -/
  | persist (ch slot : Nat)
  /-- The next step of the job of a channel. -/
  | job (ch : Nat)

/-- The entry of an LBA in a cache entry. -/
def bufEntry (conf : Conf) (state : State) (lba slot : Nat) : MapEntry :=
  (state.slot (chMap conf lba) slot).buf (entOff conf lba)

/-- The spin-locked part of `map_upsert`. -/
def updateStep (conf : Conf) (state : State) (call : UpsertCall) (slot : Nat) :
    State × Option (Nat × Nat) :=
  let mapEnt := bufEntry conf state call.lba slot
  if call.oldCaller ≠ 0 ∧ mapEnt.ppa ≠ call.oldCaller then (state, none)
  else
    (state.setSlot (chMap conf call.lba) slot fun entry =>
      { entry with
        buf := Function.update entry.buf (entOff conf call.lba) { mapEnt with ppa := call.ppa }
        dirty := true }, some (call.lba, call.ppa))

/-- The next step of an eviction or a persist. -/
def jobStep (state : State) (ch : Nat) (job : Job) : State × Option Job :=
  let entry := state.slot ch job.slot
  let lba := (state.entry ch job.off).lba
  match job.pc with
  | .test =>
      (state, some { job with
        old := entry.ppa
        image := entry.buf
        pc := if entry.dirty then .copy appMdIoRetry 0 else .finish false })
  | .copy retry next =>
      if next < env.conf.entPerPg then
        (state, some { job with
          image := Function.update job.image next (entry.buf next)
          pc := .copy retry (next + 1) })
      else
        match env.newFn state with
        | some addr =>
            ((state.writePage addr job.image ⟨.map, lba, addr, job.old⟩).setSlot ch job.slot
              fun entry => { entry with ppa := addr }, some { job with pc := .clear })
        | none =>
            let state := { state with writes := state.writes + 1 }
            if retry ≤ 1 then
              -- the entry goes back to the head of the used list
              (state.setLists ch fun lists =>
                { lists with mbuHead := job.slot :: lists.mbuHead, nused := lists.nused + 1 }, none)
            else (state, some { job with pc := .copy (retry - 1) 0 })
  | .clear =>
      (state.setSlot ch job.slot fun entry => { entry with dirty := false },
        some { job with pc := .finish true })
  | .finish wrote =>
      let state :=
        if wrote then (oxbChMapMark state ch (markIndex env.conf lba)).invalidate job.old else state
      (if job.setImmut then state.setImmut ch job.off entry.ppa else state,
        if job.evicts then some { job with pc := .writeBack } else none)
  | .writeBack => (state.setPpa ch job.off entry.ppa, some { job with pc := .release })
  | .release =>
      (state.setSlot ch job.slot fun entry => { entry with ppa := 0, mdEntry := none },
        some { job with pc := .insert })
  | .insert =>
      (state.setLists ch fun lists =>
        { lists with mbfHead := job.slot :: lists.mbfHead, nfree := lists.nfree + 1 }, none)

/-- A thread takes a step, if it is at the place for it.  The result is the LBA and the PPA of an
update. -/
def threadStep (threads : Threads) : MapStep → Threads × Option (Nat × Nat)
  | .lookup thread call cpRunning =>
      match threads.upserts thread, lookup env threads.state call.lba cpRunning with
      | .idle, (state, .failed) => ({ threads with state := state }, none)
      | .idle, (state, .cached slot) =>
          ({ threads with state := state }.setUpsert thread (.found call slot), none)
      | .idle, (state, .loaded) =>
          ({ threads with state := state }.setUpsert thread (.loaded call), none)
      | _, _ => (threads, none)
  | .pointer thread =>
      match threads.upserts thread with
      | .loaded call =>
          let addr := threads.state.entry (chMap env.conf call.lba) (pgOff env.conf call.lba)
          (threads.setUpsert thread (.found call (addrPtr addr.ppa)), none)
      | _ => (threads, none)
  | .compare thread =>
      match threads.upserts thread with
      | .found call slot =>
          if (bufEntry env.conf threads.state call.lba slot).lba ≠ call.lba then
            (threads.setUpsert thread .idle, none)
          else (threads.setUpsert thread (.checked call slot), none)
      | _ => (threads, none)
  | .update thread =>
      match threads.upserts thread with
      | .checked call slot =>
          let (state, result) := updateStep env.conf threads.state call slot
          ({ threads with state := state }.setUpsert thread .idle, result)
      | _ => (threads, none)
  | .read lba cpRunning =>
      ({ threads with state := (lookup env threads.state lba cpRunning).1 }, none)
  | .evict ch slot isCheckpoint =>
      match threads.jobs ch, (threads.state.slot ch slot).mdEntry with
      | none, some off =>
          let state := threads.state.setLists ch fun lists =>
            { lists with mbuHead := lists.mbuHead.erase slot, nused := lists.nused - 1 }
          ({ threads with state := state }.setJob ch
            (some { slot := slot, off := off, evicts := true, setImmut := isCheckpoint }), none)
      | _, _ => (threads, none)
  | .persist ch slot =>
      match threads.jobs ch, (threads.state.slot ch slot).mdEntry with
      | none, some off =>
          (threads.setJob ch
            (some { slot := slot, off := off, evicts := false, setImmut := true }), none)
      | _, _ => (threads, none)
  | .job ch =>
      match threads.jobs ch with
      | some job =>
          let (state, next) := jobStep env threads.state ch job
          ({ threads with state := state }.setJob ch next, none)
      | none => (threads, none)

/-- The mapping with its threads as a system. -/
def threadSystem : System Threads MapStep (Option (Nat × Nat)) where
  step := threadStep env

end

variable {env : Env} {state state' : State} {ch off slot : Nat} {job : Job} {threads : Threads}

/-! ## Jobs that run alone -/

/-- The job of a channel takes some steps, with no step of another thread in between. -/
def JobReaches (env : Env) (ch : Nat) : State × Option Job → State × Option Job → Prop :=
  ReflTransGen fun before after => ∃ job, before.2 = some job ∧ after = jobStep env before.1 ch job

theorem JobReaches.head {middle after : State × Option Job}
    (step : jobStep env state ch job = middle) (rest : JobReaches env ch middle after) :
    JobReaches env ch (state, some job) after :=
  ReflTransGen.head ⟨job, rfl, step.symm⟩ rest

theorem JobReaches.last {after : State × Option Job} (step : jobStep env state ch job = after) :
    JobReaches env ch (state, some job) after :=
  JobReaches.head step ReflTransGen.refl

/-- The steps of a job are steps of the system. -/
theorem JobReaches.run (threads : Threads) {after : State × Option Job}
    (reaches : JobReaches env ch (threads.state, threads.jobs ch) after) :
    ∃ n, (threadSystem env).run threads (List.replicate n (.job ch)) =
      { threads with state := after.1 }.setJob ch after.2 := by
  induction reaches with
  | refl =>
      refine ⟨0, ?_⟩
      simp [Threads.setJob]
  | @tail before after _ step ih =>
      obtain ⟨n, run⟩ := ih
      obtain ⟨job, running, rfl⟩ := step
      refine ⟨n + 1, ?_⟩
      rw [List.replicate_succ', System.run_append, run]
      simp [threadSystem, threadStep, Threads.setJob, running]

/-- The entries of a page are copied one by one. -/
theorem copy_reaches {retry next : Nat} (image : job.image = (state.slot ch job.slot).buf)
    (le : next ≤ env.conf.entPerPg) :
    JobReaches env ch (state, some { job with pc := .copy retry next })
      (state, some { job with pc := .copy retry env.conf.entPerPg }) := by
  induction le using Nat.decreasingInduction with
  | self => exact ReflTransGen.refl
  | of_succ next below ih =>
      refine ReflTransGen.head ⟨_, rfl, ?_⟩ ih
      simp [jobStep, below, image]

/-- The entry goes back to the head of the used list. -/
def relink (state : State) (ch slot : Nat) : State :=
  state.setLists ch fun lists =>
    { lists with mbuHead := slot :: lists.mbuHead, nused := lists.nused + 1 }

/-- The attempts to write a page. -/
theorem write_reaches (job : Job) (retry : Nat) (image : job.image = (state.slot ch job.slot).buf) :
    JobReaches env ch (state, some { job with pc := .copy (retry + 1) 0 })
      (match writeRetry env ch job.slot (state.entry ch job.off).lba job.old (retry + 1) state with
        | (after, true) => (after, some { job with pc := .clear })
        | (after, false) => (relink after ch job.slot, none)) := by
  induction retry generalizing state with
  | zero =>
      refine (copy_reaches image (Nat.zero_le _)).trans (JobReaches.last ?_)
      cases new : env.newFn state <;>
        simp [jobStep, writeRetry, mapNvmWrite, new, image, relink]
  | succ retry ih =>
      refine (copy_reaches image (Nat.zero_le _)).trans ?_
      cases new : env.newFn state with
      | some addr =>
          apply JobReaches.last
          simp [jobStep, writeRetry, mapNvmWrite, new, image]
      | none =>
          have failed : jobStep env state ch
              { job with pc := .copy (retry + 1 + 1) env.conf.entPerPg } =
                ({ state with writes := state.writes + 1 },
                  some { job with pc := .copy (retry + 1) 0 }) := by
            simp [jobStep, new]
          have later := @ih { state with writes := state.writes + 1 } image
          have attempt : writeRetry env ch job.slot (state.entry ch job.off).lba job.old
                (retry + 1 + 1) state =
              writeRetry env ch job.slot (state.entry ch job.off).lba job.old (retry + 1)
                { state with writes := state.writes + 1 } := by
            rw [writeRetry, mapNvmWrite, new]
          rw [attempt]
          exact JobReaches.head failed later

/-- A write of a page leaves the small tables alone. -/
theorem entry_writeRetry (env : Env) (ch slot lba old retry : Nat) (state : State) (other : Nat) :
    (writeRetry env ch slot lba old retry state).1.entry ch other = state.entry ch other := by
  induction retry generalizing state with
  | zero => rfl
  | succ retry ih =>
      rw [writeRetry, mapNvmWrite]
      cases env.newFn state with
      | some addr => simp
      | none => exact ih { state with writes := state.writes + 1 }

theorem mdEntry_writeRetry (env : Env) (ch slot lba old retry : Nat) (state : State) :
    ((writeRetry env ch slot lba old retry state).1.slot ch slot).mdEntry =
      (state.slot ch slot).mdEntry := by
  induction retry generalizing state with
  | zero => rfl
  | succ retry ih =>
      rw [writeRetry, mapNvmWrite]
      cases env.newFn state with
      | some addr => simp [State.slot_setSlot]
      | none => exact ih { state with writes := state.writes + 1 }

/-- `map_evict_process` leaves the page in the cache entry. -/
theorem mdEntry_mapEvictProcess (env : Env) (state : State) (ch slot : Nat) (setImmut : Bool) :
    ((mapEvictProcess env state ch slot setImmut).1.slot ch slot).mdEntry =
      (state.slot ch slot).mdEntry := by
  cases held : (state.slot ch slot).mdEntry with
  | none => simp [mapEvictProcess, held]
  | some off =>
      have kept := mdEntry_writeRetry env ch slot (state.entry ch off).lba (state.slot ch slot).ppa
        appMdIoRetry state
      rw [held] at kept
      simp only [mapEvictProcess, held]
      generalize writeRetry env ch slot (state.entry ch off).lba (state.slot ch slot).ppa
        appMdIoRetry state = result at kept
      obtain ⟨after, ok⟩ := result
      dsimp only at kept
      cases (state.slot ch slot).dirty <;> cases ok <;> cases setImmut <;>
        simp [State.slot_setSlot, held, kept]

/-- A job that runs alone does what `map_evict_process` does. -/
theorem process_reaches (job : Job) (pc : job.pc = .test)
    (held : (state.slot ch job.slot).mdEntry = some job.off) :
    ∃ later, later.slot = job.slot ∧ later.off = job.off ∧ later.pc = .writeBack ∧
      JobReaches env ch (state, some job)
        (match mapEvictProcess env state ch job.slot job.setImmut with
          | (after, 0) => (after, if job.evicts then some later else none)
          | (after, _) => (after, none)) := by
  let tested : Job :=
    { job with old := (state.slot ch job.slot).ppa, image := (state.slot ch job.slot).buf }
  refine ⟨{ tested with pc := .writeBack }, rfl, rfl, rfl, ?_⟩
  cases dirty : (state.slot ch job.slot).dirty with
  | false =>
      have test : jobStep env state ch job = (state, some { tested with pc := .finish false }) := by
        simp [jobStep, pc, dirty, tested]
      apply JobReaches.head test
      apply JobReaches.last
      simp [jobStep, mapEvictProcess, held, dirty, tested]
  | true =>
      have test : jobStep env state ch job =
          (state, some { tested with pc := .copy appMdIoRetry 0 }) := by
        simp [jobStep, pc, dirty, tested]
      have entry := entry_writeRetry env ch job.slot (state.entry ch job.off).lba
        (state.slot ch job.slot).ppa appMdIoRetry state job.off
      have wrote : JobReaches env ch (state, some { tested with pc := .copy appMdIoRetry 0 }) _ :=
        write_reaches tested 255 rfl
      apply JobReaches.head test
      apply wrote.trans
      simp only [mapEvictProcess, held, dirty, if_true]
      change JobReaches env ch (match writeRetry env ch job.slot (state.entry ch job.off).lba
        (state.slot ch job.slot).ppa appMdIoRetry state with
          | (after, true) => (after, some { tested with pc := .clear })
          | (after, false) => (relink after ch job.slot, none)) _
      generalize writeRetry env ch job.slot (state.entry ch job.off).lba
        (state.slot ch job.slot).ppa appMdIoRetry state = result at entry
      obtain ⟨after, ok⟩ := result
      cases ok with
      | false => exact ReflTransGen.refl
      | true =>
          apply JobReaches.head rfl
          apply JobReaches.last
          simp [jobStep, tested, entry]

/-- A job that starts, and runs alone until it ends. -/
theorem run_of_reaches {step : MapStep} {after : State} (idle : threads.jobs ch = none)
    (started : (threadSystem env).step threads step =
      ({ threads with state := state' }.setJob ch (some job), none))
    (reaches : JobReaches env ch (state', some job) (after, none)) :
    ∃ n, (threadSystem env).run threads (step :: List.replicate n (.job ch)) =
      { threads with state := after } := by
  have running : ({ threads with state := state' }.setJob ch (some job)).jobs ch = some job :=
    Function.update_self _ _ _
  rw [← running] at reaches
  obtain ⟨n, run⟩ := reaches.run ({ threads with state := state' }.setJob ch (some job))
  refine ⟨n, ?_⟩
  have jobs : Function.update (Function.update threads.jobs ch (some job)) ch none =
      threads.jobs := by
    rw [Function.update_idem, ← idle, Function.update_eq_self]
  rw [System.run_cons, started, run]
  simp only [Threads.setJob, jobs]

/-- The last steps of an eviction. -/
theorem release_reaches (state : State) (pc : job.pc = .writeBack) :
    JobReaches env ch (state, some job) (unmapped state ch job.off job.slot, none) := by
  have writeBack : jobStep env state ch job =
      (state.setPpa ch job.off (state.slot ch job.slot).ppa, some { job with pc := .release }) := by
    simp only [jobStep, pc]
  apply JobReaches.head writeBack
  apply JobReaches.head rfl
  exact JobReaches.last rfl

/-- An eviction that runs alone is `map_evict_pg_cache`. -/
theorem evict_alone {rest : List Nat} (idle : threads.jobs ch = none)
    (used : (threads.state.lists ch).mbuHead = slot :: rest)
    (held : (threads.state.slot ch slot).mdEntry = some off) (isCheckpoint : Bool) :
    ∃ n,
      (threadSystem env).run threads (.evict ch slot isCheckpoint :: List.replicate n (.job ch)) =
        { threads with state := (mapEvictPgCache env threads.state ch isCheckpoint).1 } := by
  let job : Job := { slot := slot, off := off, evicts := true, setImmut := isCheckpoint }
  have unlinked : (threads.state.setLists ch fun lists =>
      { lists with mbuHead := lists.mbuHead.erase slot, nused := lists.nused - 1 }) =
        taken threads.state ch rest := by
    simp only [taken, State.setLists, State.setCache, State.setChan]
    have same : (threads.state.chans ch).cache.mbuHead = slot :: rest := used
    simp [same]
  have started : (threadSystem env).step threads (.evict ch slot isCheckpoint) =
      ({ threads with state := taken threads.state ch rest }.setJob ch (some job), none) := by
    simp [threadSystem, threadStep, idle, held, unlinked, job]
  have takenHeld : ((taken threads.state ch rest).slot ch slot).mdEntry = some off := by
    simpa [taken] using held
  obtain ⟨later, laterSlot, laterOff, pc, reaches⟩ : ∃ later : Job, _ :=
    process_reaches job rfl takenHeld
  have done : JobReaches env ch (taken threads.state ch rest, some job)
      ((mapEvictPgCache env threads.state ch isCheckpoint).1, none) := by
    apply reaches.trans
    have mdEntry := mdEntry_mapEvictProcess env (taken threads.state ch rest) ch slot isCheckpoint
    have unfolded : mapEvictPgCache env threads.state ch isCheckpoint =
        match mapEvictProcess env (taken threads.state ch rest) ch slot isCheckpoint with
        | (state, 0) => (unmapped state ch off slot, 0)
        | (state, _) => (state, -1) := by
      rw [takenHeld] at mdEntry
      simp only [mapEvictPgCache, used]
      rw [← taken]
      generalize mapEvictProcess env (taken threads.state ch rest) ch slot isCheckpoint = result
        at mdEntry
      obtain ⟨after, ret⟩ := result
      dsimp only at mdEntry
      split <;> simp_all [unmapped]
    rw [unfolded]
    simp only [job]
    generalize mapEvictProcess env (taken threads.state ch rest) ch slot isCheckpoint = result
    split
    · rename_i after
      have last : JobReaches env ch _ _ := release_reaches after pc
      rw [laterSlot, laterOff] at last
      exact last
    · exact ReflTransGen.refl
  exact run_of_reaches idle started done

/-- A persist that runs alone is `map_evict_process`. -/
theorem persist_alone (idle : threads.jobs ch = none)
    (held : (threads.state.slot ch slot).mdEntry = some off) :
    ∃ n, (threadSystem env).run threads (.persist ch slot :: List.replicate n (.job ch)) =
      { threads with state := (mapEvictProcess env threads.state ch slot true).1 } := by
  let job : Job := { slot := slot, off := off, evicts := false, setImmut := true }
  have started : (threadSystem env).step threads (.persist ch slot) =
      ({ threads with state := threads.state }.setJob ch (some job), none) := by
    simp [threadSystem, threadStep, idle, held, job]
  obtain ⟨later, -, -, -, reaches⟩ : ∃ later : Job, _ := process_reaches job rfl held
  apply run_of_reaches idle started
  apply reaches.trans
  simp only [job]
  generalize mapEvictProcess env threads.state ch slot true = result
  split <;> exact ReflTransGen.refl

/-! ## Upserts that run alone -/

/-- Without an eviction a lookup is `map_get_cache_entry`. -/
theorem mapGetCacheEntry_eq_lookup {lba : Nat}
    (room : addrFlag (state.entry (chMap env.conf lba) (pgOff env.conf lba)).ppa = true ∨
      (state.lists (chMap env.conf lba)).mbfHead ≠ []) :
    mapGetCacheEntry env state lba =
      match lookup env state lba false with
      | (after, .failed) => (after, none)
      | (after, .cached slot) => (after, some slot)
      | (after, .loaded) =>
          (after, some (addrPtr (after.entry (chMap env.conf lba) (pgOff env.conf lba)).ppa)) := by
  simp only [mapGetCacheEntry, lookup]
  by_cases outside : env.conf.entries ≤ pgOff env.conf lba
  · simp only [if_pos outside]
  · simp only [if_neg outside]
    cases flag : addrFlag (state.entry (chMap env.conf lba) (pgOff env.conf lba)).ppa with
    | true => simp [touched]
    | false =>
        obtain ⟨slot, rest, free⟩ :=
          List.exists_cons_of_ne_nil (room.resolve_left (by simp [flag]))
        simp only [Bool.false_eq_true, not_false_eq_true, if_true, mapLoadPgCache, free]
        generalize loadFree env state (chMap env.conf lba) (pgOff env.conf lba)
          (lba / env.conf.entPerPg * env.conf.entPerPg) = result
        split
        · rfl
        · split <;> simp_all

/-- `map_upsert` after the lookup. -/
theorem mapUpsert_eq (env : Env) (state : State) (call : UpsertCall) :
    (mapUpsert env state call.lba call.ppa call.oldCaller).1 =
      match mapGetCacheEntry env state call.lba with
      | (after, none) => after
      | (after, some slot) =>
          if (bufEntry env.conf after call.lba slot).lba = call.lba then
            (updateStep env.conf after call slot).1
          else after := by
  rw [mapUpsert]
  generalize mapGetCacheEntry env state call.lba = result
  obtain ⟨after, found⟩ := result
  cases found with
  | none => rfl
  | some slot =>
      dsimp only
      split
      · rename_i wrong
        exact (if_neg wrong).symm
      · rename_i right
        refine Eq.trans ?_ (if_pos (not_not.mp right)).symm
        split
        · rename_i stale
          rw [updateStep, bufEntry, if_pos stale]
        · rename_i current
          rw [updateStep, bufEntry, if_neg current]

/-- An upsert that has found its cache entry, and runs alone. -/
theorem found_alone {thread : Nat} {call : UpsertCall}
    (found : threads.upserts thread = .found call slot) :
    (threadSystem env).run threads [.compare thread, .update thread] =
      { threads with
        state :=
          if (bufEntry env.conf threads.state call.lba slot).lba = call.lba then
            (updateStep env.conf threads.state call slot).1
          else threads.state
        upserts := Function.update threads.upserts thread .idle } := by
  by_cases right : (bufEntry env.conf threads.state call.lba slot).lba = call.lba <;>
    simp [threadSystem, threadStep, Threads.setUpsert, found, right]

/-- An upsert that runs alone, and needs no eviction, is `map_upsert`. -/
theorem upsert_alone {thread : Nat} (idle : threads.upserts thread = .idle) (call : UpsertCall)
    (room : addrFlag (threads.state.entry (chMap env.conf call.lba)
        (pgOff env.conf call.lba)).ppa = true ∨
      (threads.state.lists (chMap env.conf call.lba)).mbfHead ≠ []) :
    (threadSystem env).run threads
        [.lookup thread call false, .pointer thread, .compare thread, .update thread] =
      { threads with
        state := (mapUpsert env threads.state call.lba call.ppa call.oldCaller).1 } := by
  have same : Function.update threads.upserts thread .idle = threads.upserts := by
    rw [← idle, Function.update_eq_self]
  have start : (threadSystem env).step threads (.lookup thread call false) =
      threadStep env threads (.lookup thread call false) := rfl
  rw [mapUpsert_eq, mapGetCacheEntry_eq_lookup room, System.run_cons, start]
  simp only [threadStep, idle]
  generalize lookup env threads.state call.lba false = result
  obtain ⟨after, found⟩ := result
  cases found with
  | failed => simp [threadSystem, threadStep, idle]
  | cached slot =>
      have pointed : (threadSystem env).step
          ({ threads with state := after }.setUpsert thread (.found call slot)) (.pointer thread) =
            ({ threads with state := after }.setUpsert thread (.found call slot), none) := by
        simp [threadSystem, threadStep, Threads.setUpsert]
      rw [System.run_cons, pointed, found_alone (Function.update_self _ _ _)]
      simp only [Threads.setUpsert, Function.update_idem, same]
      rfl
  | loaded =>
      have pointed : (threadSystem env).step
          ({ threads with state := after }.setUpsert thread (.loaded call)) (.pointer thread) =
            (({ threads with state := after }.setUpsert thread (.loaded call)).setUpsert thread
              (.found call (addrPtr (after.entry (chMap env.conf call.lba)
                (pgOff env.conf call.lba)).ppa)), none) := by
        simp [threadSystem, threadStep, Threads.setUpsert]
      rw [System.run_cons, pointed, found_alone (Function.update_self _ _ _)]
      simp only [Threads.setUpsert, Function.update_idem, same]

end OxCtrl.GlMap
