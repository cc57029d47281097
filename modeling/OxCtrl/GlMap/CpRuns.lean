import OxCtrl.GlMap.Threads
import OxCtrl.GlMap.Walk

/-!
# A checkpoint beside lookups

`map_flush_ch_cache` of a channel, one step at a time, beside the lookups, the updates and the
evictions of other threads on this channel.  A lookup holds the mutex of its page: it loads the
page, or moves the cache entry to the end of the used list if no checkpoint is running.  The flush
takes the mutex of each page while it copies its entry, and holds `tbl_mutex` from its first step to
its last one, so other threads evict no entry in between.
-/

namespace OxCtrl.GlMap

open Lib

/-! ## State -/

/-- What a lookup that holds the mutex of a page is about to do. -/
inductive Access where
  /-- It loads the page into the cache entry that it has taken. -/
  | load (slot : Nat)
  /-- It moves the cache entry. -/
  | touch (slot : Nat)
  deriving DecidableEq, Repr

/-- Where `map_flush_ch_cache` is. -/
inductive FlushPc where
  | start
  /-- The entries below `next` are copied. -/
  | copy (next : Nat)
  | sample
  /-- `n` entries are left; the walk is at `ent`. -/
  | test (n : Nat) (ent : Option Nat)
  /-- There is no free entry. -/
  | first (n : Nat) (ent : Option Nat)
  | evict (n : Nat) (ent : Option Nat)
  /-- There is a free entry. -/
  | next (n : Nat) (ent : Option Nat)
  /-- In `map_evict_pg_cache`. -/
  | evicting (n : Nat) (ent : Option Nat)
  /-- In `map_evict_process`. -/
  | persisting (n slot : Nat)
  | done
  deriving DecidableEq, Repr

/-- `cp_running`, and `tbl_mutex` is taken by the flush. -/
def FlushPc.cpRunning : FlushPc → Bool
  | .start => false
  | .done => false
  | _ => true

/-- The channel with its threads. -/
structure CpState where
  state : State
  /-- The eviction or the persist that is running. -/
  job : Option Job := none
  /-- The lookup that holds the mutex of a page. -/
  locks : Nat → Option Access := fun _ => none
  pc : FlushPc := .start

/-- Steps of the threads. -/
inductive CpStep where
  /-- A lookup takes a free entry for a page that is not in the cache. -/
  | take (off : Nat)
  /-- It reads the page and links it. -/
  | link (off : Nat)
  /-- A lookup finds its page in the cache, and sees that no checkpoint is running. -/
  | hit (off : Nat)
  /-- It moves the cache entry. -/
  | move (off : Nat)
  /-- `map_upsert` updates an entry of the cache entry that it has found. -/
  | update (call : UpsertCall) (slot : Nat)
  /-- A lookup finds no free entry, and `map_evict_pg_cache` takes the first used one. -/
  | evict
  /-- The next step of the job. -/
  | job
  /-- The next step of the flush. -/
  | flush
  deriving DecidableEq, Repr

section

variable (env : Env) (ch : Nat)

/-! ## Steps -/

/-- `map_load_pg_cache` after it has taken a free entry. -/
def loadTaken (state : State) (off slot firstLba : Nat) : State × Int :=
  let state := state.setSlot ch slot fun entry => { entry with mdEntry := some off }
  let ppa := (state.entry ch off).ppa
  let loaded :=
    if ppa = 0 then
      (state.setSlot ch slot fun entry =>
        { entry with buf := firstTouch firstLba, dirty := true }, true)
    else if env.readOk state.reads then
      (state.countRead.setSlot ch slot fun entry =>
        { entry with buf := state.nvm ppa, ppa := ppa }, true)
    else
      (state.countRead.setSlot ch slot fun entry =>
        { entry with mdEntry := none, ppa := 0 }, false)
  match loaded with
  | (state, false) =>
      (state.setLists ch fun lists =>
        { lists with mbfHead := slot :: lists.mbfHead, nfree := lists.nfree + 1 }, -1)
  | (state, true) =>
      ((state.setPpa ch off (mapAddrFlag + slot)).setLists ch fun lists =>
        { lists with mbuHead := lists.mbuHead ++ [slot], nused := lists.nused + 1 }, 0)

/-- The first free entry is taken off the list. -/
def popFree (state : State) (rest : List Nat) : State :=
  state.setLists ch fun lists => { lists with mbfHead := rest, nfree := lists.nfree - 1 }

/-- An entry of the small table is copied into the immutable one. -/
def copyEntry (state : State) (off : Nat) : State :=
  state.setChan ch fun chan =>
    { chan with md := { chan.md with
        immut := Function.update chan.md.immut off (chan.md.tbl off) } }

/-- `map_evict_process` starts with a cache entry. -/
def startJob (state : State) (slot : Nat) (evicts setImmut : Bool) : Option Job :=
  (state.slot ch slot).mdEntry.map fun off =>
    { slot := slot, off := off, evicts := evicts, setImmut := setImmut }

/-- `map_evict_pg_cache` takes the first used entry; then the flush is at `pc`. -/
def evictFirst (run : CpState) (isCheckpoint : Bool) (pc : FlushPc) : CpState :=
  match (run.state.lists ch).mbuHead with
  | [] => run
  | slot :: rest =>
      match startJob ch run.state slot true isCheckpoint with
      | some job => { run with state := taken run.state ch rest, job := some job, pc := pc }
      | none => run

/-- The next step of `map_flush_ch_cache`, without the steps of its jobs. -/
def flushStep (run : CpState) : CpState :=
  let lists := run.state.lists ch
  match run.pc with
  | .start => if run.job.isNone then { run with pc := .copy 0 } else run
  | .copy next =>
      if next < env.conf.entries then
        if run.locks next = none then
          { run with state := copyEntry ch run.state next, pc := .copy (next + 1) }
        else run
      else { run with pc := .sample }
  | .sample => { run with pc := .test lists.nused none }
  | .test 0 _ => { run with pc := .done }
  | .test (n + 1) ent =>
      { run with pc := if lists.mbfHead = [] then .first (n + 1) ent else .next (n + 1) ent }
  | .first n ent => { run with pc := .evict n (if lists.mbuHead.head? = ent then none else ent) }
  | .evict n ent =>
      if lists.mbuHead = [] then { run with pc := .test n ent }
      else evictFirst ch run true (.evicting n ent)
  | .next n ent =>
      match nextUsed lists.mbuHead ent with
      | none => { run with pc := .test n none }
      | some slot =>
          match startJob ch run.state slot false true with
          | some job => { run with job := some job, pc := .persisting n slot }
          | none => { run with pc := .test (n - 1) (some slot) }
  | _ => run

/-- Where the flush is when its job is over: the entry is persisted, or could not be written. -/
def FlushPc.resume (pc : FlushPc) (job : Job) : FlushPc :=
  let left (n : Nat) := match job.pc with
    | .copy _ _ => n
    | _ => n - 1
  match pc with
  | .evicting n ent => .test (left n) ent
  | .persisting n slot => .test (left n) (some slot)
  | pc => pc

/-- A thread takes a step, if it is at the place for it. -/
def cpStep (run : CpState) : CpStep → CpState
  | .take off =>
      if off < env.conf.entries ∧ run.locks off = none ∧
          addrFlag (run.state.entry ch off).ppa = false then
        match (run.state.lists ch).mbfHead with
        | [] => run
        | slot :: rest =>
            { run with
              state := popFree ch run.state rest
              locks := Function.update run.locks off (some (.load slot)) }
      else run
  | .link off =>
      match run.locks off with
      | some (.load slot) =>
          { run with
            state := (loadTaken env ch run.state off slot (firstLba env.conf ch off)).1
            locks := Function.update run.locks off none }
      | _ => run
  | .hit off =>
      let ppa := (run.state.entry ch off).ppa
      if off < env.conf.entries ∧ run.locks off = none ∧ addrFlag ppa = true ∧
          run.pc.cpRunning = false then
        { run with locks := Function.update run.locks off (some (.touch (addrPtr ppa))) }
      else run
  | .move off =>
      match run.locks off with
      | some (.touch slot) =>
          { run with
            state := touched run.state ch slot
            locks := Function.update run.locks off none }
      | _ => run
  | .update call slot => { run with state := (updateStep env.conf run.state call slot).1 }
  | .evict =>
      if run.pc.cpRunning = false ∧ run.job.isNone then evictFirst ch run false run.pc else run
  | .job =>
      match run.job with
      | some job =>
          match jobStep env run.state ch job with
          | (state, some next) => { run with state := state, job := some next }
          | (state, none) => { run with state := state, job := none, pc := run.pc.resume job }
      | none => run
  | .flush => flushStep env ch run

/-- The channel with its threads as a system. -/
def cpSystem : System CpState CpStep Unit where
  step run step := (cpStep env ch run step, ())

end

/-! ## Runs without the defects -/

/-- If the flush finds no free entry, then it has not gone on to an entry of the used list.  The
entry that a lookup moves is in the used list. -/
def CpStep.Safe (ch : Nat) (run : CpState) : CpStep → Prop
  | .flush =>
      match run.pc with
      | .test (_ + 1) ent => (run.state.lists ch).mbfHead = [] → ent = none
      | _ => True
  | .move off =>
      match run.locks off with
      | some (.touch slot) => run.pc = .done ∨ slot ∈ (run.state.lists ch).mbuHead
      | _ => True
  | _ => True

instance CpStep.decidableSafe (ch : Nat) (run : CpState) (step : CpStep) :
    Decidable (step.Safe ch run) := by
  unfold CpStep.Safe
  split
  · split <;> infer_instance
  · split <;> infer_instance
  · infer_instance

end OxCtrl.GlMap
