import OxCtrl.GlMap.Threads

/-!
# Updates beside evictions and checkpoints

Every update that comes before its entry is copied, or after the persist has cleared the flag,
while the cache entry still holds the page, is kept.
-/

namespace OxCtrl.GlMap

open Lib

variable {env : Env} {conf : Conf} {state state' : State} {ch off idx slot : Nat}
  {rest : List Nat} {job : Job} {running : Option Job} {threads : Threads}

/-! ## Invariant -/

/-- A cache entry is blank. -/
structure Blank (conf : Conf) (state : State) (ch slot : Nat) : Prop where
  unused : Unused conf state ch slot
  mdEntry : (state.slot ch slot).mdEntry = none
  ppa : (state.slot ch slot).ppa = 0
  dirty : (state.slot ch slot).dirty = false

/-- The NVM page of a cache entry has the contents of its buffer. -/
structure Stored (conf : Conf) (state : State) (ch slot : Nat) : Prop where
  ppa : (state.slot ch slot).ppa ≠ 0
  nvm : ∀ idx < conf.entPerPg,
    state.nvm (state.slot ch slot).ppa idx = (state.slot ch slot).buf idx

/-- If the job writes its page now, it writes what is in the buffer. -/
def Job.Fresh (env : Env) (state : State) (ch : Nat) (job : Job) : Prop :=
  match job.pc with
  | .copy _ next => env.conf.entPerPg ≤ next → (env.newFn state).isSome = true →
      ∀ idx < env.conf.entPerPg, job.image idx = (state.slot ch job.slot).buf idx
  | _ => True

/-- The job has not passed the flag of its cache entry, or the page stays in the cache. -/
def Job.Admits (job : Job) : Prop :=
  match job.pc with
  | .test => True
  | .copy _ _ => True
  | .finish _ => job.evicts = false
  | _ => False

instance (env : Env) (state : State) (ch : Nat) (job : Job) :
    Decidable (job.Fresh env state ch) := by
  unfold Job.Fresh
  split <;> infer_instance

instance (job : Job) : Decidable job.Admits := by
  unfold Job.Admits
  split <;> infer_instance

/-- What holds of the cache entry of a job. -/
def Stage (conf : Conf) (state : State) (ch : Nat) (job : Job) : Prop :=
  match job.pc with
  | .test => Holds conf state ch job.off job.slot
  | .copy _ _ => Holds conf state ch job.off job.slot
  | .clear => Holds conf state ch job.off job.slot ∧ Stored conf state ch job.slot
  | .finish _ => Holds conf state ch job.off job.slot ∧
      (job.evicts = true → (state.slot ch job.slot).dirty = false)
  | .writeBack => Holds conf state ch job.off job.slot ∧
      (state.slot ch job.slot).dirty = false
  | .release => Unused conf state ch job.slot ∧ (state.slot ch job.slot).dirty = false
  | .insert => Blank conf state ch job.slot

/-- A job works on an entry that is not free. -/
structure JobOk (conf : Conf) (state : State) (ch : Nat) (job : Job) : Prop where
  below : job.slot < conf.cap
  taken : job.slot ∉ (state.lists ch).mbfHead
  stage : Stage conf state ch job

/-- The free list links blank entries. -/
structure FreeOk (conf : Conf) (state : State) (ch : Nat) : Prop where
  nodup : (state.lists ch).mbfHead.Nodup
  below : ∀ slot ∈ (state.lists ch).mbfHead, slot < conf.cap
  blank : ∀ slot ∈ (state.lists ch).mbfHead, Blank conf state ch slot

/-- The job is about to make the cache entry forget its page. -/
def Releases (running : Option Job) (slot : Nat) : Prop :=
  ∃ job, running = some job ∧ job.slot = slot ∧ job.pc = .release

/-- Invariant of a channel. -/
structure ChanOk (conf : Conf) (state : State) (running : Option Job) (ch : Nat) : Prop where
  free : FreeOk conf state ch
  back : ∀ slot < conf.cap, ∀ off, (state.slot ch slot).mdEntry = some off →
    Releases running slot ∨ Holds conf state ch off slot
  job : ∀ job, running = some job → JobOk conf state ch job

/-- Invariant of the mapping with its threads. -/
structure ThreadsOk (conf : Conf) (threads : Threads) : Prop where
  pages : PagesOk conf threads.state
  chans : ∀ ch < conf.nch, ChanOk conf threads.state (threads.jobs ch) ch
  calls : ∀ thread call, (threads.upserts thread).call? = some call → Covered conf call.lba

/-! ## What a channel depends on -/

/-- A step that leaves a channel alone. -/
structure SameChan (conf : Conf) (state state' : State) (ch : Nat) : Prop where
  entry : ∀ off, state'.entry ch off = state.entry ch off
  slot : ∀ slot, state'.slot ch slot = state.slot ch slot
  free : (state'.lists ch).mbfHead = (state.lists ch).mbfHead
  nvm : ∀ addr, Live conf state addr → state'.nvm addr = state.nvm addr

namespace SameChan

theorem holds (same : SameChan conf state state' ch) (holds : Holds conf state ch off slot) :
    Holds conf state' ch off slot :=
  ⟨holds.ch_lt, holds.off_lt, by rw [same.entry]; exact holds.ppa⟩

theorem unused (same : SameChan conf state state' ch) (unused : Unused conf state ch slot) :
    Unused conf state' ch slot := by
  intro off offLt
  rw [same.entry]
  exact unused off offLt

theorem blank (same : SameChan conf state state' ch) (blank : Blank conf state ch slot) :
    Blank conf state' ch slot := by
  refine ⟨same.unused blank.unused, ?_, ?_, ?_⟩ <;> rw [same.slot]
  · exact blank.mdEntry
  · exact blank.ppa
  · exact blank.dirty

theorem stored (same : SameChan conf state state' ch) (pages : PagesOk conf state)
    (holds : Holds conf state ch off slot) (stored : Stored conf state ch slot) :
    Stored conf state' ch slot := by
  refine ⟨?_, ?_⟩ <;> rw [same.slot]
  · exact stored.ppa
  · rw [same.nvm _ (live_of_holds pages holds)]
    exact stored.nvm

theorem jobOk (same : SameChan conf state state' ch) (pages : PagesOk conf state)
    (ok : JobOk conf state ch job) : JobOk conf state' ch job := by
  refine ⟨ok.below, by rw [same.free]; exact ok.taken, ?_⟩
  have stage := ok.stage
  cases pc : job.pc <;> simp only [Stage, pc, same.slot] at stage ⊢
  case test => exact same.holds stage
  case copy => exact same.holds stage
  case clear => exact ⟨same.holds stage.1, same.stored pages stage.1 stage.2⟩
  case finish => exact ⟨same.holds stage.1, stage.2⟩
  case writeBack => exact ⟨same.holds stage.1, stage.2⟩
  case release => exact ⟨same.unused stage.1, stage.2⟩
  case insert => exact same.blank stage

theorem freeOk (same : SameChan conf state state' ch) (ok : FreeOk conf state ch) :
    FreeOk conf state' ch := by
  refine ⟨?_, ?_, ?_⟩ <;> rw [same.free]
  · exact ok.nodup
  · exact ok.below
  · exact fun slot mem => same.blank (ok.blank slot mem)

theorem chanOk (same : SameChan conf state state' ch) (pages : PagesOk conf state)
    (ok : ChanOk conf state running ch) : ChanOk conf state' running ch where
  free := same.freeOk ok.free
  back slot below off mdEntry := by
    rw [same.slot] at mdEntry
    exact (ok.back slot below off mdEntry).imp id same.holds
  job job eq := same.jobOk pages (ok.job job eq)

end SameChan

/-! ## What a step does -/

/-- The value at `place` after an update. -/
def updated : Option (Nat × Nat) → Nat → Nat → Nat
  | none, _, old => old
  | some (lba, ppa), place, old => if place = lba then ppa else old

/-- What a step on a channel does to the mapping. -/
structure ChanStep (conf : Conf) (state state' : State) (ch : Nat) (running : Option Job)
    (result : Option (Nat × Nat)) : Prop where
  pages : PagesOk conf state'
  chan : ChanOk conf state' running ch
  others : ∀ other, other ≠ ch → SameChan conf state state' other
  view : ∀ ch < conf.nch, ∀ off < conf.entries, ∀ idx < conf.entPerPg,
    view state' ch off idx = updated result (firstLba conf ch off + idx) (view state ch off idx)
  present : ∀ ch off, (state.entry ch off).ppa ≠ 0 → (state'.entry ch off).ppa ≠ 0

/-- A step that no channel sees. -/
theorem moved_of_same (pages : PagesOk conf state)
    (same : ∀ other, SameChan conf state state' other)
    (chan : ChanOk conf state' running ch) : ChanStep conf state state' ch running none where
  pages :=
    pages.congr (fun other => (same other).entry) (fun other => (same other).slot) (same 0).nvm
  chan := chan
  others other _ := same other
  view other otherLt off offLt idx _ := by
    rw [updated, view_congr otherLt offLt (fun other => (same other).entry)
      (fun other => (same other).slot) (same 0).nvm]
  present other off stored := by
    rw [(same other).entry]
    exact stored

/-! ## Jobs -/

/-- Global provisioning hands out a page that is not in use, at a non-zero address with bit 63
clear, or none. -/
def Provision (env : Env) : Prop :=
  ∀ state addr, PagesOk env.conf state → env.newFn state = some addr →
    addr ≠ 0 ∧ addr < mapAddrFlag ∧ ¬ Live env.conf state addr

/-- Changing the entry of a job leaves the other channels alone. -/
theorem sameChan_setSlot {change : CacheEntry → CacheEntry} {other : Nat} (differ : other ≠ ch) :
    SameChan conf state (state.setSlot ch slot change) other where
  entry off := by simp
  slot otherSlot := by rw [State.slot_setSlot, if_neg fun both => differ both.1]
  free := by simp
  nvm _ _ := by simp

/-- Changing an entry that is not free leaves the free list alone. -/
theorem FreeOk.setSlot {change : CacheEntry → CacheEntry} (ok : FreeOk conf state ch)
    (taken : slot ∉ (state.lists ch).mbfHead) : FreeOk conf (state.setSlot ch slot change) ch := by
  refine ⟨?_, ?_, ?_⟩ <;> rw [State.lists_setSlot]
  · exact ok.nodup
  · exact ok.below
  · intro free mem
    have blank := ok.blank free mem
    have differ : ¬ (ch = ch ∧ free = slot) := fun both => taken (both.2 ▸ mem)
    refine ⟨?_, ?_, ?_, ?_⟩
    · intro off offLt
      rw [State.entry_setSlot]
      exact blank.unused off offLt
    all_goals rw [State.slot_setSlot, if_neg differ]
    · exact blank.mdEntry
    · exact blank.ppa
    · exact blank.dirty

/-- A job that has not given the page back is the only one that could. -/
theorem ChanOk.holds_of_mdEntry (ok : ChanOk conf state (some job) ch) (pc : job.pc ≠ .release)
    (below : slot < conf.cap) (mdEntry : (state.slot ch slot).mdEntry = some off) :
    Holds conf state ch off slot := by
  rcases ok.back slot below off mdEntry with ⟨found, eq, -, releases⟩ | holds
  · obtain rfl := Option.some.inj eq
    exact absurd releases pc
  · exact holds

theorem SameChan.refl (state : State) (ch : Nat) : SameChan conf state state ch :=
  ⟨fun _ => rfl, fun _ => rfl, rfl, fun _ _ => rfl⟩

/-- A job changes its entry, and the page stays in it. -/
theorem moved_setSlot {prior : State} {change : CacheEntry → CacheEntry}
    (same : ∀ other, SameChan conf prior state other) (priorPages : PagesOk conf prior)
    (ok : ChanOk conf prior (some job) ch) (pc : job.pc ≠ .release)
    (holds : Holds conf state ch job.off job.slot)
    (slotOk : SlotOk conf (state.setSlot ch job.slot change) ch job.off job.slot)
    (buf : (change (state.slot ch job.slot)).buf = (state.slot ch job.slot).buf)
    (mdEntry : (change (state.slot ch job.slot)).mdEntry = (state.slot ch job.slot).mdEntry)
    {next : Job} (slot : next.slot = job.slot)
    (stage : Stage conf (state.setSlot ch job.slot change) ch next) :
    ChanStep conf prior (state.setSlot ch job.slot change) ch (some next) none := by
  have chanOk := (same ch).chanOk priorPages ok
  have jobOk := chanOk.job job rfl
  have pages : PagesOk conf state :=
    priorPages.congr (fun other => (same other).entry) (fun other => (same other).slot) (same 0).nvm
  refine ⟨pagesOk_setSlot pages holds slotOk, ⟨?_, ?_, ?_⟩, ?_, ?_, ?_⟩
  · exact chanOk.free.setSlot jobOk.taken
  · intro other below off found
    have old : (state.slot ch other).mdEntry = some off := by
      rw [State.slot_setSlot] at found
      split at found
      · rename_i both
        rw [both.2, ← mdEntry]
        exact found
      · exact found
    have still := chanOk.holds_of_mdEntry pc below old
    exact Or.inr ⟨still.ch_lt, still.off_lt, by rw [State.entry_setSlot]; exact still.ppa⟩
  · rintro later eq
    obtain rfl := Option.some.inj eq
    refine ⟨slot ▸ jobOk.below, ?_, stage⟩
    rw [slot, State.lists_setSlot]
    exact jobOk.taken
  · intro other differ
    have left : SameChan conf state (state.setSlot ch job.slot change) other :=
      sameChan_setSlot differ
    exact ⟨fun off => (left.entry off).trans ((same other).entry off),
      fun found => (left.slot found).trans ((same other).slot found),
      left.free.trans (same other).free, fun addr live => (same other).nvm addr live⟩
  · intro other otherLt otherOff otherOffLt idx _
    rw [updated, view_setSlot pages holds otherLt otherOffLt, buf]
    have old := view_congr otherLt otherOffLt (fun other => (same other).entry)
      (fun other => (same other).slot) (same 0).nvm
    split
    · rename_i both
      obtain ⟨rfl, rfl⟩ := both
      rw [← old, view, holds.ppa, addrFlag_add, if_pos rfl, (pages.slotOk holds).addrPtr_eq]
    · rw [old]
  · intro other otherOff present
    rw [State.entry_setSlot, (same other).entry]
    exact present

/-- A job that keeps its page moves on, or ends. -/
theorem ChanOk.replace (ok : ChanOk conf state (some job) ch) (pc : job.pc ≠ .release)
    (next : ∀ later, running = some later → JobOk conf state ch later) :
    ChanOk conf state running ch where
  free := ok.free
  back _ below _ mdEntry := Or.inr (ok.holds_of_mdEntry pc below mdEntry)
  job := next

/-- A job starts with an entry that holds a page. -/
theorem ChanOk.start (ok : ChanOk conf state none ch) (below : slot < conf.cap)
    (mdEntry : (state.slot ch slot).mdEntry = some off) (evicts setImmut : Bool) :
    ChanOk conf state
      (some { slot := slot, off := off, evicts := evicts, setImmut := setImmut }) ch := by
  have held (found : Nat) (foundLt : found < conf.cap) (other : Nat)
      (eq : (state.slot ch found).mdEntry = some other) : Holds conf state ch other found := by
    rcases ok.back found foundLt other eq with ⟨_, running, -⟩ | holds
    · contradiction
    · exact holds
  refine ⟨ok.free, fun found foundLt other eq => Or.inr (held found foundLt other eq), ?_⟩
  intro job eq
  obtain rfl := Option.some.inj eq
  refine ⟨below, fun mem => ?_, held slot below off mdEntry⟩
  rw [(ok.free.blank slot mem).mdEntry] at mdEntry
  contradiction

/-- A job moves on without a change of the mapping. -/
theorem moved_on (same : ∀ other, SameChan conf state state' other) (pages : PagesOk conf state)
    (ok : ChanOk conf state (some job) ch) (pc : job.pc ≠ .release)
    (next : ∀ later, running = some later → later.slot = job.slot ∧ Stage conf state' ch later) :
    ChanStep conf state state' ch running none := by
  have chanOk := (same ch).chanOk pages ok
  have jobOk := chanOk.job job rfl
  apply moved_of_same pages same
  apply chanOk.replace pc
  intro later eq
  obtain ⟨slot, stage⟩ := next later eq
  exact ⟨slot ▸ jobOk.below, slot ▸ jobOk.taken, stage⟩

/-- A change of the lists that leaves the free list alone. -/
theorem sameChan_setLists {change : CacheLists → CacheLists}
    (keeps : ∀ lists, (change lists).mbfHead = lists.mbfHead) (other : Nat) :
    SameChan conf state (state.setLists ch change) other where
  entry off := by simp
  slot found := by simp
  free := by
    rw [State.lists_setLists]
    split
    · rename_i same
      rw [keeps, same]
    · rfl
  nvm _ _ := by simp

/-- An entry becomes the hottest one. -/
theorem sameChan_touched (state : State) (ch slot other : Nat) :
    SameChan conf state (touched state ch slot) other := by
  apply sameChan_setLists
  intro lists
  rfl

/-- A page is written at an address that is not in use. -/
theorem sameChan_writePage {addr : Nat} {page : Nat → MapEntry} {log : MapLog}
    (fresh : ¬ Live conf state addr) (other : Nat) :
    SameChan conf state (state.writePage addr page log) other where
  entry _ := rfl
  slot _ := rfl
  free := rfl
  nvm found live := by
    rw [State.nvm_writePage, if_neg]
    rintro rfl
    exact fresh live

section

variable (provision : Provision env) (pages : PagesOk env.conf state)
  (ok : ChanOk env.conf state (some job) ch)

include pages ok

theorem test_moved (pc : job.pc = .test) :
    ChanStep env.conf state (jobStep env state ch job).1 ch (jobStep env state ch job).2 none := by
  have stage := (ok.job job rfl).stage
  simp only [Stage, pc] at stage
  simp only [jobStep, pc]
  apply moved_on (SameChan.refl state) pages ok (by simp [pc])
  rintro later eq
  obtain rfl := Option.some.inj eq
  refine ⟨rfl, ?_⟩
  cases dirty : (state.slot ch job.slot).dirty with
  | true => exact stage
  | false => exact ⟨stage, fun _ => dirty⟩

include provision in
theorem copy_moved {retry next : Nat} (pc : job.pc = .copy retry next)
    (fresh : job.Fresh env state ch) :
    ChanStep env.conf state (jobStep env state ch job).1 ch (jobStep env state ch job).2 none := by
  have stage := (ok.job job rfl).stage
  have keeps : job.pc ≠ .release := by simp [pc]
  simp only [Stage, Job.Fresh, pc] at stage fresh
  have holds : Holds env.conf state ch job.off job.slot := stage
  simp only [jobStep, pc]
  split
  · -- an entry is copied
    apply moved_on (SameChan.refl state) pages ok keeps
    rintro later eq
    obtain rfl := Option.some.inj eq
    exact ⟨rfl, holds⟩
  · rename_i all
    cases new : env.newFn state with
    | none =>
        dsimp only
        split
        · refine moved_on (fun other => ?_) pages ok keeps (by simp)
          have relinked : SameChan env.conf { state with writes := state.writes + 1 }
              ({ state with writes := state.writes + 1 }.setLists ch fun lists =>
                { lists with mbuHead := job.slot :: lists.mbuHead, nused := lists.nused + 1 })
              other := by
            apply sameChan_setLists
            intro lists
            rfl
          exact ⟨relinked.entry, relinked.slot, relinked.free, fun _ _ => rfl⟩
        · refine moved_on (fun other => ⟨fun _ => rfl, fun _ => rfl, rfl, fun _ _ => rfl⟩) pages ok
            keeps ?_
          rintro later eq
          obtain rfl := Option.some.inj eq
          exact ⟨rfl, holds.ch_lt, holds.off_lt, holds.ppa⟩
    | some addr =>
        obtain ⟨addrPos, addrLt, unused⟩ := provision state addr pages new
        have slotOk := pages.slotOk holds
        dsimp only
        set log : MapLog := ⟨.map, (state.entry ch job.off).lba, addr, job.old⟩
        have same : ∀ other, SameChan env.conf state (state.writePage addr job.image log) other :=
          sameChan_writePage unused
        have stored : ∀ idx < env.conf.entPerPg,
            job.image idx = (state.slot ch job.slot).buf idx :=
          fresh (Nat.le_of_not_lt all) (by rw [new]; rfl)
        refine moved_setSlot same pages ok keeps ((same ch).holds holds) ?_ rfl rfl rfl ?_
        · refine ⟨slotOk.below, ?_, ?_, ?_, ?_⟩ <;> rw [State.slot_setSlot, if_pos ⟨rfl, rfl⟩]
          · exact slotOk.mdEntry
          · exact slotOk.lba
          · exact addrLt
          · intro _
            refine ⟨addrPos, fun idx idxLt => ?_⟩
            simpa [State.nvm_writePage] using stored idx idxLt
        · refine ⟨⟨holds.ch_lt, holds.off_lt, ?_⟩, ?_, ?_⟩
          · rw [State.entry_setSlot]
            exact holds.ppa
          · simpa [State.slot_setSlot] using addrPos
          · intro idx idxLt
            simpa [State.slot_setSlot, State.nvm_writePage] using stored idx idxLt

theorem clear_moved (pc : job.pc = .clear) :
    ChanStep env.conf state (jobStep env state ch job).1 ch (jobStep env state ch job).2 none := by
  have stage := (ok.job job rfl).stage
  simp only [Stage, pc] at stage
  obtain ⟨holds, stored⟩ := stage
  have slotOk := pages.slotOk holds
  simp only [jobStep, pc]
  refine moved_setSlot (SameChan.refl state) pages ok (by simp [pc]) holds ?_ rfl rfl rfl ?_
  · refine ⟨slotOk.below, ?_, ?_, ?_, ?_⟩ <;> rw [State.slot_setSlot, if_pos ⟨rfl, rfl⟩]
    · exact slotOk.mdEntry
    · exact slotOk.lba
    · exact slotOk.ppa_lt
    · exact fun _ => ⟨stored.ppa, stored.nvm⟩
  · refine ⟨⟨holds.ch_lt, holds.off_lt, ?_⟩, fun _ => ?_⟩
    · rw [State.entry_setSlot]
      exact holds.ppa
    · rw [State.slot_setSlot, if_pos ⟨rfl, rfl⟩]

theorem finish_moved {wrote : Bool} (pc : job.pc = .finish wrote) :
    ChanStep env.conf state (jobStep env state ch job).1 ch (jobStep env state ch job).2 none := by
  have stage := (ok.job job rfl).stage
  simp only [Stage, pc] at stage
  obtain ⟨holds, clean⟩ := stage
  simp only [jobStep, pc]
  let marked : State :=
    if wrote then
      (oxbChMapMark state ch (markIndex env.conf (state.entry ch job.off).lba)).invalidate job.old
    else state
  have markedSame (other : Nat) : SameChan env.conf state marked other := by
    simp only [marked]
    split
    · exact ⟨by simp, by simp, by simp, by simp⟩
    · exact SameChan.refl state other
  have same (other : Nat) : SameChan env.conf state
      (if job.setImmut then marked.setImmut ch job.off (state.slot ch job.slot).ppa
        else marked) other := by
    split
    · exact ⟨by simpa using (markedSame other).entry, by simpa using (markedSame other).slot,
        by simpa using (markedSame other).free, by simpa using (markedSame other).nvm⟩
    · exact markedSame other
  apply moved_on same pages ok (by simp [pc])
  intro later eq
  split at eq
  · rename_i evicts
    obtain rfl := Option.some.inj eq
    refine ⟨rfl, (same ch).holds holds, ?_⟩
    rw [(same ch).slot]
    exact clean evicts
  · contradiction

theorem writeBack_moved (pc : job.pc = .writeBack) :
    ChanStep env.conf state (jobStep env state ch job).1 ch (jobStep env state ch job).2 none := by
  have jobOk := ok.job job rfl
  have stage := jobOk.stage
  simp only [Stage, pc] at stage
  obtain ⟨holds, clean⟩ := stage
  have slotOk := pages.slotOk holds
  have stored := slotOk.clean clean
  have below := slotOk.ppa_lt
  simp only [jobStep, pc]
  -- no other cache entry is in the changed entry of the small table
  have still {other otherOff : Nat} (differ : other ≠ job.slot)
      (entry : (state.entry ch otherOff).ppa = mapAddrFlag + other) :
      ((state.setPpa ch job.off (state.slot ch job.slot).ppa).entry ch otherOff).ppa =
        mapAddrFlag + other := by
    rw [State.entry_setPpa, if_neg]
    · exact entry
    · rintro ⟨-, rfl⟩
      rw [holds.ppa] at entry
      exact differ (by omega)
  have unused {other : Nat} (unused : Unused env.conf state ch other) :
      Unused env.conf (state.setPpa ch job.off (state.slot ch job.slot).ppa) ch other := by
    intro off offLt
    rw [State.entry_setPpa]
    split
    · dsimp only
      omega
    · exact unused off offLt
  refine ⟨pagesOk_setPpa pages holds clean, ⟨⟨?_, ?_, ?_⟩, ?_, ?_⟩, ?_, ?_, ?_⟩
  · simpa using ok.free.nodup
  · simpa using ok.free.below
  · intro free mem
    rw [State.lists_setPpa] at mem
    have blank := ok.free.blank free mem
    refine ⟨unused blank.unused, ?_, ?_, ?_⟩ <;> rw [State.slot_setPpa]
    · exact blank.mdEntry
    · exact blank.ppa
    · exact blank.dirty
  · intro other otherLt off mdEntry
    rw [State.slot_setPpa] at mdEntry
    by_cases differ : other = job.slot
    · exact Or.inl ⟨_, rfl, differ.symm, rfl⟩
    · have old := ok.holds_of_mdEntry (by simp [pc]) otherLt mdEntry
      exact Or.inr ⟨old.ch_lt, old.off_lt, still differ old.ppa⟩
  · rintro later eq
    obtain rfl := Option.some.inj eq
    refine ⟨jobOk.below, ?_, unused_setPpa pages holds, ?_⟩
    · simpa using jobOk.taken
    · simpa using clean
  · intro other differ
    refine ⟨fun off => ?_, by simp, by simp, by simp⟩
    rw [State.entry_setPpa, if_neg fun both => differ both.1]
  · intro other _ otherOff _ idx idxLt
    rw [updated, view_setPpa pages holds clean idxLt]
  · intro other otherOff present
    rw [State.entry_setPpa]
    split
    · exact stored.1
    · exact present

theorem release_moved (pc : job.pc = .release) :
    ChanStep env.conf state (jobStep env state ch job).1 ch (jobStep env state ch job).2 none := by
  have jobOk := ok.job job rfl
  have stage := jobOk.stage
  simp only [Stage, pc] at stage
  obtain ⟨unused, clean⟩ := stage
  simp only [jobStep, pc]
  refine ⟨pagesOk_setSlot_unused pages unused, ⟨ok.free.setSlot jobOk.taken, ?_, ?_⟩, ?_, ?_, ?_⟩
  · intro other below off mdEntry
    rw [State.slot_setSlot] at mdEntry
    split at mdEntry
    · contradiction
    · rename_i differ
      rcases ok.back other below off mdEntry with ⟨found, eq, slot, -⟩ | old
      · obtain rfl := Option.some.inj eq
        exact absurd ⟨rfl, slot.symm⟩ differ
      · exact Or.inr ⟨old.ch_lt, old.off_lt, by rw [State.entry_setSlot]; exact old.ppa⟩
  · rintro later eq
    obtain rfl := Option.some.inj eq
    refine ⟨jobOk.below, by rw [State.lists_setSlot]; exact jobOk.taken, ?_⟩
    refine ⟨?_, ?_, ?_, ?_⟩
    · intro off offLt
      rw [State.entry_setSlot]
      exact unused off offLt
    all_goals rw [State.slot_setSlot, if_pos ⟨rfl, rfl⟩]
    exact clean
  · exact fun other differ => sameChan_setSlot differ
  · intro other otherLt otherOff otherOffLt idx _
    rw [updated, view_setSlot_unused pages unused otherLt otherOffLt]
  · simp

theorem insert_moved (pc : job.pc = .insert) :
    ChanStep env.conf state (jobStep env state ch job).1 ch (jobStep env state ch job).2 none := by
  have jobOk := ok.job job rfl
  have stage := jobOk.stage
  simp only [Stage, pc] at stage
  simp only [jobStep, pc]
  have blank {slot : Nat} (blank : Blank env.conf state ch slot) :
      Blank env.conf (state.setLists ch fun lists =>
        { lists with mbfHead := job.slot :: lists.mbfHead, nfree := lists.nfree + 1 }) ch slot := by
    refine ⟨?_, by simpa using blank.mdEntry, by simpa using blank.ppa,
      by simpa using blank.dirty⟩
    intro off offLt
    rw [State.entry_setLists]
    exact blank.unused off offLt
  refine ⟨pagesOk_setLists pages, ⟨⟨?_, ?_, ?_⟩, ?_, by simp⟩, ?_, ?_, ?_⟩
  · rw [State.lists_setLists, if_pos rfl]
    exact List.nodup_cons.mpr ⟨jobOk.taken, ok.free.nodup⟩
  · intro free mem
    rw [State.lists_setLists, if_pos rfl] at mem
    rcases List.mem_cons.mp mem with rfl | mem
    · exact jobOk.below
    · exact ok.free.below free mem
  · intro free mem
    rw [State.lists_setLists, if_pos rfl] at mem
    rcases List.mem_cons.mp mem with rfl | mem
    · exact blank stage
    · exact blank (ok.free.blank free mem)
  · intro other below off mdEntry
    rw [State.slot_setLists] at mdEntry
    have old := ok.holds_of_mdEntry (by simp [pc]) below mdEntry
    exact Or.inr ⟨old.ch_lt, old.off_lt, by rw [State.entry_setLists]; exact old.ppa⟩
  · intro other differ
    refine ⟨by simp, by simp, ?_, by simp⟩
    rw [State.lists_setLists, if_neg differ]
  · intro other _ otherOff _ idx _
    rw [updated, view_setLists]
  · simp

include provision in
/-- Every step of a job keeps the mapping. -/
theorem jobStep_moved (fresh : job.Fresh env state ch) :
    ChanStep env.conf state (jobStep env state ch job).1 ch (jobStep env state ch job).2 none := by
  cases pc : job.pc with
  | test => exact test_moved pages ok pc
  | copy retry next => exact copy_moved provision pages ok pc fresh
  | clear => exact clear_moved pages ok pc
  | finish wrote => exact finish_moved pages ok pc
  | writeBack => exact writeBack_moved pages ok pc
  | release => exact release_moved pages ok pc
  | insert => exact insert_moved pages ok pc

end

/-! ## Lookup -/

namespace Loaded

variable (loaded : Loaded conf state state' ch off slot rest)
include loaded

/-- Another entry of the small table is not affected. -/
theorem entry_of_holds (uncached : addrFlag (state.entry ch off).ppa = false)
    {other otherSlot : Nat} (holds : Holds conf state ch other otherSlot) :
    Holds conf state' ch other otherSlot := by
  refine ⟨holds.ch_lt, holds.off_lt, ?_⟩
  rw [loaded.entry, if_neg]
  · exact holds.ppa
  · rintro ⟨-, rfl⟩
    rw [holds.ppa, addrFlag_add] at uncached
    contradiction

theorem unused {other : Nat} (differ : other ≠ slot) (unused : Unused conf state ch other) :
    Unused conf state' ch other := by
  intro found foundLt
  rw [loaded.entry]
  split
  · dsimp only
    omega
  · exact unused found foundLt

theorem slot_of_ne {other : Nat} (differ : other ≠ slot) :
    state'.slot ch other = state.slot ch other := by
  rw [loaded.slots, if_neg fun both => differ both.2]

theorem blank {other : Nat} (differ : other ≠ slot) (blank : Blank conf state ch other) :
    Blank conf state' ch other := by
  refine ⟨loaded.unused differ blank.unused, ?_, ?_, ?_⟩ <;> rw [loaded.slot_of_ne differ]
  · exact blank.mdEntry
  · exact blank.ppa
  · exact blank.dirty

theorem jobOk (uncached : addrFlag (state.entry ch off).ppa = false)
    (free : (state.lists ch).mbfHead = slot :: rest) (ok : JobOk conf state ch job) :
    JobOk conf state' ch job := by
  have taken := ok.taken
  rw [free, List.mem_cons, not_or] at taken
  have lists := loaded.lists ch
  rw [if_pos rfl] at lists
  refine ⟨ok.below, by rw [lists]; exact taken.2, ?_⟩
  have stage := ok.stage
  cases pc : job.pc <;> simp only [Stage, pc, loaded.slot_of_ne taken.1] at stage ⊢
  case test => exact loaded.entry_of_holds uncached stage
  case copy => exact loaded.entry_of_holds uncached stage
  case clear =>
    refine ⟨loaded.entry_of_holds uncached stage.1, ?_, ?_⟩ <;> rw [loaded.slot_of_ne taken.1]
    · exact stage.2.ppa
    · rw [loaded.nvm]
      exact stage.2.nvm
  case finish => exact ⟨loaded.entry_of_holds uncached stage.1, stage.2⟩
  case writeBack => exact ⟨loaded.entry_of_holds uncached stage.1, stage.2⟩
  case release => exact ⟨loaded.unused taken.1 stage.1, stage.2⟩
  case insert => exact loaded.blank taken.1 stage

/-- Loading a page keeps the invariant and the mapping. -/
theorem moved (pages : PagesOk conf state) (ok : ChanOk conf state running ch)
    (chLt : ch < conf.nch) (offLt : off < conf.entries)
    (uncached : addrFlag (state.entry ch off).ppa = false)
    (free : (state.lists ch).mbfHead = slot :: rest) :
    ChanStep conf state state' ch running none := by
  have mem : slot ∈ (state.lists ch).mbfHead := by rw [free]; exact List.mem_cons_self
  have below := ok.free.below slot mem
  have unused := (ok.free.blank slot mem).unused
  have nodup := ok.free.nodup
  rw [free] at nodup
  have lists := loaded.lists ch
  rw [if_pos rfl] at lists
  have kept {other : Nat} (otherMem : other ∈ rest) :
      other ∈ (state.lists ch).mbfHead ∧ other ≠ slot := by
    refine ⟨by rw [free]; exact List.mem_cons_of_mem _ otherMem, ?_⟩
    rintro rfl
    exact (List.nodup_cons.mp nodup).1 otherMem
  refine ⟨loaded.pagesOk pages chLt offLt uncached below unused, ⟨⟨?_, ?_, ?_⟩, ?_, ?_⟩, ?_, ?_, ?_⟩
  · rw [lists]
    exact (List.nodup_cons.mp nodup).2
  · intro other otherMem
    rw [lists] at otherMem
    exact ok.free.below other (kept otherMem).1
  · intro other otherMem
    rw [lists] at otherMem
    exact loaded.blank (kept otherMem).2 (ok.free.blank other (kept otherMem).1)
  · intro other otherLt found mdEntry
    by_cases same : other = slot
    · subst same
      rw [loaded.slots, if_pos ⟨rfl, rfl⟩] at mdEntry
      obtain rfl := Option.some.inj mdEntry
      exact Or.inr ⟨chLt, offLt, by rw [loaded.entry, if_pos ⟨rfl, rfl⟩]⟩
    · rw [loaded.slot_of_ne same] at mdEntry
      exact (ok.back other otherLt found mdEntry).imp id (loaded.entry_of_holds uncached)
  · exact fun job eq => loaded.jobOk uncached free (ok.job job eq)
  · intro other differ
    refine ⟨fun found => ?_, fun found => ?_, ?_, fun _ _ => by rw [loaded.nvm]⟩
    · rw [loaded.entry, if_neg fun both => differ both.1]
    · rw [loaded.slots, if_neg fun both => differ both.1]
    · rw [loaded.lists, if_neg differ]
  · intro other otherLt otherOff otherOffLt idx _
    rw [updated, loaded.view_eq pages uncached below unused otherLt otherOffLt]
  · intro other otherOff present
    rw [loaded.entry]
    split
    · exact Nat.ne_of_gt (Nat.lt_of_lt_of_le (Nat.two_pow_pos 63) (Nat.le_add_right _ _))
    · exact present

end Loaded

/-- A failed read leaves the first free entry as it was. -/
theorem loadFree_failed (stored : (state.entry ch off).ppa ≠ 0)
    (failed : env.readOk state.reads = false) (free : (state.lists ch).mbfHead = slot :: rest)
    (blank : Blank conf state ch slot) (first : Nat) :
    ∃ state', loadFree env state ch off first = (state', -1) ∧
      ∀ other, SameChan conf state state' other := by
  have read : env.readOk
      ((state.setLists ch fun lists =>
        { lists with mbfHead := rest, nfree := lists.nfree - 1 }).setSlot ch slot
          fun entry => { entry with mdEntry := some off }).reads = false :=
    failed
  refine ⟨?done, ?eq, fun other => ⟨?_, ?_, ?_, ?_⟩⟩
  case eq =>
    simp only [loadFree, free, State.entry_setSlot, State.entry_setLists, stored, if_false, read,
      Bool.false_eq_true]
    rfl
  · simp
  · intro found
    simp only [State.slot_setLists, State.slot_setSlot, State.slot_countRead, and_self, if_true]
    split
    · rename_i both
      rw [both.1, both.2, ← blank.mdEntry, ← blank.ppa]
    · rfl
  · simp only [State.lists_setLists, State.lists_setSlot, State.lists_countRead, if_true]
    split
    · rename_i same
      rw [same, free]
    · rfl
  · simp

/-- A lookup keeps the invariant and the mapping. -/
theorem lookup_moved {lba : Nat} (pages : PagesOk env.conf state)
    (ok : ChanOk env.conf state running (chMap env.conf lba)) (covered : Covered env.conf lba)
    (cpRunning : Bool) :
    ChanStep env.conf state (lookup env state lba cpRunning).1 (chMap env.conf lba) running
      none := by
  have chLt := chMap_lt env.conf lba
  have offLt := covered.pgOff_lt
  have stays := moved_of_same pages (SameChan.refl state) ok
  simp only [lookup, if_neg offLt.not_ge]
  cases flag : addrFlag (state.entry (chMap env.conf lba) (pgOff env.conf lba)).ppa with
  | true =>
      simp only [not_true_eq_false, if_false]
      cases cpRunning with
      | true => exact stays
      | false =>
          have same : ∀ other, SameChan env.conf state (touched state (chMap env.conf lba)
              (addrPtr (state.entry (chMap env.conf lba) (pgOff env.conf lba)).ppa)) other :=
            sameChan_touched state _ _
          exact moved_of_same pages same ((same _).chanOk pages ok)
  | false =>
      simp only [Bool.false_eq_true, not_false_eq_true, if_true]
      cases free : (state.lists (chMap env.conf lba)).mbfHead with
      | nil => simpa [loadFree, free] using stays
      | cons slot rest =>
          have blank := ok.free.blank slot (by rw [free]; exact List.mem_cons_self)
          by_cases readable :
              (state.entry (chMap env.conf lba) (pgOff env.conf lba)).ppa = 0 ∨
                env.readOk state.reads = true
          · obtain ⟨state', eq, loaded⟩ := loadFree_loaded readable free ⟨blank.ppa, blank.dirty⟩
            rw [covered.firstLba_eq] at eq
            rw [eq]
            exact loaded.moved pages ok chLt offLt flag free
          · obtain ⟨stored, failed⟩ := not_or.mp readable
            obtain ⟨state', eq, same⟩ := loadFree_failed stored (by simpa using failed) free blank
              (lba / env.conf.entPerPg * env.conf.entPerPg)
            rw [eq]
            exact moved_of_same pages same ((same _).chanOk pages ok)

/-! ## Update -/

/-- An update of a page that is in the cache entry, with a job that admits it. -/
theorem update_moved {lba ppa : Nat} (pages : PagesOk conf state)
    (ok : ChanOk conf state running (chMap conf lba)) (covered : Covered conf lba)
    (holds : Holds conf state (chMap conf lba) (pgOff conf lba) slot)
    (admits : ∀ job, running = some job → job.slot = slot → job.Admits) :
    ChanStep conf state (updateEntry state (chMap conf lba) slot (entOff conf lba) lba ppa)
      (chMap conf lba) running (some (lba, ppa)) := by
  have slotOk := pages.slotOk holds
  have taken : slot ∉ (state.lists (chMap conf lba)).mbfHead := fun mem =>
    (ok.free.blank slot mem).unused _ holds.off_lt holds.ppa
  have still {off found : Nat} (old : Holds conf state (chMap conf lba) off found) :
      Holds conf (updateEntry state (chMap conf lba) slot (entOff conf lba) lba ppa)
        (chMap conf lba) off found :=
    ⟨old.ch_lt, old.off_lt, by rw [updateEntry, State.entry_setSlot]; exact old.ppa⟩
  refine ⟨pagesOk_setSlot pages holds (slotOk_updateEntry slotOk covered.lba_eq.symm),
    ⟨ok.free.setSlot taken, ?_, ?_⟩, fun other differ => sameChan_setSlot differ, ?_, ?_⟩
  · intro found below off mdEntry
    have old : (state.slot (chMap conf lba) found).mdEntry = some off := by
      rw [slot_updateEntry] at mdEntry
      split at mdEntry
      · rename_i both
        rw [both.2]
        exact mdEntry
      · exact mdEntry
    exact (ok.back found below off old).imp id still
  · intro job eq
    have jobOk := ok.job job eq
    refine ⟨jobOk.below, by rw [updateEntry, State.lists_setSlot]; exact jobOk.taken, ?_⟩
    have stage := jobOk.stage
    by_cases same : job.slot = slot
    · have allowed := admits job eq same
      cases pc : job.pc <;> simp only [Stage, Job.Admits, pc] at stage allowed ⊢
      case test => exact still stage
      case copy => exact still stage
      case finish =>
        refine ⟨still stage.1, fun evicts => ?_⟩
        rw [allowed] at evicts
        contradiction
    · have left : (updateEntry state (chMap conf lba) slot (entOff conf lba) lba ppa).slot
          (chMap conf lba) job.slot = state.slot (chMap conf lba) job.slot := by
        rw [slot_updateEntry, if_neg fun both => same both.2]
      have unused (old : Unused conf state (chMap conf lba) job.slot) :
          Unused conf (updateEntry state (chMap conf lba) slot (entOff conf lba) lba ppa)
            (chMap conf lba) job.slot := by
        intro off offLt
        rw [updateEntry, State.entry_setSlot]
        exact old off offLt
      cases pc : job.pc <;> simp only [Stage, pc, left] at stage ⊢
      case test => exact still stage
      case copy => exact still stage
      case clear =>
        refine ⟨still stage.1, ?_, ?_⟩ <;> rw [left]
        · exact stage.2.ppa
        · exact stage.2.nvm
      case finish => exact ⟨still stage.1, stage.2⟩
      case writeBack => exact ⟨still stage.1, stage.2⟩
      case release => exact ⟨unused stage.1, stage.2⟩
      case insert =>
        refine ⟨unused stage.unused, ?_, ?_, ?_⟩ <;> rw [left]
        · exact stage.mdEntry
        · exact stage.ppa
        · exact stage.dirty
  · intro ch chLt off offLt idx idxLt
    simp only [view_updateEntry pages holds chLt offLt, updated,
      firstLba_add_eq_iff chLt idxLt covered]
  · intro ch off present
    rw [updateEntry, State.entry_setSlot]
    exact present

/-! ## Steps -/

/-- LBAs are covered by the table, and channels and cache entries exist. -/
def MapStep.Enabled (conf : Conf) : MapStep → Prop
  | .lookup _ call _ => GlMap.Covered conf call.lba
  | .read lba _ => GlMap.Covered conf lba
  | .evict ch slot _ => ch < conf.nch ∧ slot < conf.cap
  | .persist ch slot => ch < conf.nch ∧ slot < conf.cap
  | .job ch => ch < conf.nch
  | _ => True

/-- An update finds the page in its cache entry, and no job of this entry has passed the flag
unless it leaves the page in the cache.  A page is written as it is in the buffer. -/
def MapStep.Safe (env : Env) (threads : Threads) : MapStep → Prop
  | .update thread =>
      match threads.upserts thread with
      | .checked call slot =>
          call.oldCaller = 0 ∨
              (bufEntry env.conf threads.state call.lba slot).ppa = call.oldCaller →
            (threads.state.entry (chMap env.conf call.lba) (pgOff env.conf call.lba)).ppa =
                mapAddrFlag + slot ∧
              ∀ job ∈ threads.jobs (chMap env.conf call.lba), job.slot = slot → job.Admits
      | _ => True
  | .job ch => ∀ job ∈ threads.jobs ch, job.Fresh env threads.state ch
  | _ => True

instance (conf : Conf) (step : MapStep) : Decidable (step.Enabled conf) := by
  cases step <;> unfold MapStep.Enabled <;> infer_instance

instance (env : Env) (threads : Threads) (step : MapStep) : Decidable (step.Safe env threads) := by
  unfold MapStep.Safe
  split
  · split <;> infer_instance
  · infer_instance
  · infer_instance

/-- What a step of a thread does. -/
structure Stepped (conf : Conf) (threads next : Threads) (result : Option (Nat × Nat)) :
    Prop where
  ok : ThreadsOk conf next
  view : ∀ ch < conf.nch, ∀ off < conf.entries, ∀ idx < conf.entPerPg,
    view next.state ch off idx =
      updated result (firstLba conf ch off + idx) (view threads.state ch off idx)
  present : ∀ ch off, (threads.state.entry ch off).ppa ≠ 0 → (next.state.entry ch off).ppa ≠ 0
  stored : ∀ lba ppa, result = some (lba, ppa) →
    (next.state.entry (chMap conf lba) (pgOff conf lba)).ppa ≠ 0

theorem Stepped.refl (ok : ThreadsOk conf threads) : Stepped conf threads threads none where
  ok := ok
  view _ _ _ _ _ _ := rfl
  present _ _ stored := stored
  stored _ _ eq := by simp at eq

theorem ThreadsOk.calls_update (ok : ThreadsOk conf threads) {thread : Nat} {pc : UpsertPc}
    (covered : ∀ call, pc.call? = some call → Covered conf call.lba) (other : Nat)
    (call : UpsertCall) (eq : (Function.update threads.upserts thread pc other).call? = some call) :
    Covered conf call.lba := by
  rw [Function.update_apply] at eq
  split at eq
  · exact covered call eq
  · exact ok.calls other call eq

theorem ChanStep.stepped {next : Threads} {result : Option (Nat × Nat)}
    (ok : ThreadsOk conf threads)
    (moved : ChanStep conf threads.state next.state ch (next.jobs ch) result)
    (jobs : ∀ other, other ≠ ch → next.jobs other = threads.jobs other)
    (calls : ∀ thread call, (next.upserts thread).call? = some call → Covered conf call.lba)
    (stored : ∀ lba ppa, result = some (lba, ppa) →
      (next.state.entry (chMap conf lba) (pgOff conf lba)).ppa ≠ 0) :
    Stepped conf threads next result where
  ok := by
    refine ⟨moved.pages, fun other otherLt => ?_, calls⟩
    by_cases same : other = ch
    · subst same
      exact moved.chan
    · rw [jobs other same]
      exact (moved.others other same).chanOk ok.pages (ok.chans other otherLt)
  view := moved.view
  present := moved.present
  stored := stored

/-- A step of a job, or its first one. -/
theorem ChanStep.setJob (ok : ThreadsOk conf threads)
    (moved : ChanStep conf threads.state state' ch running none) :
    Stepped conf threads ({ threads with state := state' }.setJob ch running) none := by
  set next := { threads with state := state' }.setJob ch running with set
  have now : next.jobs ch = running := Function.update_self _ _ _
  rw [← now] at moved
  exact moved.stepped ok (fun other differ => Function.update_of_ne differ _ _) ok.calls (by simp)

/-- Only the thread moves. -/
theorem stepped_setUpsert (ok : ThreadsOk conf threads) {thread : Nat} {pc : UpsertPc}
    (covered : ∀ call, pc.call? = some call → Covered conf call.lba) :
    Stepped conf threads (threads.setUpsert thread pc) none where
  ok := ⟨ok.pages, ok.chans, ok.calls_update covered⟩
  view _ _ _ _ _ _ := rfl
  present _ _ stored := stored
  stored _ _ eq := by simp at eq

section

variable (ok : ThreadsOk env.conf threads)
include ok

theorem lookup_stepped {thread : Nat} {call : UpsertCall} (cpRunning : Bool)
    (covered : Covered env.conf call.lba) :
    Stepped env.conf threads (threadStep env threads (.lookup thread call cpRunning)).1
      (threadStep env threads (.lookup thread call cpRunning)).2 := by
  have moved := lookup_moved ok.pages (ok.chans _ (chMap_lt env.conf call.lba)) covered cpRunning
  have covers (found : UpsertCall) (eq : some call = some found) : Covered env.conf found.lba :=
    Option.some.inj eq ▸ covered
  cases pc : threads.upserts thread with
  | idle =>
      simp only [threadStep, pc]
      generalize GlMap.lookup env threads.state call.lba cpRunning = result at moved
      obtain ⟨state', found⟩ := result
      cases found with
      | failed => exact moved.stepped ok (fun _ _ => rfl) ok.calls (by simp)
      | cached slot =>
          exact moved.stepped ok (fun _ _ => rfl)
            (ok.calls_update covers) (by simp)
      | loaded =>
          exact moved.stepped ok (fun _ _ => rfl)
            (ok.calls_update covers) (by simp)
  | loaded call => simpa only [threadStep, pc] using Stepped.refl ok
  | found call slot => simpa only [threadStep, pc] using Stepped.refl ok
  | checked call slot => simpa only [threadStep, pc] using Stepped.refl ok

theorem pointer_stepped (thread : Nat) :
    Stepped env.conf threads (threadStep env threads (.pointer thread)).1
      (threadStep env threads (.pointer thread)).2 := by
  simp only [threadStep]
  split
  · rename_i call pc
    have covered := ok.calls thread call (by rw [pc]; rfl)
    apply stepped_setUpsert ok
    rintro found eq
    obtain rfl := Option.some.inj eq
    exact covered
  · exact Stepped.refl ok

theorem compare_stepped (thread : Nat) :
    Stepped env.conf threads (threadStep env threads (.compare thread)).1
      (threadStep env threads (.compare thread)).2 := by
  simp only [threadStep]
  split
  · rename_i call slot pc
    have covered := ok.calls thread call (by rw [pc]; rfl)
    split
    · apply stepped_setUpsert ok
      intro found eq
      contradiction
    · apply stepped_setUpsert ok
      rintro found eq
      obtain rfl := Option.some.inj eq
      exact covered
  · exact Stepped.refl ok

theorem update_stepped {thread : Nat} (safe : (MapStep.update thread).Safe env threads) :
    Stepped env.conf threads (threadStep env threads (.update thread)).1
      (threadStep env threads (.update thread)).2 := by
  simp only [threadStep]
  split
  · rename_i call slot pc
    have covered := ok.calls thread call (by rw [pc]; rfl)
    have idle : ∀ found, UpsertPc.idle.call? = some found → Covered env.conf found.lba := by
      intro found eq
      contradiction
    have chLt := chMap_lt env.conf call.lba
    simp only [MapStep.Safe, pc] at safe
    simp only [updateStep]
    split
    · exact stepped_setUpsert ok idle
    · rename_i accepted
      obtain ⟨entry, admits⟩ := safe (by omega)
      have holds : Holds env.conf threads.state (chMap env.conf call.lba) (pgOff env.conf call.lba)
          slot := ⟨chLt, covered.pgOff_lt, entry⟩
      have lbaEq : (bufEntry env.conf threads.state call.lba slot).lba = call.lba := by
        rw [bufEntry, (ok.pages.slotOk holds).lba _ (entOff_lt env.conf call.lba), covered.lba_eq]
      have moved : ChanStep env.conf threads.state
          (updateEntry threads.state (chMap env.conf call.lba) slot (entOff env.conf call.lba)
            call.lba call.ppa) _ _ _ :=
        update_moved ok.pages (ok.chans _ chLt) covered holds admits
      have same : updateEntry threads.state (chMap env.conf call.lba) slot
            (entOff env.conf call.lba) call.lba call.ppa =
          threads.state.setSlot (chMap env.conf call.lba) slot fun entry =>
            { entry with
              buf := Function.update entry.buf (entOff env.conf call.lba)
                { bufEntry env.conf threads.state call.lba slot with ppa := call.ppa }
              dirty := true } := by
        rw [updateEntry]
        simp only [lbaEq]
      rw [same] at moved
      refine moved.stepped ok (fun _ _ => rfl) (ok.calls_update idle) ?_
      rintro lba ppa eq
      obtain ⟨rfl, rfl⟩ := Prod.mk.inj (Option.some.inj eq)
      apply moved.present
      rw [entry]
      exact Nat.ne_of_gt (Nat.lt_of_lt_of_le (Nat.two_pow_pos 63) (Nat.le_add_right _ _))
  · exact Stepped.refl ok

theorem read_stepped {lba : Nat} (cpRunning : Bool) (covered : Covered env.conf lba) :
    Stepped env.conf threads (threadStep env threads (.read lba cpRunning)).1
      (threadStep env threads (.read lba cpRunning)).2 := by
  have moved := lookup_moved ok.pages (ok.chans _ (chMap_lt env.conf lba)) covered cpRunning
  exact moved.stepped ok (fun _ _ => rfl) ok.calls (by simp [threadStep])

theorem evict_stepped (isCheckpoint : Bool) (chLt : ch < env.conf.nch)
    (below : slot < env.conf.cap) :
    Stepped env.conf threads (threadStep env threads (.evict ch slot isCheckpoint)).1
      (threadStep env threads (.evict ch slot isCheckpoint)).2 := by
  simp only [threadStep]
  split
  · rename_i off idle mdEntry
    have chan := ok.chans ch chLt
    rw [idle] at chan
    have same : ∀ other, SameChan env.conf threads.state (threads.state.setLists ch fun lists =>
        { lists with mbuHead := lists.mbuHead.erase slot, nused := lists.nused - 1 }) other := by
      apply sameChan_setLists
      intro lists
      rfl
    have unlinked := (same ch).chanOk ok.pages chan
    have moved := moved_of_same ok.pages same
      (unlinked.start below (by rw [(same ch).slot]; exact mdEntry) true isCheckpoint)
    exact moved.setJob ok
  · exact Stepped.refl ok

theorem persist_stepped (chLt : ch < env.conf.nch) (below : slot < env.conf.cap) :
    Stepped env.conf threads (threadStep env threads (.persist ch slot)).1
      (threadStep env threads (.persist ch slot)).2 := by
  simp only [threadStep]
  split
  · rename_i off idle mdEntry
    have chan := ok.chans ch chLt
    rw [idle] at chan
    have moved := moved_of_same ok.pages (SameChan.refl threads.state)
      (chan.start below mdEntry false true)
    exact moved.setJob ok
  · exact Stepped.refl ok

theorem job_stepped (provision : Provision env) (chLt : ch < env.conf.nch)
    (safe : (MapStep.job ch).Safe env threads) :
    Stepped env.conf threads (threadStep env threads (.job ch)).1
      (threadStep env threads (.job ch)).2 := by
  simp only [threadStep]
  split
  · rename_i job running
    have chan := ok.chans ch chLt
    rw [running] at chan
    have moved := jobStep_moved provision ok.pages chan (safe job running)
    exact moved.setJob ok
  · exact Stepped.refl ok

/-- Every step keeps the invariant, and the mapping up to the update it makes. -/
theorem threadStep_stepped (provision : Provision env) (step : MapStep)
    (enabled : step.Enabled env.conf) (safe : step.Safe env threads) :
    Stepped env.conf threads (threadStep env threads step).1 (threadStep env threads step).2 := by
  cases step with
  | lookup thread call cpRunning => exact lookup_stepped ok cpRunning enabled
  | pointer thread => exact pointer_stepped ok thread
  | compare thread => exact compare_stepped ok thread
  | update thread => exact update_stepped ok safe
  | read lba cpRunning => exact read_stepped ok cpRunning enabled
  | evict ch slot isCheckpoint => exact evict_stepped ok isCheckpoint enabled.1 enabled.2
  | persist ch slot => exact persist_stepped ok enabled.1 enabled.2
  | job ch => exact job_stepped ok provision enabled safe

end

/-! ## Runs -/

/-- The newest values after an update. -/
def noted (newest : Nat → Option Nat) : Option (Nat × Nat) → Nat → Option Nat
  | none => newest
  | some (lba, ppa) => Function.update newest lba (some ppa)

/-- The newest values after some updates. -/
def newest (results : List (Option (Nat × Nat))) : Nat → Option Nat :=
  results.foldl noted fun _ => none

/-- The mapping has the newest values, and the values of `map` elsewhere; the pages of the newest
values are in the cache or on NVM. -/
structure Tracks (conf : Conf) (threads : Threads) (map : Nat → Nat) (new : Nat → Option Nat) :
    Prop where
  ok : ThreadsOk conf threads
  view : ∀ ch < conf.nch, ∀ off < conf.entries, ∀ idx < conf.entPerPg,
    view threads.state ch off idx =
      (new (firstLba conf ch off + idx)).getD (map (firstLba conf ch off + idx))
  stored : ∀ lba ppa, new lba = some ppa →
    (threads.state.entry (chMap conf lba) (pgOff conf lba)).ppa ≠ 0

theorem Tracks.step {map : Nat → Nat} {new : Nat → Option Nat} {next : Threads}
    {result : Option (Nat × Nat)} (tracks : Tracks conf threads map new)
    (stepped : Stepped conf threads next result) : Tracks conf next map (noted new result) := by
  refine ⟨stepped.ok, ?_, ?_⟩
  · intro ch chLt off offLt idx idxLt
    rw [stepped.view ch chLt off offLt idx idxLt, tracks.view ch chLt off offLt idx idxLt]
    cases result with
    | none => rfl
    | some update =>
        obtain ⟨lba, ppa⟩ := update
        simp only [updated, noted, Function.update_apply]
        split <;> rfl
  · intro lba ppa eq
    cases result with
    | none => exact stepped.present _ _ (tracks.stored lba ppa eq)
    | some update =>
        obtain ⟨place, value⟩ := update
        simp only [noted, Function.update_apply] at eq
        split at eq
        · rename_i same
          subst same
          exact stepped.stored lba value rfl
        · exact stepped.present _ _ (tracks.stored lba ppa eq)

theorem Tracks.run (provision : Provision env) {map : Nat → Nat} {new : Nat → Option Nat}
    (tracks : Tracks env.conf threads map new) {steps : List MapStep}
    (enabled : ∀ step ∈ steps, step.Enabled env.conf)
    (safe : (threadSystem env).Allowed (MapStep.Safe env) threads steps) :
    Tracks env.conf ((threadSystem env).run threads steps) map
      (((threadSystem env).results threads steps).foldl noted new) := by
  induction steps generalizing threads new with
  | nil => exact tracks
  | cons step steps ih =>
      have stepped := threadStep_stepped tracks.ok provision step
        (enabled step List.mem_cons_self) safe.1
      exact ih (tracks.step stepped)
        (fun later mem => enabled later (List.mem_cons_of_mem step mem)) safe.2

/-- Between two operations every cache entry is free, or holds the page that it names. -/
theorem ListsOk.chanOk (pages : PagesOk conf state) (chLt : ch < conf.nch)
    (ok : ListsOk conf state ch) : ChanOk conf state none ch := by
  have disjoint := (List.nodup_append.mp ok.nodup).2.2
  have perm := ok.perm_range pages chLt
  refine ⟨⟨(List.nodup_append.mp ok.nodup).1, ok.below, ?_⟩, ?_, by simp⟩
  · intro slot mem
    obtain ⟨mdEntry, ppa, dirty⟩ := ok.free slot mem
    exact ⟨fun off offLt eq => disjoint slot mem slot (ok.listed off offLt slot eq) rfl, mdEntry,
      ppa, dirty⟩
  · intro slot slotLt off mdEntry
    have mem := perm.mem_iff.mpr (List.mem_range.mpr slotLt)
    rcases List.mem_append.mp mem with free | used
    · rw [(ok.free slot free).1] at mdEntry
      contradiction
    · obtain ⟨found, foundLt, eq⟩ := ok.used slot used
      have foundEntry := (pages.slotOk ⟨chLt, foundLt, eq⟩).mdEntry
      obtain rfl : found = off := Option.some.inj (foundEntry.symm.trans mdEntry)
      exact Or.inr ⟨chLt, foundLt, eq⟩

theorem Represents.tracks {map : Nat → Nat} (represents : Represents conf state map) :
    Tracks conf { state := state } map fun _ => none where
  ok := by
    refine ⟨represents.inv.pages, fun ch chLt => ?_, fun _ _ eq => ?_⟩
    · exact (represents.inv.lists ch chLt).chanOk represents.inv.pages chLt
    · simp [UpsertPc.call?] at eq
  view := represents.view
  stored _ _ eq := by simp at eq

/-! ## Reads -/

/-- `map_read` needs no eviction, and no NVM read that fails. -/
def Readable (env : Env) (state : State) (lba : Nat) : Prop :=
  let ppa := (state.entry (chMap env.conf lba) (pgOff env.conf lba)).ppa
  addrFlag ppa = true ∨
    (state.lists (chMap env.conf lba)).mbfHead ≠ [] ∧ (ppa = 0 ∨ env.readOk state.reads = true)

instance (env : Env) (state : State) (lba : Nat) : Decidable (Readable env state lba) :=
  inferInstanceAs (Decidable (_ ∨ _))

/-- The page of the LBA is in the cache and dirty, or its NVM page has the value. -/
def Kept (conf : Conf) (state : State) (lba ppa : Nat) : Prop :=
  let ch := chMap conf lba
  let off := pgOff conf lba
  (∃ slot < conf.cap, (state.entry ch off).ppa = mapAddrFlag + slot ∧
      (state.slot ch slot).dirty = true) ∨
    current state ch off ≠ 0 ∧
      state.nvm (current state ch off) (entOff conf lba) = ⟨lba, ppa⟩

/-- The entry of an LBA in the cache entry that holds its page. -/
theorem bufEntry_of_holds {lba : Nat} (pages : PagesOk conf state) (covered : Covered conf lba)
    (holds : Holds conf state (chMap conf lba) (pgOff conf lba) slot) :
    bufEntry conf state lba slot =
      ⟨lba, view state (chMap conf lba) (pgOff conf lba) (entOff conf lba)⟩ := by
  have slotOk := pages.slotOk holds
  have lbaEq := slotOk.lba _ (entOff_lt conf lba)
  rw [covered.lba_eq] at lbaEq
  rw [view, holds.ppa, addrFlag_add, if_pos rfl, slotOk.addrPtr_eq, bufEntry]
  exact congrArg (fun first => MapEntry.mk first _) lbaEq

/-- `map_read` returns what the mapping holds. -/
theorem mapRead_of_readable {lba : Nat} (pages : PagesOk env.conf state)
    (ok : ChanOk env.conf state running (chMap env.conf lba)) (covered : Covered env.conf lba)
    (readable : Readable env state lba) :
    (mapRead env state lba).2 =
      view state (chMap env.conf lba) (pgOff env.conf lba) (entOff env.conf lba) := by
  have chLt := chMap_lt env.conf lba
  have offLt := covered.pgOff_lt
  -- the page is in a cache entry after the lookup
  suffices found : ∃ state' slot, mapGetCacheEntry env state lba = (state', some slot) ∧
      PagesOk env.conf state' ∧
      Holds env.conf state' (chMap env.conf lba) (pgOff env.conf lba) slot ∧
      view state' (chMap env.conf lba) (pgOff env.conf lba) (entOff env.conf lba) =
        view state (chMap env.conf lba) (pgOff env.conf lba) (entOff env.conf lba) by
    obtain ⟨state', slot, eq, foundPages, holds, same⟩ := found
    have entry := bufEntry_of_holds foundPages covered holds
    rw [bufEntry] at entry
    simp only [mapRead, eq, entry, ne_eq, not_true_eq_false, if_false, same]
  cases flag : addrFlag (state.entry (chMap env.conf lba) (pgOff env.conf lba)).ppa with
  | true =>
      obtain ⟨slot, eq, slotOk⟩ := (pages _ chLt _ offLt).cached flag
      refine ⟨touched state (chMap env.conf lba) slot, slot, ?_, pagesOk_setLists pages,
        ⟨chLt, offLt, by simpa [touched] using eq⟩, view_setLists _ _ _⟩
      simp [mapGetCacheEntry, offLt.not_ge, eq, addrFlag_add, slotOk.addrPtr_eq, touched]
  | false =>
      obtain ⟨nonempty, stored⟩ := readable.resolve_left (by simp [flag])
      obtain ⟨slot, rest, free⟩ := List.exists_cons_of_ne_nil nonempty
      have mem : slot ∈ (state.lists (chMap env.conf lba)).mbfHead := by
        rw [free]
        exact List.mem_cons_self
      have below := ok.free.below slot mem
      have blank := ok.free.blank slot mem
      obtain ⟨state', eq, loaded⟩ := loadFree_loaded stored free ⟨blank.ppa, blank.dirty⟩
      have loadedPages := loaded.pagesOk pages chLt offLt flag below blank.unused
      have holds : Holds env.conf state' (chMap env.conf lba) (pgOff env.conf lba) slot :=
        ⟨chLt, offLt, by rw [loaded.entry, if_pos ⟨rfl, rfl⟩]⟩
      rw [covered.firstLba_eq] at eq
      refine ⟨state', slot, ?_, loadedPages, holds, ?_⟩
      · simp [mapGetCacheEntry, offLt.not_ge, flag, mapLoadPgCache, free, eq, holds.ppa,
          (loadedPages.slotOk holds).addrPtr_eq]
      · rw [loaded.view_eq pages flag below blank.unused chLt offLt]

instance (conf : Conf) (state : State) (lba ppa : Nat) : Decidable (Kept conf state lba ppa) :=
  inferInstanceAs (Decidable (_ ∨ _))

/-- The value of an LBA is in a dirty page of the cache, or on NVM. -/
theorem kept_of_present {lba : Nat} (pages : PagesOk conf state) (covered : Covered conf lba)
    (present : (state.entry (chMap conf lba) (pgOff conf lba)).ppa ≠ 0) :
    Kept conf state lba (view state (chMap conf lba) (pgOff conf lba) (entOff conf lba)) := by
  have chLt := chMap_lt conf lba
  have offLt := covered.pgOff_lt
  have idxLt := entOff_lt conf lba
  have page := pages _ chLt _ offLt
  cases flag : addrFlag (state.entry (chMap conf lba) (pgOff conf lba)).ppa with
  | true =>
      obtain ⟨slot, eq, slotOk⟩ := page.cached flag
      cases dirty : (state.slot (chMap conf lba) slot).dirty with
      | true => exact Or.inl ⟨slot, slotOk.below, eq, dirty⟩
      | false =>
          have stored := slotOk.clean dirty
          have entry := bufEntry_of_holds pages covered ⟨chLt, offLt, eq⟩
          rw [bufEntry, ← stored.2 _ idxLt] at entry
          refine Or.inr ⟨?_, ?_⟩ <;>
            rw [current, eq, addrFlag_add, if_pos rfl, slotOk.addrPtr_eq]
          · exact stored.1
          · exact entry
  | false =>
      have lbaEq := page.stored flag present _ idxLt
      rw [covered.lba_eq] at lbaEq
      refine Or.inr ⟨?_, ?_⟩ <;>
        rw [current, flag, if_neg Bool.false_ne_true]
      · exact present
      · rw [view, flag, if_neg Bool.false_ne_true, if_neg present]
        exact congrArg (fun first => MapEntry.mk first _) lbaEq

/-! ## No update is lost -/

/-- In a run of any number of threads in which every update finds the page in its cache entry,
no job of this entry has passed the flag then unless it leaves the page in the cache, and every
page is written as it is in the buffer: `map_read` returns the newest value, and a page with a
newest value is in the cache and dirty, or its NVM page has the value. -/
theorem updates_kept (provision : Provision env) {map : Nat → Nat}
    (represents : Represents env.conf state map) (steps : List MapStep)
    (enabled : ∀ step ∈ steps, step.Enabled env.conf)
    (safe : (threadSystem env).Allowed (MapStep.Safe env) { state := state } steps)
    {lba : Nat} (covered : Covered env.conf lba) :
    (Readable env ((threadSystem env).run { state := state } steps).state lba →
        (mapRead env ((threadSystem env).run { state := state } steps).state lba).2 =
          (newest ((threadSystem env).results { state := state } steps) lba).getD (map lba)) ∧
      ∀ ppa, newest ((threadSystem env).results { state := state } steps) lba = some ppa →
        Kept env.conf ((threadSystem env).run { state := state } steps).state lba ppa := by
  have tracks := represents.tracks.run provision enabled safe
  have chLt := chMap_lt env.conf lba
  have value := tracks.view _ chLt _ covered.pgOff_lt _ (entOff_lt env.conf lba)
  rw [covered.lba_eq] at value
  refine ⟨fun readable => ?_, fun ppa eq => ?_⟩
  · rw [mapRead_of_readable tracks.ok.pages (tracks.ok.chans _ chLt) covered readable, value]
    rfl
  · have kept := kept_of_present tracks.ok.pages covered (tracks.stored lba ppa eq)
    rw [value] at kept
    change newest _ lba = some ppa at eq
    rw [newest] at eq
    simpa only [eq, Option.getD_some] using kept

theorem Media.provision (media : Media env) : Provision env := by
  intro state addr pages new
  obtain ⟨found, eq, both⟩ := media.fresh state pages
  obtain rfl := Option.some.inj (new.symm.trans eq)
  exact both

/-- Two pages of two entries, and one cache entry. -/
def oneSlot : Env :=
  ⟨.small, firstFit .small, fun _ => true, 1⟩

/-- A thread updates LBA 1.  Another one looks LBA 0 up, and updates it when a checkpoint has
cleared the flag of the page. -/
def persistSteps : List MapStep :=
  [.lookup 0 ⟨1, 7, 0⟩ false, .pointer 0, .compare 0, .update 0, .lookup 1 ⟨0, 8, 0⟩ false,
    .compare 1, .persist 0 0, .job 0, .job 0, .job 0, .job 0, .job 0, .update 1, .job 0]

/-- The first update is in the NVM page, and the second one is in the cache. -/
theorem updates_kept_persist :
    (mapRead oneSlot ((threadSystem oneSlot).run { state := mapInit oneSlot } persistSteps).state
        0).2 = 8 ∧
      Kept oneSlot.conf ((threadSystem oneSlot).run { state := mapInit oneSlot } persistSteps).state
        1 7 := by
  have provision := (media_firstFit .small 1).provision
  have first := updates_kept provision (mapInit_represents oneSlot) persistSteps (by decide)
    (by decide) (by decide : Covered oneSlot.conf 0)
  have second := updates_kept provision (mapInit_represents oneSlot) persistSteps (by decide)
    (by decide) (by decide : Covered oneSlot.conf 1)
  exact ⟨first.1 (by decide), second.2 7 (by decide)⟩

/-- LBA 1 has the value 7.  A thread has found the cache entry to update it to 9.  The page is
evicted: it is copied and written, and the flag is clear.  The update comes before the address goes
to the small table. -/
def evictSteps : List MapStep :=
  [.lookup 0 ⟨1, 7, 0⟩ false, .pointer 0, .compare 0, .update 0, .lookup 1 ⟨1, 9, 0⟩ false,
    .compare 1, .evict 0 0 false, .job 0, .job 0, .job 0, .job 0, .job 0, .job 0, .update 1,
    .job 0, .job 0, .job 0]

/-- An update that comes too late for the eviction of its page succeeds, and is lost: the cache
entry that it changes is free, and the page is read from NVM. -/
theorem late_update_lost :
    ((threadSystem oneSlot).run { state := mapInit oneSlot } evictSteps).jobs 0 = none ∧
      (∀ thread, ((threadSystem oneSlot).run { state := mapInit oneSlot } evictSteps).upserts
        thread = .idle) ∧
      newest ((threadSystem oneSlot).results { state := mapInit oneSlot } evictSteps) 1 = some 9 ∧
      Readable oneSlot
        ((threadSystem oneSlot).run { state := mapInit oneSlot } evictSteps).state 1 ∧
      (mapRead oneSlot ((threadSystem oneSlot).run { state := mapInit oneSlot } evictSteps).state
        1).2 = 7 ∧
      ¬ Kept oneSlot.conf
        ((threadSystem oneSlot).run { state := mapInit oneSlot } evictSteps).state 1 9 := by
  refine ⟨rfl, ?_, by decide, by decide, by decide, by decide⟩
  intro thread
  rcases thread with _ | _ | thread <;> rfl

end OxCtrl.GlMap
