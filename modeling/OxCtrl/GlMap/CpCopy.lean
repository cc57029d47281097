import OxCtrl.GlMap.CpLinks

/-!
# The checkpoint copy of a mapping

When the flush of a channel returns, its immutable table holds NVM addresses only, and each of them
is the address of its page, unless the flush has evicted an entry that it had persisted before.
-/

namespace OxCtrl.GlMap

open Lib

variable {env : Env} {conf : Conf} {state : State} {run : CpState} {ch off slot n : Nat}
  {job : Job} {rest : List Nat} {locks : Nat → Option Access}

/-! ## Invariant -/

/-- The links of the channel. -/
def CpState.links (run : CpState) (ch : Nat) : Links :=
  run.state.links run.locks ch

/-- The flush has copied the entry. -/
def FlushPc.Past (pc : FlushPc) (off : Nat) : Prop :=
  match pc with
  | .start => False
  | .copy limit => off < limit
  | _ => True

instance FlushPc.decidablePast (pc : FlushPc) (off : Nat) : Decidable (pc.Past off) := by
  unfold FlushPc.Past
  split <;> infer_instance

/-- What holds where the flush is. -/
def FlushOk (conf : Conf) (links : Links) (running : Option Job) : FlushPc → Prop
  | .start => True
  | .copy next => running = none ∧ links.Copied conf next
  | .sample => running = none ∧ links.Copied conf conf.entries
  | .test n ent => running = none ∧ links.Walk conf n ent
  | .first n ent => running = none ∧ n ≠ 0 ∧ ent = none ∧ links.Walk conf n none
  | .evict n ent => running = none ∧ n ≠ 0 ∧ ent = none ∧ links.Walk conf n none
  | .next n ent => running = none ∧ n ≠ 0 ∧ links.Walk conf n ent
  | .evicting n ent => ent = none ∧ ∃ job, running = some job ∧ links.Working conf job [] n
  | .persisting n slot =>
      ∃ job visited, running = some job ∧ links.Working conf job (visited ++ [slot]) n
  | .done => (∀ job, running = some job → job.setImmut = false) ∧
      ∀ off < conf.entries, addrFlag (links.immut off) = false

/-- Invariant of the channel with its threads. -/
structure RunOk (conf : Conf) (ch : Nat) (run : CpState) : Prop where
  jobs : run.pc ≠ .done → (run.links ch).JobsOk conf run.job
  flush : FlushOk conf (run.links ch) run.job run.pc
  /-- When the flush copies an entry, no lookup is about to move the cache entry of its page. -/
  touches : ∀ off slot, run.locks off = some (.touch slot) →
    off < conf.entries ∧ (run.pc = .done ∨ ¬ run.pc.Past off)

/-- What a step does. -/
structure Advance (conf : Conf) (ch : Nat) (run next : CpState) : Prop where
  ok : RunOk conf ch next
  past : ∀ off, run.pc.Past off → next.pc.Past off
  /-- An entry of the immutable table does not become zero. -/
  stored : ∀ off < conf.entries, run.pc.Past off → (run.links ch).immut off ≠ 0 →
    (next.links ch).immut off ≠ 0
  returned : run.pc ≠ .done → next.pc = .done → ∀ off < conf.entries,
    (next.links ch).immut off = (next.links ch).current off

variable {next : CpState} {links links' : Links} {running : Option Job} {pc : FlushPc}

theorem Advance.refl (ok : RunOk conf ch run) : Advance conf ch run run :=
  ⟨ok, fun _ => id, fun _ _ _ => id, fun before after => absurd after before⟩

/-- Another thread takes a step that loads or updates. -/
theorem FlushOk.quiet (ok : FlushOk conf links running pc) (jobs : links.JobsOk conf running)
    (quiet : Links.Quiet conf links links') : FlushOk conf links' running pc := by
  have linksOk := jobs.ok
  cases pc with
  | start => trivial
  | copy limit => exact ⟨ok.1, quiet.copied linksOk ok.2⟩
  | sample => exact ⟨ok.1, quiet.copied linksOk ok.2⟩
  | test n ent => exact ⟨ok.1, quiet.walk linksOk ok.2⟩
  | first n ent => exact ⟨ok.1, ok.2.1, ok.2.2.1, quiet.walk linksOk ok.2.2.2⟩
  | evict n ent => exact ⟨ok.1, ok.2.1, ok.2.2.1, quiet.walk linksOk ok.2.2.2⟩
  | next n ent => exact ⟨ok.1, ok.2.1, quiet.walk linksOk ok.2.2⟩
  | evicting n ent =>
      obtain ⟨none, job, eq, working⟩ := ok
      exact ⟨none, job, eq, quiet.working linksOk working⟩
  | persisting n slot =>
      obtain ⟨job, visited, eq, working⟩ := ok
      exact ⟨job, visited, eq, quiet.working linksOk working⟩
  | done =>
      refine ⟨ok.1, fun off offLt => ?_⟩
      rw [quiet.immut]
      exact ok.2 off offLt

theorem RunOk.quiet (ok : RunOk conf ch run) (before : run.pc ≠ .done) (pc : next.pc = run.pc)
    (job : next.job = run.job) (quiet : Links.Quiet conf (run.links ch) (next.links ch))
    (locks : ∀ off slot, next.locks off = some (.touch slot) →
      run.locks off = some (.touch slot)) : Advance conf ch run next := by
  have jobs := ok.jobs before
  refine ⟨⟨fun _ => ?_, ?_, fun off slot lock => ?_⟩, ?_, ?_, ?_⟩
  · rw [job]
    exact quiet.jobsOk jobs
  · rw [job, pc]
    exact ok.flush.quiet jobs quiet
  · rw [pc]
    exact ok.touches off slot (locks off slot lock)
  · rw [pc]
    exact fun _ => id
  · intro off _ _
    rw [quiet.immut]
    exact id
  · intro _ after
    rw [pc] at after
    exact absurd after before

/-- After the flush, the immutable table does not change. -/
theorem RunOk.later (ok : RunOk conf ch run) (after : run.pc = .done) (pc : next.pc = .done)
    (job : ∀ job, next.job = some job → job.setImmut = false)
    (immut : (next.links ch).immut = (run.links ch).immut)
    (locks : ∀ off slot, next.locks off = some (.touch slot) → off < conf.entries) :
    Advance conf ch run next := by
  have flush := ok.flush
  rw [after] at flush
  refine ⟨⟨fun before => absurd pc before, ?_, fun off slot lock => ?_⟩, ?_, ?_, ?_⟩
  · rw [pc]
    refine ⟨job, fun off offLt => ?_⟩
    rw [immut]
    exact flush.2 off offLt
  · exact ⟨locks off slot lock, Or.inl pc⟩
  · rw [pc]
    exact fun _ _ => trivial
  · intro off _ _
    rw [immut]
    exact id
  · exact fun before => absurd after before

/-- The flush, or its job, takes a step that does not end the flush. -/
theorem RunOk.goes (ok : RunOk conf ch run) (before : run.pc ≠ .done) (notOver : next.pc ≠ .done)
    (locks : next.locks = run.locks) (past : ∀ off, next.pc.Past off ↔ run.pc.Past off)
    (jobs : (next.links ch).JobsOk conf next.job)
    (flush : FlushOk conf (next.links ch) next.job next.pc)
    (stored : ∀ off, (run.links ch).immut off ≠ 0 → (next.links ch).immut off ≠ 0) :
    Advance conf ch run next := by
  refine ⟨⟨fun _ => jobs, flush, fun off slot lock => ?_⟩, fun off => (past off).mpr,
    fun off _ _ => stored off, fun _ ended => absurd ended notOver⟩
  rw [locks] at lock
  obtain ⟨offLt, ahead⟩ := ok.touches off slot lock
  exact ⟨offLt, Or.inr fun behind => ahead.resolve_left before ((past off).mp behind)⟩

/-! ## Lookups -/

/-- A load takes or releases the mutex of a page: no lookup is about to move an entry because of
it. -/
theorem touch_of_update {access : Option Access} {other found : Nat}
    (apart : access ≠ some (.touch found))
    (lock : Function.update locks off access other = some (.touch found)) :
    other ≠ off ∧ locks other = some (.touch found) := by
  rw [Function.update_apply] at lock
  split at lock
  · exact absurd lock apart
  · rename_i differ
    exact ⟨differ, lock⟩

theorem immut_loadTaken (firstLba : Nat) :
    ((loadTaken env ch state off slot firstLba).1.links locks ch).immut =
      (state.links locks ch).immut := by
  have reads (change : CacheEntry → CacheEntry) :
      (state.setSlot ch slot change).reads = state.reads := rfl
  by_cases untouched : (state.entry ch off).ppa = 0
  · simp [loadTaken, untouched, State.links]
  · cases read : env.readOk state.reads <;>
      simp [loadTaken, untouched, reads, read, State.links]

section

variable (ok : RunOk env.conf ch run)
include ok

theorem take_advance (off : Nat) : Advance env.conf ch run (cpStep env ch run (.take off)) := by
  simp only [cpStep]
  split
  · rename_i enabled
    obtain ⟨offLt, lock, uncached⟩ := enabled
    split
    · exact Advance.refl ok
    · rename_i slot rest free
      have links : CpState.links { run with
          state := popFree ch run.state rest
          locks := Function.update run.locks off (some (.load slot)) } ch =
          (run.links ch).take off slot rest := links_popFree
      have locks (other found : Nat)
          (eq : Function.update run.locks off (some (.load slot)) other = some (.touch found)) :
          run.locks other = some (.touch found) :=
        (touch_of_update (by simp) eq).2
      by_cases after : run.pc = .done
      · have flush := ok.flush
        rw [after] at flush
        refine ok.later after after flush.1 (by rw [links]; rfl) fun other found eq => ?_
        exact (ok.touches other found (locks other found eq)).1
      · refine ok.quiet after rfl rfl ?_ locks
        rw [links]
        refine .take off slot rest free ?_ offLt uncached
        simp only [CpState.links, State.links, lock, Option.bind_none]
  · exact Advance.refl ok

theorem link_advance (off : Nat) : Advance env.conf ch run (cpStep env ch run (.link off)) := by
  simp only [cpStep]
  split
  · rename_i slot lock
    have locks (other found : Nat)
        (eq : Function.update run.locks off none other = some (.touch found)) :
        run.locks other = some (.touch found) :=
      (touch_of_update (by simp) eq).2
    by_cases after : run.pc = .done
    · have flush := ok.flush
      rw [after] at flush
      refine ok.later after after flush.1 (immut_loadTaken _) fun other found eq => ?_
      exact (ok.touches other found (locks other found eq)).1
    · have loading : (run.links ch).loading off = some slot := by
        simp only [CpState.links, State.links, lock, Option.bind_some, Access.taken?]
      have blank := (ok.jobs after).ok.blank slot (Or.inr ⟨off, loading⟩)
      have quiet : Links.Quiet env.conf (run.links ch)
          ((loadTaken env ch run.state off slot (firstLba env.conf ch off)).1.links
            (Function.update run.locks off none) ch) := by
        rcases links_loadTaken (firstLba env.conf ch off) blank with linked | failed
        · rw [linked]
          exact .link off slot loading
        · rw [failed]
          exact .fail off slot loading
      exact ok.quiet after rfl rfl quiet locks
  · exact Advance.refl ok

theorem hit_advance (off : Nat) : Advance env.conf ch run (cpStep env ch run (.hit off)) := by
  simp only [cpStep]
  split
  · rename_i enabled
    obtain ⟨offLt, lock, -, idle⟩ := enabled
    have links (slot : Nat) : CpState.links { run with
        locks := Function.update run.locks off (some (.touch slot)) } ch = run.links ch :=
      links_update _ _ _ _ (by rw [lock]; rfl) rfl
    refine ⟨⟨?_, ?_, ?_⟩, fun _ => id, ?_, fun before after => absurd after before⟩
    · rw [links]
      exact ok.jobs
    · rw [links]
      exact ok.flush
    · intro other found eq
      simp only [Function.update_apply] at eq
      split at eq
      · rename_i same
        subst same
        refine ⟨offLt, ?_⟩
        cases pc : run.pc <;> simp_all [FlushPc.cpRunning, FlushPc.Past]
      · exact ok.touches other found eq
    · rw [links]
      exact fun _ _ _ => id
  · exact Advance.refl ok

theorem move_advance (off : Nat) (safe : (CpStep.move off).Safe ch run) :
    Advance env.conf ch run (cpStep env ch run (.move off)) := by
  simp only [cpStep]
  split
  · rename_i slot lock
    simp only [CpStep.Safe, lock] at safe
    have links : CpState.links { run with
        state := touched run.state ch slot
        locks := Function.update run.locks off none } ch = (run.links ch).touch slot := by
      have unlocked : (touched run.state ch slot).links (Function.update run.locks off none) ch =
          (touched run.state ch slot).links run.locks ch :=
        links_update _ _ _ _ (by rw [lock]; rfl) rfl
      exact unlocked.trans links_touched
    have locks (other found : Nat)
        (eq : Function.update run.locks off none other = some (.touch found)) :
        run.locks other = some (.touch found) :=
      (touch_of_update (by simp) eq).2
    have flush := ok.flush
    by_cases after : run.pc = .done
    · rw [after] at flush
      refine ok.later after after flush.1 (by rw [links]; rfl) fun other found eq => ?_
      exact (ok.touches other found (locks other found eq)).1
    · -- the flush has not copied the entry of this page
      have ahead := (ok.touches off slot lock).2.resolve_left after
      have jobs := ok.jobs after
      have mem := safe.resolve_left after
      refine ⟨⟨fun _ => ?_, ?_, ?_⟩, fun _ => id, ?_, fun before after => absurd after before⟩
      · rw [links]
        exact jobs.touch mem
      · rw [links]
        cases pc : run.pc with
        | start => trivial
        | copy limit =>
            rw [pc] at flush
            exact flush
        | done => exact absurd pc after
        | _ =>
            rw [pc] at ahead
            exact absurd trivial ahead
      · exact fun other found eq => ok.touches other found (locks other found eq)
      · rw [links]
        exact fun _ _ _ => id
  · exact Advance.refl ok

theorem update_advance (call : UpsertCall) (slot : Nat) :
    Advance env.conf ch run (cpStep env ch run (.update call slot)) := by
  simp only [cpStep]
  have updated : Links.Quiet env.conf (run.links ch)
      ((updateStep env.conf run.state call slot).1.links run.locks ch) := by
    rcases links_updateStep call slot with same | soiled
    · rw [same]
      exact .refl
    · rw [soiled]
      exact .soil slot
  by_cases after : run.pc = .done
  · have flush := ok.flush
    rw [after] at flush
    exact ok.later after after flush.1 updated.immut fun other found eq =>
      (ok.touches other found eq).1
  · exact ok.quiet after rfl rfl updated fun _ _ => id

/-! ## Jobs and the flush -/

theorem evict_advance : Advance env.conf ch run (cpStep env ch run .evict) := by
  simp only [cpStep]
  split
  · rename_i enabled
    obtain ⟨idle, waits⟩ := enabled
    have free : run.job = none := Option.isNone_iff_eq_none.mp waits
    have flush := ok.flush
    unfold evictFirst
    split
    · exact Advance.refl ok
    · rename_i slot rest used
      unfold startJob
      cases mdEntry : (run.state.slot ch slot).mdEntry with
      | none => exact Advance.refl ok
      | some off =>
          simp only [Option.map_some]
          have links : (taken run.state ch rest).links run.locks ch = (run.links ch).unlink rest :=
            links_taken
          have immut := congrArg Links.immut links
          by_cases after : run.pc = .done
          · refine ok.later after after ?_ immut fun other found eq => (ok.touches other found eq).1
            rintro job eq
            obtain rfl := Option.some.inj eq
            rfl
          · have start : run.pc = .start := by
              cases pc : run.pc <;> simp_all [FlushPc.cpRunning]
            have jobs := ok.jobs after
            rw [free] at jobs
            refine ⟨⟨fun _ => ?_, ?_, ok.touches⟩, fun _ => id, ?_,
              fun before after => absurd after before⟩
            · have evicting := jobs.evict mdEntry used false
              rw [← links] at evicting
              exact evicting
            · rw [start]
              trivial
            · intro other _ past
              rw [start] at past
              exact past.elim
  · exact Advance.refl ok

omit ok in
/-- Where the flush is when its job is over. -/
theorem resume_of_move {links links' : Links} (move : links.JobMove job links' none) (n : Nat)
    (ent : Option Nat) :
    FlushPc.resume (.evicting n ent) job = .test (n - 1) ent ∧
      ∀ slot, FlushPc.resume (.persisting n slot) job = .test (n - 1) (some slot) := by
  cases move with
  | persisted was => simp [FlushPc.resume, was]
  | insert was => simp [FlushPc.resume, was]

/-- A job goes on. -/
theorem job_continues {state : State} {next : Job} (eq : run.job = some job)
    (move : (run.links ch).JobMove job (state.links run.locks ch) (some next)) :
    Advance env.conf ch run { run with state := state, job := some next } := by
  have flush := ok.flush
  by_cases after : run.pc = .done
  · rw [after, eq] at flush
    have apart := flush.1 job rfl
    refine ok.later after after ?_ (move.immut apart) fun other found eq =>
      (ok.touches other found eq).1
    rintro later same
    obtain rfl := Option.some.inj same
    exact move.carries.setImmut.trans apart
  · have jobs := ok.jobs after
    rw [eq] at jobs flush
    refine ⟨⟨fun _ => move.jobsOk jobs, ?_, ok.touches⟩, fun _ => id,
      fun off _ _ => move.immut_ne_zero jobs, fun before after => absurd after before⟩
    cases pc : run.pc with
    | start => trivial
    | evicting n ent =>
        rw [pc] at flush
        obtain ⟨none, found, same, working⟩ := flush
        obtain rfl := Option.some.inj same
        exact ⟨none, next, rfl, move.working jobs working⟩
    | persisting n slot =>
        rw [pc] at flush
        obtain ⟨found, visited, same, working⟩ := flush
        obtain rfl := Option.some.inj same
        exact ⟨next, visited, rfl, move.working jobs working⟩
    | done => exact absurd pc after
    | _ =>
        rw [pc] at flush
        exact absurd flush.1 (by simp)

/-- A job is over. -/
theorem job_ends {state : State} (eq : run.job = some job)
    (move : (run.links ch).JobMove job (state.links run.locks ch) none) :
    Advance env.conf ch run
      { run with state := state, job := none, pc := run.pc.resume job } := by
  have flush := ok.flush
  by_cases after : run.pc = .done
  · rw [after, eq] at flush
    have resume : run.pc.resume job = .done := by rw [after]; rfl
    exact ok.later after resume (by simp) (move.immut (flush.1 job rfl)) fun other found eq =>
      (ok.touches other found eq).1
  · have jobs := ok.jobs after
    rw [eq] at jobs flush
    have stored (off : Nat) (immut : (run.links ch).immut off ≠ 0) := move.immut_ne_zero jobs immut
    cases pc : run.pc with
    | start =>
        exact ok.goes after (by simp [FlushPc.resume]) rfl (fun _ => by rw [pc]; rfl)
          (move.jobsOk jobs) trivial stored
    | evicting n ent =>
        rw [pc] at flush
        obtain ⟨none, found, same, working⟩ := flush
        obtain rfl := Option.some.inj same
        rw [(resume_of_move move n ent).1]
        have walk := move.walk jobs working
        rw [List.getLast?_nil, ← none] at walk
        exact ok.goes after (by simp) rfl (fun _ => by rw [pc]; rfl) (move.jobsOk jobs) ⟨rfl, walk⟩
          stored
    | persisting n slot =>
        rw [pc] at flush
        obtain ⟨found, visited, same, working⟩ := flush
        obtain rfl := Option.some.inj same
        rw [(resume_of_move move n none).2]
        have walk := move.walk jobs working
        rw [List.getLast?_concat] at walk
        exact ok.goes after (by simp) rfl (fun _ => by rw [pc]; rfl) (move.jobsOk jobs) ⟨rfl, walk⟩
          stored
    | done => exact absurd pc after
    | _ =>
        rw [pc] at flush
        exact absurd flush.1 (by simp)

theorem job_advance (writes : Writes env) : Advance env.conf ch run (cpStep env ch run .job) := by
  simp only [cpStep]
  split
  · rename_i job eq
    have move := jobStep_moves writes run.state run.locks ch job
    split
    · rename_i state next step
      rw [step] at move
      exact job_continues ok eq move
    · rename_i state step
      rw [step] at move
      exact job_ends ok eq move
  · exact Advance.refl ok

/-- The flush copies an entry. -/
theorem copy_advance {limit : Nat} (pc : run.pc = .copy limit) :
    Advance env.conf ch run (flushStep env ch run) := by
  have notDone : run.pc ≠ .done := by simp [pc]
  have jobs := ok.jobs notDone
  have flush := ok.flush
  rw [pc] at flush
  obtain ⟨free, copied⟩ := flush
  simp only [flushStep, pc]
  split
  · split
    · rename_i limitLt unlocked
      have links : CpState.links { run with
          state := copyEntry ch run.state limit, pc := .copy (limit + 1) } ch =
          (run.links ch).copy limit := links_copyEntry ..
      refine ⟨⟨fun _ => ?_, ?_, ?_⟩, ?_, ?_, fun _ ended => absurd ended (by simp)⟩
      · rw [links]
        rw [free] at jobs ⊢
        exact ⟨jobs.ok.copy limit, by simp, by simp⟩
      · rw [links]
        exact ⟨free, copied.copy⟩
      · intro off slot lock
        obtain ⟨offLt, ahead⟩ := ok.touches off slot lock
        refine ⟨offLt, Or.inr fun behind => ?_⟩
        have differ : off ≠ limit := by
          rintro rfl
          rw [unlocked] at lock
          contradiction
        rw [pc] at ahead
        exact ahead.resolve_left (by simp) (show off < limit by
          have : off < limit + 1 := behind
          omega)
      · intro off past
        rw [pc] at past
        exact Nat.lt_succ_of_lt past
      · intro off _ past
        rw [pc] at past
        rw [links]
        simp only [Links.copy, Function.update_of_ne (Nat.ne_of_lt past)]
        exact id
    · exact Advance.refl ok
  · rename_i all
    have whole : (run.links ch).Copied env.conf env.conf.entries :=
      fun off offLt _ => copied off offLt (by omega)
    refine ⟨⟨fun _ => jobs, ⟨free, whole⟩, fun off slot lock => ?_⟩, fun _ _ => trivial,
      fun _ _ _ => id, fun _ ended => absurd ended (by simp)⟩
    obtain ⟨offLt, ahead⟩ := ok.touches off slot lock
    rw [pc] at ahead
    exact absurd (show off < limit by omega) (ahead.resolve_left (by simp))

/-- The flush evicts the first entry. -/
theorem flush_evict_advance {n : Nat} {ent : Option Nat} (pc : run.pc = .evict n ent) :
    Advance env.conf ch run (flushStep env ch run) := by
  have notDone : run.pc ≠ .done := by simp [pc]
  have jobs := ok.jobs notDone
  have flush := ok.flush
  rw [pc] at flush
  obtain ⟨free, left, none, walk⟩ := flush
  subst none
  have past (off : Nat) : run.pc.Past off := by
    rw [pc]
    trivial
  simp only [flushStep, pc]
  split
  · exact ok.goes notDone (by simp) rfl (fun off => ⟨fun _ => past off, fun _ => trivial⟩) jobs
      ⟨free, walk⟩ fun _ => id
  · unfold evictFirst
    split
    · exact Advance.refl ok
    · rename_i slot rest used
      unfold startJob
      cases mdEntry : (run.state.slot ch slot).mdEntry with
      | none => exact Advance.refl ok
      | some off =>
          simp only [Option.map_some]
          have links : (taken run.state ch rest).links run.locks ch = (run.links ch).unlink rest :=
            links_taken
          rw [free] at jobs
          have evicting := jobs.evict mdEntry used true
          have working := walk.evict off left used
          rw [← links] at evicting working
          refine ok.goes notDone (by simp) rfl (fun off => ⟨fun _ => past off, fun _ => trivial⟩)
            evicting ⟨rfl, _, rfl, working⟩ fun other stored zero => ?_
          exact stored ((congrFun (congrArg Links.immut links) other).symm.trans zero)

/-- The flush goes on to the next entry. -/
theorem flush_next_advance {n : Nat} {ent : Option Nat} (pc : run.pc = .next n ent) :
    Advance env.conf ch run (flushStep env ch run) := by
  have notDone : run.pc ≠ .done := by simp [pc]
  have jobs := ok.jobs notDone
  have flush := ok.flush
  rw [pc] at flush
  obtain ⟨free, left, walk⟩ := flush
  rw [free] at jobs
  obtain ⟨slot, mem, next, working⟩ := walk.forward left jobs.ok.used_nodup
  obtain ⟨off, held⟩ := jobs.ok.held slot mem
  have mdEntry : (run.state.slot ch slot).mdEntry = some off := held.mdEntry
  have found : nextUsed (run.state.lists ch).mbuHead ent = some slot := next
  simp only [flushStep, pc, found, startJob, mdEntry, Option.map_some]
  obtain ⟨visited, working⟩ := working off
  exact ok.goes notDone (by simp) rfl (fun _ => by rw [pc]; rfl)
    (jobs.persist held.mdEntry mem true) ⟨_, visited, rfl, working⟩ fun _ => id

theorem flush_advance (safe : CpStep.flush.Safe ch run) :
    Advance env.conf ch run (cpStep env ch run .flush) := by
  have flush := ok.flush
  simp only [cpStep]
  cases pc : run.pc with
  | copy limit => exact copy_advance ok pc
  | evict n ent => exact flush_evict_advance ok pc
  | next n ent => exact flush_next_advance ok pc
  | start =>
      have notDone : run.pc ≠ .done := by simp [pc]
      simp only [flushStep, pc]
      split
      · rename_i waits
        have free : run.job = none := Option.isNone_iff_eq_none.mp waits
        refine ok.goes notDone (by simp) rfl (fun off => ?_) (ok.jobs notDone)
          ⟨free, Links.Copied.zero _ _⟩ fun _ => id
        rw [pc]
        exact ⟨fun before => absurd before (Nat.not_lt_zero off), False.elim⟩
      · exact Advance.refl ok
  | sample =>
      have notDone : run.pc ≠ .done := by simp [pc]
      have jobs := ok.jobs notDone
      rw [pc] at flush
      simp only [flushStep, pc]
      refine ok.goes notDone (by simp) rfl (fun _ => by rw [pc]; rfl) jobs ⟨flush.1, ?_⟩ fun _ => id
      rw [flush.1] at jobs
      exact flush.2.walk jobs.ok
  | test n ent =>
      have notDone : run.pc ≠ .done := by simp [pc]
      have jobs := ok.jobs notDone
      rw [pc] at flush
      cases n with
      | zero =>
          simp only [flushStep, pc]
          refine ⟨⟨fun before => absurd rfl before, ⟨?_, ?_⟩, ?_⟩, fun _ _ => trivial,
            fun _ _ _ => id, ?_⟩
          · intro job eq
            rw [flush.1] at eq
            contradiction
          · exact fun off offLt => (flush.2.all_visited offLt).1
          · exact fun off slot lock => ⟨(ok.touches off slot lock).1, Or.inl rfl⟩
          · exact fun _ _ off offLt => (flush.2.all_visited offLt).2
      | succ n =>
          simp only [CpStep.Safe, pc] at safe
          simp only [flushStep, pc]
          split
          · rename_i empty
            obtain rfl := safe empty
            exact ok.goes notDone (by simp) rfl (fun _ => by rw [pc]; rfl) jobs
              ⟨flush.1, Nat.succ_ne_zero n, rfl, flush.2⟩ fun _ => id
          · exact ok.goes notDone (by simp) rfl (fun _ => by rw [pc]; rfl) jobs
              ⟨flush.1, Nat.succ_ne_zero n, flush.2⟩ fun _ => id
  | first n ent =>
      have notDone : run.pc ≠ .done := by simp [pc]
      rw [pc] at flush
      obtain ⟨free, left, none, walk⟩ := flush
      simp only [flushStep, pc]
      refine ok.goes notDone (by simp) rfl (fun _ => by rw [pc]; rfl) (ok.jobs notDone)
        ⟨free, left, ?_, walk⟩ fun _ => id
      rw [none]
      split <;> rfl
  | evicting n ent =>
      simp only [flushStep, pc]
      exact Advance.refl ok
  | persisting n slot =>
      simp only [flushStep, pc]
      exact Advance.refl ok
  | done =>
      simp only [flushStep, pc]
      exact Advance.refl ok

end

/-! ## Runs -/

theorem cpStep_advance (writes : Writes env) (ok : RunOk env.conf ch run) (step : CpStep)
    (safe : step.Safe ch run) : Advance env.conf ch run (cpStep env ch run step) := by
  cases step with
  | take off => exact take_advance ok off
  | link off => exact link_advance ok off
  | hit off => exact hit_advance ok off
  | move off => exact move_advance ok off safe
  | update call slot => exact update_advance ok call slot
  | evict => exact evict_advance ok
  | job => exact job_advance ok writes
  | flush => exact flush_advance ok safe

/-- Between two operations the links agree. -/
theorem Inv.linksOk (inv : Inv conf state) (chLt : ch < conf.nch) :
    (state.links (fun _ => none) ch).Ok conf none := by
  have lists := inv.lists ch chLt
  have nodup := List.nodup_append.mp lists.nodup
  have slotOk (slot : Nat) (used : slot ∈ (state.lists ch).mbuHead) :
      ∃ off, Holds conf state ch off slot ∧ SlotOk conf state ch off slot := by
    obtain ⟨off, offLt, eq⟩ := lists.used slot used
    have holds : Holds conf state ch off slot := ⟨chLt, offLt, eq⟩
    exact ⟨off, holds, inv.pages.slotOk holds⟩
  have idle (slot : Nat) : (state.links (fun _ => none) ch).Idle slot ↔
      slot ∈ (state.lists ch).mbfHead := by
    simp [Links.Idle, State.links]
  have busy (slot : Nat) : (state.links (fun _ => none) ch).Busy none slot ↔
      slot ∈ (state.lists ch).mbuHead := by
    simp [Links.Busy, State.links]
  constructor
  case free_nodup => exact nodup.1
  case used_nodup => exact nodup.2.1
  case out_fresh => simp
  case apart =>
    intro slot free used
    exact nodup.2.2 slot ((idle slot).mp free) slot ((busy slot).mp used) rfl
  case below =>
    rintro slot (free | used)
    · exact lists.below slot ((idle slot).mp free)
    · obtain ⟨_, _, ok⟩ := slotOk slot ((busy slot).mp used)
      exact ok.below
  case blank =>
    intro slot free
    have blank := lists.free slot ((idle slot).mp free)
    exact ⟨blank.2.1, blank.1⟩
  case loads => simp [State.links]
  case nused => exact lists.nused
  case held =>
    intro slot used
    obtain ⟨off, holds, ok⟩ := slotOk slot used
    exact ⟨off, holds.off_lt, ok.mdEntry, holds.ppa⟩
  case flagged =>
    intro off offLt flag
    obtain ⟨slot, eq, ok⟩ := (inv.pages ch chLt off offLt).cached flag
    exact ⟨slot, (busy slot).mpr (lists.listed off offLt slot eq), offLt, ok.mdEntry, eq⟩
  case ppa_lt =>
    intro slot below
    have mem := (lists.perm_range inv.pages chLt).mem_iff.mpr (List.mem_range.mpr below)
    rcases List.mem_append.mp mem with free | used
    · rw [show (state.links (fun _ => none) ch).ppa slot = 0 from (lists.free slot free).2.1]
      exact Nat.two_pow_pos 63
    · obtain ⟨_, _, ok⟩ := slotOk slot used
      exact ok.ppa_lt
  case unsaved =>
    intro slot used zero
    obtain ⟨_, _, ok⟩ := slotOk slot used
    cases dirty : (state.slot ch slot).dirty with
    | true => exact dirty
    | false => exact absurd zero (ok.clean dirty).1

theorem Inv.runOk (inv : Inv conf state) (chLt : ch < conf.nch) :
    RunOk conf ch { state := state } where
  jobs _ := ⟨inv.linksOk chLt, by simp, by simp⟩
  flush := trivial
  touches := by simp

section

variable (env : Env) (ch : Nat) (state : State)

/-- A run of the channel with its threads. -/
def cpRun (steps : List CpStep) : CpState :=
  (cpSystem env ch).run { state := state } steps

end

/-- The address of a page in the immutable table. -/
def CpState.immut (run : CpState) (ch off : Nat) : Nat :=
  ((run.state.chans ch).md.immut off).ppa

section

variable (writes : Writes env) (inv : Inv env.conf state) (chLt : ch < env.conf.nch)
include writes inv chLt

theorem cpRun_ok {steps : List CpStep}
    (safe : (cpSystem env ch).Allowed (CpStep.Safe ch) { state := state } steps) :
    RunOk env.conf ch (cpRun env ch state steps) :=
  System.run_invariant _ _ (RunOk env.conf ch)
    (fun _ step fine ok => (cpStep_advance writes ok step fine).ok) (inv.runOk chLt) safe

/-- An entry of the immutable table that is copied does not become zero. -/
theorem cpRun_stored {before later : List CpStep}
    (safe : (cpSystem env ch).Allowed (CpStep.Safe ch) { state := state } (before ++ later))
    (offLt : off < env.conf.entries) (past : (cpRun env ch state before).pc.Past off)
    (stored : (cpRun env ch state before).immut ch off ≠ 0) :
    (cpRun env ch state (before ++ later)).immut ch off ≠ 0 := by
  rw [System.allowed_append] at safe
  have start := cpRun_ok writes inv chLt safe.1
  have kept := System.run_invariant (cpSystem env ch) (CpStep.Safe ch)
    (fun run => RunOk env.conf ch run ∧ run.pc.Past off ∧ run.immut ch off ≠ 0)
    (fun run step fine ok => by
      have advance := cpStep_advance writes ok.1 step fine
      exact ⟨advance.ok, advance.past off ok.2.1, advance.stored off offLt ok.2.1 ok.2.2⟩)
    ⟨start, past, stored⟩ safe.2
  rw [cpRun, System.run_append]
  exact kept.2.2

/-- In every run in which the flush finds a free entry whenever it has gone on to an entry of the
used list, and every lookup moves an entry of this list: when the flush returns, the immutable table
holds the address of each page, and an address that is not zero if the page was in the cache when
its entry was copied; after that, no entry of the immutable table is a pointer. -/
theorem immut_holds_addresses (steps : List CpStep)
    (safe : (cpSystem env ch).Allowed (CpStep.Safe ch) { state := state } steps)
    (offLt : off < env.conf.entries) :
    ((cpRun env ch state steps).pc = .done →
        addrFlag ((cpRun env ch state steps).immut ch off) = false) ∧
      (∀ before last, steps = before ++ [last] → (cpRun env ch state before).pc ≠ .done →
        (cpRun env ch state steps).pc = .done →
        (cpRun env ch state steps).immut ch off =
          current (cpRun env ch state steps).state ch off) ∧
      ∀ before later, steps = before ++ later → (cpRun env ch state before).pc.Past off →
        addrFlag ((cpRun env ch state before).immut ch off) = true →
        (cpRun env ch state steps).immut ch off ≠ 0 := by
  refine ⟨fun ended => ?_, ?_, ?_⟩
  · have flush := (cpRun_ok writes inv chLt safe).flush
    rw [ended] at flush
    exact flush.2 off offLt
  · rintro before last rfl notDone ended
    rw [System.allowed_append] at safe
    have advance := cpStep_advance writes (cpRun_ok writes inv chLt safe.1) last safe.2.1
    rw [cpRun, System.run_append] at ended ⊢
    exact advance.returned notDone ended off offLt
  · rintro before later rfl past flag
    refine cpRun_stored writes inv chLt safe offLt past fun zero => ?_
    rw [zero] at flag
    contradiction

end

theorem three_lt_cap : 3 < 2 ^ 63 := by
  decide

theorem three_lt_entries : 3 < 2 ^ 32 := by
  decide

theorem one_lt_entries : 1 < 2 ^ 32 := by
  decide

theorem three_slots_pos : 0 < 3 := by
  decide

/-- Three pages of one entry, and three cache entries. -/
def Conf.three : Conf :=
  { Conf.small with
    entPerPg := 1
    entries := 3
    cap := 3
    entPerPg_pos := Nat.one_pos
    entPerPg_lt := one_lt_entries
    entries_lt := three_lt_entries
    cap_pos := three_slots_pos
    cap_lt := three_lt_cap }

def threeSlots : Env :=
  ⟨.three, firstFit .three, fun _ => true, 1⟩

theorem writes_firstFit (conf : Conf) (readOk : Nat → Bool) (rounds : Nat) :
    Writes ⟨conf, firstFit conf, readOk, rounds⟩ := by
  intro state
  have bound := length_livePages_lt conf state
  obtain ⟨addr, eq, addrPos, addrLt, -⟩ := @exists_fit (livePages conf state) (by omega)
  exact ⟨addr, eq, addrPos, addrLt⟩

/-- Pages 0 and 1 are loaded, the small table is copied, and the flush persists page 0. -/
def firstSteps : List CpStep :=
  [.take 0, .link 0, .take 1, .link 1] ++ List.replicate 8 .flush ++ List.replicate 5 .job

/-- Page 2 is loaded while the flush goes on to page 1. -/
def besideSteps : List CpStep :=
  firstSteps ++ [.flush, .take 2, .link 2, .flush, .job, .job, .job, .job, .job, .flush]

theorem immut_holds_addresses_beside :
    addrFlag ((cpRun threeSlots 0 (mapInit threeSlots) besideSteps).immut 0 1) = false ∧
      (cpRun threeSlots 0 (mapInit threeSlots) besideSteps).immut 0 1 =
        current (cpRun threeSlots 0 (mapInit threeSlots) besideSteps).state 0 1 ∧
      (cpRun threeSlots 0 (mapInit threeSlots) besideSteps).immut 0 1 ≠ 0 := by
  have writes : Writes threeSlots := writes_firstFit _ _ _
  have chLt : 0 < threeSlots.conf.nch := Nat.one_pos
  have inv := (mapInit_represents threeSlots).inv
  have addresses := immut_holds_addresses writes inv chLt besideSteps (by decide)
    (by decide : 1 < threeSlots.conf.entries)
  exact ⟨addresses.1 (by decide), addresses.2.1 besideSteps.dropLast .flush (by decide) (by decide)
    (by decide), addresses.2.2 firstSteps (besideSteps.drop 17) (by decide) (by decide) (by decide)⟩

/-- Page 2 is loaded into the last free entry before the flush goes on.  The flush evicts page 0,
which it has persisted before. -/
def lastFreeSteps : List CpStep :=
  firstSteps ++ [.take 2, .link 2, .flush, .flush, .flush, .job, .job, .job, .job, .job, .flush]

/-- The flush returns with the pointer of page 1 in the immutable table. -/
theorem flush_leaves_pointer :
    Writes threeSlots ∧ Inv threeSlots.conf (mapInit threeSlots) ∧
      (cpRun threeSlots 0 (mapInit threeSlots) lastFreeSteps).pc = .done ∧
      addrFlag ((cpRun threeSlots 0 (mapInit threeSlots) lastFreeSteps).immut 0 1) = true := by
  exact ⟨writes_firstFit _ _ _, (mapInit_represents threeSlots).inv, by decide, by decide⟩

end OxCtrl.GlMap
