import OxCtrl.Lib.LastOut
import OxCtrl.NvmeHost.Core

/-!
# The answer of a call

The commands of a call are counted in its context, whatever the order in which they end and
wherever the submissions begin to fail.  The callback of the last one answers.
-/

namespace OxCtrl.NvmeHost

open OxCtrl.Lib

/-! ## Statuses -/

theorem firstStatus_eq_zero_iff {nCmd : Nat} {status : Nat → UInt16} :
    firstStatus nCmd status = 0 ↔ ∀ i < nCmd, status i = 0 := by
  rw [firstStatus]
  cases found : ((List.range nCmd).map status).find? (· ≠ 0) with
  | none =>
      have none := List.find?_eq_none.mp found
      simp only [Option.getD_none, true_iff]
      intro i lt
      have mem : status i ∈ (List.range nCmd).map status :=
        List.mem_map_of_mem (List.mem_range.mpr lt)
      simpa using none _ mem
  | some first =>
      have nonzero : first ≠ 0 := by simpa using List.find?_some found
      obtain ⟨i, mem, eq⟩ := List.mem_map.mp (List.mem_of_find?_eq_some found)
      simp only [Option.getD_some, nonzero, false_iff]
      intro zero
      exact nonzero (eq.symm.trans (zero i (List.mem_range.mp mem)))

theorem firstStatus_congr {nCmd : Nat} {status status' : Nat → UInt16}
    (same : ∀ i < nCmd, status i = status' i) :
    firstStatus nCmd status = firstStatus nCmd status' := by
  have map : (List.range nCmd).map status = (List.range nCmd).map status' :=
    List.map_congr_left fun i mem => same i (List.mem_range.mp mem)
  rw [firstStatus, firstStatus, map]

/-! ## Invariant of a call -/

/-- Where a command stands at the counter. -/
def Phase.place : Phase → Place
  | .idle | .inFlight | .counting => .waiting
  | .scanning | .calling _ | .putting => .closing
  | .done => .gone

/-- The callback of the command has not begun. -/
def Phase.Outside (phase : Phase) : Prop :=
  phase = .idle ∨ phase = .inFlight

/-- Behind `user_cb`. -/
def Phase.Answered (phase : Phase) : Prop :=
  phase = .putting ∨ phase = .done

instance (phase : Phase) : Decidable phase.Answered :=
  inferInstanceAs (Decidable (_ ∨ _))

/-- The next command of the thread of `nvmeh_rw`. -/
def Submitter.next (nCmd : Nat) : Submitter → Nat
  | .submitting cmdI _ _ | .requeueing cmdI => cmdI
  | .inCallback cmdI => cmdI + 1
  | .returned _ => nCmd

/-- A loop of `nvmeh_rw` runs for the commands of the call only. -/
def Submitter.Inside (nCmd : Nat) : Submitter → Prop
  | .submitting cmdI _ _ | .requeueing cmdI | .inCallback cmdI => cmdI < nCmd
  | .returned _ => True

namespace Request

variable (req : Request)

/-- Commands of the call are still in the code. -/
def Live : Prop :=
  ∃ i < req.args.nCmd, req.phase i ≠ .done

/-- Every command is behind `user_cb`. -/
def AllAnswered : Prop :=
  0 < req.args.nCmd ∧ ∀ i < req.args.nCmd, (req.phase i).Answered

instance : Decidable req.AllAnswered :=
  inferInstanceAs (Decidable (_ ∧ ∀ i < _, _))

/-- The status of the first command that has failed. -/
def answer : UInt16 :=
  firstStatus req.args.nCmd fun i => (req.outcome i).getD 0

/-- The context of the call. -/
structure Holds (call : Nat) (ctx : Ctx) : Prop where
  userCtx : ctx.userCtx = call
  nCmd : ctx.nCmd = req.args.nCmd
  lastOut : LastOut req.args.nCmd (fun i => (req.phase i).place) ctx.completed
  failed : ctx.failed = 0 ↔
    ∀ i < req.args.nCmd, (req.phase i).place ≠ .waiting → req.outcome i = some 0
  status : ∀ i < req.args.nCmd, ∀ status, req.outcome i = some status → ctx.status i = status

/-- The invariant of a call, its context, and the statuses with which the user was called. -/
structure Inv (call : Nat) (ctx : Ctx) (answers : List UInt16) : Prop where
  inside : req.submitter.Inside req.args.nCmd
  reached : ∀ i, req.phase i = .idle ↔ req.submitter.next req.args.nCmd ≤ i
  outcome : ∀ i, req.outcome i = none ↔ (req.phase i).Outside
  inCallback : ∀ i, req.submitter = .inCallback i →
    ¬ (req.phase i).Outside ∧ req.phase i ≠ .done
  calling : ∀ i first, req.phase i = .calling first → first = req.answer
  answers : answers = if req.AllAnswered then [req.answer] else []
  holds : req.Live → req.Holds call ctx

end Request

variable {req next : Request} {call cmdI : Nat} {ctx ctx' : Ctx} {answers : List UInt16}

theorem Submitter.next_le {submitter : Submitter} {nCmd : Nat} (inside : submitter.Inside nCmd) :
    submitter.next nCmd ≤ nCmd := by
  cases submitter with
  | submitting cmdI _ _ => exact Nat.le_of_lt inside
  | requeueing cmdI => exact Nat.le_of_lt inside
  | inCallback cmdI => exact inside
  | returned _ => exact Nat.le_refl _

namespace Request.Inv

variable (inv : req.Inv call ctx answers)

include inv

theorem lt_of_ne_idle (ne : req.phase cmdI ≠ .idle) : cmdI < req.args.nCmd := by
  by_contra beyond
  exact ne ((inv.reached cmdI).mpr
    ((Submitter.next_le inv.inside).trans (Nat.not_lt.mp beyond)))

theorem answers_nil (lt : cmdI < req.args.nCmd) (before : ¬ (req.phase cmdI).Answered) :
    answers = [] := by
  rw [inv.answers, if_neg]
  rintro ⟨_, all⟩
  exact before (all cmdI lt)

/-- A call without commands in the code does not look at its context. -/
theorem other_context (dead : ¬ req.Live) : req.Inv call ctx' answers :=
  { inv with holds := fun live => absurd live dead }

end Request.Inv

/-! ## Steps of a call -/

/-- The answers of a step. -/
def Effect.statuses : Effect → List UInt16
  | .userCb _ status => [status]
  | _ => []

/-- The step of a call keeps the invariant, calls back for this call only, and gives the context
back when the last command leaves. -/
structure Kept (call : Nat) (answers : List UInt16) (next : Request) (ctx : Ctx) (effect : Effect) :
    Prop where
  inv : next.Inv call ctx (answers ++ effect.statuses)
  userCtx : ∀ userCtx status, effect = .userCb userCtx status → userCtx = call
  put : effect = .put ↔ ¬ next.Live

namespace Request

/-- A step behind which a command has not been answered changes the answers of the call not. -/
theorem Inv.quiet (inv : req.Inv call ctx answers) (args : next.args = req.args)
    (lt : cmdI < req.args.nCmd) (before : ¬ (req.phase cmdI).Answered)
    (after : ¬ (next.phase cmdI).Answered)
    (inside : next.submitter.Inside next.args.nCmd)
    (reached : ∀ i, next.phase i = .idle ↔ next.submitter.next next.args.nCmd ≤ i)
    (outcome : ∀ i, next.outcome i = none ↔ (next.phase i).Outside)
    (inCallback : ∀ i, next.submitter = .inCallback i →
      ¬ (next.phase i).Outside ∧ next.phase i ≠ .done)
    (calling : ∀ i first, next.phase i = .calling first → first = next.answer)
    (holds : next.Holds call ctx') : Kept call answers next ctx' .quiet where
  inv :=
    { inside := inside
      reached := reached
      outcome := outcome
      inCallback := inCallback
      calling := calling
      answers := by
        rw [inv.answers_nil lt before, if_neg]
        · rfl
        · rintro ⟨_, all⟩
          exact after (all cmdI (args ▸ lt))
      holds := fun _ => holds }
  userCtx userCtx status eq := by cases eq
  put := by
    refine iff_of_false (by simp) (not_not_intro ⟨cmdI, args ▸ lt, fun done => ?_⟩)
    exact after (Or.inr done)

/-- The steps of a call, one by one. -/
inductive Steps (req : Request) (ctx : Ctx) : Request → Ctx → Effect → Prop where
  | submit (result : Submission) {next : Request} {ctx' : Ctx} {effect : Effect}
      (step : req.submit ctx result = some (next, ctx', effect)) : Steps req ctx next ctx' effect
  | requeue (cmdI : Nat) (at' : req.submitter = .requeueing cmdI) :
      Steps req ctx
        { (req.enter ctx cmdI nvmeNotSubmitted).1 with submitter := .inCallback cmdI }
        (req.enter ctx cmdI nvmeNotSubmitted).2 .quiet
  | complete (cmdI : Nat) (status : UInt16) (at' : req.phase cmdI = .inFlight) :
      Steps req ctx (req.enter ctx cmdI status).1 (req.enter ctx cmdI status).2 .quiet
  | count (cmdI : Nat) (at' : req.phase cmdI = .counting) :
      Steps req ctx (req.count ctx cmdI) (ctx.tally cmdI) .quiet
  | scan (cmdI : Nat) (at' : req.phase cmdI = .scanning) :
      Steps req ctx
        { req with
          phase := Function.update req.phase cmdI
            (.calling (if ctx.failed ≠ 0 then firstStatus ctx.nCmd ctx.status else 0)) }
        ctx .quiet
  | call (cmdI : Nat) (first : UInt16) (at' : req.phase cmdI = .calling first) :
      Steps req ctx { req with phase := Function.update req.phase cmdI .putting } ctx
        (.userCb ctx.userCtx first)
  | put (cmdI : Nat) (at' : req.phase cmdI = .putting) :
      Steps req ctx (req.leave cmdI) ctx .put

theorem steps_of_step {act : Act} {effect : Effect}
    (step : req.step ctx act = some (next, ctx', effect)) : Steps req ctx next ctx' effect := by
  cases act with
  | submit result => exact .submit result step
  | requeue =>
      rw [Request.step, requeue] at step
      split at step
      · cases step
        exact .requeue _ ‹_›
      · cases step
  | call cmdI =>
      simp only [Request.step] at step
      split at step
      · cases step
        exact .call cmdI _ ‹_›
      · cases step
  | complete cmdI status =>
      obtain ⟨at', result⟩ := Option.ite_none_right_eq_some.mp step
      cases result
      exact .complete cmdI status at'
  | count cmdI =>
      obtain ⟨at', result⟩ := Option.ite_none_right_eq_some.mp step
      cases result
      exact .count cmdI at'
  | scan cmdI =>
      obtain ⟨at', result⟩ := Option.ite_none_right_eq_some.mp step
      cases result
      exact .scan cmdI at'
  | put cmdI =>
      obtain ⟨at', result⟩ := Option.ite_none_right_eq_some.mp step
      cases result
      exact .put cmdI at'

/-! ### Phases -/

variable {phase : Phase}

theorem idle_update (ne : req.phase cmdI ≠ .idle) (ne' : phase ≠ .idle) (i : Nat) :
    Function.update req.phase cmdI phase i = .idle ↔ req.phase i = .idle := by
  by_cases same : i = cmdI
  · subst same
    simp [ne, ne']
  · rw [Function.update_of_ne same]

theorem outside_update (same : phase.Outside ↔ (req.phase cmdI).Outside) (i : Nat) :
    (Function.update req.phase cmdI phase i).Outside ↔ (req.phase i).Outside := by
  by_cases eq : i = cmdI
  · subst eq
    rw [Function.update_self, same]
  · rw [Function.update_of_ne eq]

theorem place_update (same : phase.place = (req.phase cmdI).place) (i : Nat) :
    (Function.update req.phase cmdI phase i).place = (req.phase i).place := by
  by_cases eq : i = cmdI
  · subst eq
    rw [Function.update_self, same]
  · rw [Function.update_of_ne eq]

/-- The context after a command has moved on to a phase at the same place of the counter. -/
theorem Holds.advance (holds : req.Holds call ctx) (same : phase.place = (req.phase cmdI).place)
    (submitter : Submitter) (issued : List Cmd) :
    Request.Holds { req with
      phase := Function.update req.phase cmdI phase
      submitter := submitter
      issued := issued } call ctx where
  userCtx := holds.userCtx
  nCmd := holds.nCmd
  lastOut := holds.lastOut.congr fun i _ => place_update same i
  failed := by
    rw [holds.failed]
    simp only [place_update same]
  status := holds.status

/-- The thread of `nvmeh_rw` may be anywhere. -/
theorem Holds.withSubmitter (holds : req.Holds call ctx) (submitter : Submitter) :
    Request.Holds { req with submitter := submitter } call ctx :=
  ⟨holds.userCtx, holds.nCmd, holds.lastOut, holds.failed, holds.status⟩

/-- The status of a command that has no outcome yet may change. -/
theorem Holds.setStatus (holds : req.Holds call ctx) (none : req.outcome cmdI = none)
    (status : UInt16) :
    req.Holds call { ctx with status := Function.update ctx.status cmdI status } where
  userCtx := holds.userCtx
  nCmd := holds.nCmd
  lastOut := holds.lastOut
  failed := holds.failed
  status i lt outcome eq := by
    have differ : i ≠ cmdI := by
      rintro rfl
      rw [none] at eq
      cases eq
    exact (Function.update_of_ne differ _ _).trans (holds.status i lt outcome eq)

/-- The callback of a command begins. -/
theorem Holds.enter (holds : req.Holds call ctx) (outside : (req.phase cmdI).Outside)
    (status : UInt16) :
    (req.enter ctx cmdI status).1.Holds call (req.enter ctx cmdI status).2 where
  userCtx := holds.userCtx
  nCmd := holds.nCmd
  lastOut := by
    refine holds.lastOut.congr fun i _ => place_update ?_ i
    rcases outside with eq | eq <;> rw [eq] <;> rfl
  failed := by
    refine holds.failed.trans (forall₂_congr fun i _ => ?_)
    by_cases same : i = cmdI
    · subst same
      have waiting : (req.phase i).place = .waiting := by
        rcases outside with eq | eq <;> rw [eq] <;> rfl
      have waiting' : ((req.enter ctx i status).1.phase i).place = .waiting := by
        simp [Request.enter, Phase.place]
      simp only [waiting, waiting', ne_eq, not_true_eq_false, false_implies]
    · simp [Request.enter, same]
  status i lt outcome eq := by
    by_cases same : i = cmdI
    · subst same
      simpa [Request.enter] using eq
    · simp only [Request.enter, Function.update_of_ne same] at eq ⊢
      exact holds.status i lt outcome eq

/-- A command is counted. -/
theorem Holds.tally (holds : req.Holds call ctx) (lt : cmdI < req.args.nCmd)
    (counting : req.phase cmdI = .counting) {status : UInt16}
    (outcome : req.outcome cmdI = some status)
    (place : phase.place = leaving req.args.nCmd ctx.completed) (submitter : Submitter) :
    Request.Holds { req with
      phase := Function.update req.phase cmdI phase
      submitter := submitter } call (ctx.tally cmdI) where
  userCtx := holds.userCtx
  nCmd := holds.nCmd
  lastOut := by
    have waiting : (req.phase cmdI).place = .waiting := by
      rw [counting]
      rfl
    refine (holds.lastOut.leave lt waiting).congr fun i _ => ?_
    by_cases same : i = cmdI
    · subst same
      simp [place]
    · simp [same]
  failed := by
    have stored := holds.status cmdI lt status outcome
    have counted : phase.place ≠ .waiting := place ▸ leaving_ne_waiting _ _
    have before : (ctx.tally cmdI).failed = 0 ↔ ctx.failed = 0 ∧ status = 0 := by
      by_cases zero : status = 0 <;> simp [Ctx.tally, stored, zero]
    rw [before, holds.failed]
    constructor
    · rintro ⟨others, rfl⟩ i iLt left
      by_cases same : i = cmdI
      · subst same
        exact outcome
      · apply others i iLt
        simpa [same] using left
    · intro all
      constructor
      · intro i iLt left
        apply all i iLt
        by_cases same : i = cmdI
        · subst same
          simpa using counted
        · simpa [same] using left
      · have own := all cmdI lt (by simpa using counted)
        exact Option.some.inj (outcome.symm.trans own)
  status := holds.status

/-! ### Cases -/

/-- The thread of `nvmeh_rw` in front of a command that it has not submitted. -/
theorem Inv.at_next (inv : req.Inv call ctx answers)
    (at' : req.submitter.next req.args.nCmd = cmdI) (lt : cmdI < req.args.nCmd) :
    req.phase cmdI = .idle ∧ req.outcome cmdI = none ∧ req.Live ∧ ¬ (req.phase cmdI).Answered := by
  have idle : req.phase cmdI = .idle := (inv.reached cmdI).mpr at'.le
  refine ⟨idle, (inv.outcome cmdI).mpr (Or.inl idle), ⟨cmdI, lt, ?_⟩, ?_⟩
  · rw [idle]
    simp
  · rw [idle]
    decide

theorem Inv.submit (inv : req.Inv call ctx answers) {result : Submission} {effect : Effect}
    (step : req.submit ctx result = some (next, ctx', effect)) :
    req.Live ∧ Kept call answers next ctx' effect := by
  rw [Request.submit] at step
  split at step
  · rename_i cmdI bufOff bufSz at'
    have lt : cmdI < req.args.nCmd := by simpa [at', Submitter.Inside] using inv.inside
    have reached := inv.reached
    rw [at'] at reached
    obtain ⟨idle, none, live, unanswered⟩ := inv.at_next (by rw [at']; rfl) lt
    refine ⟨live, ?_⟩
    cases result with
    | noSgl =>
        cases step
        exact inv.quiet rfl lt unanswered unanswered lt reached inv.outcome
          (fun i eq => by cases eq) inv.calling ((inv.holds live).withSubmitter _)
    | refused =>
        cases step
        exact inv.quiet rfl lt unanswered unanswered lt reached inv.outcome
          (fun i eq => by cases eq)
          inv.calling (((inv.holds live).setStatus none 0).withSubmitter _)
    | accepted =>
        cases step
        have after : Submitter.next req.args.nCmd
            (nextRound req.args (cmdI + 1) (bufOff + shorten req.args bufOff bufSz)
              (shorten req.args bufOff bufSz)) = cmdI + 1 := by
          rw [nextRound]
          split
          · rfl
          · exact le_antisymm (Nat.not_lt.mp ‹_›) lt
        refine inv.quiet rfl lt unanswered ?_ ?_ ?_ ?_ ?_ ?_
          (((inv.holds live).advance (by rw [idle]; rfl) _ _).setStatus none 0)
        · simp [Phase.Answered]
        · rw [nextRound]
          split
          · assumption
          · trivial
        · intro i
          simp only [after]
          by_cases same : i = cmdI
          · subst same
            simp
          · rw [Function.update_of_ne same, reached i]
            exact ⟨fun le => lt_of_le_of_ne le (Ne.symm same), fun lt => Nat.le_of_lt lt⟩
        · intro i
          refine (inv.outcome i).trans (outside_update ?_ i).symm
          rw [idle]
          simp [Phase.Outside]
        · intro i eq
          simp only [nextRound] at eq
          split at eq <;> cases eq
        · intro i first eq
          by_cases same : i = cmdI
          · subst same
            simp at eq
          · simp only [Function.update_of_ne same] at eq
            exact inv.calling i first eq
  · cases step

/-- No command is behind the last count while another one is not counted. -/
theorem Inv.not_calling (inv : req.Inv call ctx answers) (lt : cmdI < req.args.nCmd)
    (waiting : (req.phase cmdI).place = .waiting) (i : Nat) (first : UInt16) :
    req.phase i ≠ .calling first := by
  intro eq
  have live : req.Live := ⟨cmdI, lt, fun done => by rw [done] at waiting; cases waiting⟩
  have iLt : i < req.args.nCmd := inv.lt_of_ne_idle (by rw [eq]; simp)
  apply (inv.holds live).lastOut.not_closing lt waiting iLt
  rw [eq]
  rfl

/-- The callback of a command begins, in a thread of its own or in that of `nvmeh_rw`. -/
theorem Inv.enter (inv : req.Inv call ctx answers) (lt : cmdI < req.args.nCmd)
    (outside : (req.phase cmdI).Outside) (status : UInt16) {submitter : Submitter}
    (inside : submitter.Inside req.args.nCmd)
    (reached : ∀ i, Function.update req.phase cmdI .counting i = .idle ↔
      submitter.next req.args.nCmd ≤ i)
    (inCallback : ∀ i, submitter = .inCallback i → i = cmdI ∨ req.submitter = .inCallback i) :
    req.Live ∧ Kept call answers { (req.enter ctx cmdI status).1 with submitter := submitter }
      (req.enter ctx cmdI status).2 .quiet := by
  have waiting : (req.phase cmdI).place = .waiting := by
    rcases outside with eq | eq <;> rw [eq] <;> rfl
  have live : req.Live := ⟨cmdI, lt, fun done => by rw [done] at waiting; cases waiting⟩
  refine ⟨live, inv.quiet rfl lt ?_ ?_ inside reached ?_ ?_ ?_ ?_⟩
  · rcases outside with eq | eq <;> rw [eq] <;> decide
  · simp [Request.enter, Phase.Answered]
  · intro i
    by_cases same : i = cmdI
    · subst same
      simp [Request.enter, Phase.Outside]
    · simp only [Request.enter, Function.update_of_ne same]
      exact inv.outcome i
  · intro i eq
    by_cases same : i = cmdI
    · subst same
      simp [Request.enter, Phase.Outside]
    · simp only [Request.enter, Function.update_of_ne same]
      exact inv.inCallback i ((inCallback i eq).resolve_left same)
  · intro i first eq
    by_cases same : i = cmdI
    · subst same
      simp [Request.enter] at eq
    · simp only [Request.enter, Function.update_of_ne same] at eq
      exact absurd eq (inv.not_calling lt waiting i first)
  · exact ((inv.holds live).enter outside status).withSubmitter submitter

theorem Inv.requeue (inv : req.Inv call ctx answers) (at' : req.submitter = .requeueing cmdI) :
    req.Live ∧ Kept call answers
      { (req.enter ctx cmdI nvmeNotSubmitted).1 with submitter := .inCallback cmdI }
      (req.enter ctx cmdI nvmeNotSubmitted).2 .quiet := by
  have lt : cmdI < req.args.nCmd := by simpa [at', Submitter.Inside] using inv.inside
  have reached := inv.reached
  rw [at'] at reached
  obtain ⟨idle, -⟩ := inv.at_next (by rw [at']; rfl) lt
  refine inv.enter lt (Or.inl idle) nvmeNotSubmitted lt ?_ ?_
  · intro i
    by_cases same : i = cmdI
    · subst same
      simp [Submitter.next]
    · rw [Function.update_of_ne same, reached i]
      exact ⟨fun le => lt_of_le_of_ne le (Ne.symm same), fun lt => Nat.le_of_lt lt⟩
  · intro i eq
    exact Or.inl (Submitter.inCallback.inj eq).symm

theorem Inv.complete (inv : req.Inv call ctx answers) (inFlight : req.phase cmdI = .inFlight)
    (status : UInt16) :
    req.Live ∧ Kept call answers (req.enter ctx cmdI status).1 (req.enter ctx cmdI status).2
      .quiet := by
  have ne : req.phase cmdI ≠ .idle := by simp [inFlight]
  have entered := inv.enter (inv.lt_of_ne_idle ne) (Or.inr inFlight) status inv.inside
    (fun i => (idle_update ne (by simp) i).trans (inv.reached i)) fun i eq => Or.inr eq
  exact entered

/-! ### Behind the lock -/

theorem next_resume (inside : req.submitter.Inside req.args.nCmd) (cmdI : Nat) :
    (req.resume cmdI).next req.args.nCmd = req.submitter.next req.args.nCmd := by
  rw [resume]
  split
  · rename_i at'
    rw [at'] at inside ⊢
    split
    · rfl
    · exact le_antisymm (Nat.not_lt.mp ‹_›) inside
  · rfl

theorem inside_resume (inside : req.submitter.Inside req.args.nCmd) (cmdI : Nat) :
    (req.resume cmdI).Inside req.args.nCmd := by
  rw [resume]
  split
  · split
    · assumption
    · trivial
  · exact inside

theorem resume_inCallback {i : Nat} (at' : req.resume cmdI = .inCallback i) :
    i ≠ cmdI ∧ req.submitter = .inCallback i := by
  rw [resume] at at'
  split at at'
  · split at at' <;> cases at'
  · rename_i other
    refine ⟨?_, at'⟩
    rintro rfl
    exact other at'

/-- A command moves behind the lock of its callback. -/
structure Moves (req : Request) (cmdI : Nat) (phase : Phase) (submitter : Submitter) : Prop where
  before : ¬ (req.phase cmdI).Outside
  notDone : req.phase cmdI ≠ .done
  after : ¬ phase.Outside
  submitter : phase ≠ .done ∧ submitter = req.submitter ∨
    phase = .done ∧ submitter = req.resume cmdI

/-- The fields of the invariant that do not speak of the context. -/
theorem Inv.moves (inv : req.Inv call ctx answers) (cmdI : Nat) (phase : Phase)
    (submitter : Submitter) (moves : Moves req cmdI phase submitter) :
    submitter.Inside req.args.nCmd ∧
      (∀ i, Function.update req.phase cmdI phase i = .idle ↔ submitter.next req.args.nCmd ≤ i) ∧
      (∀ i, req.outcome i = none ↔ (Function.update req.phase cmdI phase i).Outside) ∧
      ∀ i, submitter = .inCallback i → ¬ (Function.update req.phase cmdI phase i).Outside ∧
        Function.update req.phase cmdI phase i ≠ .done := by
  obtain ⟨before, notDone, after, place⟩ := moves
  have next : submitter.next req.args.nCmd = req.submitter.next req.args.nCmd := by
    rcases place with ⟨_, rfl⟩ | ⟨_, rfl⟩
    · rfl
    · exact next_resume inv.inside cmdI
  refine ⟨?_, fun i => ?_, fun i => ?_, fun i at' => ?_⟩
  · rcases place with ⟨_, rfl⟩ | ⟨_, rfl⟩
    · exact inv.inside
    · exact inside_resume inv.inside cmdI
  · rw [next, idle_update (fun eq => before (Or.inl eq)) (fun eq => after (Or.inl eq)), inv.reached]
  · exact (inv.outcome i).trans (outside_update (iff_of_false after before) i).symm
  · by_cases same : i = cmdI
    · subst same
      rw [Function.update_self]
      rcases place with ⟨left, rfl⟩ | ⟨_, rfl⟩
      · exact ⟨after, left⟩
      · exact absurd rfl (resume_inCallback at').1
    · rw [Function.update_of_ne same]
      rcases place with ⟨_, rfl⟩ | ⟨_, rfl⟩
      · exact inv.inCallback i at'
      · exact inv.inCallback i (resume_inCallback at').2

theorem Inv.count (inv : req.Inv call ctx answers) (counting : req.phase cmdI = .counting) :
    req.Live ∧ Kept call answers (req.count ctx cmdI) (ctx.tally cmdI) .quiet := by
  have outside : ¬ (req.phase cmdI).Outside := by simp [counting, Phase.Outside]
  have lt : cmdI < req.args.nCmd := inv.lt_of_ne_idle (by simp [counting])
  have live : req.Live := ⟨cmdI, lt, by simp [counting]⟩
  have waiting : (req.phase cmdI).place = .waiting := by
    rw [counting]
    rfl
  have holds := inv.holds live
  obtain ⟨status, outcome⟩ :=
    Option.ne_none_iff_exists'.mp fun none => outside ((inv.outcome cmdI).mp none)
  have unanswered : ¬ (req.phase cmdI).Answered := by simp [counting, Phase.Answered]
  have calling : ∀ (phase : Phase) (i : Nat) (first : UInt16), phase = .scanning ∨ phase = .done →
      Function.update req.phase cmdI phase i = .calling first → first = req.answer := by
    intro phase i first either eq
    by_cases same : i = cmdI
    · subst same
      rw [Function.update_self] at eq
      rcases either with rfl | rfl <;> cases eq
    · rw [Function.update_of_ne same] at eq
      exact absurd eq (inv.not_calling lt waiting i first)
  refine ⟨live, ?_⟩
  by_cases last : req.args.nCmd ≤ ctx.completed + 1
  · -- the last command goes on to the loop over the statuses
    have eq : req.count ctx cmdI =
        { req with phase := Function.update req.phase cmdI .scanning } := by
      rw [Request.count, if_pos]
      rw [holds.nCmd]
      exact last
    obtain ⟨inside, reached, outcomes, inCallback⟩ :=
      inv.moves cmdI .scanning req.submitter
        ⟨outside, by simp [counting], by simp [Phase.Outside], Or.inl ⟨by simp, rfl⟩⟩
    rw [eq]
    refine inv.quiet rfl lt unanswered ?_ inside reached outcomes inCallback
      (fun i first => calling .scanning i first (Or.inl rfl)) ?_
    · simp [Phase.Answered]
    · exact holds.tally lt counting outcome (by rw [leaving, if_pos last]; rfl) req.submitter
  · -- another command is not counted yet
    have eq : req.count ctx cmdI = req.leave cmdI := by
      rw [Request.count, if_neg]
      rw [holds.nCmd]
      exact last
    obtain ⟨inside, reached, outcomes, inCallback⟩ :=
      inv.moves cmdI .done (req.resume cmdI)
        ⟨outside, by simp [counting], by simp [Phase.Outside], Or.inr ⟨rfl, rfl⟩⟩
    have left : (req.leave cmdI).Holds call (ctx.tally cmdI) :=
      holds.tally lt counting outcome (by rw [leaving, if_neg last]; rfl) (req.resume cmdI)
    obtain ⟨other, otherLt, still⟩ := left.lastOut.exists_waiting (Nat.not_le.mp last)
    have differ : other ≠ cmdI := by
      rintro rfl
      simp [Request.leave, Phase.place] at still
    have otherWaiting : (req.phase other).place = .waiting := by
      simpa [Request.leave, differ] using still
    have notAnswered : ¬ (req.phase other).Answered := by
      rintro (putting | done)
      · rw [putting] at otherWaiting
        cases otherWaiting
      · rw [done] at otherWaiting
        cases otherWaiting
    rw [eq]
    refine inv.quiet rfl otherLt notAnswered ?_ inside reached outcomes inCallback
      (fun i first => calling .done i first (Or.inr rfl)) left
    simpa [Request.leave, differ] using notAnswered

/-- Behind the last count every other command is gone, and every outcome is known. -/
theorem Inv.closing (inv : req.Inv call ctx answers)
    (closing : (req.phase cmdI).place = .closing) :
    cmdI < req.args.nCmd ∧ req.Live ∧ (∀ i < req.args.nCmd, i ≠ cmdI → req.phase i = .done) ∧
      ∀ i < req.args.nCmd, ∃ status, req.outcome i = some status := by
  have lt : cmdI < req.args.nCmd := inv.lt_of_ne_idle fun idle => by
    rw [idle] at closing
    cases closing
  have live : req.Live := ⟨cmdI, lt, fun done => by rw [done] at closing; cases closing⟩
  have gone := (inv.holds live).lastOut.others_gone lt closing
  have others : ∀ i < req.args.nCmd, i ≠ cmdI → req.phase i = .done := by
    intro i iLt differ
    have place := gone i iLt differ
    cases at' : req.phase i with
    | done => rfl
    | _ =>
        rw [at'] at place
        cases place
  refine ⟨lt, live, others, fun i iLt => Option.ne_none_iff_exists'.mp fun none => ?_⟩
  have outside := (inv.outcome i).mp none
  by_cases same : i = cmdI
  · subst same
    rcases outside with eq | eq <;> rw [eq] at closing <;> cases closing
  · rw [others i iLt same] at outside
    rcases outside with eq | eq <;> cases eq

/-- The loop over the statuses finds the answer. -/
theorem Inv.scan_eq (inv : req.Inv call ctx answers)
    (scanning : (req.phase cmdI).place = .closing) :
    (if ctx.failed ≠ 0 then firstStatus ctx.nCmd ctx.status else 0) = req.answer := by
  obtain ⟨lt, live, others, known⟩ := inv.closing scanning
  have holds := inv.holds live
  have stored : firstStatus ctx.nCmd ctx.status = req.answer := by
    rw [holds.nCmd]
    refine firstStatus_congr fun i iLt => ?_
    obtain ⟨status, eq⟩ := known i iLt
    rw [eq, holds.status i iLt status eq]
    rfl
  split
  · exact stored
  · rename_i noFailure
    have zero := holds.failed.mp (not_not.mp noFailure)
    refine (firstStatus_eq_zero_iff.mpr fun i iLt => ?_).symm
    rw [zero i iLt]
    · rfl
    · by_cases same : i = cmdI
      · subst same
        rw [scanning]
        simp
      · rw [others i iLt same]
        simp [Phase.place]

theorem Inv.scan (inv : req.Inv call ctx answers) (scanning : req.phase cmdI = .scanning) :
    req.Live ∧ Kept call answers
      { req with
        phase := Function.update req.phase cmdI
          (.calling (if ctx.failed ≠ 0 then firstStatus ctx.nCmd ctx.status else 0)) }
      ctx .quiet := by
  have closing : (req.phase cmdI).place = .closing := by
    rw [scanning]
    rfl
  obtain ⟨lt, live, -⟩ := inv.closing closing
  have eq := inv.scan_eq closing
  obtain ⟨inside, reached, outcomes, inCallback⟩ :=
    inv.moves cmdI (.calling req.answer) req.submitter
      ⟨by simp [scanning, Phase.Outside], by simp [scanning], by simp [Phase.Outside],
        Or.inl ⟨by simp, rfl⟩⟩
  rw [eq]
  refine ⟨live, inv.quiet rfl lt ?_ ?_ inside reached outcomes inCallback ?_ ?_⟩
  · simp [scanning, Phase.Answered]
  · simp [Phase.Answered]
  · intro i first at'
    by_cases same : i = cmdI
    · subst same
      have eq : first = req.answer := by simpa using at'.symm
      exact eq
    · simp only [Function.update_of_ne same] at at'
      exact inv.calling i first at'
  · exact (inv.holds live).advance (by rw [scanning]; rfl) req.submitter req.issued

theorem Inv.callUser (inv : req.Inv call ctx answers) {first : UInt16}
    (calling : req.phase cmdI = .calling first) :
    req.Live ∧ Kept call answers { req with phase := Function.update req.phase cmdI .putting } ctx
      (.userCb ctx.userCtx first) := by
  have closing : (req.phase cmdI).place = .closing := by
    rw [calling]
    rfl
  obtain ⟨lt, live, others, -⟩ := inv.closing closing
  obtain ⟨inside, reached, outcomes, inCallback⟩ :=
    inv.moves cmdI .putting req.submitter
      ⟨by simp [calling, Phase.Outside], by simp [calling], by simp [Phase.Outside],
        Or.inl ⟨by simp, rfl⟩⟩
  have all : Request.AllAnswered
      { req with phase := Function.update req.phase cmdI .putting } := by
    refine ⟨Nat.zero_lt_of_lt lt, fun i iLt => ?_⟩
    by_cases same : i = cmdI
    · subst same
      simp [Phase.Answered]
    · simp only [Function.update_of_ne same, others i iLt same]
      exact Or.inr rfl
  refine ⟨live, ⟨⟨inside, reached, outcomes, inCallback, ?_, ?_, fun _ => ?_⟩, ?_, ?_⟩⟩
  · intro i first at'
    by_cases same : i = cmdI
    · subst same
      simp at at'
    · simp only [Function.update_of_ne same] at at'
      exact inv.calling i first at'
  · rw [inv.answers_nil lt (by simp [calling, Phase.Answered]), if_pos all]
    exact congrArg (fun status => [status]) (inv.calling cmdI first calling)
  · exact (inv.holds live).advance (by rw [calling]; rfl) req.submitter req.issued
  · intro userCtx status eq
    cases eq
    exact (inv.holds live).userCtx
  · refine iff_of_false (by simp) (not_not_intro ⟨cmdI, lt, ?_⟩)
    simp

theorem Inv.put (inv : req.Inv call ctx answers) (putting : req.phase cmdI = .putting) :
    req.Live ∧ Kept call answers (req.leave cmdI) ctx .put := by
  have closing : (req.phase cmdI).place = .closing := by
    rw [putting]
    rfl
  obtain ⟨lt, live, others, -⟩ := inv.closing closing
  obtain ⟨inside, reached, outcomes, inCallback⟩ :=
    inv.moves cmdI .done (req.resume cmdI)
      ⟨by simp [putting, Phase.Outside], by simp [putting], by simp [Phase.Outside],
        Or.inr ⟨rfl, rfl⟩⟩
  have done : ∀ i < req.args.nCmd, (req.leave cmdI).phase i = .done := by
    intro i iLt
    by_cases same : i = cmdI
    · subst same
      simp [Request.leave]
    · simp only [Request.leave, Function.update_of_ne same]
      exact others i iLt same
  have dead : ¬ (req.leave cmdI).Live := by
    rintro ⟨i, iLt, notDone⟩
    exact notDone (done i iLt)
  have before : req.AllAnswered := by
    refine ⟨Nat.zero_lt_of_lt lt, fun i iLt => ?_⟩
    by_cases same : i = cmdI
    · subst same
      exact Or.inl putting
    · exact Or.inr (others i iLt same)
  have after : (req.leave cmdI).AllAnswered :=
    ⟨Nat.zero_lt_of_lt lt, fun i iLt => Or.inr (done i iLt)⟩
  refine ⟨live, ⟨⟨inside, reached, outcomes, inCallback, ?_, ?_, fun live => absurd live dead⟩, ?_,
    iff_of_true rfl dead⟩⟩
  · intro i first at'
    by_cases same : i = cmdI
    · subst same
      simp [Request.leave] at at'
    · simp only [Request.leave, Function.update_of_ne same] at at'
      exact inv.calling i first at'
  · rw [inv.answers, if_pos before, if_pos after]
    rfl
  · intro userCtx status eq
    cases eq

/-- Every step of a call is one with commands in the code, and keeps the invariant. -/
theorem Inv.step (inv : req.Inv call ctx answers) {effect : Effect}
    (steps : Steps req ctx next ctx' effect) : req.Live ∧ Kept call answers next ctx' effect := by
  cases steps with
  | submit result step => exact inv.submit step
  | requeue cmdI at' => exact inv.requeue at'
  | complete cmdI status at' => exact inv.complete at' status
  | count cmdI at' => exact inv.count at'
  | scan cmdI at' => exact inv.scan at'
  | call cmdI first at' => exact inv.callUser at'
  | put cmdI at' => exact inv.put at'

/-- A callback that has begun and has not returned can take a step. -/
theorem callback_enabled (ctx : Ctx) (outside : ¬ (req.phase cmdI).Outside)
    (notDone : req.phase cmdI ≠ .done) : ∃ act result, req.step ctx act = some result := by
  cases at' : req.phase cmdI with
  | idle => exact absurd (Or.inl at') outside
  | inFlight => exact absurd (Or.inr at') outside
  | done => exact absurd at' notDone
  | counting => exact ⟨.count cmdI, _, if_pos at'⟩
  | scanning => exact ⟨.scan cmdI, _, if_pos at'⟩
  | putting => exact ⟨.put cmdI, _, if_pos at'⟩
  | calling first =>
      refine ⟨.call cmdI, ({ req with phase := Function.update req.phase cmdI .putting }, ctx,
        .userCb ctx.userCtx first), ?_⟩
      simp only [Request.step, at']

/-- While a command is in the code, some thread of the call can take a step. -/
theorem Inv.enabled (inv : req.Inv call ctx answers) (live : req.Live) :
    ∃ act result, req.step ctx act = some result := by
  obtain ⟨cmdI, lt, notDone⟩ := live
  by_cases outside : (req.phase cmdI).Outside
  · rcases outside with idle | inFlight
    · -- the thread of `nvmeh_rw` has not come to the command
      have le := (inv.reached cmdI).mp idle
      cases submitter : req.submitter with
      | submitting i bufOff bufSz =>
          refine ⟨.submit .noSgl, ({ req with submitter := .requeueing i }, ctx, .quiet), ?_⟩
          simp only [Request.step, Request.submit, submitter]
      | requeueing i =>
          refine ⟨.requeue, ({ (req.enter ctx i nvmeNotSubmitted).1 with
            submitter := .inCallback i }, (req.enter ctx i nvmeNotSubmitted).2, .quiet), ?_⟩
          simp only [Request.step, Request.requeue, submitter]
      | inCallback i =>
          obtain ⟨begun, left⟩ := inv.inCallback i submitter
          exact callback_enabled ctx begun left
      | returned ok =>
          rw [submitter] at le
          exact absurd (lt_of_lt_of_le lt le) (Nat.lt_irrefl _)
    · exact ⟨.complete cmdI 0, _, if_pos inFlight⟩
  · exact callback_enabled ctx outside notDone

end Request

end OxCtrl.NvmeHost
