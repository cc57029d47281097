import Mathlib.Algebra.Order.BigOperators.Group.Finset
import OxCtrl.NvmeHost.Answer
import OxCtrl.NvmeHost.Split

/-!
# The progress of a call

The submission loop submits the commands of the buffer in their order, and every step of a call
leaves less to do.
-/

namespace OxCtrl.NvmeHost.Request

open OxCtrl.Lib

variable {req next : Request} {call cmdI : Nat} {ctx ctx' : Ctx} {answers : List UInt16}
  {phase : Phase}

/-! ## Commands -/

/-- What the submission loop has submitted. -/
structure Issues (req : Request) : Prop where
  first : ∃ k ≤ req.args.nCmd, req.issued = (List.range k).map (command req.args)
  submitting : ∀ cmdI bufOff bufSz, req.submitter = .submitting cmdI bufOff bufSz →
    bufOff = offsetOf cmdI ∧ bufSz = blkPerCmd * oxfBlkSize ∧
      req.issued = (List.range cmdI).map (command req.args)
  returned : req.submitter = .returned true →
    req.issued = (List.range req.args.nCmd).map (command req.args)

/-- The submission loop does not go on behind a callback. -/
theorem resume_cases (req : Request) (cmdI : Nat) :
    req.resume cmdI = req.submitter ∨ req.resume cmdI = .requeueing (cmdI + 1) ∨
      req.resume cmdI = .returned false := by
  rw [resume]
  split
  · split
    · exact Or.inr (Or.inl rfl)
    · exact Or.inr (Or.inr rfl)
  · exact Or.inl rfl

/-- A thread that has left the submission loop. -/
theorem Issues.elsewhere (issues : Issues req) {next : Request} (args : next.args = req.args)
    (issued : next.issued = req.issued)
    (submitter : next.submitter = req.submitter ∨
      (∀ cmdI bufOff bufSz, next.submitter ≠ .submitting cmdI bufOff bufSz) ∧
        next.submitter ≠ .returned true) : Issues next where
  first := by
    rw [args, issued]
    exact issues.first
  submitting cmdI bufOff bufSz at' := by
    rcases submitter with same | ⟨other, _⟩
    · rw [args, issued]
      exact issues.submitting cmdI bufOff bufSz (same ▸ at')
    · exact absurd at' (other cmdI bufOff bufSz)
  returned at' := by
    rcases submitter with same | ⟨_, other⟩
    · rw [args, issued]
      exact issues.returned (same ▸ at')
    · exact absurd at' other

theorem Issues.leave (issues : Issues req) (cmdI : Nat) : Issues (req.leave cmdI) := by
  refine issues.elsewhere rfl rfl ?_
  rcases resume_cases req cmdI with same | requeueing | failed
  · exact Or.inl same
  · right
    simp [Request.leave, requeueing]
  · right
    simp [Request.leave, failed]

theorem Issues.submit (issues : Issues req) (accepted : req.args.Accepted)
    (small : req.args.size < 2 ^ 44) (inside : req.submitter.Inside req.args.nCmd)
    {result : Submission} {effect : Effect}
    (step : req.submit ctx result = some (next, ctx', effect)) : Issues next := by
  rw [Request.submit] at step
  split at step
  · rename_i cmdI bufOff bufSz at'
    have lt : cmdI < req.args.nCmd := by simpa [at', Submitter.Inside] using inside
    obtain ⟨rfl, rfl, issued⟩ := issues.submitting cmdI bufOff bufSz at'
    cases result with
    | noSgl =>
        cases step
        exact issues.elsewhere rfl rfl (Or.inr (by simp))
    | refused =>
        cases step
        exact issues.elsewhere rfl rfl (Or.inr (by simp))
    | accepted =>
        cases step
        have more : req.issued ++ [command req.args cmdI] =
            (List.range (cmdI + 1)).map (command req.args) := by
          rw [issued, List.range_succ, List.map_append]
          rfl
        refine ⟨⟨cmdI + 1, lt, more⟩, fun i off sz at'' => ?_, fun at'' => ?_⟩
        · simp only [nextRound] at at''
          split at at''
          · rename_i another
            cases at''
            refine ⟨?_, shorten_of_lt accepted small another, more⟩
            rw [shorten_of_lt accepted small another, offsetOf, offsetOf, Nat.succ_mul]
          · cases at''
        · simp only [nextRound] at at''
          split at at''
          · cases at''
          · rename_i none
            have all : cmdI + 1 = req.args.nCmd := le_antisymm lt (Nat.not_lt.mp none)
            exact all ▸ more
  · cases step

theorem submit_frame {result : Submission} {effect : Effect}
    (step : req.submit ctx result = some (next, ctx', effect)) :
    next.args = req.args ∧ next.ctx = req.ctx ∧ ctx'.isWrite = ctx.isWrite := by
  rw [submit] at step
  split at step
  · cases result <;> cases step <;> exact ⟨rfl, rfl, rfl⟩
  · cases step

theorem count_frame (req : Request) (ctx : Ctx) (cmdI : Nat) :
    (req.count ctx cmdI).args = req.args ∧ (req.count ctx cmdI).ctx = req.ctx := by
  rw [count]
  split <;> exact ⟨rfl, rfl⟩

/-- What a step does not change. -/
theorem Steps.frame {effect : Effect} (steps : Steps req ctx next ctx' effect) :
    next.args = req.args ∧ next.ctx = req.ctx ∧ ctx'.isWrite = ctx.isWrite := by
  cases steps with
  | submit result step => exact submit_frame step
  | count cmdI at' =>
      obtain ⟨args, id⟩ := count_frame req ctx cmdI
      exact ⟨args, id, rfl⟩
  | requeue | complete | scan | call | put => exact ⟨rfl, rfl, rfl⟩

theorem Issues.step (issues : Issues req) (accepted : req.args.Accepted)
    (small : req.args.size < 2 ^ 44) (inside : req.submitter.Inside req.args.nCmd)
    {effect : Effect} (steps : Steps req ctx next ctx' effect) : Issues next := by
  cases steps with
  | submit result step => exact issues.submit accepted small inside step
  | requeue cmdI at' => exact issues.elsewhere rfl rfl (Or.inr (by simp))
  | put cmdI at' => exact issues.leave cmdI
  | count cmdI at' =>
      rw [count]
      split
      · exact issues.elsewhere rfl rfl (Or.inl rfl)
      · exact issues.leave cmdI
  | complete | scan | call => exact issues.elsewhere rfl rfl (Or.inl rfl)

/-! ## Work -/

/-- Steps that are left for a command. -/
def stepsLeft : Phase → Nat
  | .idle => 6
  | .inFlight => 5
  | .counting => 4
  | .scanning => 3
  | .calling _ => 2
  | .putting => 1
  | .done => 0

/-- A failed submission is one more step. -/
def failuresLeft : Submitter → Nat
  | .submitting _ _ _ => 1
  | _ => 0

/-- A bound on the steps that are left for a call. -/
def work (req : Request) : Nat :=
  ∑ i ∈ Finset.range req.args.nCmd, stepsLeft (req.phase i) + failuresLeft req.submitter

theorem work_lt {next : Request} (args : next.args = req.args) (lt : cmdI < req.args.nCmd)
    (moved : next.phase = Function.update req.phase cmdI phase)
    (less : stepsLeft phase < stepsLeft (req.phase cmdI))
    (submitter : failuresLeft next.submitter ≤ failuresLeft req.submitter) :
    next.work < req.work := by
  rw [work, work, args, moved]
  refine Nat.add_lt_add_of_lt_of_le (Finset.sum_lt_sum (fun i _ => ?_) ⟨cmdI, ?_, ?_⟩) submitter
  · by_cases same : i = cmdI
    · subst same
      rw [Function.update_self]
      exact less.le
    · rw [Function.update_of_ne same]
  · exact Finset.mem_range.mpr lt
  · rwa [Function.update_self]

theorem failuresLeft_resume (req : Request) (cmdI : Nat) :
    failuresLeft (req.resume cmdI) ≤ failuresLeft req.submitter := by
  rcases resume_cases req cmdI with same | requeueing | failed
  · rw [same]
  · rw [requeueing]
    exact Nat.zero_le _
  · rw [failed]
    exact Nat.zero_le _

theorem Inv.submit_work (inv : req.Inv call ctx answers) {result : Submission} {effect : Effect}
    (step : req.submit ctx result = some (next, ctx', effect)) : next.work < req.work := by
  rw [Request.submit] at step
  split at step
  · rename_i cmdI bufOff bufSz at'
    have lt : cmdI < req.args.nCmd := by simpa [at', Submitter.Inside] using inv.inside
    obtain ⟨idle, -⟩ := inv.at_next (by rw [at']; rfl) lt
    cases result with
    | noSgl =>
        cases step
        simp [work, at', failuresLeft]
    | refused =>
        cases step
        simp [work, at', failuresLeft]
    | accepted =>
        cases step
        refine work_lt rfl lt rfl (by simp [idle, stepsLeft]) ?_
        simp only [at', nextRound]
        split
        · exact Nat.le_refl _
        · exact Nat.zero_le _
  · cases step

/-- Every step of a call leaves less work. -/
theorem Inv.step_work (inv : req.Inv call ctx answers) {effect : Effect}
    (steps : Steps req ctx next ctx' effect) : next.work < req.work := by
  have inside : ∀ {cmdI}, req.phase cmdI ≠ .idle → cmdI < req.args.nCmd := inv.lt_of_ne_idle
  cases steps with
  | submit result step => exact inv.submit_work step
  | requeue cmdI at' =>
      have lt : cmdI < req.args.nCmd := by simpa [at', Submitter.Inside] using inv.inside
      obtain ⟨idle, -⟩ := inv.at_next (by rw [at']; rfl) lt
      exact work_lt rfl lt rfl (by simp [idle, stepsLeft]) (Nat.zero_le _)
  | complete cmdI status at' =>
      exact work_lt rfl (inside (by simp [at'])) rfl (by simp [at', stepsLeft]) (Nat.le_refl _)
  | count cmdI at' =>
      rw [Request.count]
      split
      · exact work_lt rfl (inside (by simp [at'])) rfl (by simp [at', stepsLeft]) (Nat.le_refl _)
      · exact work_lt rfl (inside (by simp [at'])) rfl (by simp [at', stepsLeft])
          (failuresLeft_resume req cmdI)
  | scan cmdI at' =>
      exact work_lt rfl (inside (by simp [at'])) rfl (by simp [at', stepsLeft]) (Nat.le_refl _)
  | call cmdI first at' =>
      exact work_lt rfl (inside (by simp [at'])) rfl (by simp [at', stepsLeft]) (Nat.le_refl _)
  | put cmdI at' =>
      exact work_lt rfl (inside (by simp [at'])) rfl (by simp [at', stepsLeft])
        (failuresLeft_resume req cmdI)

end OxCtrl.NvmeHost.Request
