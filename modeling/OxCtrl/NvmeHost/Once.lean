import OxCtrl.NvmeHost.Progress

/-!
# Calls that share the contexts

Many calls of `nvmeh_rw` run at the same time, and a context that a call gives back serves another
one.  Two calls with commands in the code never have the same context, so that each call is answered
once.
-/

namespace OxCtrl.NvmeHost

open OxCtrl.Lib

/-! ## Pools -/

namespace Pool

variable {pool rest : Pool} {id : Nat}

/-- The contexts of a pool. -/
def ids (pool : Pool) : List Nat :=
  pool.free ++ pool.used

theorem get_eq_some (found : pool.get = some (id, rest)) :
    pool.free = id :: rest.free ∧ rest.used = pool.used ++ [id] := by
  rw [get] at found
  split at found
  · cases found
  · rename_i free
    cases found
    exact ⟨free, rfl⟩

theorem perm_get (found : pool.get = some (id, rest)) : rest.ids.Perm pool.ids := by
  obtain ⟨free, used⟩ := get_eq_some found
  rw [ids, ids, free, used, ← List.append_assoc]
  exact List.perm_append_singleton id _

theorem perm_put (mem : id ∈ pool.used) : (pool.put id).ids.Perm pool.ids := by
  rw [ids, put, List.append_assoc]
  exact List.Perm.append_left _ (List.perm_cons_erase mem).symm

theorem notMem_used (nodup : pool.ids.Nodup) (found : pool.get = some (id, rest)) :
    id ∉ pool.used := by
  intro mem
  obtain ⟨free, -⟩ := get_eq_some found
  have apart := (List.nodup_append.mp nodup).2.2
  exact apart id (by rw [free]; exact List.mem_cons_self) id mem rfl

end Pool

/-! ## Effects -/

namespace Host

variable {host : Host} {id call other : Nat} {effect : Effect}

/-- The statuses with which the user was called for a call. -/
def answersOf (host : Host) (call : Nat) : List UInt16 :=
  host.called.filterMap fun entry => if entry.1 = call then some entry.2 else none

@[simp]
theorem effect_requests : (host.effect id effect).requests = host.requests := by
  cases effect with
  | quiet | userCb => rfl
  | put =>
      rw [Host.effect]
      split <;> rfl

@[simp]
theorem effect_ctx : (host.effect id effect).ctx = host.ctx := by
  cases effect with
  | quiet | userCb => rfl
  | put =>
      rw [Host.effect]
      split <;> rfl

theorem effect_ctxw (write : (host.ctx id).isWrite = true) :
    (host.effect id effect).ctxw = if effect = .put then host.ctxw.put id else host.ctxw := by
  cases effect with
  | quiet | userCb => rfl
  | put =>
      rw [Host.effect, if_pos write]
      rfl

theorem answersOf_effect
    (own : ∀ userCtx status, effect = .userCb userCtx status → userCtx = call) :
    (host.effect id effect).answersOf other =
      host.answersOf other ++ if other = call then effect.statuses else [] := by
  cases effect with
  | quiet => simp [Host.effect, Effect.statuses]
  | put =>
      rw [Host.effect]
      split <;> simp [answersOf, Effect.statuses]
  | userCb userCtx status =>
      obtain rfl := own userCtx status rfl
      rw [answersOf, Host.effect, List.filterMap_append]
      congr 1
      by_cases same : userCtx = other
      · simp [same, Effect.statuses]
      · simp [same, Ne.symm same]

end Host

/-! ## Invariant -/

/-- The invariant of the host. -/
structure HostInv (host : Host) : Prop where
  each : ∀ call req, host.requests call = some req →
    req.Inv call (host.ctx req.ctx) (host.answersOf call)
  accepted : ∀ call req, host.requests call = some req → req.args.Accepted
  issues : ∀ call req, host.requests call = some req → req.args.size < 2 ^ 44 → req.Issues
  silent : ∀ call, host.requests call = none → host.answersOf call = []
  apart : ∀ call other req req', host.requests call = some req →
    host.requests other = some req' → req.Live → req'.Live → req.ctx = req'.ctx → call = other
  used : ∀ call req, host.requests call = some req → req.Live → req.ctx ∈ host.ctxw.used
  nodup : host.ctxw.ids.Nodup
  write : ∀ id ∈ host.ctxw.ids, (host.ctx id).isWrite = true

theorem hostInv_init (writeEntries readEntries : Nat) :
    HostInv (nvmehInit writeEntries readEntries) where
  each call req found := by cases found
  accepted call req found := by cases found
  issues call req found := by cases found
  silent _ _ := rfl
  apart call other req req' found := by cases found
  used call req found := by cases found
  nodup := by
    rw [Pool.ids, nvmehInit, List.append_nil]
    exact List.nodup_range
  write id mem := by
    rw [Pool.ids, nvmehInit, List.append_nil] at mem
    exact decide_eq_true (List.mem_range.mp mem)

/-- A call begins. -/
theorem Request.inv_begin (args : Args) (id call : Nat) (ctx : Ctx) :
    Request.Inv
      { args := args, ctx := id, submitter := nextRound args 0 0 (blkPerCmd * oxfBlkSize) }
      call (ctx.begin call args.nCmd) [] where
  inside := by
    rw [nextRound]
    split
    · assumption
    · trivial
  reached i := by
    refine iff_of_true rfl ?_
    simp only [nextRound]
    split
    · exact Nat.zero_le i
    · exact (Nat.not_lt.mp ‹_›).trans (Nat.zero_le i)
  outcome i := iff_of_true rfl (Or.inl rfl)
  inCallback i at' := by
    simp only [nextRound] at at'
    split at at' <;> cases at'
  calling i first at' := by cases at'
  answers := by
    rw [if_neg]
    rintro ⟨pos, all⟩
    rcases all 0 pos with putting | done
    · cases putting
    · cases done
  holds live :=
    { userCtx := rfl
      nCmd := rfl
      lastOut := LastOut.start (Nat.zero_lt_of_lt live.choose_spec.1)
      failed := iff_of_true rfl fun i _ left => absurd rfl left
      status := fun i _ status eq => by cases eq }

theorem Request.issues_begin (args : Args) (id : Nat) :
    Request.Issues
      { args := args, ctx := id, submitter := nextRound args 0 0 (blkPerCmd * oxfBlkSize) } where
  first := ⟨0, Nat.zero_le _, rfl⟩
  submitting cmdI bufOff bufSz at' := by
    simp only [nextRound] at at'
    split at at'
    · cases at'
      exact ⟨(Nat.zero_mul _).symm, rfl, rfl⟩
    · cases at'
  returned at' := by
    simp only [nextRound] at at'
    split at at'
    · cases at'
    · rename_i none
      rw [Nat.eq_zero_of_not_pos none]
      rfl

variable {host : Host} {call : Nat}

/-- One call and its context change, and no other call with commands in the code has the
context. -/
theorem HostInv.replace (inv : HostInv host) (call : Nat) {host' : Host} {next : Request}
    {ctx : Ctx}
    (requests : host'.requests = Function.update host.requests call (some next))
    (contexts : host'.ctx = Function.update host.ctx next.ctx ctx)
    (differ : ∀ other req, host.requests other = some req → other ≠ call → req.Live →
      req.ctx ≠ next.ctx)
    (answers : ∀ other, other ≠ call → host'.answersOf other = host.answersOf other)
    (each : next.Inv call ctx (host'.answersOf call)) (accepted : next.args.Accepted)
    (issues : next.args.size < 2 ^ 44 → next.Issues)
    (others : ∀ id ∈ host.ctxw.used, id ≠ next.ctx → id ∈ host'.ctxw.used)
    (used : next.Live → next.ctx ∈ host'.ctxw.used)
    (perm : host'.ctxw.ids.Perm host.ctxw.ids)
    (isWrite : ctx.isWrite = (host.ctx next.ctx).isWrite) : HostInv host' := by
  have own : ∀ {req}, host'.requests call = some req → req = next := by
    intro req found
    rw [requests, Function.update_self] at found
    exact (Option.some.inj found).symm
  have before : ∀ {other req}, host'.requests other = some req → other ≠ call →
      host.requests other = some req := by
    intro other req found ne
    rwa [requests, Function.update_of_ne ne] at found
  refine ⟨fun other req found => ?_, fun other req found => ?_, fun other req found small => ?_,
    fun other found => ?_, fun c c' r r' found found' live live' same => ?_,
    fun other req found live => ?_, perm.nodup_iff.mpr inv.nodup, fun id mem => ?_⟩
  · by_cases this : other = call
    · subst this
      obtain rfl := own found
      rw [contexts, Function.update_self]
      exact each
    · have was := before found this
      rw [answers other this, contexts]
      by_cases live : req.Live
      · rw [Function.update_of_ne (differ other req was this live)]
        exact inv.each other req was
      · exact (inv.each other req was).other_context live
  · by_cases this : other = call
    · subst this
      obtain rfl := own found
      exact accepted
    · exact inv.accepted other req (before found this)
  · by_cases this : other = call
    · subst this
      obtain rfl := own found
      exact issues small
    · exact inv.issues other req (before found this) small
  · have ne : other ≠ call := by
      rintro rfl
      rw [requests, Function.update_self] at found
      cases found
    rw [requests, Function.update_of_ne ne] at found
    rw [answers other ne]
    exact inv.silent other found
  · by_cases this : c = call
    · subst this
      obtain rfl := own found
      by_contra other
      exact differ c' r' (before found' (Ne.symm other)) (Ne.symm other) live' same.symm
    · by_cases this' : c' = call
      · subst this'
        obtain rfl := own found'
        exact absurd same (differ c r (before found this) this live)
      · exact inv.apart c c' r r' (before found this) (before found' this') live live' same
  · by_cases this : other = call
    · subst this
      obtain rfl := own found
      exact used live
    · have was := before found this
      exact others req.ctx (inv.used other req was live) (differ other req was this live)
  · have write := inv.write id (perm.mem_iff.mp mem)
    rw [contexts]
    by_cases same : id = next.ctx
    · subst same
      rw [Function.update_self, isWrite]
      exact write
    · rwa [Function.update_of_ne same]

theorem HostInv.nvmehRw (inv : HostInv host) (fresh : host.requests call = none) (args : Args) :
    HostInv (host.nvmehRw call args) := by
  rw [Host.nvmehRw]
  split
  · rename_i accepted
    split
    · exact inv
    · rename_i id rest found
      have unused := Pool.notMem_used inv.nodup found
      obtain ⟨free, used⟩ := Pool.get_eq_some found
      refine inv.replace call rfl rfl ?_ (fun _ _ => rfl) ?_ accepted
        (fun _ => Request.issues_begin args id) ?_ ?_ (Pool.perm_get found) rfl
      · rintro other req was - live rfl
        exact unused (inv.used other req was live)
      · have answers := inv.silent call fresh
        rw [Host.answersOf] at answers ⊢
        rw [answers]
        exact Request.inv_begin args id call (host.ctx id)
      · intro id' mem _
        rw [used]
        exact List.mem_append_left _ mem
      · intro _
        rw [used]
        exact List.mem_append_right _ (List.mem_singleton.mpr rfl)
  · exact inv

/-- The host behind a step of a call. -/
def Host.after (host : Host) (call : Nat) (req next : Request) (ctx : Ctx) (effect : Effect) :
    Host :=
  { host with
      ctx := Function.update host.ctx req.ctx ctx
      requests := Function.update host.requests call (some next) }.effect req.ctx effect

theorem HostInv.inside (inv : HostInv host) {req next : Request} {ctx : Ctx} {effect : Effect}
    (found : host.requests call = some req)
    (steps : Request.Steps req (host.ctx req.ctx) next ctx effect) :
    HostInv (host.after call req next ctx effect) := by
  have own := inv.each call req found
  obtain ⟨live, kept⟩ := own.step steps
  obtain ⟨args, id, isWrite⟩ := steps.frame
  have used := inv.used call req found live
  have write : (Function.update host.ctx req.ctx ctx req.ctx).isWrite = true := by
    rw [Function.update_self, isWrite]
    exact inv.write req.ctx (List.mem_append_right _ used)
  have pool : (host.after call req next ctx effect).ctxw =
      if effect = .put then host.ctxw.put req.ctx else host.ctxw := Host.effect_ctxw write
  have answers : ∀ other, (host.after call req next ctx effect).answersOf other =
      host.answersOf other ++ if other = call then effect.statuses else [] := fun other =>
    Host.answersOf_effect kept.userCtx
  refine inv.replace call Host.effect_requests (Host.effect_ctx.trans (by rw [id])) ?_ ?_
    ?_ ?_ ?_ ?_ ?_ ?_ (isWrite.trans (by rw [id]))
  · intro other req' was ne live' same
    exact ne (inv.apart other call req' req was found live' live (same.trans id))
  · intro other ne
    rw [answers, if_neg ne, List.append_nil]
  · rw [answers, if_pos rfl]
    exact kept.inv
  · rw [args]
    exact inv.accepted call req found
  · intro small
    rw [args] at small
    exact (inv.issues call req found small).step (inv.accepted call req found) small
      own.inside steps
  · intro id' mem ne
    rw [id] at ne
    rw [pool]
    split
    · exact (List.mem_erase_of_ne ne).mpr mem
    · exact mem
  · intro live'
    have notPut : effect ≠ .put := fun put => kept.put.mp put live'
    rw [pool, if_neg notPut, id]
    exact used
  · rw [pool]
    split
    · exact Pool.perm_put used
    · exact List.Perm.refl _

/-- A step of a call inside the host. -/
theorem Host.inside_cases {act : Act} {host' : Host}
    (result : host.step (.inside call act) = some host') :
    ∃ req next ctx effect, host.requests call = some req ∧
      Request.Steps req (host.ctx req.ctx) next ctx effect ∧
      host' = host.after call req next ctx effect := by
  simp only [Host.step] at result
  split at result
  · cases result
  · rename_i req found
    obtain ⟨⟨next, ctx, effect⟩, step, eq⟩ := Option.map_eq_some_iff.mp result
    exact ⟨req, next, ctx, effect, found, Request.steps_of_step step, eq.symm⟩

theorem HostInv.step (inv : HostInv host) {act : HostAct} {host' : Host}
    (result : host.step act = some host') : HostInv host' := by
  cases act with
  | rw call args =>
      simp only [Host.step] at result
      split at result
      · cases result
        exact inv.nvmehRw ‹_› args
      · cases result
  | inside call act =>
      obtain ⟨req, next, ctx, effect, found, steps, rfl⟩ := Host.inside_cases result
      exact inv.inside found steps

theorem Reachable.inv {writeEntries readEntries : Nat}
    (reachable : Reachable writeEntries readEntries host) : HostInv host := by
  induction reachable with
  | init => exact hostInv_init writeEntries readEntries
  | step act before result ih => exact ih.step result

/-- Many steps; none when one of them is not possible. -/
def Host.run (host : Host) : List HostAct → Option Host
  | [] => some host
  | act :: acts => (host.step act).bind fun next => next.run acts

theorem Reachable.run {writeEntries readEntries : Nat} {acts : List HostAct} {host' : Host}
    (reachable : Reachable writeEntries readEntries host) (result : host.run acts = some host') :
    Reachable writeEntries readEntries host' := by
  induction acts generalizing host with
  | nil =>
      cases result
      exact reachable
  | cons act acts ih =>
      obtain ⟨next, step, rest⟩ := Option.bind_eq_some_iff.mp result
      exact ih (reachable.step act step) rest

/-! ## Result -/

/-- The commands of a call have at most `blk_per_cmd` blocks each, and when every submission is
accepted their blocks are those of the buffer, one after another. -/
def Covers (req : Request) : Prop :=
  (∀ cmd ∈ req.issued, cmd.Fits req.args) ∧
    (req.submitter = .returned true →
      req.issued.flatMap Cmd.blocks =
        (List.range (req.args.size / oxfBlkSize)).map req.args.block)

/-- The command is behind the lock of its callback. -/
def Phase.Counted (phase : Phase) : Prop :=
  phase.place ≠ .waiting

/-- The user is called at most once, behind the last count, with the status of a failure when there
is one.  Until then the call can take a step, and each step leaves less work. -/
structure AnsweredOnce (host : Host) (call : Nat) (req : Request) : Prop where
  once : (host.answersOf call).length ≤ 1
  behind : host.answersOf call ≠ [] → ∀ i < req.args.nCmd, (req.phase i).Counted
  status : ∀ status ∈ host.answersOf call,
    status ≠ 0 ↔ ∃ i < req.args.nCmd, ∃ outcome, req.outcome i = some outcome ∧ outcome ≠ 0
  waits : host.answersOf call = [] → ∃ act host', host.step (.inside call act) = some host'
  work : ∀ act host', host.step (.inside call act) = some host' →
    ∃ next, host'.requests call = some next ∧ next.work < req.work

theorem Request.answer_ne_zero_iff (req : Request) :
    req.answer ≠ 0 ↔
      ∃ i < req.args.nCmd, ∃ outcome, req.outcome i = some outcome ∧ outcome ≠ 0 := by
  rw [Request.answer, ne_eq, firstStatus_eq_zero_iff]
  constructor
  · intro some
    push Not at some
    obtain ⟨i, lt, ne⟩ := some
    cases outcome : req.outcome i with
    | none =>
        rw [outcome] at ne
        exact absurd rfl ne
    | some status =>
        rw [outcome] at ne
        exact ⟨i, lt, status, outcome, ne⟩
  · rintro ⟨i, lt, status, outcome, ne⟩ zero
    have own := zero i lt
    rw [outcome] at own
    exact ne own

theorem HostInv.covers (inv : HostInv host) {req : Request}
    (found : host.requests call = some req) (small : req.args.size < 2 ^ 44)
    (queues : 2 ≤ req.args.nQueues) : Covers req := by
  have accepted := inv.accepted call req found
  have issues := inv.issues call req found small
  constructor
  · intro cmd mem
    obtain ⟨k, le, issued⟩ := issues.first
    rw [issued] at mem
    obtain ⟨i, lt, rfl⟩ := List.mem_map.mp mem
    exact command_fits accepted small queues (lt_of_lt_of_le (List.mem_range.mp lt) le)
  · intro returned
    rw [issues.returned returned, List.flatMap_map, flatMap_blocks_all accepted small]

theorem HostInv.answeredOnce (inv : HostInv host) {req : Request}
    (found : host.requests call = some req) (small : req.args.size < 2 ^ 44) :
    AnsweredOnce host call req := by
  have own := inv.each call req found
  have pos := Args.nCmd_pos (inv.accepted call req found) small
  have answered : host.answersOf call ≠ [] → req.AllAnswered := by
    intro some
    by_contra notAll
    rw [own.answers, if_neg notAll] at some
    exact some rfl
  refine ⟨?_, fun some i lt => ?_, fun status mem => ?_, fun none => ?_, fun act host' result => ?_⟩
  · rw [own.answers]
    split <;> simp
  · rcases (answered some).2 i lt with putting | done
    · simp [Phase.Counted, putting, Phase.place]
    · simp [Phase.Counted, done, Phase.place]
  · have all := answered (List.ne_nil_of_mem mem)
    rw [own.answers, if_pos all, List.mem_singleton] at mem
    rw [mem]
    exact req.answer_ne_zero_iff
  · have notAll : ¬ req.AllAnswered := by
      intro all
      rw [own.answers, if_pos all] at none
      cases none
    have live : req.Live := by
      by_contra dead
      refine notAll ⟨pos, fun i lt => Or.inr ?_⟩
      by_contra notDone
      exact dead ⟨i, lt, notDone⟩
    obtain ⟨act, ⟨next, ctx, effect⟩, step⟩ := own.enabled live
    refine ⟨act, host.after call req next ctx effect, ?_⟩
    simp only [Host.step, found, step, Option.map_some]
    rfl
  · obtain ⟨req', next, ctx, effect, found', steps, rfl⟩ := Host.inside_cases result
    rw [found] at found'
    cases found'
    refine ⟨next, ?_, own.step_work steps⟩
    rw [Host.after, Host.effect_requests]
    exact Function.update_self _ _ _

/-- In every reachable state of the host, each accepted call of `nvmeh_rw` below 2^44 bytes has cut
its buffer into the commands of its blocks, and calls the user exactly once. -/
theorem rw_covers_and_answers {writeEntries readEntries : Nat}
    (reachable : Reachable writeEntries readEntries host) {req : Request}
    (found : host.requests call = some req) (small : req.args.size < 2 ^ 44)
    (queues : 2 ≤ req.args.nQueues) : Covers req ∧ AnsweredOnce host call req :=
  ⟨reachable.inv.covers found small queues, reachable.inv.answeredOnce found small⟩

/-- 16 blocks, whose second command fails and ends first. -/
def secondFails : List HostAct :=
  [.rw 0 { buf := 4096, size := 65536, slba := 7, isWrite := true, nQueues := 2 },
    .inside 0 (.submit .accepted), .inside 0 (.submit .accepted), .inside 0 (.complete 1 5),
    .inside 0 (.count 1), .inside 0 (.complete 0 0), .inside 0 (.count 0), .inside 0 (.scan 0),
    .inside 0 (.call 0), .inside 0 (.put 0)]

theorem rw_covers_and_answers_two :
    ∃ host req, (nvmehInit 1 0).run secondFails = some host ∧ host.requests 0 = some req ∧
      (Covers req ∧ AnsweredOnce host 0 req) ∧ host.answersOf 0 = [5] := by
  have result : (nvmehInit 1 0).run secondFails =
      some (((nvmehInit 1 0).run secondFails).getD (nvmehInit 1 0)) := rfl
  exact ⟨_, _, result, rfl,
    rw_covers_and_answers (Reachable.init.run result) rfl (by decide) (by decide), by decide⟩

end OxCtrl.NvmeHost
