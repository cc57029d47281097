import OxCtrl.Lib.System
import OxCtrl.Exec

/-!
# Completion of LBA commands

`lba_io_submit` hands the sectors of a command to a queue one by one, and
`lba_io_sec_callback` of each sector raises `pgs_p` of the command under its mutex.  The callback
that finds all sectors counted finishes the command.  When the queue is full, the submitting
thread counts the sectors that are left, without the mutex and without a look at the number.
An increment is a load and a store; all other parts of the threads are steps of their own.
-/

namespace OxCtrl.LbaIo

open OxCtrl.Lib OxCtrl.Exec

/-- `LBA_IO_RETRY`. -/
def lbaIoRetry : Nat := 40000

/-- `NVME_INTERNAL_DEV_ERROR`. -/
def nvmeInternalDevError : Nat := 0x0006

/-- A command of the block FTL.  `parser_nvme_rw` hands over between 1 and 256 sectors, and
`lba[256]` of `__lba_io_submit` has no more places. -/
structure Command where
  nSec : Nat
  isWrite : Bool
  pos : 0 < nSec
  le : nSec ≤ 256

/-- Where `lba_io_submit` is: at `app_transaction_new`, in the loop that takes an `lba` for each
sector, in the loop over `ox_mq_submit_req`, in the loop of `REQUEUE_UNPROCESSED` before and
behind the load of `pgs_p`, or back in the caller with or without success.  `first` is the
sector that the queue has refused. -/
inductive SubmitPc where
  | start
  | taking (sec retry : Nat)
  | submitting (sec : Nat)
  | requeue (first sec : Nat)
  | adding (first sec loaded : Nat)
  | returned (ok : Bool)
  deriving DecidableEq, Repr

/-- Where the callback is that holds the mutex of the command. -/
inductive CallbackPc where
  | loaded (value : Nat)
  | stored
  deriving DecidableEq, Repr

/-- The end of a command: `ox_ftl_callback`, or a commit whose callback leads to it. -/
inductive Finish where
  | ftlCallback
  | commit
  deriving DecidableEq, Repr

/-- A command on its way.  `waiting` counts the queued sectors whose callback has not begun,
`processed` those whose callback is through, and `requeued` the sectors that the submitting thread
has counted. -/
structure CmdIo where
  pgsP : Nat := 0
  status : IoStatus := .process
  nvmeStatus : Nat := 0
  submit : SubmitPc := .start
  waiting : Nat := 0
  inside : Option CallbackPc := none
  processed : Nat := 0
  requeued : Nat := 0
  finishes : List Finish := []
  deriving DecidableEq, Repr

/-- The steps of the threads, with the answers they get: whether there was a transaction, a free
`lba`, a place in the queue; the status of a PPA command; whether the commit was accepted. -/
inductive Op where
  | begin (transaction : Bool)
  | take (found : Bool)
  | mqSubmit (accepted : Bool)
  | load
  | store
  | ppaDone (ok : Bool)
  | secLoad
  | secStore
  | secTest (committed : Bool)
  deriving DecidableEq, Repr

/-- `app_transaction_new` in `lba_io_submit`. -/
def begin (cmd : Command) (io : CmdIo) (transaction : Bool) : CmdIo :=
  match io.submit with
  | .start =>
      if cmd.isWrite ∧ transaction = false then
        { io with
          status := .fail, nvmeStatus := nvmeInternalDevError, submit := .returned false }
      else { io with submit := .taking 0 lbaIoRetry }
  | _ => io

/-- A round of the first loop of `__lba_io_submit`. -/
def take (cmd : Command) (io : CmdIo) (found : Bool) : CmdIo :=
  match io.submit with
  | .taking sec retry =>
      if found then
        if sec + 1 < cmd.nSec then { io with submit := .taking (sec + 1) retry }
        else { io with submit := .submitting 0 }
      else if retry - 1 ≠ 0 then { io with submit := .taking sec (retry - 1) }
      else
        -- `REQUEUE`
        { io with
          status := .fail, nvmeStatus := 0x2000 ||| nvmeInternalDevError
          submit := .returned false }
  | _ => io

/-- A round of the second loop of `__lba_io_submit`. -/
def mqSubmit (cmd : Command) (io : CmdIo) (accepted : Bool) : CmdIo :=
  match io.submit with
  | .submitting sec =>
      if accepted then
        { io with
          waiting := io.waiting + 1
          submit := if sec + 1 < cmd.nSec then .submitting (sec + 1) else .returned true }
      else
        -- `REQUEUE_UNPROCESSED`
        { io with
          status := .fail, nvmeStatus := 0x1000 ||| nvmeInternalDevError
          submit := .requeue sec sec }
  | _ => io

/-- The load of `pgs_p++` in the loop of `REQUEUE_UNPROCESSED`. -/
def load (io : CmdIo) : CmdIo :=
  match io.submit with
  | .requeue first sec => { io with submit := .adding first sec io.pgsP }
  | _ => io

/-- The store, and the rest of the loop. -/
def store (cmd : Command) (io : CmdIo) : CmdIo :=
  match io.submit with
  | .adding first sec loaded =>
      { io with
        pgsP := (loaded + 1) % 2 ^ 16
        requeued := io.requeued + 1
        submit := if sec + 1 < cmd.nSec then .requeue first (sec + 1) else .returned (first ≠ 0) }
  | _ => io

/-- `__lba_io_callback` gives a sector the status of its PPA command. -/
def ppaDone (io : CmdIo) (ok : Bool) : CmdIo :=
  if io.status ≠ .fail then
    if ok then { io with status := .success, nvmeStatus := nvmeSuccess }
    else { io with status := .fail, nvmeStatus := nvmeDataTrasError }
  else io

/-- `lba_io_sec_callback` up to the load of `pgs_p++`. -/
def secLoad (io : CmdIo) : CmdIo :=
  if io.waiting = 0 then io
  else if io.status = .timeout then
    { io with waiting := io.waiting - 1, processed := io.processed + 1 }
  else
    match io.inside with
    | none => { io with waiting := io.waiting - 1, inside := some (.loaded io.pgsP) }
    -- the mutex is taken
    | some _ => io

/-- The store of `pgs_p++`. -/
def secStore (io : CmdIo) : CmdIo :=
  match io.inside with
  | some (.loaded value) => { io with pgsP := (value + 1) % 2 ^ 16, inside := some .stored }
  | _ => io

/-- The end of the command in `lba_io_sec_callback`. -/
def finish (cmd : Command) (io : CmdIo) (committed : Bool) : CmdIo :=
  if cmd.isWrite then
    if io.status = .success then
      if committed then { io with finishes := io.finishes ++ [.commit] }
      else
        { io with
          status := .fail, nvmeStatus := nvmeInternalDevError
          finishes := io.finishes ++ [.ftlCallback] }
    else { io with finishes := io.finishes ++ [.ftlCallback] }
  else { io with finishes := io.finishes ++ [.ftlCallback] }

/-- The comparison of `pgs_p` with `n_sec`, and the rest of the callback. -/
def secTest (cmd : Command) (io : CmdIo) (committed : Bool) : CmdIo :=
  match io.inside with
  | some .stored =>
      let io := { io with inside := none, processed := io.processed + 1 }
      if io.pgsP = cmd.nSec then finish cmd io committed else io
  | _ => io

/-- One step of any thread; a step that no thread can take changes nothing. -/
def step (cmd : Command) (io : CmdIo) : Op → CmdIo
  | .begin transaction => begin cmd io transaction
  | .take found => take cmd io found
  | .mqSubmit accepted => mqSubmit cmd io accepted
  | .load => load io
  | .store => store cmd io
  | .ppaDone ok => ppaDone io ok
  | .secLoad => secLoad io
  | .secStore => secStore io
  | .secTest committed => secTest cmd io committed

/-- All interleavings of the threads of a command. -/
def lbaSystem (cmd : Command) : System CmdIo Op Unit where
  step io op := (step cmd io op, ())

/-- The submitting thread and the callbacks of all queued sectors have run. -/
def Complete (io : CmdIo) : Prop :=
  (∃ ok, io.submit = .returned ok) ∧ io.waiting = 0 ∧ io.inside = none

/-- The command has been finished once, or it is left to the caller. -/
def Settled (io : CmdIo) : Prop :=
  if 0 < io.processed then io.finishes.length = 1
  else io.submit = .returned false ∧ io.finishes = []

/-- An increment is stored over the number that it has loaded, and the submitting thread stores
while a queued sector is left whose callback has not compared the numbers. -/
def Undisturbed (io : CmdIo) : Op → Prop
  | .store =>
      match io.submit with
      | .adding first _ loaded =>
          io.pgsP = loaded ∧ (first = 0 ∨ 0 < io.waiting ∨ io.inside ≠ none)
      | _ => True
  | .secStore =>
      match io.inside with
      | some (.loaded value) => io.pgsP = value
      | _ => True
  | _ => True

/-! ## Counting -/

/-- The callbacks in the mutex that have stored their increment. -/
def storedInside : Option CallbackPc → Nat
  | some .stored => 1
  | _ => 0

/-- The callbacks in the mutex. -/
def queuedInside : Option CallbackPc → Nat
  | some _ => 1
  | none => 0

/-- The increments that have been stored. -/
def CmdIo.counted (io : CmdIo) : Nat :=
  io.processed + storedInside io.inside + io.requeued

/-- The sectors that have been queued. -/
def CmdIo.queued (io : CmdIo) : Nat :=
  io.waiting + queuedInside io.inside + io.processed

/-- The sectors that the submitting thread has queued and counted when it gets here. -/
def SubmitOk (cmd : Command) (queued requeued : Nat) : SubmitPc → Prop
  | .start | .taking _ _ => queued = 0 ∧ requeued = 0
  | .submitting sec => queued = sec ∧ requeued = 0 ∧ sec < cmd.nSec
  | .requeue first sec | .adding first sec _ =>
      queued = first ∧ first + requeued = sec ∧ sec < cmd.nSec
  | .returned true => 0 < queued ∧ queued + requeued = cmd.nSec
  | .returned false => queued = 0 ∧ requeued ≤ cmd.nSec

/-- A number that was loaded: if no increment has been stored since, it is still there. -/
def Loaded (counted pgsP value : Nat) : Prop :=
  value ≤ counted ∧ (value = counted → pgsP = value)

/-- What holds in every interleaving. -/
structure Counted (cmd : Command) (io : CmdIo) : Prop where
  status : io.status ≠ .timeout
  submit : SubmitOk cmd io.queued io.requeued io.submit
  le : io.pgsP ≤ io.counted
  inside : ∀ value, io.inside = some (.loaded value) → Loaded io.counted io.pgsP value
  adding : ∀ first sec value, io.submit = .adding first sec value →
    Loaded io.counted io.pgsP value ∧ (first = 0 → io.pgsP = value)
  finished : io.finishes ≠ [] → 0 < io.processed ∧ io.counted = cmd.nSec

section Step

variable {cmd : Command} {io : CmdIo}

/-- The increments and the sectors that are still to be counted. -/
theorem counted_add (io : CmdIo) :
    io.counted + io.waiting + (queuedInside io.inside - storedInside io.inside) =
      io.queued + io.requeued := by
  rw [CmdIo.counted, CmdIo.queued]
  rcases io.inside with _ | ⟨value | _⟩ <;> simp only [storedInside, queuedInside] <;> omega

theorem counted_enter (free : io.inside = none) (waiting value : Nat) :
    CmdIo.counted { io with waiting := waiting, inside := some (.loaded value) } = io.counted := by
  simp only [CmdIo.counted, free, storedInside]

theorem queued_enter (free : io.inside = none) (some : io.waiting ≠ 0) (value : Nat) :
    CmdIo.queued { io with waiting := io.waiting - 1, inside := Option.some (.loaded value) } =
      io.queued := by
  simp only [CmdIo.queued, free, queuedInside]
  omega

theorem counted_stored {value : Nat} (loaded : io.inside = some (.loaded value)) (pgsP : Nat) :
    CmdIo.counted { io with pgsP := pgsP, inside := some .stored } = io.counted + 1 := by
  simp only [CmdIo.counted, loaded, storedInside]
  omega

theorem queued_stored {value : Nat} (loaded : io.inside = some (.loaded value)) (pgsP : Nat) :
    CmdIo.queued { io with pgsP := pgsP, inside := some .stored } = io.queued := by
  simp only [CmdIo.queued, loaded, queuedInside]

theorem counted_leave (stored : io.inside = some .stored) :
    CmdIo.counted { io with inside := none, processed := io.processed + 1 } = io.counted := by
  simp only [CmdIo.counted, stored, storedInside]

theorem queued_leave (stored : io.inside = some .stored) :
    CmdIo.queued { io with inside := none, processed := io.processed + 1 } = io.queued := by
  simp only [CmdIo.queued, stored, queuedInside]
  omega

theorem SubmitOk.total_le {queued requeued : Nat} {pc : SubmitPc}
    (ok : SubmitOk cmd queued requeued pc) : queued + requeued ≤ cmd.nSec := by
  have pos := cmd.pos
  rcases pc with _ | _ | sec | ⟨first, sec⟩ | ⟨first, sec, value⟩ | ⟨_ | _⟩ <;>
    simp only [SubmitOk] at ok <;> omega

theorem Counted.counted_le (ok : Counted cmd io) : io.counted + io.waiting ≤ cmd.nSec := by
  have total := counted_add io
  have le := ok.submit.total_le
  omega

/-- The submitting thread goes on, without an increment. -/
theorem Counted.move (ok : Counted cmd io) {status : IoStatus} (fine : status ≠ .timeout)
    (nvmeStatus : Nat) {pc : SubmitPc} (submit : SubmitOk cmd io.queued io.requeued pc)
    (reading : ∀ first sec value, pc = .adding first sec value → value = io.pgsP) :
    Counted cmd { io with status := status, nvmeStatus := nvmeStatus, submit := pc } where
  status := fine
  submit := submit
  le := ok.le
  inside := ok.inside
  adding first sec value eq := by
    rw [reading first sec value eq]
    exact ⟨⟨ok.le, fun _ => rfl⟩, fun _ => rfl⟩
  finished := ok.finished

theorem Counted.begin (ok : Counted cmd io) (transaction : Bool) :
    Counted cmd (begin cmd io transaction) := by
  rw [LbaIo.begin]
  split
  case h_2 => exact ok
  case h_1 pc =>
    have submit := ok.submit
    rw [pc] at submit
    split
    · refine ok.move (by decide) _ ⟨submit.1, ?_⟩ nofun
      rw [submit.2]
      exact Nat.zero_le _
    · exact ok.move ok.status _ submit nofun

theorem Counted.take (ok : Counted cmd io) (found : Bool) : Counted cmd (take cmd io found) := by
  rw [LbaIo.take]
  split
  case h_2 => exact ok
  case h_1 sec retry pc =>
    have submit := ok.submit
    rw [pc] at submit
    split
    · split
      · exact ok.move ok.status _ submit nofun
      · exact ok.move ok.status _ ⟨submit.1, submit.2, cmd.pos⟩ nofun
    · split
      · exact ok.move ok.status _ submit nofun
      · refine ok.move (by decide) _ ⟨submit.1, ?_⟩ nofun
        rw [submit.2]
        exact Nat.zero_le _

/-- A sector is queued. -/
theorem Counted.queue (ok : Counted cmd io) {pc : SubmitPc}
    (submit : SubmitOk cmd (io.queued + 1) io.requeued pc)
    (moved : ∀ first sec value, pc ≠ .adding first sec value) :
    Counted cmd { io with waiting := io.waiting + 1, submit := pc } where
  status := ok.status
  submit := by
    have queued : CmdIo.queued { io with waiting := io.waiting + 1, submit := pc } =
        io.queued + 1 := by
      simp only [CmdIo.queued]
      omega
    rw [queued]
    exact submit
  le := ok.le
  inside := ok.inside
  adding first sec value eq := absurd eq (moved first sec value)
  finished := ok.finished

theorem Counted.mqSubmit (ok : Counted cmd io) (accepted : Bool) :
    Counted cmd (mqSubmit cmd io accepted) := by
  rw [LbaIo.mqSubmit]
  split
  case h_2 => exact ok
  case h_1 sec pc =>
    have submit := ok.submit
    rw [pc] at submit
    obtain ⟨queued, requeued, lt⟩ := submit
    split
    · by_cases more : sec + 1 < cmd.nSec
      · rw [if_pos more]
        exact ok.queue ⟨by rw [queued], requeued, more⟩ nofun
      · rw [if_neg more]
        exact ok.queue ⟨Nat.succ_pos _, by omega⟩ nofun
    · exact ok.move (by decide) _ ⟨queued, by rw [requeued]; rfl, lt⟩ nofun

theorem Counted.load (ok : Counted cmd io) : Counted cmd (load io) := by
  rw [LbaIo.load]
  split
  case h_2 => exact ok
  case h_1 first sec pc =>
    have submit := ok.submit
    rw [pc] at submit
    refine ok.move ok.status _ submit ?_
    rintro first' sec' value ⟨⟩
    rfl

/-- No increment is missing once the command is finished. -/
theorem Counted.unfinished (ok : Counted cmd io) (lt : io.counted < cmd.nSec) :
    io.finishes = [] := by
  by_contra some
  exact Nat.ne_of_lt lt (ok.finished some).2

theorem Counted.adding_lt (ok : Counted cmd io) {first sec value : Nat}
    (pc : io.submit = .adding first sec value) : io.counted < cmd.nSec := by
  have submit := ok.submit
  have total := counted_add io
  rw [pc] at submit
  obtain ⟨queued, requeued, lt⟩ := submit
  omega

theorem Counted.inside_lt (ok : Counted cmd io) {value : Nat}
    (pc : io.inside = some (.loaded value)) : io.counted < cmd.nSec := by
  have total := counted_add io
  have le := ok.submit.total_le
  simp only [pc, queuedInside, storedInside] at total
  omega

/-- The number behind an increment fits 16 bits. -/
theorem add_one_mod {value : Nat} (le : value < cmd.nSec) : (value + 1) % 2 ^ 16 = value + 1 := by
  have bound := cmd.le
  exact Nat.mod_eq_of_lt (by omega)

theorem Counted.store (ok : Counted cmd io) : Counted cmd (store cmd io) := by
  rw [LbaIo.store]
  split
  case h_2 => exact ok
  case h_1 first sec value pc =>
    have lt := ok.adding_lt pc
    have loaded := (ok.adding first sec value pc).1.1
    have none := ok.unfinished lt
    have submit := ok.submit
    rw [pc] at submit
    obtain ⟨queued, requeued, secLt⟩ := submit
    rw [add_one_mod (Nat.lt_of_le_of_lt loaded lt)]
    have counted : ∀ pc, CmdIo.counted { io with
        pgsP := value + 1, requeued := io.requeued + 1, submit := pc } = io.counted + 1 :=
      fun _ => rfl
    constructor
    case status => exact ok.status
    case submit =>
      by_cases more : sec + 1 < cmd.nSec
      · simp only [if_pos more]
        exact ⟨queued, by rw [← requeued]; rfl, more⟩
      · simp only [if_neg more]
        by_cases zero : first = 0
        · simp only [zero, ne_eq, not_true_eq_false, decide_false]
          exact ⟨queued.trans zero, by omega⟩
        · simp only [ne_eq, zero, not_false_eq_true, decide_true]
          exact ⟨by rw [← queued] at zero; exact Nat.pos_of_ne_zero zero, by
            change io.queued + (io.requeued + 1) = _
            omega⟩
    case le =>
      rw [counted]
      exact Nat.succ_le_succ loaded
    case inside =>
      intro other eq
      have le := (ok.inside other eq).1
      refine ⟨?_, fun same => ?_⟩
      · rw [counted]
        exact Nat.le_succ_of_le le
      · rw [counted] at same
        omega
    case adding =>
      intro first' sec' value' eq
      by_cases more : sec + 1 < cmd.nSec
      · simp only [if_pos more] at eq
        cases eq
      · simp only [if_neg more] at eq
        cases eq
    case finished => exact fun some => absurd none some

theorem Counted.ppaDone (ok : Counted cmd io) (done : Bool) : Counted cmd (ppaDone io done) := by
  have keep : ∀ (status : IoStatus) (nvmeStatus : Nat), status ≠ .timeout →
      Counted cmd { io with status := status, nvmeStatus := nvmeStatus } :=
    fun status nvmeStatus fine => ⟨fine, ok.submit, ok.le, ok.inside, ok.adding, ok.finished⟩
  rw [LbaIo.ppaDone]
  split
  · split
    · exact keep _ _ (by decide)
    · exact keep _ _ (by decide)
  · exact ok

theorem Counted.secLoad (ok : Counted cmd io) : Counted cmd (secLoad io) := by
  rw [LbaIo.secLoad]
  split
  · exact ok
  · rename_i some
    rw [if_neg ok.status]
    split
    case h_2 => exact ok
    case h_1 pc =>
      have counted := counted_enter pc (io.waiting - 1) io.pgsP
      have queued := queued_enter pc some io.pgsP
      constructor
      case status => exact ok.status
      case submit =>
        rw [queued]
        exact ok.submit
      case le =>
        rw [counted]
        exact ok.le
      case inside =>
        rintro value ⟨⟩
        rw [counted]
        exact ⟨ok.le, fun _ => rfl⟩
      case adding =>
        rw [counted]
        exact ok.adding
      case finished =>
        rw [counted]
        exact ok.finished

theorem Counted.secStore (ok : Counted cmd io) : Counted cmd (secStore io) := by
  rw [LbaIo.secStore]
  split
  case h_2 => exact ok
  case h_1 value pc =>
    have lt := ok.inside_lt pc
    have loaded := (ok.inside value pc).1
    rw [add_one_mod (Nat.lt_of_le_of_lt loaded lt)]
    have counted := counted_stored pc (value + 1)
    have queued := queued_stored pc (value + 1)
    constructor
    case status => exact ok.status
    case submit =>
      rw [queued]
      exact ok.submit
    case le =>
      rw [counted]
      exact Nat.succ_le_succ loaded
    case inside => nofun
    case adding =>
      intro first sec other eq
      have le := (ok.adding first sec other eq).1.1
      have submit := ok.submit
      rw [eq] at submit
      refine ⟨⟨?_, fun same => ?_⟩, fun zero => ?_⟩
      · rw [counted]
        exact Nat.le_succ_of_le le
      · rw [counted] at same
        omega
      · -- a queued sector is in the mutex
        have inside := submit.1
        simp only [CmdIo.queued, pc, queuedInside] at inside
        omega
    case finished => exact fun some => absurd (ok.unfinished lt) some

/-- The callback leaves the mutex. -/
theorem Counted.leave (ok : Counted cmd io) (pc : io.inside = some .stored) :
    Counted cmd { io with inside := none, processed := io.processed + 1 } := by
  have counted := counted_leave pc
  have queued := queued_leave pc
  constructor
  case status => exact ok.status
  case submit =>
    rw [queued]
    exact ok.submit
  case le =>
    rw [counted]
    exact ok.le
  case inside => nofun
  case adding =>
    rw [counted]
    exact ok.adding
  case finished =>
    rw [counted]
    exact fun some => ⟨Nat.succ_pos _, (ok.finished some).2⟩

/-- The command is finished with all increments stored. -/
theorem finish_cases (cmd : Command) (io : CmdIo) (committed : Bool) :
    ∃ status nvmeStatus last, (status = io.status ∨ status = .fail) ∧
      finish cmd io committed =
        { io with status := status, nvmeStatus := nvmeStatus,
                  finishes := io.finishes ++ [last] } := by
  rw [finish]
  split
  · split
    · split
      · exact ⟨_, _, .commit, Or.inl rfl, rfl⟩
      · exact ⟨_, _, .ftlCallback, Or.inr rfl, rfl⟩
    · exact ⟨_, _, .ftlCallback, Or.inl rfl, rfl⟩
  · exact ⟨_, _, .ftlCallback, Or.inl rfl, rfl⟩

theorem Counted.secTest (ok : Counted cmd io) (committed : Bool) :
    Counted cmd (secTest cmd io committed) := by
  rw [LbaIo.secTest]
  split
  case h_2 => exact ok
  case h_1 pc =>
    have left := ok.leave pc
    simp only
    split
    · rename_i all
      obtain ⟨status, nvmeStatus, last, fine, eq⟩ :=
        finish_cases cmd { io with inside := none, processed := io.processed + 1 } committed
      rw [eq]
      have fine : status ≠ .timeout := by
        rcases fine with rfl | rfl
        · exact ok.status
        · decide
      refine ⟨fine, left.submit, left.le, left.inside, left.adding, fun _ => ⟨Nat.succ_pos _, ?_⟩⟩
      have le := left.le
      have bound := left.counted_le
      rw [all] at le
      exact Nat.le_antisymm (Nat.le_of_add_right_le bound) le
    · exact left

theorem Counted.step (ok : Counted cmd io) (op : Op) : Counted cmd (step cmd io op) := by
  cases op with
  | begin transaction => exact ok.begin transaction
  | take found => exact ok.take found
  | mqSubmit accepted => exact ok.mqSubmit accepted
  | load => exact ok.load
  | store => exact ok.store
  | ppaDone done => exact ok.ppaDone done
  | secLoad => exact ok.secLoad
  | secStore => exact ok.secStore
  | secTest committed => exact ok.secTest committed

theorem counted_init : Counted cmd {} where
  status := by decide
  submit := ⟨rfl, rfl⟩
  le := Nat.le_refl _
  inside := nofun
  adding := nofun
  finished some := absurd rfl some

/-! ## Undisturbed runs -/

/-- All increments are there, and the command is finished as soon as the callback that has stored
the last one has compared the numbers. -/
structure Good (cmd : Command) (io : CmdIo) : Prop where
  pgsP : io.pgsP = io.counted
  finishes : io.finishes = [] ∧
      (io.counted < cmd.nSec ∨ io.queued = 0 ∨ io.inside = some .stored) ∨
    io.finishes.length = 1 ∧ io.inside = none

theorem good_init : Good cmd {} where
  pgsP := rfl
  finishes := Or.inl ⟨rfl, Or.inr (Or.inl rfl)⟩

theorem Good.mqSubmit (good : Good cmd io) (ok : Counted cmd io) (accepted : Bool) :
    Good cmd (mqSubmit cmd io accepted) := by
  rw [LbaIo.mqSubmit]
  split
  case h_2 => exact good
  case h_1 sec pc =>
    have submit := ok.submit
    rw [pc] at submit
    obtain ⟨queued, requeued, secLt⟩ := submit
    have total := counted_add io
    have lt : io.counted < cmd.nSec := by omega
    have none := ok.unfinished lt
    split
    · exact ⟨good.pgsP, Or.inl ⟨none, Or.inl lt⟩⟩
    · exact ⟨good.pgsP, Or.inl ⟨none, Or.inl lt⟩⟩

theorem Good.store (good : Good cmd io) (ok : Counted cmd io)
    (undisturbed : Undisturbed io .store) :
    Good cmd (store cmd io) := by
  rw [LbaIo.store]
  rw [Undisturbed] at undisturbed
  split
  case h_2 => exact good
  case h_1 first sec value pc =>
    simp only [pc] at undisturbed
    obtain ⟨same, left⟩ := undisturbed
    have lt := ok.adding_lt pc
    have submit := ok.submit
    have total := counted_add io
    rw [pc] at submit
    obtain ⟨queued, requeued, secLt⟩ := submit
    refine ⟨?_, Or.inl ⟨ok.unfinished lt, ?_⟩⟩
    · rw [good.pgsP] at same
      rw [← same, add_one_mod lt]
      rfl
    · change io.counted + 1 < cmd.nSec ∨ io.queued = 0 ∨ io.inside = some .stored
      rcases left with zero | waiting | inside
      · exact Or.inr (Or.inl (queued.trans zero))
      · exact Or.inl (by omega)
      · rcases eq : io.inside with _ | ⟨value | _⟩
        · exact absurd eq inside
        · simp only [eq, queuedInside, storedInside] at total
          exact Or.inl (by omega)
        · exact Or.inr (Or.inr rfl)

theorem Good.secLoad (good : Good cmd io) (ok : Counted cmd io) : Good cmd (secLoad io) := by
  have after := ok.secLoad
  rw [LbaIo.secLoad] at after ⊢
  split at after
  · rename_i zero
    rw [if_pos zero]
    exact good
  · rename_i some
    rw [if_neg some, if_neg ok.status]
    rw [if_neg ok.status] at after
    split at after
    case h_2 => exact good
    case h_1 free =>
      have lt := after.inside_lt rfl
      have counted := counted_enter free (io.waiting - 1) io.pgsP
      exact ⟨good.pgsP.trans counted.symm, Or.inl ⟨after.unfinished lt, Or.inl lt⟩⟩

theorem Good.secStore (good : Good cmd io) (ok : Counted cmd io)
    (undisturbed : Undisturbed io .secStore) : Good cmd (secStore io) := by
  rw [LbaIo.secStore]
  rw [Undisturbed] at undisturbed
  split
  case h_2 => exact good
  case h_1 value pc =>
    simp only [pc] at undisturbed
    have lt := ok.inside_lt pc
    refine ⟨?_, Or.inl ⟨ok.unfinished lt, Or.inr (Or.inr rfl)⟩⟩
    rw [good.pgsP] at undisturbed
    rw [counted_stored pc, ← undisturbed, add_one_mod lt]

theorem Good.secTest (good : Good cmd io) (ok : Counted cmd io) (committed : Bool) :
    Good cmd (secTest cmd io committed) := by
  rw [LbaIo.secTest]
  split
  case h_2 => exact good
  case h_1 pc =>
    have none : io.finishes = [] := by
      rcases good.finishes with ⟨none, _⟩ | ⟨_, free⟩
      · exact none
      · rw [pc] at free
        cases free
    have counted := counted_leave pc
    have pgsP : io.pgsP = CmdIo.counted { io with inside := Option.none, processed := _ } :=
      good.pgsP.trans counted.symm
    simp only
    split
    · obtain ⟨status, nvmeStatus, last, _, eq⟩ :=
        finish_cases cmd { io with inside := Option.none, processed := io.processed + 1 } committed
      rw [eq]
      refine ⟨pgsP, Or.inr ⟨?_, rfl⟩⟩
      simp only [none]
      rfl
    · rename_i less
      have le := ok.counted_le
      rw [good.pgsP] at less
      refine ⟨pgsP, Or.inl ⟨none, Or.inl ?_⟩⟩
      rw [counted]
      omega

theorem Good.step (good : Good cmd io) (ok : Counted cmd io) {op : Op}
    (undisturbed : Undisturbed io op) : Good cmd (step cmd io op) := by
  cases op with
  | begin transaction =>
      rw [LbaIo.step, LbaIo.begin]
      split
      · split
        · exact ⟨good.pgsP, good.finishes⟩
        · exact ⟨good.pgsP, good.finishes⟩
      · exact good
  | take found =>
      rw [LbaIo.step, LbaIo.take]
      split
      · split
        · split
          · exact ⟨good.pgsP, good.finishes⟩
          · exact ⟨good.pgsP, good.finishes⟩
        · split
          · exact ⟨good.pgsP, good.finishes⟩
          · exact ⟨good.pgsP, good.finishes⟩
      · exact good
  | mqSubmit accepted => exact good.mqSubmit ok accepted
  | load =>
      rw [LbaIo.step, LbaIo.load]
      split
      · exact ⟨good.pgsP, good.finishes⟩
      · exact good
  | store => exact good.store ok undisturbed
  | ppaDone done =>
      rw [LbaIo.step, LbaIo.ppaDone]
      split
      · split
        · exact ⟨good.pgsP, good.finishes⟩
        · exact ⟨good.pgsP, good.finishes⟩
      · exact good
  | secLoad => exact good.secLoad ok
  | secStore => exact good.secStore ok undisturbed
  | secTest committed => exact good.secTest ok committed

theorem Complete.processed_eq (complete : Complete io) : io.processed = io.queued := by
  rw [CmdIo.queued, complete.2.1, complete.2.2]
  exact (Nat.zero_add _).symm

theorem Good.settled (good : Good cmd io) (ok : Counted cmd io) (complete : Complete io) :
    Settled io := by
  obtain ⟨⟨result, returned⟩, waiting, inside⟩ := complete
  have processed := Complete.processed_eq ⟨⟨result, returned⟩, waiting, inside⟩
  have submit := ok.submit
  have total := counted_add io
  rw [returned] at submit
  rw [waiting, inside] at total
  rw [Settled]
  by_cases some : 0 < io.processed
  · rw [if_pos some]
    cases result with
    | false =>
        rw [processed, submit.1] at some
        exact absurd some (Nat.lt_irrefl 0)
    | true =>
        have all : io.counted = cmd.nSec := total.trans submit.2
        rcases good.finishes with ⟨_, lt | zero | stored⟩ | once
        · exact absurd all (Nat.ne_of_lt lt)
        · rw [processed, zero] at some
          exact absurd some (Nat.lt_irrefl 0)
        · rw [inside] at stored
          cases stored
        · exact once.1
  · rw [if_neg some]
    refine ⟨?_, ?_⟩
    · cases result with
      | false => exact returned
      | true =>
          rw [processed] at some
          exact absurd submit.1 some
    · by_contra finished
      exact some (ok.finished finished).1

/-! ## Disturbed runs -/

/-- The submitting thread queues no more sectors. -/
def Behind : SubmitPc → Prop
  | .requeue _ _ | .adding _ _ _ | .returned _ => True
  | _ => False

/-- An increment is lost, and every thread in an increment has loaded too small a number. -/
structure Lost (io : CmdIo) : Prop where
  pgsP : io.pgsP < io.counted
  inside : ∀ value, io.inside = some (.loaded value) → value < io.counted
  adding : ∀ first sec value, io.submit = .adding first sec value → value < io.counted

/-- The callbacks of all sectors that are ever queued have compared the numbers. -/
structure Through (io : CmdIo) : Prop where
  waiting : io.waiting = 0
  inside : io.inside = none
  behind : Behind io.submit

/-- A queued command that nobody will finish. -/
structure Broken (io : CmdIo) : Prop where
  unfinished : io.finishes = []
  queued : 0 < io.queued
  cause : Lost io ∨ Through io

theorem Lost.store (lost : Lost io) (ok : Counted cmd io) : Lost (store cmd io) := by
  rw [LbaIo.store]
  split
  case h_2 => exact lost
  case h_1 first sec value pc =>
    have lt := lost.adding first sec value pc
    rw [add_one_mod (Nat.lt_trans lt (ok.adding_lt pc))]
    refine ⟨Nat.succ_lt_succ lt, fun other eq => Nat.lt_succ_of_lt (lost.inside other eq), ?_⟩
    intro first' sec' value' eq
    by_cases more : sec + 1 < cmd.nSec
    · simp only [if_pos more] at eq
      cases eq
    · simp only [if_neg more] at eq
      cases eq

theorem Lost.secStore (lost : Lost io) (ok : Counted cmd io) : Lost (secStore io) := by
  rw [LbaIo.secStore]
  split
  case h_2 => exact lost
  case h_1 value pc =>
    have lt := lost.inside value pc
    rw [add_one_mod (Nat.lt_trans lt (ok.inside_lt pc))]
    have counted := counted_stored pc (value + 1)
    refine ⟨?_, nofun, fun first sec other eq => ?_⟩
    · rw [counted]
      exact Nat.succ_lt_succ lt
    · rw [counted]
      exact Nat.lt_succ_of_lt (lost.adding first sec other eq)

theorem Lost.secLoad (lost : Lost io) (ok : Counted cmd io) : Lost (secLoad io) := by
  rw [LbaIo.secLoad, if_neg ok.status]
  split
  · exact lost
  · split
    case h_2 => exact lost
    case h_1 free =>
      have counted := counted_enter free (io.waiting - 1) io.pgsP
      refine ⟨?_, ?_, ?_⟩
      · rw [counted]
        exact lost.pgsP
      · rintro value ⟨⟩
        rw [counted]
        exact lost.pgsP
      · rw [counted]
        exact lost.adding

/-- A callback that does not find all sectors counted. -/
theorem secTest_of_lt (stored : io.inside = some .stored) (less : io.pgsP < cmd.nSec)
    (committed : Bool) :
    secTest cmd io committed = { io with inside := none, processed := io.processed + 1 } := by
  rw [LbaIo.secTest, stored]
  exact if_neg (Nat.ne_of_lt less)

theorem begin_of_queued (ok : Counted cmd io) (some : 0 < io.queued) (transaction : Bool) :
    begin cmd io transaction = io := by
  rw [LbaIo.begin]
  split
  case h_2 => rfl
  case h_1 pc =>
    have submit := ok.submit
    rw [pc] at submit
    exact absurd submit.1 (Nat.ne_of_gt some)

theorem take_of_queued (ok : Counted cmd io) (some : 0 < io.queued) (found : Bool) :
    take cmd io found = io := by
  rw [LbaIo.take]
  split
  case h_2 => rfl
  case h_1 pc =>
    have submit := ok.submit
    rw [pc] at submit
    exact absurd submit.1 (Nat.ne_of_gt some)

theorem Broken.mqSubmit (broken : Broken io) (accepted : Bool) :
    Broken (mqSubmit cmd io accepted) := by
  rw [LbaIo.mqSubmit]
  split
  case h_2 => exact broken
  case h_1 sec pc =>
    have lost : Lost io := by
      refine broken.cause.resolve_right fun through => ?_
      have behind := through.behind
      rw [pc] at behind
      exact behind
    split
    · refine ⟨broken.unfinished, ?_, Or.inl ⟨lost.pgsP, lost.inside, ?_⟩⟩
      · have some := broken.queued
        simp only [CmdIo.queued] at some ⊢
        omega
      · intro first sec' value eq
        by_cases more : sec + 1 < cmd.nSec
        · simp only [if_pos more] at eq
          cases eq
        · simp only [if_neg more] at eq
          cases eq
    · exact ⟨broken.unfinished, broken.queued, Or.inl ⟨lost.pgsP, lost.inside, nofun⟩⟩

theorem Broken.load (broken : Broken io) : Broken (load io) := by
  rw [LbaIo.load]
  split
  case h_2 => exact broken
  case h_1 first sec pc =>
    refine ⟨broken.unfinished, broken.queued, broken.cause.imp (fun lost => ?_) fun through => ?_⟩
    · refine ⟨lost.pgsP, lost.inside, ?_⟩
      rintro _ _ _ ⟨⟩
      exact lost.pgsP
    · exact ⟨through.waiting, through.inside, trivial⟩

theorem Broken.store (broken : Broken io) (ok : Counted cmd io) : Broken (store cmd io) := by
  have lost := fun lost : Lost io => lost.store ok
  rw [LbaIo.store] at lost ⊢
  split
  case h_2 => exact broken
  case h_1 first sec value pc =>
    rw [pc] at lost
    refine ⟨broken.unfinished, broken.queued, broken.cause.imp lost fun through => ?_⟩
    refine ⟨through.waiting, through.inside, ?_⟩
    by_cases more : sec + 1 < cmd.nSec
    · simp only [if_pos more, Behind]
    · simp only [if_neg more, Behind]

theorem Broken.ppaDone (broken : Broken io) (done : Bool) : Broken (ppaDone io done) := by
  have keep : ∀ (status : IoStatus) (nvmeStatus : Nat),
      Broken { io with status := status, nvmeStatus := nvmeStatus } :=
    fun status nvmeStatus => ⟨broken.unfinished, broken.queued, broken.cause.imp
      (fun lost => ⟨lost.pgsP, lost.inside, lost.adding⟩)
      fun through => ⟨through.waiting, through.inside, through.behind⟩⟩
  rw [LbaIo.ppaDone]
  split
  · split
    · exact keep _ _
    · exact keep _ _
  · exact broken

theorem Broken.secLoad (broken : Broken io) (ok : Counted cmd io) : Broken (secLoad io) := by
  rcases broken.cause with lost | through
  · have after := lost.secLoad ok
    rw [LbaIo.secLoad, if_neg ok.status] at after ⊢
    split
    · exact broken
    · rename_i some
      rw [if_neg some] at after
      split
      case h_2 => exact broken
      case h_1 free =>
        simp only [free] at after
        refine ⟨broken.unfinished, ?_, Or.inl after⟩
        rw [queued_enter free some]
        exact broken.queued
  · rw [LbaIo.secLoad, if_pos through.waiting]
    exact broken

theorem Broken.secStore (broken : Broken io) (ok : Counted cmd io) : Broken (secStore io) := by
  rcases broken.cause with lost | through
  · have after := lost.secStore ok
    rw [LbaIo.secStore] at after ⊢
    split
    case h_2 => exact broken
    case h_1 value pc =>
      rw [pc] at after
      refine ⟨broken.unfinished, ?_, Or.inl after⟩
      rw [queued_stored pc]
      exact broken.queued
  · rw [LbaIo.secStore, through.inside]
    exact broken

theorem Broken.secTest (broken : Broken io) (ok : Counted cmd io) (committed : Bool) :
    Broken (secTest cmd io committed) := by
  rcases broken.cause with lost | through
  · by_cases stored : io.inside = some .stored
    · have less : io.pgsP < cmd.nSec :=
        Nat.lt_of_lt_of_le lost.pgsP (Nat.le_of_add_right_le ok.counted_le)
      have counted := counted_leave stored
      rw [secTest_of_lt stored less]
      refine ⟨broken.unfinished, ?_, Or.inl ⟨?_, nofun, ?_⟩⟩
      · rw [queued_leave stored]
        exact broken.queued
      · rw [counted]
        exact lost.pgsP
      · rw [counted]
        exact lost.adding
    · rw [LbaIo.secTest]
      split
      case h_2 => exact broken
      case h_1 pc => exact absurd pc stored
  · rw [LbaIo.secTest, through.inside]
    exact broken

theorem Broken.step (broken : Broken io) (ok : Counted cmd io) (op : Op) :
    Broken (step cmd io op) := by
  cases op with
  | begin transaction =>
      rw [LbaIo.step, begin_of_queued ok broken.queued]
      exact broken
  | take found =>
      rw [LbaIo.step, take_of_queued ok broken.queued]
      exact broken
  | mqSubmit accepted => exact broken.mqSubmit accepted
  | load => exact broken.load
  | store => exact broken.store ok
  | ppaDone done => exact broken.ppaDone done
  | secLoad => exact broken.secLoad ok
  | secStore => exact broken.secStore ok
  | secTest committed => exact broken.secTest ok committed

/-- A number that is not in memory any more is too small. -/
theorem Loaded.lt {counted pgsP value : Nat} (loaded : Loaded counted pgsP value)
    (changed : pgsP ≠ value) : value < counted :=
  Nat.lt_of_le_of_ne loaded.1 fun same => changed (loaded.2 same)

theorem broken_of_store (ok : Counted cmd io) (disturbed : ¬ Undisturbed io .store) :
    Broken (store cmd io) := by
  rw [Undisturbed] at disturbed
  rw [LbaIo.store]
  split
  case h_2 other =>
    split at disturbed
    case h_2 => exact absurd trivial disturbed
    case h_1 first sec value pc => exact absurd pc (other first sec value)
  case h_1 first sec value pc =>
    simp only [pc] at disturbed
    have lt := ok.adding_lt pc
    obtain ⟨loaded, fresh⟩ := ok.adding first sec value pc
    have submit := ok.submit
    rw [pc] at submit
    have some : first ≠ 0 → 0 < io.queued := by
      intro first
      rw [submit.1]
      exact Nat.pos_of_ne_zero first
    have unfinished := ok.unfinished lt
    rw [add_one_mod (Nat.lt_of_le_of_lt loaded.1 lt)]
    by_cases same : io.pgsP = value
    · obtain ⟨nonzero, waiting, inside⟩ :=
        not_or.mp (fun left => disturbed ⟨same, left⟩) |>.imp id not_or.mp
      refine ⟨unfinished, some nonzero, Or.inr ⟨Nat.eq_zero_of_not_pos waiting,
        not_not.mp inside, ?_⟩⟩
      by_cases more : sec + 1 < cmd.nSec
      · simp only [if_pos more, Behind]
      · simp only [if_neg more, Behind]
    · refine ⟨unfinished, some fun zero => same (fresh zero), Or.inl ⟨?_, ?_, ?_⟩⟩
      · exact Nat.succ_lt_succ (loaded.lt same)
      · exact fun other eq => Nat.lt_succ_of_le (ok.inside other eq).1
      · intro first' sec' value' eq
        by_cases more : sec + 1 < cmd.nSec
        · simp only [if_pos more] at eq
          cases eq
        · simp only [if_neg more] at eq
          cases eq

theorem broken_of_secStore (ok : Counted cmd io) (disturbed : ¬ Undisturbed io .secStore) :
    Broken (secStore io) := by
  rw [Undisturbed] at disturbed
  rw [LbaIo.secStore]
  split
  case h_2 other =>
    split at disturbed
    case h_2 => exact absurd trivial disturbed
    case h_1 value pc => exact absurd pc (other value)
  case h_1 value pc =>
    simp only [pc] at disturbed
    have lt := ok.inside_lt pc
    have loaded := ok.inside value pc
    have counted := counted_stored pc (value + 1)
    rw [add_one_mod (Nat.lt_of_le_of_lt loaded.1 lt)]
    refine ⟨ok.unfinished lt, ?_, Or.inl ⟨?_, nofun, fun first sec other eq => ?_⟩⟩
    · rw [queued_stored pc]
      simp only [CmdIo.queued, pc, queuedInside]
      omega
    · rw [counted]
      exact Nat.succ_lt_succ (loaded.lt disturbed)
    · rw [counted]
      exact Nat.lt_succ_of_le (ok.adding first sec other eq).1.1

theorem broken_of_disturbed (ok : Counted cmd io) {op : Op} (disturbed : ¬ Undisturbed io op) :
    Broken (step cmd io op) := by
  cases op with
  | store => exact broken_of_store ok disturbed
  | secStore => exact broken_of_secStore ok disturbed
  | begin _ | take _ | mqSubmit _ | load | ppaDone _ | secLoad | secTest _ =>
      exact absurd trivial disturbed

theorem Broken.not_settled (broken : Broken io) (complete : Complete io) : ¬ Settled io := by
  rw [Settled, if_pos (complete.processed_eq ▸ broken.queued), broken.unfinished]
  decide

end Step

/-! ## Runs -/

theorem counted_run (cmd : Command) {io : CmdIo} (ok : Counted cmd io) (ops : List Op) :
    Counted cmd ((lbaSystem cmd).run io ops) :=
  (lbaSystem cmd).run_invariant (fun _ _ => True) (Counted cmd)
    (fun _ op _ ok => ok.step op) ok (System.allowed_of_forall_mem _ (fun _ _ => trivial) _)

/-- When the submitting thread and the callbacks have run, the command has been finished once, or
left to the caller if no sector was queued, exactly when no increment of `pgs_p` was disturbed
and the submitting thread was not the last one to count. -/
theorem finished_once_iff (cmd : Command) (ops : List Op)
    (complete : Complete ((lbaSystem cmd).run {} ops)) :
    Settled ((lbaSystem cmd).run {} ops) ↔ (lbaSystem cmd).Allowed Undisturbed {} ops := by
  constructor
  · intro settled
    by_contra disturbed
    obtain ⟨before, op, after, rfl, bad⟩ := (lbaSystem cmd).exists_of_not_allowed disturbed
    have ok := counted_run cmd counted_init before
    rw [System.run_append, System.run_cons] at complete settled
    have broken : Broken ((lbaSystem cmd).run _ after) ∧
        Counted cmd ((lbaSystem cmd).run _ after) :=
      (lbaSystem cmd).run_invariant (fun _ _ => True) (fun io => Broken io ∧ Counted cmd io)
        (fun _ op _ both => ⟨both.1.step both.2 op, both.2.step op⟩)
        ⟨broken_of_disturbed ok bad, ok.step op⟩
        (System.allowed_of_forall_mem _ (fun _ _ => trivial) _)
    exact broken.1.not_settled complete settled
  · intro allowed
    have good : Good cmd ((lbaSystem cmd).run {} ops) ∧ Counted cmd ((lbaSystem cmd).run {} ops) :=
      (lbaSystem cmd).run_invariant Undisturbed (fun io => Good cmd io ∧ Counted cmd io)
        (fun _ op undisturbed both => ⟨both.1.step both.2 undisturbed, both.2.step op⟩)
        ⟨good_init, counted_init⟩ allowed
    exact good.1.settled good.2 complete

/-- A write of two sectors. -/
def twoSectors : Command where
  nSec := 2
  isWrite := true
  pos := by decide
  le := by decide

/-- The queue refuses the second sector, and the callback of the first one is the last to
count. -/
def counterLast : List Op :=
  [.begin true, .take true, .take true, .mqSubmit true, .mqSubmit false, .load, .store,
    .ppaDone true, .secLoad, .secStore, .secTest true]

theorem finished_once_last :
    Settled ((lbaSystem twoSectors).run {} counterLast) ∧
      ((lbaSystem twoSectors).run {} counterLast).finishes = [.ftlCallback] := by
  have left : Undisturbed ((lbaSystem twoSectors).run {} (counterLast.take 6)) .store :=
    ⟨rfl, Or.inr (Or.inl Nat.zero_lt_one)⟩
  exact ⟨(finished_once_iff twoSectors counterLast ⟨⟨true, rfl⟩, rfl, rfl⟩).mpr
    ⟨trivial, trivial, trivial, trivial, trivial, trivial, left, trivial, trivial, rfl, trivial,
      trivial⟩, rfl⟩

/-- The callback of the first sector has run before the queue refuses the second one. -/
def counterFirst : List Op :=
  [.begin true, .take true, .take true, .mqSubmit true, .ppaDone true, .secLoad, .secStore,
    .secTest true, .mqSubmit false, .load, .store]

/-- Both sectors are counted, and nobody finishes the command. -/
theorem command_never_finished :
    Complete ((lbaSystem twoSectors).run {} counterFirst) ∧
      ((lbaSystem twoSectors).run {} counterFirst).submit = .returned true ∧
      ((lbaSystem twoSectors).run {} counterFirst).pgsP = 2 ∧
      ¬ Settled ((lbaSystem twoSectors).run {} counterFirst) := by
  refine ⟨⟨⟨true, rfl⟩, rfl, rfl⟩, rfl, rfl, ?_⟩
  rw [Settled]
  decide

end OxCtrl.LbaIo
