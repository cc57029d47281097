import OxCtrl.Lib.System
import OxCtrl.Lib.Tally
import OxCtrl.Exec

/-!
# Page commands of the PPA I/O module

`ppa_io_submit` hands the pages of a command to the media manager one after another.  The
callback of each page clears its bit of `pg_map` and counts it under the mutex of the command, and
`ppa_io_check_end` compares the count with the number of pages before it takes the mutex.  The
submission loop and the callbacks run at the same time; every part between two of their
synchronisation points is a step of its own.
-/

namespace OxCtrl.PpaIo

open OxCtrl.Lib OxCtrl.Exec

/-- What the module reads of a channel: `n_of_planes` of its geometry, and whether its media manager
takes one command for all planes (`MMGR_FLAG_PL_CMD`). -/
structure Channel where
  nOfPlanes : Nat
  plCmd : Bool
  planes : 0 < nOfPlanes

/-- A command that `ppa_io_check` and `ppa_io_check_pg` accept.  `write` says that it is a write,
and `ch` has the channel of each page. -/
structure Command where
  totalPgs : Nat
  write : Bool
  ch : Nat → Channel
  pos : 0 < totalPgs
  le : totalPgs ≤ 64

/-- The pages of the media command that begins at a page. -/
def Command.span (cmd : Command) (i : Nat) : Nat :=
  if cmd.write && (cmd.ch i).plCmd then (cmd.ch i).nOfPlanes else 1

/-- The media commands from a page on end with the last page of the command. -/
inductive Command.Tiles (cmd : Command) : Nat → Prop where
  | last : Tiles cmd cmd.totalPgs
  | next {i : Nat} : Tiles cmd (i + cmd.span i) → Tiles cmd i

/-- A page that is still to be counted, with the status of its media command. -/
structure Page where
  pg : Nat
  ok : Bool
  cleared : Bool
  deriving DecidableEq, Repr

/-- Where a thread is: in `ppa_io_decompact_write` or `ppa_io_callback` with pages left, before the
comparison of `ppa_io_check_end` when none is left; in its mutex section; before `cb_fn`; before
`ppa_io_submit`; or behind it. -/
inductive Phase where
  | counting (left : List Page)
  | decide
  | call (status : IoStatus)
  | resubmit
  | returned
  deriving DecidableEq, Repr

/-- A thread.  `back` holds the pages at which its submission loops go on. -/
structure Task where
  phase : Phase
  back : List Nat
  deriving DecidableEq, Repr

/-- A command on its way, the first pages of its media commands in flight, its threads, and the
status at each call of `cb_fn`. -/
structure CmdIo where
  pgMap : Nat → Bool
  pgsP : Nat
  pgsS : Nat
  pgErrors : Nat
  retT : Nat
  status : IoStatus
  nvmeStatus : Nat
  flight : List Nat
  tasks : List Task
  called : List IoStatus

/-- `ppa_io_set_pgmap` with `FTL_PGMAP_OFF`: the bit is inverted. -/
def setPgmapOff (io : CmdIo) (pg : Nat) : CmdIo :=
  { io with pgMap := Function.update io.pgMap pg (!io.pgMap pg) }

/-- `ppa_io_check_pgmap_complete`: the bytes that hold pages are not all zero. -/
def checkPgmapComplete (cmd : Command) (io : CmdIo) : Bool :=
  (List.range (8 * ((cmd.totalPgs - 1) / 8 + 1))).any io.pgMap

/-- `ppa_io_check` -/
def ppaIoCheck (cmd : Command) (io : CmdIo) : CmdIo :=
  { io with
    pgMap := if io.pgsP = 0 then fun pg => decide (pg < cmd.totalPgs) || io.pgMap pg else io.pgMap
    pgsP := io.pgsS }

/-- The pages of a media command in the order in which they are counted: the further planes, then
the first one. -/
def pagesOf (cmd : Command) (first : Nat) (ok : Bool) : List Page :=
  ((List.range' (first + 1) (cmd.span first - 1)).map fun pg => ⟨pg, ok, false⟩) ++
    [⟨first, ok, false⟩]

/-- A round of the submission loop at a page, with the answer of the media manager. -/
def submitPage (cmd : Command) (io : CmdIo) (i : Nat) (back : List Nat) (accepted : Bool) :
    CmdIo × Task :=
  if i < cmd.totalPgs then
    if io.pgMap i then
      if accepted then
        ({ io with flight := io.flight ++ [i] }, ⟨.returned, (i + cmd.span i) :: back⟩)
      else (io, ⟨.counting (pagesOf cmd i false), (i + cmd.span i) :: back⟩)
    else (io, ⟨.returned, (i + 1) :: back⟩)
  else (io, ⟨.returned, back⟩)

/-- `ppa_io_callback` and `ppa_io_decompact_write` on one page: the bit first, then the counters. -/
def processPage (io : CmdIo) (page : Page) (left : List Page) (back : List Nat) : CmdIo × Task :=
  if page.ok ∧ page.cleared = false then
    (setPgmapOff io page.pg, ⟨.counting ({ page with cleared := true } :: left), back⟩)
  else
    ({ io with
        pgsS := if page.ok then io.pgsS + 1 else io.pgsS
        pgErrors := if page.ok then io.pgErrors else io.pgErrors + 1
        pgsP := io.pgsP + 1 }, ⟨.counting left, back⟩)

/-- The mutex section of `ppa_io_check_end`. -/
def checkEnd (cmd : Command) (io : CmdIo) (back : List Nat) : CmdIo × Task :=
  if checkPgmapComplete cmd io then
    if io.retT + 1 ≤ appIoRetry then ({ io with retT := io.retT + 1 }, ⟨.resubmit, back⟩)
    else
      ({ io with retT := io.retT + 1, status := .fail, nvmeStatus := nvmeDataTrasError },
        ⟨.call .fail, back⟩)
  else if io.status = .process then
    ({ io with status := .success, nvmeStatus := nvmeSuccess }, ⟨.call .success, back⟩)
  else (io, ⟨.returned, back⟩)

/-- The next step of a thread. -/
def runTask (cmd : Command) (io : CmdIo) (task : Task) (accepted : Bool) : CmdIo × Task :=
  match task.phase, task.back with
  | .counting (page :: left), back => processPage io page left back
  | .counting [], back =>
      (io, ⟨if io.pgsP = cmd.totalPgs then .decide else .returned, back⟩)
  | .decide, back => checkEnd cmd io back
  | .call status, back => ({ io with called := io.called ++ [status] }, ⟨.returned, back⟩)
  | .resubmit, back => (ppaIoCheck cmd io, ⟨.returned, 0 :: back⟩)
  | .returned, i :: back => submitPage cmd io i back accepted
  | .returned, [] => (io, task)

/-- A step of a thread, or the end of a media command, whose callback is a new thread. -/
inductive Op where
  | next (t : Nat) (accepted : Bool)
  | finish (k : Nat) (ok : Bool)
  deriving DecidableEq, Repr

def step (cmd : Command) (io : CmdIo) : Op → CmdIo
  | .next t accepted =>
      match io.tasks[t]? with
      | none => io
      | some task =>
          { (runTask cmd io task accepted).1 with
            tasks := replaceAt io.tasks t [(runTask cmd io task accepted).2] }
  | .finish k ok =>
      match io.flight[k]? with
      | none => io
      | some first =>
          { io with
            flight := replaceAt io.flight k []
            tasks := io.tasks ++ [⟨.counting (pagesOf cmd first ok), []⟩] }

/-- All interleavings of the threads of a command. -/
def ppaSystem (cmd : Command) : System CmdIo Op Unit where
  step io op := (step cmd io op, ())

/-- The command as its submitter fills it in, behind `ppa_io_check`: one thread, before the first
round of its loop. -/
def start (cmd : Command) : CmdIo :=
  ppaIoCheck cmd
    { pgMap := fun _ => false
      pgsP := 0
      pgsS := 0
      pgErrors := 0
      retT := 0
      status := .process
      nvmeStatus := 0
      flight := []
      tasks := [⟨.returned, [0]⟩]
      called := [] }

/-- All threads have run, and no media command is in flight. -/
def Quiet (io : CmdIo) : Prop :=
  io.flight = [] ∧ ∀ task ∈ io.tasks, task = ⟨.returned, []⟩

/-- Some page has kept its bit. -/
def Failed (cmd : Command) (io : CmdIo) : Prop :=
  ∃ pg < cmd.totalPgs, io.pgMap pg = true

instance (cmd : Command) (io : CmdIo) : Decidable (Failed cmd io) :=
  inferInstanceAs (Decidable (∃ pg < cmd.totalPgs, io.pgMap pg = true))

/-- Every page has been counted: none is in flight, to be counted or to be submitted. -/
structure Processed (cmd : Command) (io : CmdIo) : Prop where
  counted : io.pgsP = cmd.totalPgs
  flight : io.flight = []
  left : ∀ task ∈ io.tasks, ∀ left, task.phase = .counting left → left = []
  submitted : ∀ task ∈ io.tasks, ∀ i ∈ task.back, cmd.totalPgs ≤ i

/-- The callback of the command is called once: not twice, not before every page has been
processed, with the right status, and by the time all threads have run. -/
structure Once (cmd : Command) (io : CmdIo) : Prop where
  atMost : io.called.length ≤ 1
  after : io.called ≠ [] → Processed cmd io
  status : ∀ status ∈ io.called,
    (status = .success ∧ ¬ Failed cmd io) ∨
      (status = .fail ∧ Failed cmd io ∧ io.retT = appIoRetry + 1)
  quiet : Quiet io → io.called.length = 1

/-- The next step of a thread does not count the last page of a command with a failed page while
another thread is between its own count and its comparison. -/
def Alone (cmd : Command) (io : CmdIo) (t : Nat) : Option Task → Prop
  | some ⟨.counting (page :: _), _⟩ =>
      (page.ok = true → page.cleared = true) → io.pgsP + 1 = cmd.totalPgs → Failed cmd io →
        ∀ other ∈ replaceAt io.tasks t [], other.phase ≠ .counting []
  | _ => True

instance (cmd : Command) (io : CmdIo) (t : Nat) : ∀ task, Decidable (Alone cmd io t task)
  | some ⟨.counting (page :: _), _⟩ =>
      inferInstanceAs (Decidable ((page.ok = true → page.cleared = true) →
        io.pgsP + 1 = cmd.totalPgs → Failed cmd io →
          ∀ other ∈ replaceAt io.tasks t [], other.phase ≠ .counting []))
  | some ⟨.counting [], _⟩ | some ⟨.decide, _⟩ | some ⟨.call _, _⟩ | some ⟨.resubmit, _⟩
  | some ⟨.returned, _⟩ | none => inferInstanceAs (Decidable True)

/-- When the last page of a command with a failed page is counted, no other thread is between
its own count and its comparison. -/
def Apart (cmd : Command) (io : CmdIo) : Op → Prop
  | .next t _ => Alone cmd io t io.tasks[t]?
  | .finish _ _ => True

instance (cmd : Command) (io : CmdIo) : ∀ op, Decidable (Apart cmd io op)
  | .next t _ => inferInstanceAs (Decidable (Alone cmd io t io.tasks[t]?))
  | .finish _ _ => inferInstanceAs (Decidable True)

end OxCtrl.PpaIo
