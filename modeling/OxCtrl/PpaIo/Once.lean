import Mathlib
import OxCtrl.PpaIo.Core

/-!
# Page commands complete once

The pages that are still to be counted and the bits that are still to be cleared are tallied over
the threads.  While pages are left, no thread has got past the comparison of `ppa_io_check_end`.
When none is left, the bits stay as they are; the threads that are still to compare the numbers
decide how often the callback is called, and `Apart` leaves one of them when a page has failed.
-/

namespace OxCtrl.PpaIo

open OxCtrl.Lib OxCtrl.Exec

/-! ## Tallies -/

/-- The pages whose bit a thread is about to clear. -/
def Page.owes (page : Page) : Bool :=
  page.ok && !page.cleared

/-- The pages that a thread is still to count. -/
def Phase.pages : Phase → List Page
  | .counting left => left
  | _ => []

def Phase.testing : Phase → Nat
  | .counting [] => 1
  | _ => 0

def Phase.deciding : Phase → Nat
  | .decide => 1
  | _ => 0

def Phase.calling : Phase → Nat
  | .call _ => 1
  | _ => 0

/-- The pages from a page of the submission loop on. -/
def pagesFrom (cmd : Command) (i : Nat) : List Nat :=
  List.range' i (cmd.totalPgs - i)

/-- The pages whose bits a thread may clear, or whose media commands may. -/
def Task.owed (cmd : Command) (task : Task) : Multiset Nat :=
  ↑((task.phase.pages.filter Page.owes).map Page.pg) +
    (task.back.map fun i => (pagesFrom cmd i : Multiset Nat)).sum

/-- The pages that a thread is still to count or to submit. -/
def Task.pagesLeft (cmd : Command) (task : Task) : Nat :=
  task.phase.pages.length + (task.back.map fun i => cmd.totalPgs - i).sum

/-- What a thread adds to the tallies: pages owed, pages left, and whether it is about to compare,
to decide or to call. -/
def Task.weight (cmd : Command) (task : Task) : Multiset Nat × Nat × Nat × Nat × Nat :=
  (task.owed cmd, task.pagesLeft cmd, task.phase.testing, task.phase.deciding, task.phase.calling)

/-- The tallies over all threads. -/
def weight (cmd : Command) (tasks : List Task) : Multiset Nat × Nat × Nat × Nat × Nat :=
  (tasks.map (Task.weight cmd)).sum

/-- The pages of the media commands in flight. -/
def inFlight (cmd : Command) (flight : List Nat) : Multiset Nat :=
  (flight.map fun first => (List.range' first (cmd.span first) : Multiset Nat)).sum

/-- How far the end of the command has come. -/
structure Stage (cmd : Command) (io : CmdIo) (testing deciding calling : Nat) : Prop where
  early : io.pgsP < cmd.totalPgs →
    deciding = 0 ∧ calling = 0 ∧ io.called = [] ∧ io.status = .process ∧ io.retT = 0
  failed : io.pgsP = cmd.totalPgs → Failed cmd io →
    testing + deciding + calling + io.called.length = 1 ∧ io.retT = calling + io.called.length ∧
      (∀ status ∈ io.called, status = .fail) ∧
        ∀ task ∈ io.tasks, ∀ status, task.phase = .call status → status = .fail
  succeeded : io.pgsP = cmd.totalPgs → ¬ Failed cmd io →
    ((io.status = .process ∧ calling = 0 ∧ io.called = [] ∧ 1 ≤ testing + deciding) ∨
      (io.status = .success ∧ calling + io.called.length = 1)) ∧
      (∀ status ∈ io.called, status = .success) ∧
        ∀ task ∈ io.tasks, ∀ status, task.phase = .call status → status = .success

/-- What holds in every interleaving. -/
structure Inv (cmd : Command) (io : CmdIo) : Prop where
  count : io.pgsP + (weight cmd io.tasks).2.1 + (io.flight.map cmd.span).sum = cmd.totalPgs
  nodup : ((weight cmd io.tasks).1 + inFlight cmd io.flight).Nodup
  bits : ∀ pg ∈ (weight cmd io.tasks).1 + inFlight cmd io.flight,
    io.pgMap pg = true ∧ pg < cmd.totalPgs
  high : ∀ pg, cmd.totalPgs ≤ pg → io.pgMap pg = false
  aligned : ∀ task ∈ io.tasks, ∀ i ∈ task.back, cmd.Tiles i
  single : ∀ task ∈ io.tasks, task.phase ≠ .resubmit
  stage : Stage cmd io (weight cmd io.tasks).2.2.1 (weight cmd io.tasks).2.2.2.1
    (weight cmd io.tasks).2.2.2.2

theorem span_pos (cmd : Command) (i : Nat) : 0 < cmd.span i := by
  unfold Command.span
  split
  · exact (cmd.ch i).planes
  · exact Nat.one_pos

theorem Command.Tiles.le {cmd : Command} {i : Nat} (tiles : cmd.Tiles i) : i ≤ cmd.totalPgs := by
  induction tiles with
  | last => exact Nat.le_refl _
  | next _ ih => exact Nat.le_trans (Nat.le_add_right _ _) ih

/-- A media command in front of the last page ends with it, or another one follows. -/
theorem Command.Tiles.of_lt {cmd : Command} {i : Nat} (tiles : cmd.Tiles i)
    (lt : i < cmd.totalPgs) : cmd.Tiles (i + cmd.span i) := by
  cases tiles with
  | last => exact absurd lt (Nat.lt_irrefl _)
  | next tiles => exact tiles

/-- The pages of a media command, in the order in which they are counted. -/
theorem pagesOf_perm (cmd : Command) (first : Nat) (ok : Bool) :
    ((pagesOf cmd first ok).map Page.pg).Perm (List.range' first (cmd.span first)) := by
  have whole : List.range' first (cmd.span first) =
      first :: List.range' (first + 1) (cmd.span first - 1) := by
    rw [← List.range'_succ, Nat.sub_add_cancel (span_pos cmd first)]
  rw [pagesOf, List.map_append, List.map_map, whole]
  simp [Function.comp_def]

theorem length_pagesOf (cmd : Command) (first : Nat) (ok : Bool) :
    (pagesOf cmd first ok).length = cmd.span first := by
  have perm := (pagesOf_perm cmd first ok).length_eq
  rwa [List.length_map, List.length_range'] at perm

/-- The pages of a media command owe their bits when it has succeeded. -/
theorem filter_pagesOf (cmd : Command) (first : Nat) (ok : Bool) :
    (pagesOf cmd first ok).filter Page.owes = if ok then pagesOf cmd first ok else [] := by
  have same : ∀ page ∈ pagesOf cmd first ok, page.owes = ok := by
    intro page mem
    rcases List.mem_append.1 mem with further | last
    · obtain ⟨pg, -, rfl⟩ := List.mem_map.1 further
      exact Bool.and_true ok
    · rw [List.mem_singleton.1 last]
      exact Bool.and_true ok
  cases ok with
  | true => exact List.filter_eq_self.2 fun page mem => same page mem
  | false => exact List.filter_eq_nil_iff.2 fun page mem => by simp [same page mem]

/-- A round of the submission loop takes the pages of one media command. -/
theorem pagesFrom_split {cmd : Command} {i : Nat} (tiles : cmd.Tiles (i + cmd.span i)) :
    pagesFrom cmd i = List.range' i (cmd.span i) ++ pagesFrom cmd (i + cmd.span i) := by
  have fits := tiles.le
  have parts := @List.range'_append_1 i (cmd.span i) (cmd.totalPgs - (i + cmd.span i))
  rw [pagesFrom, pagesFrom, parts]
  congr 1
  omega

/-! ## One thread moves -/

section Move

variable {cmd : Command} {io io' : CmdIo} {t : Nat} {task task' : Task}

/-- The tallies with one thread and with another one in its place. -/
theorem weight_split (cmd : Command) {tasks : List Task} (get : tasks[t]? = some task) :
    weight cmd tasks = task.weight cmd + weight cmd (replaceAt tasks t []) ∧
      ∀ task', weight cmd (replaceAt tasks t [task']) =
        task'.weight cmd + weight cmd (replaceAt tasks t []) := by
  obtain ⟨rest, total, replaced⟩ := sum_split (Task.weight cmd) get
  have others : weight cmd (replaceAt tasks t []) = rest := by
    rw [weight, replaced, List.map_nil, List.sum_nil, zero_add]
  refine ⟨by rw [others, weight, total], fun task' => ?_⟩
  rw [others, weight, replaced, List.map_singleton, List.sum_singleton]

theorem Inv.owed_of_mem (inv : Inv cmd io) (get : io.tasks[t]? = some task) {pg : Nat}
    (mem : pg ∈ task.owed cmd) : io.pgMap pg = true ∧ pg < cmd.totalPgs := by
  obtain ⟨total, -⟩ := weight_split cmd get
  apply inv.bits
  rw [total]
  exact Multiset.mem_add.2 (Or.inl (Multiset.mem_add.2 (Or.inl mem)))

/-- A thread with pages left, or with pages to submit. -/
theorem Inv.lt_of_left (inv : Inv cmd io) (get : io.tasks[t]? = some task)
    (left : 0 < task.pagesLeft cmd) : io.pgsP < cmd.totalPgs := by
  obtain ⟨total, -⟩ := weight_split cmd get
  have count := inv.count
  rw [total, Prod.snd_add, Prod.fst_add] at count
  change io.pgsP + (task.pagesLeft cmd + _) + _ = _ at count
  omega

/-- A step of one thread keeps the invariant when it moves pages from one tally to another,
touches bits of the pages that are then owed no more, and fits the stage. -/
theorem Inv.move (inv : Inv cmd io) (get : io.tasks[t]? = some task)
    (tasks : io'.tasks = replaceAt io.tasks t [task'])
    (count : io'.pgsP + task'.pagesLeft cmd + (io'.flight.map cmd.span).sum =
      io.pgsP + task.pagesLeft cmd + (io.flight.map cmd.span).sum)
    (gone : Multiset Nat)
    (owed : task.owed cmd + inFlight cmd io.flight =
      gone + (task'.owed cmd + inFlight cmd io'.flight))
    (bits : ∀ pg, pg ∉ gone → io'.pgMap pg = io.pgMap pg)
    (low : ∀ pg ∈ gone, pg < cmd.totalPgs)
    (aligned : ∀ i ∈ task'.back, cmd.Tiles i) (single : task'.phase ≠ .resubmit)
    (stage : Stage cmd io' (weight cmd io'.tasks).2.2.1 (weight cmd io'.tasks).2.2.2.1
      (weight cmd io'.tasks).2.2.2.2) :
    Inv cmd io' := by
  obtain ⟨total, replaced⟩ := weight_split cmd get
  have before : (weight cmd io.tasks).1 + inFlight cmd io.flight =
      gone + ((weight cmd io'.tasks).1 + inFlight cmd io'.flight) := by
    rw [tasks, total, replaced, Prod.fst_add, Prod.fst_add]
    change task.owed cmd + _ + _ = gone + (task'.owed cmd + _ + _)
    rw [add_right_comm, owed, add_assoc, add_right_comm]
  constructor
  case count =>
    have old := inv.count
    rw [total, Prod.snd_add, Prod.fst_add] at old
    rw [tasks, replaced, Prod.snd_add, Prod.fst_add]
    change io.pgsP + (task.pagesLeft cmd + _) + _ = _ at old
    change io'.pgsP + (task'.pagesLeft cmd + _) + _ = _
    omega
  case nodup =>
    have nodup := inv.nodup
    rw [before] at nodup
    exact (Multiset.nodup_add.1 nodup).2.1
  case bits =>
    intro pg mem
    have nodup := inv.nodup
    rw [before] at nodup
    have kept : pg ∉ gone := fun other =>
      Multiset.disjoint_left.1 (Multiset.nodup_add.1 nodup).2.2 other mem
    rw [bits pg kept]
    apply inv.bits
    rw [before]
    exact Multiset.mem_add.2 (Or.inr mem)
  case high =>
    intro pg le
    rw [bits pg fun mem => absurd (low pg mem) (Nat.not_lt.2 le), inv.high pg le]
  case aligned =>
    rw [tasks]
    intro other mem
    rcases mem_replaceAt mem with old | new
    · exact inv.aligned other old
    · rw [List.mem_singleton.1 new]
      exact aligned
  case single =>
    rw [tasks]
    intro other mem
    rcases mem_replaceAt mem with old | new
    · exact inv.single other old
    · rw [List.mem_singleton.1 new]
      exact single
  case stage => exact stage

/-- The same while pages are left, for a step that touches neither status nor calls. -/
theorem Inv.move_early (inv : Inv cmd io) (get : io.tasks[t]? = some task)
    (tasks : io'.tasks = replaceAt io.tasks t [task'])
    (count : io'.pgsP + task'.pagesLeft cmd + (io'.flight.map cmd.span).sum =
      io.pgsP + task.pagesLeft cmd + (io.flight.map cmd.span).sum)
    (gone : Multiset Nat)
    (owed : task.owed cmd + inFlight cmd io.flight =
      gone + (task'.owed cmd + inFlight cmd io'.flight))
    (bits : ∀ pg, pg ∉ gone → io'.pgMap pg = io.pgMap pg)
    (low : ∀ pg ∈ gone, pg < cmd.totalPgs)
    (aligned : ∀ i ∈ task'.back, cmd.Tiles i) (single : task'.phase ≠ .resubmit)
    (left : 0 < task.pagesLeft cmd) (lt : io'.pgsP < cmd.totalPgs)
    (called : io'.called = io.called) (status : io'.status = io.status)
    (retT : io'.retT = io.retT)
    (deciding : task'.phase.deciding = task.phase.deciding)
    (calling : task'.phase.calling = task.phase.calling) : Inv cmd io' := by
  obtain ⟨total, replaced⟩ := weight_split cmd get
  have early := inv.stage.early (inv.lt_of_left get left)
  refine inv.move get tasks count gone owed bits low aligned single ?_
  constructor
  case early =>
    intro _
    rw [called, status, retT, tasks, replaced]
    change task'.phase.deciding + _ = 0 ∧ task'.phase.calling + _ = 0 ∧ _
    rw [deciding, calling]
    rw [total] at early
    exact early
  case failed => exact fun full => absurd full (Nat.ne_of_lt lt)
  case succeeded => exact fun full => absurd full (Nat.ne_of_lt lt)

/-- The same for a step that moves no page. -/
theorem Inv.move_silent (inv : Inv cmd io) (get : io.tasks[t]? = some task)
    (tasks : io'.tasks = replaceAt io.tasks t [task'])
    (same : io'.pgMap = io.pgMap ∧ io'.pgsP = io.pgsP ∧ io'.flight = io.flight)
    (owed : task'.owed cmd = task.owed cmd) (left : task'.pagesLeft cmd = task.pagesLeft cmd)
    (aligned : ∀ i ∈ task'.back, cmd.Tiles i) (single : task'.phase ≠ .resubmit)
    (stage : Stage cmd io' (weight cmd io'.tasks).2.2.1 (weight cmd io'.tasks).2.2.2.1
      (weight cmd io'.tasks).2.2.2.2) :
    Inv cmd io' := by
  obtain ⟨pgMap, pgsP, flight⟩ := same
  apply inv.move get tasks _ 0 _ _ _ aligned single stage
  · rw [pgsP, left, flight]
  · rw [owed, flight, zero_add]
  · intro pg _
    rw [pgMap]
  · exact fun pg mem => absurd mem (Multiset.notMem_zero pg)

theorem Inv.pgsP_le (inv : Inv cmd io) : io.pgsP ≤ cmd.totalPgs := by
  have count := inv.count
  omega

end Move

/-! ## The steps of a thread -/

section Steps

variable {cmd : Command} {io : CmdIo} {t : Nat}

/-- The bit of a page is cleared. -/
theorem inv_clear (inv : Inv cmd io) {page : Page} {left : List Page} {back : List Nat}
    (get : io.tasks[t]? = some ⟨.counting (page :: left), back⟩)
    (owes : page.ok = true ∧ page.cleared = false) :
    Inv cmd { setPgmapOff io page.pg with
      tasks :=
        replaceAt io.tasks t [⟨.counting ({ page with cleared := true } :: left), back⟩] } := by
  have due : page.owes = true := by
    rw [Page.owes, owes.1, owes.2]
    rfl
  have paid : Page.owes { page with cleared := true } = false := by
    rw [Page.owes, owes.1]
    rfl
  have owed : Task.owed cmd ⟨.counting (page :: left), back⟩ =
      page.pg ::ₘ Task.owed cmd ⟨.counting ({ page with cleared := true } :: left), back⟩ := by
    simp only [Task.owed, Phase.pages, List.filter_cons, due, paid, if_true, List.map_cons,
      ← Multiset.cons_coe, Multiset.cons_add, Bool.false_eq_true, if_false]
  have lt : io.pgsP < cmd.totalPgs := inv.lt_of_left get (Nat.add_pos_left (Nat.succ_pos _) _)
  have page_lt := inv.owed_of_mem get (owed ▸ Multiset.mem_cons_self _ _)
  have aligned := inv.aligned _ (List.mem_of_getElem? get)
  refine inv.move_early get rfl rfl {page.pg} ?_ ?_ ?_ aligned
    (fun eq => by cases eq) (Nat.add_pos_left (Nat.succ_pos _) _) lt rfl rfl rfl rfl rfl
  · rw [owed, Multiset.cons_add, Multiset.singleton_add]
    rfl
  · intro pg kept
    exact Function.update_of_ne (fun eq => kept (Multiset.mem_singleton.2 eq)) _ _
  · intro pg mem
    rw [Multiset.mem_singleton.1 mem]
    exact page_lt.2

theorem testing_eq_zero (cmd : Command) {tasks : List Task}
    (none : ∀ task ∈ tasks, task.phase ≠ .counting []) : (weight cmd tasks).2.2.1 = 0 := by
  induction tasks with
  | nil => rfl
  | cons first rest ih =>
      have tail := ih fun task mem => none task (List.mem_cons_of_mem _ mem)
      have head : first.phase.testing = 0 := by
        have not := none first List.mem_cons_self
        rcases first with ⟨⟨_ | _⟩ | _ | _ | _ | _, _⟩
        case counting.nil => exact absurd rfl not
        all_goals rfl
      rw [weight, List.map_cons, List.sum_cons]
      change first.phase.testing + (weight cmd rest).2.2.1 = 0
      rw [head, tail]

/-- A thread that is about to call is tallied. -/
theorem not_calling (cmd : Command) {tasks : List Task} (none : (weight cmd tasks).2.2.2.2 = 0)
    {task : Task} (mem : task ∈ tasks) (status : IoStatus) : task.phase ≠ .call status := by
  induction tasks with
  | nil => exact absurd mem List.not_mem_nil
  | cons first rest ih =>
      rw [weight, List.map_cons, List.sum_cons] at none
      change first.phase.calling + (weight cmd rest).2.2.2.2 = 0 at none
      rcases List.mem_cons.1 mem with rfl | later
      · intro call
        rw [call] at none
        exact absurd none (by simp only [Phase.calling]; omega)
      · exact ih (by omega) later

/-- A page is counted. -/
theorem inv_count (inv : Inv cmd io) {page : Page} {left : List Page} {back : List Nat}
    (get : io.tasks[t]? = some ⟨.counting (page :: left), back⟩)
    (paid : ¬(page.ok = true ∧ page.cleared = false))
    (apart : io.pgsP + 1 = cmd.totalPgs → Failed cmd io →
      ∀ other ∈ replaceAt io.tasks t [], other.phase ≠ .counting []) (pgsS pgErrors : Nat) :
    Inv cmd { io with
      pgsS := pgsS
      pgErrors := pgErrors
      pgsP := io.pgsP + 1
      tasks := replaceAt io.tasks t [⟨.counting left, back⟩] } := by
  have settled : page.owes = false := by
    unfold Page.owes
    cases ok : page.ok <;> cases cleared : page.cleared <;> simp_all
  have owed : Task.owed cmd ⟨.counting (page :: left), back⟩ =
      Task.owed cmd ⟨.counting left, back⟩ := by
    simp only [Task.owed, Phase.pages, List.filter_cons, settled, Bool.false_eq_true, if_false]
  have lt : io.pgsP < cmd.totalPgs := inv.lt_of_left get (Nat.add_pos_left (Nat.succ_pos _) _)
  have count :
      io.pgsP + 1 + Task.pagesLeft cmd ⟨.counting left, back⟩ + (io.flight.map cmd.span).sum =
        io.pgsP + Task.pagesLeft cmd ⟨.counting (page :: left), back⟩ +
          (io.flight.map cmd.span).sum := by
    simp only [Task.pagesLeft, Phase.pages, List.length_cons]
    omega
  have aligned := inv.aligned _ (List.mem_of_getElem? get)
  by_cases last : io.pgsP + 1 = cmd.totalPgs
  · obtain ⟨total, replaced⟩ := weight_split cmd get
    have early := inv.stage.early lt
    have counted := inv.count
    rw [total] at early counted
    -- No page is left, so this thread compares next.
    have empty : left = [] := by
      change io.pgsP + (left.length + 1 + _ + _) + _ = _ at counted
      exact List.length_eq_zero_iff.1 (by omega)
    refine inv.move get rfl count 0 (by rw [owed, zero_add]) (fun _ _ => rfl)
      (fun pg mem => absurd mem (Multiset.notMem_zero pg)) aligned (fun eq => by cases eq) ?_
    obtain ⟨deciding, calling, called, status, retT⟩ := early
    have silent : ∀ task ∈ replaceAt io.tasks t [⟨.counting left, back⟩], ∀ status,
        task.phase ≠ .call status := by
      intro task mem status
      apply not_calling cmd _ mem
      rw [replaced]
      exact calling
    dsimp only
    rw [replaced, empty]
    rw [empty] at silent
    change 0 + _ = 0 at deciding calling
    constructor
    case early => exact fun full => absurd last (Nat.ne_of_lt full)
    case failed =>
      intro _ failed
      have alone := testing_eq_zero cmd (apart last failed)
      refine ⟨?_, ?_, ?_, fun task mem status call => absurd call (silent task mem status)⟩
      · change 1 + _ + (0 + _) + (0 + _) + io.called.length = 1
        rw [alone, deciding, calling, called]
        rfl
      · change io.retT = 0 + _ + io.called.length
        rw [calling, retT, called]
        rfl
      · change ∀ status ∈ io.called, _
        rw [called]
        exact fun status mem => absurd mem List.not_mem_nil
    case succeeded =>
      intro _ _
      refine ⟨Or.inl ⟨status, calling, called, ?_⟩, ?_,
        fun task mem status call => absurd call (silent task mem status)⟩
      · change 1 ≤ 1 + _ + (0 + _)
        omega
      · change ∀ status ∈ io.called, _
        rw [called]
        exact fun status mem => absurd mem List.not_mem_nil
  · exact inv.move_early get rfl count 0 (by rw [owed, zero_add]) (fun _ _ => rfl)
      (fun pg mem => absurd mem (Multiset.notMem_zero pg)) aligned (fun eq => by cases eq)
      (Nat.add_pos_left (Nat.succ_pos _) _) (Nat.lt_of_le_of_ne lt last) rfl rfl rfl rfl rfl

/-- A thread that is about to call in the place of another one. -/
theorem calls_replaceAt {tasks : List Task} {task' : Task} {result : IoStatus}
    (old : ∀ task ∈ tasks, ∀ status, task.phase = .call status → status = result)
    (new : ∀ status, task'.phase = .call status → status = result) :
    ∀ task ∈ replaceAt tasks t [task'], ∀ status,
      task.phase = .call status → status = result := by
  intro task mem
  rcases mem_replaceAt mem with other | self
  · exact old task other
  · rw [List.mem_singleton.1 self]
    exact new

/-- The comparison of `ppa_io_check_end`. -/
theorem inv_test (inv : Inv cmd io) {back : List Nat}
    (get : io.tasks[t]? = some ⟨.counting [], back⟩) :
    Inv cmd { io with
      tasks := replaceAt io.tasks t
        [⟨if io.pgsP = cmd.totalPgs then .decide else .returned, back⟩] } := by
  obtain ⟨total, replaced⟩ := weight_split cmd get
  have stage := inv.stage
  have aligned := inv.aligned _ (List.mem_of_getElem? get)
  rw [total] at stage
  by_cases full : io.pgsP = cmd.totalPgs
  · rw [if_pos full]
    refine inv.move_silent get rfl ⟨rfl, rfl, rfl⟩ rfl rfl aligned (fun eq => by cases eq) ?_
    dsimp only
    rw [replaced]
    constructor
    case early => exact fun lt => absurd full (Nat.ne_of_lt lt)
    case failed =>
      intro _ failed
      obtain ⟨once, retT, called, calls⟩ := stage.failed full failed
      refine ⟨?_, retT, called, calls_replaceAt calls fun _ call => by cases call⟩
      change 1 + _ + (0 + _) + (0 + _) + _ = 1 at once
      change 0 + _ + (1 + _) + (0 + _) + io.called.length = 1
      omega
    case succeeded =>
      intro _ succeeded
      obtain ⟨progress, called, calls⟩ := stage.succeeded full succeeded
      refine ⟨?_, called, calls_replaceAt calls fun _ call => by cases call⟩
      rcases progress with ⟨status, calling, none, some⟩ | done
      · left
        refine ⟨status, calling, none, ?_⟩
        change 1 ≤ 0 + _ + (1 + _)
        omega
      · exact Or.inr done
  · rw [if_neg full]
    have lt := Nat.lt_of_le_of_ne inv.pgsP_le full
    refine inv.move_silent get rfl ⟨rfl, rfl, rfl⟩ rfl rfl aligned (fun eq => by cases eq) ?_
    dsimp only
    rw [replaced]
    constructor
    case early => exact fun _ => stage.early lt
    case failed => exact fun eq => absurd eq full
    case succeeded => exact fun eq => absurd eq full

theorem checkPgmapComplete_iff (inv : Inv cmd io) :
    checkPgmapComplete cmd io = true ↔ Failed cmd io := by
  have pos := cmd.pos
  rw [checkPgmapComplete, List.any_eq_true]
  constructor
  · rintro ⟨pg, -, set⟩
    by_cases low : pg < cmd.totalPgs
    · exact ⟨pg, low, set⟩
    · rw [inv.high pg (Nat.not_lt.1 low)] at set
      exact absurd set Bool.false_ne_true
  · rintro ⟨pg, low, set⟩
    exact ⟨pg, List.mem_range.2 (by omega), set⟩

/-- The mutex section of `ppa_io_check_end`. -/
theorem inv_checkEnd (inv : Inv cmd io) {back : List Nat}
    (get : io.tasks[t]? = some ⟨.decide, back⟩) :
    Inv cmd { (checkEnd cmd io back).1 with
      tasks := replaceAt io.tasks t [(checkEnd cmd io back).2] } := by
  obtain ⟨total, replaced⟩ := weight_split cmd get
  have stage := inv.stage
  have aligned := inv.aligned _ (List.mem_of_getElem? get)
  rw [total] at stage
  have full : io.pgsP = cmd.totalPgs := by
    by_contra short
    have early := (stage.early (Nat.lt_of_le_of_ne inv.pgsP_le short)).1
    change 1 + _ = 0 at early
    omega
  unfold checkEnd
  by_cases failed : Failed cmd io
  · rw [if_pos ((checkPgmapComplete_iff inv).2 failed), if_neg (by unfold appIoRetry; omega)]
    refine inv.move_silent get rfl ⟨rfl, rfl, rfl⟩ rfl rfl aligned (fun eq => by cases eq) ?_
    dsimp only
    rw [replaced]
    obtain ⟨once, retT, called, calls⟩ := stage.failed full failed
    change 0 + _ + (1 + _) + (0 + _) + _ = 1 at once
    change io.retT = 0 + _ + _ at retT
    constructor
    case early => exact fun lt => absurd full (Nat.ne_of_lt lt)
    case failed =>
      intro _ _
      refine ⟨?_, ?_, called, ?_⟩
      · change 0 + _ + (0 + _) + (1 + _) + io.called.length = 1
        omega
      · change io.retT + 1 = 1 + _ + io.called.length
        omega
      · exact calls_replaceAt calls fun _ call => by cases call; rfl
    case succeeded => exact fun _ succeeded => absurd failed succeeded
  · rw [if_neg fun complete => failed ((checkPgmapComplete_iff inv).1 complete)]
    obtain ⟨progress, called, calls⟩ := stage.succeeded full failed
    by_cases process : io.status = .process
    · rw [if_pos process]
      refine inv.move_silent get rfl ⟨rfl, rfl, rfl⟩ rfl rfl aligned (fun eq => by cases eq) ?_
      dsimp only
      rw [replaced]
      constructor
      case early => exact fun lt => absurd full (Nat.ne_of_lt lt)
      case failed => exact fun _ other => absurd other failed
      case succeeded =>
        intro _ _
        refine ⟨Or.inr ⟨rfl, ?_⟩, called, ?_⟩
        · rcases progress with ⟨-, calling, none, -⟩ | ⟨success, -⟩
          · change 0 + _ = 0 at calling
            change 1 + _ + io.called.length = 1
            rw [none, List.length_nil]
            omega
          · rw [process] at success
            cases success
        · exact calls_replaceAt calls fun _ call => by cases call; rfl
    · rw [if_neg process]
      refine inv.move_silent get rfl ⟨rfl, rfl, rfl⟩ rfl rfl aligned (fun eq => by cases eq) ?_
      dsimp only
      rw [replaced]
      constructor
      case early => exact fun lt => absurd full (Nat.ne_of_lt lt)
      case failed => exact fun _ other => absurd other failed
      case succeeded =>
        intro _ _
        refine ⟨?_, called, ?_⟩
        · rcases progress with ⟨open', -⟩ | done
          · exact absurd open' process
          · exact Or.inr done
        · exact calls_replaceAt calls fun _ call => by cases call

/-- The call of the callback. -/
theorem inv_call (inv : Inv cmd io) {status : IoStatus} {back : List Nat}
    (get : io.tasks[t]? = some ⟨.call status, back⟩) :
    Inv cmd { io with
      called := io.called ++ [status], tasks := replaceAt io.tasks t [⟨.returned, back⟩] } := by
  obtain ⟨total, replaced⟩ := weight_split cmd get
  have stage := inv.stage
  have mem := List.mem_of_getElem? get
  have aligned := inv.aligned _ mem
  rw [total] at stage
  have full : io.pgsP = cmd.totalPgs := by
    by_contra short
    have early := (stage.early (Nat.lt_of_le_of_ne inv.pgsP_le short)).2.1
    change 1 + _ = 0 at early
    omega
  have length : (io.called ++ [status]).length = io.called.length + 1 := List.length_append
  have all : ∀ result, status = result → (∀ status ∈ io.called, status = result) →
      ∀ other ∈ io.called ++ [status], other = result := by
    intro result same old other mem
    rcases List.mem_append.1 mem with earlier | last
    · exact old other earlier
    · rw [List.mem_singleton.1 last, same]
  refine inv.move_silent get rfl ⟨rfl, rfl, rfl⟩ rfl rfl aligned (fun eq => by cases eq) ?_
  dsimp only
  rw [replaced]
  constructor
  case early => exact fun lt => absurd full (Nat.ne_of_lt lt)
  case failed =>
    intro _ failed
    obtain ⟨once, retT, called, calls⟩ := stage.failed full failed
    change 0 + _ + (0 + _) + (1 + _) + _ = 1 at once
    change io.retT = 1 + _ + _ at retT
    refine ⟨?_, ?_, all _ (calls _ mem _ rfl) called,
      calls_replaceAt calls fun _ call => by cases call⟩
    · change 0 + _ + (0 + _) + (0 + _) + (io.called ++ [status]).length = 1
      omega
    · change io.retT = 0 + _ + (io.called ++ [status]).length
      omega
  case succeeded =>
    intro _ succeeded
    obtain ⟨progress, called, calls⟩ := stage.succeeded full succeeded
    refine ⟨Or.inr ?_, all _ (calls _ mem _ rfl) called,
      calls_replaceAt calls fun _ call => by cases call⟩
    rcases progress with ⟨-, calling, -, -⟩ | ⟨success, once⟩
    · change 1 + _ = 0 at calling
      omega
    · change 1 + _ + _ = 1 at once
      refine ⟨success, ?_⟩
      change 0 + _ + (io.called ++ [status]).length = 1
      omega

theorem owed_cons (phase : Phase) (i : Nat) (back : List Nat) :
    Task.owed cmd ⟨phase, i :: back⟩ = ↑(pagesFrom cmd i) + Task.owed cmd ⟨phase, back⟩ := by
  rw [Task.owed, Task.owed, List.map_cons, List.sum_cons, add_left_comm]

theorem pagesLeft_cons (phase : Phase) (i : Nat) (back : List Nat) :
    Task.pagesLeft cmd ⟨phase, i :: back⟩ =
      cmd.totalPgs - i + Task.pagesLeft cmd ⟨phase, back⟩ := by
  rw [Task.pagesLeft, Task.pagesLeft, List.map_cons, List.sum_cons, Nat.add_left_comm]

theorem inFlight_append (flight : List Nat) (first : Nat) :
    inFlight cmd (flight ++ [first]) =
      ↑(List.range' first (cmd.span first)) + inFlight cmd flight := by
  rw [inFlight, inFlight, List.map_append, List.sum_append, List.map_singleton, List.sum_singleton,
    add_comm]

/-- A round of the submission loop. -/
theorem inv_submitPage (inv : Inv cmd io) {i : Nat} {back : List Nat}
    (get : io.tasks[t]? = some ⟨.returned, i :: back⟩) (accepted : Bool) :
    Inv cmd { (submitPage cmd io i back accepted).1 with
      tasks := replaceAt io.tasks t [(submitPage cmd io i back accepted).2] } := by
  have aligned := inv.aligned _ (List.mem_of_getElem? get)
  have rest : ∀ j ∈ back, cmd.Tiles j := fun j mem => aligned j (List.mem_cons_of_mem _ mem)
  unfold submitPage
  by_cases lt : i < cmd.totalPgs
  · have behind := (aligned i List.mem_cons_self).of_lt lt
    have fits := behind.le
    have split := pagesFrom_split behind
    have next : ∀ j ∈ (i + cmd.span i) :: back, cmd.Tiles j := by
      intro j mem
      rcases List.mem_cons.1 mem with rfl | later
      · exact behind
      · exact rest j later
    have left : 0 < Task.pagesLeft cmd ⟨.returned, i :: back⟩ := by
      rw [pagesLeft_cons]
      omega
    have early := inv.lt_of_left get left
    have own : i ∈ Task.owed cmd ⟨.returned, i :: back⟩ := by
      rw [owed_cons, Multiset.mem_add, pagesFrom, Multiset.mem_coe, List.mem_range'_1]
      exact Or.inl ⟨Nat.le_refl i, by omega⟩
    rw [if_pos lt, if_pos (inv.owed_of_mem get own).1]
    cases accepted with
    | true =>
        rw [if_pos rfl]
        refine inv.move_early get rfl ?_ 0 ?_ (fun _ _ => rfl)
          (fun pg mem => absurd mem (Multiset.notMem_zero pg)) next
          (fun eq => by cases eq) left early
          rfl rfl rfl rfl rfl
        · rw [pagesLeft_cons, pagesLeft_cons]
          change io.pgsP + _ + ((io.flight ++ [i]).map cmd.span).sum = _
          rw [List.map_append, List.sum_append, List.map_singleton, List.sum_singleton]
          omega
        · change _ = 0 + (_ + inFlight cmd (io.flight ++ [i]))
          rw [owed_cons, owed_cons, split, inFlight_append, ← Multiset.coe_add]
          ac_rfl
    | false =>
        rw [if_neg Bool.false_ne_true]
        have owed : Task.owed cmd ⟨.returned, i :: back⟩ = ↑(List.range' i (cmd.span i)) +
            Task.owed cmd ⟨.counting (pagesOf cmd i false), (i + cmd.span i) :: back⟩ := by
          have none : (pagesOf cmd i false).filter Page.owes = [] := filter_pagesOf cmd i false
          rw [owed_cons, owed_cons, split, ← Multiset.coe_add, add_assoc]
          simp only [Task.owed, Phase.pages, none, List.filter_nil]
        refine inv.move_early get rfl ?_ (↑(List.range' i (cmd.span i))) ?_ (fun _ _ => rfl) ?_
          next (fun eq => by cases eq) left early rfl rfl rfl rfl rfl
        · rw [pagesLeft_cons, pagesLeft_cons]
          have length : Task.pagesLeft cmd ⟨.counting (pagesOf cmd i false), back⟩ =
              cmd.span i + Task.pagesLeft cmd ⟨.returned, back⟩ := by
            simp only [Task.pagesLeft, Phase.pages, length_pagesOf, List.length_nil, Nat.zero_add]
          rw [length]
          change io.pgsP + _ + (io.flight.map cmd.span).sum = _
          omega
        · rw [owed, add_assoc]
        · intro pg mem
          have bounds := List.mem_range'_1.1 (Multiset.mem_coe.1 mem)
          omega
  · rw [if_neg lt]
    have none : pagesFrom cmd i = [] := by
      rw [pagesFrom, Nat.sub_eq_zero_of_le (Nat.not_lt.1 lt)]
      rfl
    refine inv.move_silent get rfl ⟨rfl, rfl, rfl⟩ ?_ ?_ rest (fun eq => by cases eq) ?_
    · rw [owed_cons, none]
      exact (zero_add _).symm
    · rw [pagesLeft_cons, Nat.sub_eq_zero_of_le (Nat.not_lt.1 lt), Nat.zero_add]
    · obtain ⟨total, replaced⟩ := weight_split cmd get
      have stage := inv.stage
      rw [total] at stage
      dsimp only
      rw [replaced]
      constructor
      case early => exact stage.early
      case failed =>
        intro full failed
        obtain ⟨once, retT, called, calls⟩ := stage.failed full failed
        exact ⟨once, retT, called, calls_replaceAt calls fun _ call => by cases call⟩
      case succeeded =>
        intro full succeeded
        obtain ⟨progress, called, calls⟩ := stage.succeeded full succeeded
        exact ⟨progress, called, calls_replaceAt calls fun _ call => by cases call⟩

/-- A media command ends, and its callback begins. -/
theorem inv_finish (inv : Inv cmd io) {k first : Nat} (get : io.flight[k]? = some first)
    (ok : Bool) :
    Inv cmd { io with
      flight := replaceAt io.flight k []
      tasks := io.tasks ++ [⟨.counting (pagesOf cmd first ok), []⟩] } := by
  have spans := sum_replaceAt cmd.span get []
  rw [List.map_nil, List.sum_nil, Nat.add_zero] at spans
  obtain ⟨others, before, after⟩ :=
    sum_split (fun first => (List.range' first (cmd.span first) : Multiset Nat)) get
  have gone : inFlight cmd (replaceAt io.flight k []) = others := by
    rw [inFlight, after, List.map_nil, List.sum_nil, zero_add]
  have there : inFlight cmd io.flight = ↑(List.range' first (cmd.span first)) + others := before
  have tasks : weight cmd (io.tasks ++ [⟨.counting (pagesOf cmd first ok), []⟩]) =
      weight cmd io.tasks + Task.weight cmd ⟨.counting (pagesOf cmd first ok), []⟩ := by
    rw [weight, List.map_append, List.sum_append, List.map_singleton, List.sum_singleton]
    rfl
  have perm := pagesOf_perm cmd first ok
  -- What the callback owes is among what its media command held.
  obtain ⟨dropped, owed⟩ : ∃ dropped, (List.range' first (cmd.span first) : Multiset Nat) =
      dropped + Task.owed cmd ⟨.counting (pagesOf cmd first ok), []⟩ := by
    cases ok with
    | true =>
        refine ⟨0, ?_⟩
        have all := filter_pagesOf cmd first true
        rw [if_pos rfl] at all
        rw [Task.owed, Phase.pages, all, List.map_nil, List.sum_nil, add_zero, zero_add]
        exact Multiset.coe_eq_coe.2 perm.symm
    | false =>
        refine ⟨↑(List.range' first (cmd.span first)), ?_⟩
        have none := filter_pagesOf cmd first false
        rw [if_neg Bool.false_ne_true] at none
        rw [Task.owed, Phase.pages, none]
        exact (add_zero _).symm
  have sums : (weight cmd io.tasks).1 + inFlight cmd io.flight =
      dropped + ((weight cmd (io.tasks ++ [⟨.counting (pagesOf cmd first ok), []⟩])).1 +
        inFlight cmd (replaceAt io.flight k [])) := by
    rw [tasks, Prod.fst_add, gone, there, owed]
    change _ = dropped + (_ + Task.owed cmd ⟨.counting (pagesOf cmd first ok), []⟩ + _)
    ac_rfl
  have lt : io.pgsP < cmd.totalPgs := by
    have count := inv.count
    have pos := span_pos cmd first
    omega
  have nodup := inv.nodup
  have bits := inv.bits
  rw [sums] at nodup bits
  constructor
  case count =>
    have count := inv.count
    dsimp only
    rw [tasks, Prod.snd_add, Prod.fst_add]
    change io.pgsP + (_ + Task.pagesLeft cmd ⟨.counting (pagesOf cmd first ok), []⟩) + _ = _
    rw [← spans] at count
    simp only [Task.pagesLeft, Phase.pages, length_pagesOf, List.map_nil, List.sum_nil]
    omega
  case nodup => exact (Multiset.nodup_add.1 nodup).2.1
  case bits => exact fun pg mem => bits pg (Multiset.mem_add.2 (Or.inr mem))
  case high => exact inv.high
  case aligned =>
    intro task mem
    rcases List.mem_append.1 mem with old | new
    · exact inv.aligned task old
    · rw [List.mem_singleton.1 new]
      exact fun i mem => absurd mem List.not_mem_nil
  case single =>
    intro task mem
    rcases List.mem_append.1 mem with old | new
    · exact inv.single task old
    · rw [List.mem_singleton.1 new]
      exact fun eq => by cases eq
  case stage =>
    dsimp only
    rw [tasks]
    constructor
    case early => exact fun _ => inv.stage.early lt
    case failed => exact fun full => absurd full (Nat.ne_of_lt lt)
    case succeeded => exact fun full => absurd full (Nat.ne_of_lt lt)

/-- What one step preserves. -/
theorem inv_step (inv : Inv cmd io) (op : Op)
    (apart : Apart cmd io op) : Inv cmd (step cmd io op) := by
  cases op with
  | finish k ok =>
      cases get : io.flight[k]? with
      | none =>
          rw [show step cmd io (.finish k ok) = io by simp only [step, get]]
          exact inv
      | some first =>
          have moved := inv_finish inv get ok
          simpa only [step, get] using moved
  | next t accepted =>
      cases get : io.tasks[t]? with
      | none =>
          rw [show step cmd io (.next t accepted) = io by simp only [step, get]]
          exact inv
      | some task =>
          have moved : step cmd io (.next t accepted) =
              { (runTask cmd io task accepted).1 with
                tasks := replaceAt io.tasks t [(runTask cmd io task accepted).2] } := by
            simp only [step, get]
          rw [moved]
          simp only [Apart, get] at apart
          obtain ⟨phase, back⟩ := task
          cases phase with
          | counting left =>
              cases left with
              | nil => exact inv_test inv get
              | cons page left =>
                  dsimp only [runTask, processPage]
                  by_cases owes : page.ok = true ∧ page.cleared = false
                  · rw [if_pos owes]
                    exact inv_clear inv get owes
                  · rw [if_neg owes]
                    refine inv_count inv get owes (apart fun ok => ?_) _ _
                    cases cleared : page.cleared with
                    | true => rfl
                    | false => exact absurd ⟨ok, cleared⟩ owes
          | decide => exact inv_checkEnd inv get
          | call status => exact inv_call inv get
          | resubmit => exact absurd rfl (inv.single _ (List.mem_of_getElem? get))
          | returned =>
              cases back with
              | nil =>
                  obtain ⟨lt, eq⟩ := List.getElem?_eq_some_iff.1 get
                  have same : replaceAt io.tasks t [⟨.returned, []⟩] = io.tasks := by
                    rw [← set_eq_replaceAt get, ← eq, List.set_getElem_self]
                  dsimp only [runTask]
                  rw [same]
                  exact inv
              | cons i back => exact inv_submitPage inv get accepted

end Steps

/-! ## Every run comes to an end -/

/-- Steps that a thread has left in a phase. -/
def Phase.work : Phase → Nat
  | .counting left => (left.map fun page => if page.owes then 2 else 1).sum + 3
  | .decide => 2
  | .call _ => 1
  | .resubmit | .returned => 0

/-- Bound of the steps that a thread and the media commands it submits have left. -/
def Task.work (cmd : Command) (task : Task) : Nat :=
  task.phase.work + (task.back.map fun i => (cmd.totalPgs - i) * 8 + 1).sum

/-- Bound of the steps that are left. -/
def work (cmd : Command) (io : CmdIo) : Nat :=
  (io.tasks.map (Task.work cmd)).sum + (io.flight.map fun first => 2 * cmd.span first + 4).sum

section Work

variable {cmd : Command} {io : CmdIo}

theorem work_pagesOf (first : Nat) (ok : Bool) :
    Phase.work (.counting (pagesOf cmd first ok)) ≤ (if ok then 2 else 1) * cmd.span first + 3 := by
  have each : ∀ pages : List Page, (∀ page ∈ pages, page.owes = true → ok = true) →
      (pages.map fun page => if page.owes then 2 else 1).sum ≤
        (if ok then 2 else 1) * pages.length := by
    intro pages all
    induction pages with
    | nil => exact Nat.zero_le _
    | cons page rest ih =>
        have tail := ih fun page mem => all page (List.mem_cons_of_mem _ mem)
        have head := all page List.mem_cons_self
        rw [List.map_cons, List.sum_cons, List.length_cons, Nat.mul_succ, Nat.add_comm]
        apply Nat.add_le_add tail
        cases owes : page.owes with
        | true => rw [head owes, if_pos rfl]
        | false =>
            rw [if_neg Bool.false_ne_true]
            split <;> omega
  have bound := each (pagesOf cmd first ok) ?_
  · rw [length_pagesOf] at bound
    exact Nat.add_le_add_right bound 3
  · intro page mem owes
    have all := filter_pagesOf cmd first ok
    have kept := List.mem_filter.2 ⟨mem, owes⟩
    rw [all] at kept
    cases ok with
    | true => rfl
    | false => exact absurd kept List.not_mem_nil

/-- A step of a thread that has not ended. -/
theorem work_runTask (task : Task) (aligned : ∀ i ∈ task.back, cmd.Tiles i)
    (single : task.phase ≠ .resubmit) (busy : task ≠ ⟨.returned, []⟩) (accepted : Bool) :
    (runTask cmd io task accepted).2.work cmd +
        ((runTask cmd io task accepted).1.flight.map fun first => 2 * cmd.span first + 4).sum <
      task.work cmd + (io.flight.map fun first => 2 * cmd.span first + 4).sum := by
  obtain ⟨phase, back⟩ := task
  cases phase with
  | counting left =>
      cases left with
      | nil =>
          dsimp only [runTask]
          by_cases full : io.pgsP = cmd.totalPgs
          · rw [if_pos full]
            simp only [Task.work, Phase.work, List.map_nil, List.sum_nil]
            omega
          · rw [if_neg full]
            simp only [Task.work, Phase.work, List.map_nil, List.sum_nil]
            omega
      | cons page left =>
          dsimp only [runTask, processPage]
          by_cases owes : page.ok = true ∧ page.cleared = false
          · have due : page.owes = true := by
              rw [Page.owes, owes.1, owes.2]
              rfl
            have paid : Page.owes { page with cleared := true } = false := by
              rw [Page.owes, owes.1]
              rfl
            rw [if_pos owes]
            simp only [Task.work, Phase.work, List.map_cons, List.sum_cons, due, paid, if_true,
              Bool.false_eq_true, if_false, setPgmapOff]
            omega
          · rw [if_neg owes]
            simp only [Task.work, Phase.work, List.map_cons, List.sum_cons]
            split <;> omega
  | decide =>
      dsimp only [runTask, checkEnd]
      have last : ¬ io.retT + 1 ≤ appIoRetry := by
        unfold appIoRetry
        omega
      by_cases failed : checkPgmapComplete cmd io = true
      · rw [if_pos failed, if_neg last]
        simp only [Task.work, Phase.work]
        omega
      · rw [if_neg failed]
        split <;> simp only [Task.work, Phase.work] <;> omega
  | call status =>
      simp only [runTask, Task.work, Phase.work]
      omega
  | resubmit => exact absurd rfl single
  | returned =>
      cases back with
      | nil => exact absurd rfl busy
      | cons i back =>
          dsimp only [runTask, submitPage]
          by_cases lt : i < cmd.totalPgs
          · have fits := ((aligned i List.mem_cons_self).of_lt lt).le
            have pos := span_pos cmd i
            rw [if_pos lt]
            by_cases set : io.pgMap i = true
            · rw [if_pos set]
              cases accepted with
              | true =>
                  simp only [if_true, Task.work, Phase.work, List.map_cons, List.sum_cons,
                    List.map_append, List.sum_append, List.map_nil, List.sum_nil]
                  omega
              | false =>
                  have pages := @work_pagesOf cmd i false
                  rw [if_neg Bool.false_ne_true] at pages
                  simp only [Bool.false_eq_true, if_false, Task.work, List.map_cons, List.sum_cons]
                  have rest : Phase.work .returned = 0 := rfl
                  omega
            · rw [if_neg set]
              simp only [Task.work, Phase.work, List.map_cons, List.sum_cons]
              omega
          · rw [if_neg lt]
            simp only [Task.work, Phase.work, List.map_cons, List.sum_cons]
            omega

/-- Every step that a thread or a media command can take leaves less work. -/
theorem work_next (inv : Inv cmd io) {t : Nat} {task : Task} (get : io.tasks[t]? = some task)
    (busy : task ≠ ⟨.returned, []⟩) (accepted : Bool) :
    work cmd (step cmd io (.next t accepted)) < work cmd io := by
  have mem := List.mem_of_getElem? get
  have less := @work_runTask cmd io task (inv.aligned _ mem) (inv.single _ mem) busy accepted
  have sum := sum_replaceAt (Task.work cmd) get [(runTask cmd io task accepted).2]
  rw [List.map_singleton, List.sum_singleton] at sum
  simp only [step, get, work]
  omega

theorem work_finish {k first : Nat} (get : io.flight[k]? = some first) (ok : Bool) :
    work cmd (step cmd io (.finish k ok)) < work cmd io := by
  have flight := sum_replaceAt (fun first => 2 * cmd.span first + 4) get []
  rw [List.map_nil, List.sum_nil, Nat.add_zero] at flight
  have pages := @work_pagesOf cmd first ok
  have bound : (if ok then 2 else 1) * cmd.span first ≤ 2 * cmd.span first := by
    cases ok with
    | true => exact Nat.le_refl _
    | false => exact Nat.mul_le_mul_right _ (Nat.le_succ 1)
  simp only [step, get, work, List.map_append, List.sum_append, List.map_singleton,
    List.sum_singleton, Task.work, List.map_nil, List.sum_nil]
  omega

end Work

/-! ## Exactly once -/

section Once

variable {cmd : Command} {io : CmdIo}

theorem inv_start {cmd : Command} (whole : cmd.Tiles 0) : Inv cmd (start cmd) := by
  have pages : pagesFrom cmd 0 = List.range' 0 cmd.totalPgs := rfl
  have owed : (weight cmd (start cmd).tasks).1 + inFlight cmd (start cmd).flight =
      ↑(List.range' 0 cmd.totalPgs) := by
    simp only [start, ppaIoCheck, weight, Task.weight, Task.owed, Phase.pages, List.map_singleton,
      List.sum_singleton, pages, inFlight, List.map_nil, List.sum_nil, List.filter_nil, add_zero]
    exact zero_add _
  constructor
  case count =>
    change 0 + (0 + (cmd.totalPgs - 0 + 0) + 0) + 0 = cmd.totalPgs
    omega
  case nodup =>
    rw [owed]
    exact Multiset.coe_nodup.2 List.nodup_range'
  case bits =>
    intro pg mem
    rw [owed, Multiset.mem_coe, List.mem_range'_1] at mem
    have low : pg < cmd.totalPgs := by omega
    refine ⟨?_, low⟩
    change (decide (pg < cmd.totalPgs) || false) = true
    rw [decide_eq_true low, Bool.true_or]
  case high =>
    intro pg le
    change (decide (pg < cmd.totalPgs) || false) = false
    rw [decide_eq_false (Nat.not_lt.2 le), Bool.false_or]
  case aligned =>
    intro task mem i back
    rw [List.mem_singleton.1 mem] at back
    rw [List.mem_singleton.1 back]
    exact whole
  case single =>
    intro task mem
    rw [List.mem_singleton.1 mem]
    exact fun eq => by cases eq
  case stage =>
    have pos := cmd.pos
    constructor
    case early => exact fun _ => ⟨rfl, rfl, rfl, rfl, rfl⟩
    case failed => exact fun full => absurd full (Nat.ne_of_lt pos)
    case succeeded => exact fun full => absurd full (Nat.ne_of_lt pos)

theorem Inv.full_of_called (inv : Inv cmd io) (called : io.called ≠ []) :
    io.pgsP = cmd.totalPgs := by
  by_contra short
  exact called (inv.stage.early (Nat.lt_of_le_of_ne inv.pgsP_le short)).2.2.1

/-- When all pages are counted, none is left anywhere. -/
theorem Inv.processed (inv : Inv cmd io) (full : io.pgsP = cmd.totalPgs) : Processed cmd io := by
  have count := inv.count
  have idle : ∀ task ∈ io.tasks, task.pagesLeft cmd = 0 := by
    intro task mem
    obtain ⟨t, get⟩ := List.getElem?_of_mem mem
    obtain ⟨total, -⟩ := weight_split cmd get
    rw [total, Prod.snd_add, Prod.fst_add] at count
    change io.pgsP + (task.pagesLeft cmd + _) + _ = _ at count
    omega
  constructor
  case counted => exact full
  case flight =>
    have none : (io.flight.map cmd.span).sum = 0 := by omega
    refine List.eq_nil_iff_forall_not_mem.2 fun first mem => ?_
    have zero := List.sum_eq_zero_iff.1 none _ (List.mem_map_of_mem mem)
    exact Nat.ne_of_gt (span_pos cmd first) zero
  case left =>
    intro task mem left counting
    have zero := idle task mem
    rw [Task.pagesLeft, counting] at zero
    exact List.length_eq_zero_iff.1 (Nat.eq_zero_of_add_eq_zero_right zero)
  case submitted =>
    intro task mem i back
    have zero := Nat.eq_zero_of_add_eq_zero_left (idle task mem)
    have each := List.sum_eq_zero_iff.1 zero _ (List.mem_map_of_mem back)
    omega

theorem weight_of_quiet (cmd : Command) {tasks : List Task}
    (quiet : ∀ task ∈ tasks, task = ⟨.returned, []⟩) : weight cmd tasks = 0 := by
  induction tasks with
  | nil => rfl
  | cons first rest ih =>
      rw [weight, List.map_cons, List.sum_cons, quiet first List.mem_cons_self]
      change _ + weight cmd rest = 0
      rw [ih fun task mem => quiet task (List.mem_cons_of_mem _ mem), add_zero]
      rfl

theorem Inv.once (inv : Inv cmd io) : Once cmd io := by
  constructor
  case atMost =>
    by_cases none : io.called = []
    · rw [none]
      exact Nat.zero_le 1
    · have full := inv.full_of_called none
      by_cases failed : Failed cmd io
      · have once := (inv.stage.failed full failed).1
        omega
      · rcases (inv.stage.succeeded full failed).1 with ⟨-, -, empty, -⟩ | ⟨-, once⟩
        · exact absurd empty none
        · omega
  case after => exact fun called => inv.processed (inv.full_of_called called)
  case status =>
    intro status mem
    have called := List.ne_nil_of_mem mem
    have full := inv.full_of_called called
    by_cases failed : Failed cmd io
    · obtain ⟨once, retT, all, -⟩ := inv.stage.failed full failed
      have pos := List.length_pos_of_mem mem
      refine Or.inr ⟨all status mem, failed, ?_⟩
      unfold appIoRetry
      omega
    · exact Or.inl ⟨(inv.stage.succeeded full failed).2.1 status mem, failed⟩
  case quiet =>
    rintro ⟨flight, tasks⟩
    have none := weight_of_quiet cmd tasks
    have count := inv.count
    have stage := inv.stage
    rw [none] at stage
    rw [none, flight] at count
    change io.pgsP + 0 + 0 = cmd.totalPgs at count
    have full : io.pgsP = cmd.totalPgs := by omega
    by_cases failed : Failed cmd io
    · have once := (stage.failed full failed).1
      change 0 + 0 + 0 + io.called.length = 1 at once
      omega
    · rcases (stage.succeeded full failed).1 with ⟨-, -, -, some⟩ | ⟨-, once⟩
      · change 1 ≤ 0 + 0 at some
        omega
      · change 0 + io.called.length = 1 at once
        omega

/-- While the command is not through, some step that `Apart` allows leaves less work: of a thread
that is to compare, if there is one. -/
theorem exists_step (inv : Inv cmd io) (busy : ¬ Quiet io) :
    ∃ op, Apart cmd io op ∧ work cmd (step cmd io op) < work cmd io := by
  by_cases testing : ∃ task ∈ io.tasks, task.phase = .counting []
  · obtain ⟨⟨phase, back⟩, mem, rfl⟩ := testing
    obtain ⟨t, get⟩ := List.getElem?_of_mem mem
    refine ⟨.next t false, ?_, work_next inv get (fun eq => by cases eq) false⟩
    rw [Apart, get]
    trivial
  · cases flight : io.flight with
    | cons first rest =>
        exact ⟨.finish 0 true, trivial, work_finish (by rw [flight]; rfl) true⟩
    | nil =>
        have some : ∃ task ∈ io.tasks, task ≠ ⟨.returned, []⟩ := by
          by_contra all
          exact busy ⟨flight, fun task mem => by_contra fun ne => all ⟨task, mem, ne⟩⟩
        obtain ⟨task, mem, ne⟩ := some
        obtain ⟨t, get⟩ := List.getElem?_of_mem mem
        refine ⟨.next t false, ?_, work_next inv get ne false⟩
        rw [Apart, get]
        unfold Alone
        split
        · intro _ _ _ other among
          rcases mem_replaceAt among with old | new
          · exact fun eq => testing ⟨other, old, eq⟩
          · exact absurd new List.not_mem_nil
        · trivial

/-- The media commands end with the last page, and in the run no thread is between its count and its
comparison when the last page of a command with a failed page is counted: then in every state
reached the callback has been called at most once, after all pages, with the right status, and
exactly once when all threads have run.  Every step leaves less work or nothing changes, and work
can always go on. -/
theorem ppa_io_once (cmd : Command) (whole : cmd.Tiles 0) (ops : List Op)
    (apart : (ppaSystem cmd).Allowed (Apart cmd) (start cmd) ops) :
    let io := (ppaSystem cmd).run (start cmd) ops
    Once cmd io ∧
      (∀ op, step cmd io op = io ∨ work cmd (step cmd io op) < work cmd io) ∧
      (Quiet io ∨ ∃ op, Apart cmd io op ∧ work cmd (step cmd io op) < work cmd io) := by
  intro io
  have inv : Inv cmd io := (ppaSystem cmd).run_invariant (Apart cmd) (Inv cmd)
    (fun _ op allowed inv => inv_step inv op allowed) (inv_start whole) apart
  refine ⟨inv.once, fun op => ?_, ?_⟩
  · cases op with
    | finish k ok =>
        cases get : io.flight[k]? with
        | none => exact Or.inl (by simp only [step, get])
        | some first => exact Or.inr (work_finish get ok)
    | next t accepted =>
        cases get : io.tasks[t]? with
        | none => exact Or.inl (by simp only [step, get])
        | some task =>
            by_cases idle : task = ⟨.returned, []⟩
            · left
              obtain ⟨lt, eq⟩ := List.getElem?_eq_some_iff.1 get
              simp only [step, get, idle, runTask]
              rw [← idle, ← set_eq_replaceAt get, ← eq, List.set_getElem_self]
            · exact Or.inr (work_next inv get idle accepted)
  · by_cases quiet : Quiet io
    · exact Or.inl quiet
    · exact Or.inr (exists_step inv quiet)

end Once

theorem two_le_pages : 2 ≤ 64 := by decide

/-- A read of two pages. -/
def twoPages : Command where
  totalPgs := 2
  write := false
  ch _ := ⟨2, false, Nat.two_pos⟩
  pos := Nat.two_pos
  le := two_le_pages

/-- Both pages are read, and the second one fails. -/
def failedRun : List Op :=
  [.next 0 true, .next 0 true, .next 0 true, .finish 0 true, .next 1 true, .next 1 true,
    .next 1 true, .finish 0 false, .next 2 true, .next 2 true, .next 2 true, .next 2 true]

theorem ppa_io_once_failed_page :
    let io := (ppaSystem twoPages).run (start twoPages) failedRun
    Once twoPages io ∧
      (∀ op, step twoPages io op = io ∨ work twoPages (step twoPages io op) < work twoPages io) ∧
      (Quiet io ∨ ∃ op, Apart twoPages io op ∧
        work twoPages (step twoPages io op) < work twoPages io) :=
  ppa_io_once twoPages (.next (.next .last)) failedRun (by decide)

/-- Both pages fail, and both callbacks have counted before one compares. -/
theorem ppa_io_calls_twice :
    ¬ ∀ (cmd : Command) (ops : List Op), Once cmd ((ppaSystem cmd).run (start cmd) ops) := by
  intro once
  have twice := (once twoPages
    [.next 0 true, .next 0 true, .next 0 true, .finish 0 false, .finish 0 false, .next 1 true,
      .next 2 true, .next 1 true, .next 2 true, .next 1 true, .next 2 true, .next 1 true,
      .next 2 true]).atMost
  exact absurd twice (by decide)

end OxCtrl.PpaIo
