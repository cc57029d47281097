import OxCtrl.ChProv.Core
import OxCtrl.Lib.System

/-!
# Blocks to be closed

After a failed write `app_transaction_close_blk` puts the block on a queue, and a thread closes
it, appends an AMEND record and invalidates the pages behind the failure.  A request for a block
that a used slot of the table names is taken for a duplicate.  The mark of a slot is set by a
request and never cleared: a slot that was finished keeps naming its block until a later request
takes it.

The table does not see what happens to the blocks in between, so a run may have any requests in any
order.
-/

namespace OxCtrl.CloseBlk

open OxCtrl.Lib OxCtrl.ChProv

/-- `APP_TRANSACTION_CLB_LIST`. -/
def appTransactionClbList : Nat := 128

/-- The arguments of `app_transaction_close_blk`: the address of the failure, and the line. -/
structure Request where
  ppa : Ppa
  type : LineType
  deriving DecidableEq, Repr

/-- `struct app_tr_close_blk`. -/
structure Slot where
  ppa : Ppa := 0
  type : LineType := .user
  used : Bool := false
  deriving DecidableEq, Repr

/-- The request in a slot. -/
def Slot.request (slot : Slot) : Request :=
  ⟨slot.ppa, slot.type⟩

/-- What the thread does to the device. -/
inductive DeviceOp where
  | closeBlk (ppa : Ppa) (type : LineType)
  | amendRecord (ppa : Ppa) (type : LineType)
  | invalidatePage (ppa : Ppa)
  deriving DecidableEq, Repr

/-- The slot that `app_tr_clb_thread` works on. -/
inductive Thread where
  | idle
  | taken (slot : Nat)
  | processed (slot : Nat)
  deriving DecidableEq, Repr

/-- The table with its lists, and the calls that have passed the scan of the table. -/
structure Table where
  slots : Nat → Slot := fun _ => {}
  free : List Nat
  queue : List Nat := []
  thread : Thread := .idle
  calls : List Request := []
  ops : List DeviceOp := []
  /-- The calls that have returned zero for a block that was not waiting, in this order. -/
  requests : List Request := []

/-- `app_transaction_clb_init`: every slot is inserted at the head of the free list. -/
def appTransactionClbInit : Table where
  free := (List.range appTransactionClbList).reverse

/-- `app_tr_check_cbl_blk`: a used slot names the block. -/
def appTrCheckCblBlk (table : Table) (ppa : Ppa) : Bool :=
  (List.range appTransactionClbList).any fun blkI =>
    (table.slots blkI).used && decide ((table.slots blkI).ppa.SameBlock ppa)

/-- The block is waiting in the queue. -/
def Waiting (table : Table) (ppa : Ppa) : Prop :=
  ∃ slot ∈ table.queue, (table.slots slot).ppa.SameBlock ppa

instance (table : Table) (ppa : Ppa) : Decidable (Waiting table ppa) :=
  inferInstanceAs (Decidable (∃ slot ∈ table.queue, _))

/-- What is done for a request: the block is closed, the record is appended, and the pages from the
failure on are invalidated.  Errors are reported only. -/
def processing (geo : Geometry) (req : Request) : List DeviceOp :=
  .closeBlk req.ppa req.type :: .amendRecord req.ppa req.type ::
    (List.range' req.ppa.pg (geo.pgPerBlk - req.ppa.pg)).map fun pgI =>
      .invalidatePage (req.ppa.setPg pgI)

/-- Steps of the callers and of the thread. -/
inductive Ev where
  /-- A call scans the table. -/
  | call (req : Request)
  /-- Call number `k` takes a free slot and inserts it in the queue. -/
  | insert (k : Nat)
  | take
  | process
  | giveBack
  deriving DecidableEq, Repr

def step (geo : Geometry) (table : Table) : Ev → Table
  | .call req =>
      if appTrCheckCblBlk table req.ppa then
        { table with
          requests :=
            if Waiting table req.ppa then table.requests else table.requests ++ [req] }
      else { table with calls := table.calls ++ [req] }
  | .insert k =>
      match table.calls[k]?, table.free with
      | none, _ => table
      -- no free slot: the call fails
      | some _, [] => { table with calls := table.calls.eraseIdx k }
      | some req, slot :: rest =>
          { table with
            slots := Function.update table.slots slot ⟨req.ppa, req.type, true⟩
            free := rest
            queue := table.queue ++ [slot]
            calls := table.calls.eraseIdx k
            requests := table.requests ++ [req] }
  | .take =>
      match table.thread, table.queue with
      | .idle, slot :: rest => { table with queue := rest, thread := .taken slot }
      | _, _ => table
  | .process =>
      match table.thread with
      | .taken slot =>
          { table with
            ops := table.ops ++ processing geo (table.slots slot).request
            thread := .processed slot }
      | _ => table
  | .giveBack =>
      match table.thread with
      | .processed slot => { table with free := table.free ++ [slot], thread := .idle }
      | _ => table

/-- All interleavings of the callers and the thread. -/
def system (geo : Geometry) : System Table Ev Unit where
  step table ev := (step geo table ev, ())

/-- A used slot names the block of a call only if the block is waiting. -/
def NotStale (table : Table) : Ev → Prop
  | .call req => appTrCheckCblBlk table req.ppa = true → Waiting table req.ppa
  | _ => True

instance (table : Table) : ∀ ev, Decidable (NotStale table ev)
  | .call _ => inferInstanceAs (Decidable (_ → _))
  | .insert _ | .take | .process | .giveBack => inferInstanceAs (Decidable True)

/-! ## Requests that are carried out -/

/-- The slot of the thread. -/
def Thread.slots : Thread → List Nat
  | .idle => []
  | .taken slot | .processed slot => [slot]

/-- The slots whose requests are to be processed, in this order. -/
def Table.pendingSlots (table : Table) : List Nat :=
  match table.thread with
  | .taken slot => slot :: table.queue
  | _ => table.queue

def Table.pending (table : Table) : List Request :=
  table.pendingSlots.map fun slot => (table.slots slot).request

/-- The requests have been processed once each, in order, up to those that are pending. -/
def Carried (geo : Geometry) (table : Table) : Prop :=
  ∃ finished, table.requests = finished ++ table.pending ∧
    table.ops = finished.flatMap (processing geo)

/-- A slot is in one list at most. -/
def Apart (table : Table) : Prop :=
  (table.free ++ (table.thread.slots ++ table.queue)).Nodup

variable {geo : Geometry} {table : Table}

theorem mem_of_mem_pendingSlots {slot : Nat} (mem : slot ∈ table.pendingSlots) :
    slot ∈ table.thread.slots ++ table.queue := by
  unfold Table.pendingSlots at mem
  cases onThread : table.thread with
  | idle | processed =>
      rw [onThread] at mem
      exact List.mem_append_right _ mem
  | taken other =>
      rw [onThread] at mem
      exact mem

theorem step_apart (apart : Apart table) (ev : Ev) : Apart (step geo table ev) := by
  unfold Apart at apart ⊢
  cases ev with
  | call req =>
      rw [step]
      split
      · exact apart
      · exact apart
  | insert k =>
      rw [step]
      split
      next => exact apart
      next => exact apart
      next req slot rest _ free =>
        rw [free] at apart
        simp only
        rw [← List.append_assoc, ← List.append_assoc]
        have perm : (rest ++ table.thread.slots ++ table.queue ++ [slot]).Perm
            (slot :: rest ++ (table.thread.slots ++ table.queue)) := by
          rw [List.cons_append, ← List.append_assoc]
          exact List.perm_append_singleton _ _
        exact perm.nodup_iff.mpr apart
  | take =>
      rw [step]
      split
      next slot rest idle queue =>
        rw [idle, queue] at apart
        exact apart
      next => exact apart
  | process =>
      rw [step]
      split
      next slot taken =>
        rw [taken] at apart
        exact apart
      next => exact apart
  | giveBack =>
      rw [step]
      split
      next slot processed =>
        rw [processed] at apart
        simpa [Thread.slots] using apart
      next => exact apart

theorem step_carried (apart : Apart table) {ev : Ev} (notStale : NotStale table ev)
    (carried : Carried geo table) : Carried geo (step geo table ev) := by
  obtain ⟨finished, requests, ops⟩ := carried
  cases ev with
  | call req =>
      rw [step]
      split
      next found =>
        rw [if_pos (notStale found)]
        exact ⟨finished, requests, ops⟩
      next => exact ⟨finished, requests, ops⟩
  | insert k =>
      rw [step]
      split
      next => exact ⟨finished, requests, ops⟩
      next => exact ⟨finished, requests, ops⟩
      next req slot rest _ free =>
        refine ⟨finished, ?_, ops⟩
        -- the slot that is filled is none of the pending ones
        have absent : slot ∉ table.pendingSlots := by
          intro mem
          unfold Apart at apart
          rw [free, List.cons_append, List.nodup_cons] at apart
          exact apart.1 (List.mem_append_right _ (mem_of_mem_pendingSlots mem))
        have kept : table.pendingSlots.map (fun other =>
            (Function.update table.slots slot ⟨req.ppa, req.type, true⟩ other).request) =
            table.pending := by
          apply List.map_congr_left
          intro other mem
          have ne : other ≠ slot := fun same => absent (same ▸ mem)
          rw [Function.update_of_ne ne]
        rw [requests, List.append_assoc, ← kept]
        unfold Table.pending Table.pendingSlots
        cases table.thread <;> simp [Slot.request]
  | take =>
      rw [step]
      split
      next slot rest idle queue =>
        refine ⟨finished, ?_, ops⟩
        rw [requests]
        simp [Table.pending, Table.pendingSlots, idle, queue]
      next => exact ⟨finished, requests, ops⟩
  | process =>
      rw [step]
      split
      next slot taken =>
        refine ⟨finished ++ [(table.slots slot).request], ?_, ?_⟩
        · rw [requests]
          simp [Table.pending, Table.pendingSlots, taken]
        · simp [ops]
      next => exact ⟨finished, requests, ops⟩
  | giveBack =>
      rw [step]
      split
      next slot processed =>
        refine ⟨finished, ?_, ops⟩
        rw [requests]
        simp [Table.pending, Table.pendingSlots, processed]
      next => exact ⟨finished, requests, ops⟩

/-! ## Runs -/

theorem init_apart : Apart appTransactionClbInit := by
  unfold Apart appTransactionClbInit
  simpa [Thread.slots] using List.nodup_reverse.mpr List.nodup_range

theorem run_carried {evs : List Ev}
    (notStale : (system geo).Allowed NotStale appTransactionClbInit evs) :
    Apart ((system geo).run appTransactionClbInit evs) ∧
      Carried geo ((system geo).run appTransactionClbInit evs) := by
  refine (system geo).run_invariant NotStale (fun table => Apart table ∧ Carried geo table) ?_
    ⟨init_apart, [], rfl, rfl⟩ notStale
  rintro table ev found ⟨apart, carried⟩
  exact ⟨step_apart apart ev, step_carried apart found carried⟩

/-- Rounds of the thread, with no call in between. -/
def rounds : Nat → List Ev
  | 0 => []
  | n + 1 => [.take, .process, .giveBack] ++ rounds n

theorem rounds_notStale (n : Nat) (table : Table) :
    (system geo).Allowed NotStale table (rounds n) := by
  induction n generalizing table with
  | zero => trivial
  | succ n ih => exact ⟨trivial, trivial, trivial, ih _⟩

/-- One round finishes the slot of the thread, or takes the first slot of the queue. -/
theorem round_spec (table : Table) :
    ((system geo).run table [.take, .process, .giveBack]).thread = .idle ∧
      ((system geo).run table [.take, .process, .giveBack]).requests = table.requests ∧
      (((system geo).run table [.take, .process, .giveBack]).queue = table.queue ∨
        ((system geo).run table [.take, .process, .giveBack]).queue = table.queue.tail) ∧
      (table.thread = .idle →
        ((system geo).run table [.take, .process, .giveBack]).queue = table.queue.tail) := by
  simp only [System.run, system]
  cases onThread : table.thread with
  | idle =>
      cases queue : table.queue with
      | nil => simp [step, onThread, queue]
      | cons slot rest => simp [step, onThread, queue]
  | taken slot => simp [step, onThread]
  | processed slot => simp [step, onThread]

/-- After enough rounds nothing is pending. -/
theorem rounds_spec (n : Nat) (table : Table) (idle : table.thread = .idle)
    (enough : table.queue.length ≤ n) :
    ((system geo).run table (rounds n)).pending = [] ∧
      ((system geo).run table (rounds n)).requests = table.requests := by
  induction n generalizing table with
  | zero =>
      have empty := List.eq_nil_of_length_eq_zero (Nat.le_zero.mp enough)
      exact ⟨by simp [rounds, Table.pending, Table.pendingSlots, idle, empty], rfl⟩
  | succ n ih =>
      obtain ⟨idleAfter, requests, -, queue⟩ := @round_spec geo table
      have length : ((system geo).run table [.take, .process, .giveBack]).queue.length ≤ n := by
        rw [queue idle, List.length_tail]
        omega
      rw [rounds, System.run_append, ← requests]
      exact ih _ idleAfter length

theorem drained (table : Table) :
    ((system geo).run table (rounds (table.queue.length + 1))).pending = [] ∧
      ((system geo).run table (rounds (table.queue.length + 1))).requests = table.requests := by
  obtain ⟨idle, requests, queue, -⟩ := @round_spec geo table
  have length : ((system geo).run table [.take, .process, .giveBack]).queue.length ≤
      table.queue.length := by
    rcases queue with same | tail
    · rw [same]
    · rw [tail, List.length_tail]
      exact Nat.sub_le _ _
  rw [rounds, System.run_append, ← requests]
  exact rounds_spec _ _ idle length

/-- When no call takes a finished slot for a duplicate, every request is carried out once, in the
order of the requests: in every state up to those that are pending, and all of them when the thread
has emptied the queue. -/
theorem close_requests_carried_out (geo : Geometry) (evs : List Ev)
    (notStale : (system geo).Allowed NotStale appTransactionClbInit evs) :
    Carried geo ((system geo).run appTransactionClbInit evs) ∧
      ((system geo).run ((system geo).run appTransactionClbInit evs)
          (rounds (((system geo).run appTransactionClbInit evs).queue.length + 1))).ops =
        ((system geo).run appTransactionClbInit evs).requests.flatMap (processing geo) := by
  refine ⟨(run_carried notStale).2, ?_⟩
  obtain ⟨pending, requests⟩ := @drained geo ((system geo).run appTransactionClbInit evs)
  have allowed := ((system geo).allowed_append NotStale appTransactionClbInit evs _).mpr
    ⟨notStale, rounds_notStale
      (((system geo).run appTransactionClbInit evs).queue.length + 1) _⟩
  obtain ⟨finished, all, ops⟩ := (run_carried allowed).2
  rw [System.run_append] at all ops
  rw [pending, List.append_nil, requests] at all
  rw [ops, all]

/-! ## A block that fails twice -/

/-- A failure in page 1 of block 5. -/
def failure : Request :=
  ⟨Ppa.sector 0 0 5 1 0 0, .user⟩

/-- The same block once its first pages have been written again, after it was recycled. -/
def laterFailure : Request :=
  ⟨Ppa.sector 0 0 5 0 0 0, .user⟩

/-- A failure in another block. -/
def otherFailure : Request :=
  ⟨Ppa.sector 0 0 6 1 0 0, .cold⟩

/-- Two blocks are closed. -/
theorem close_requests_carried_out_two :
    Carried .small ((system .small).run appTransactionClbInit
        [.call failure, .insert 0, .call failure, .take, .call otherFailure, .insert 0,
          .process]) ∧
      ((system .small).run ((system .small).run appTransactionClbInit
          [.call failure, .insert 0, .call failure, .take, .call otherFailure, .insert 0,
            .process])
          (rounds (((system .small).run appTransactionClbInit
            [.call failure, .insert 0, .call failure, .take, .call otherFailure, .insert 0,
              .process]).queue.length + 1))).ops =
        ((system .small).run appTransactionClbInit
          [.call failure, .insert 0, .call failure, .take, .call otherFailure, .insert 0,
            .process]).requests.flatMap (processing .small) :=
  close_requests_carried_out .small _ (by decide +kernel)

/-- The second failure of a block is dropped: the slot of the first one still names the block. -/
theorem second_failure_dropped :
    ¬ Carried .small ((system .small).run appTransactionClbInit
      [.call failure, .insert 0, .take, .process, .giveBack, .call laterFailure]) := by
  rintro ⟨finished, requests, ops⟩
  have all : finished = [failure, laterFailure] := by
    have pending : ((system .small).run appTransactionClbInit
        [.call failure, .insert 0, .take, .process, .giveBack, .call laterFailure]).pending =
          [] := by
      decide +kernel
    rw [pending, List.append_nil] at requests
    rw [← requests]
    decide +kernel
  rw [all] at ops
  revert ops
  decide +kernel

end OxCtrl.CloseBlk
