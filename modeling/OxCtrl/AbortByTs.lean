import OxCtrl.TrAlloc

/-!
# Abort by timestamp

A sector of a write carries the identifier and the timestamp of its transaction, and a sector
that times out aborts the transaction by them.  `app_transaction_init` numbers the transactions
from one, but `app_transaction_abort_by_ts` takes the identifier as an index of the table.
-/

namespace OxCtrl.TrAlloc

open OxCtrl.Lib OxCtrl.Transaction

/-! ## Model -/

/-- `tid` of the transaction in a slot, as `app_transaction_init` sets it. -/
def tidOf (slot : Nat) : Nat :=
  slot + 1

/-- `app_transaction_abort_by_ts`; there is no result when the index is outside the table. -/
def appTransactionAbortByTs (table : TrTable) (tid ts : Nat) (oks : List Bool) :
    Option TrTable :=
  if tid < appTransactionCount then
    some (if (table.slots tid).ts = ts then appTransactionAbort table tid oks else table)
  else none

/-- The transactions, and the identifier and timestamp of every sector that was submitted. -/
structure WriteTable where
  table : TrTable
  carried : List (Nat × Nat) := []

/-- Steps of the threads and of the timeouts. -/
inductive WriteOp where
  | tr (op : TrOp)
  /-- `lba_io_submit` for a sector of the transaction in a slot. -/
  | submit (slot : Nat)
  /-- `lba_io_sec_callback` for a sector that has timed out. -/
  | timeout (tid ts : Nat) (oks : List Bool)
  deriving DecidableEq, Repr

/-- Runs of the threads and of the timeouts.  Memory behind the table is not written. -/
def writeSystem (geo : Geometry) : System WriteTable WriteOp Unit where
  step
    | state, .tr op => ({ state with table := step geo state.table op }, ())
    | state, .submit slot =>
        ({ state with carried := (tidOf slot, (state.table.slots slot).ts) :: state.carried }, ())
    | state, .timeout tid ts oks =>
        ({ state with
            table := (appTransactionAbortByTs state.table tid ts oks).getD state.table }, ())

/-- The memory of the table is not cleared before `app_transaction_init`. -/
def writeInit (slots : Nat → Tr) : WriteTable where
  table := { appTransactionInit with slots := slots }

/-- Transactions are live from `app_transaction_new` on until they are recycled. -/
def Live (table : TrTable) (tid ts slot : Nat) : Prop :=
  slot ∈ table.used ∧ tidOf slot = tid ∧ (table.slots slot).ts = ts

instance (table : TrTable) (tid ts slot : Nat) : Decidable (Live table tid ts slot) :=
  inferInstanceAs (Decidable (_ ∧ _ ∧ _))

/-- The call stays inside the table, aborts the live transaction with the identifier and the
timestamp, and changes nothing when there is none. -/
def AbortsIts (table : TrTable) (tid ts : Nat) (oks : List Bool) : Prop :=
  (∀ slot, Live table tid ts slot →
      appTransactionAbortByTs table tid ts oks = some (appTransactionAbort table slot oks)) ∧
    ((∀ slot, ¬ Live table tid ts slot) →
      appTransactionAbortByTs table tid ts oks = some table)

/-- The transaction is not live, and the slot after its own is in the table and has another
timestamp. -/
def Missed (table : TrTable) (tid ts : Nat) : Prop :=
  tid < appTransactionCount ∧ (∀ slot, ¬ Live table tid ts slot) ∧ (table.slots tid).ts ≠ ts

/-! ## Aborts move slots -/

variable {geo : Geometry} {table : TrTable} {tid ts slot other : Nat} {oks : List Bool}

theorem orderedCommit_free (oks : List Bool) (table : TrTable) :
    ∃ recycled, (orderedCommit oks table).free = table.free ++ recycled := by
  induction oks generalizing table with
  | nil => exact ⟨[], (List.append_nil _).symm⟩
  | cons ok oks ih =>
      rw [orderedCommit]
      split
      · exact ⟨[], (List.append_nil _).symm⟩
      · split
        · rename_i slot rest _ _
          obtain ⟨recycled, free⟩ := ih (recycle table slot)
          refine ⟨slot :: recycled, free.trans ?_⟩
          rw [recycle, List.append_assoc, List.singleton_append]
        · exact ⟨[], (List.append_nil _).symm⟩

/-- The slot of an abort is the first one that is recycled. -/
theorem abort_free (table : TrTable) (slot : Nat) (oks : List Bool) :
    ∃ recycled, (appTransactionAbort table slot oks).free = table.free ++ slot :: recycled := by
  obtain ⟨recycled, free⟩ := orderedCommit_free oks (recycle table slot)
  refine ⟨recycled, free.trans ?_⟩
  rw [recycle, List.append_assoc, List.singleton_append]

theorem abort_ne (table : TrTable) (slot : Nat) (oks : List Bool) :
    appTransactionAbort table slot oks ≠ table := by
  intro same
  obtain ⟨recycled, free⟩ := abort_free table slot oks
  rw [same] at free
  exact absurd (List.append_right_eq_self.mp free.symm) (List.cons_ne_nil _ _)

theorem abort_inj
    (same : appTransactionAbort table slot oks = appTransactionAbort table other oks) :
    slot = other := by
  obtain ⟨recycled, free⟩ := abort_free table slot oks
  obtain ⟨recycled', free'⟩ := abort_free table other oks
  rw [same, free'] at free
  exact (List.cons.inj (List.append_cancel_left free)).1.symm

/-- A live transaction is never aborted: the code looks at the slot after its own. -/
theorem not_abortsIts_of_live (live : Live table tid ts slot) : ¬ AbortsIts table tid ts oks := by
  intro aborts
  have hit := aborts.1 slot live
  obtain ⟨-, rfl, -⟩ := live
  rw [appTransactionAbortByTs] at hit
  split at hit
  · split at hit
    · exact absurd (abort_inj (Option.some.inj hit)) (Nat.succ_ne_self slot)
    · exact abort_ne table slot oks (Option.some.inj hit).symm
  · cases hit

theorem abortsIts_iff : AbortsIts table tid ts oks ↔ Missed table tid ts := by
  constructor
  · intro aborts
    have notLive : ∀ slot, ¬ Live table tid ts slot := fun slot live =>
      not_abortsIts_of_live live aborts
    have same := aborts.2 notLive
    rw [appTransactionAbortByTs] at same
    split at same
    · rename_i inTable
      refine ⟨inTable, notLive, fun stamped => ?_⟩
      rw [if_pos stamped] at same
      exact abort_ne table tid oks (Option.some.inj same)
    · cases same
  · rintro ⟨inTable, notLive, differ⟩
    refine ⟨fun slot live => absurd live (notLive slot), fun _ => ?_⟩
    rw [appTransactionAbortByTs, if_pos inTable, if_neg differ]

/-- In every reachable state, the abort of a sector that has timed out does what it should exactly
when its transaction is no longer live, is not the one with the last slot, and the transaction in
the next slot has another timestamp. -/
theorem abort_by_ts_iff (geo : Geometry) (slots : Nat → Tr) (ops : List WriteOp) (tid ts : Nat)
    (oks : List Bool) :
    AbortsIts ((writeSystem geo).run (writeInit slots) ops).table tid ts oks ↔
      Missed ((writeSystem geo).run (writeInit slots) ops).table tid ts :=
  abortsIts_iff

/-- Two writes of one sector; the first is submitted. -/
def firstSubmitted : List WriteOp :=
  [.tr (.new [(5, 11)] .lbaNs), .submit 0, .tr (.new [(6, 12)] .lbaNs)]

/-- The first write times out, and the second one is written and committed. -/
def secondCommitted : List WriteOp :=
  [.timeout 1 11 [], .tr (.gc [some ⟨1, 0⟩, none] (some [Ppa.sector 0 0 2 0 0 0, 0]) true),
    .tr (.commit 1 true [true, true])]

/-- The table before the writes. -/
def freshTable : WriteTable :=
  writeInit fun _ => TrOrder.initTr [] .lbaNs

/-- The sector of the first write carries identifier 1 and timestamp 11.  Its timeout does not
abort the transaction, which then keeps the second one from being committed. -/
theorem abort_by_ts_misses :
    (1, 11) ∈ ((writeSystem .small).run freshTable firstSubmitted).carried ∧
      ¬ AbortsIts ((writeSystem .small).run freshTable firstSubmitted).table 1 11 [] ∧
      ((writeSystem .small).run freshTable (firstSubmitted ++ secondCommitted)).table.used =
        [0, 1] := by
  have live : Live ((writeSystem .small).run freshTable firstSubmitted).table 1 11 0 := by
    decide +kernel
  exact ⟨by decide +kernel, not_abortsIts_of_live live, by decide +kernel⟩

end OxCtrl.TrAlloc
