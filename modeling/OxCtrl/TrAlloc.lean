import OxCtrl.TrOrder.Core

/-!
# The count of allocated entries

A transaction counts the entries that have got an address, and `app_transaction_commit` accepts it
when the count is the number of its entries.  Entries are reached by pointers from the line of
`lba_io_sec_sq`, which mixes the sectors of several commands, and from garbage collection.  The
write of a line that fails is repeated with the same line.

Calls of `app_transaction_alloc_list` are steps.  What provisioning, the log and the submission
return is left open; the records are those of `Transaction`.
-/

namespace OxCtrl.TrAlloc

open OxCtrl.Lib OxCtrl.Transaction

/-! ## Model -/

/-- `APP_TRANSACTION_COUNT`. -/
def appTransactionCount : Nat := 4096

/-- `LBA_IO_RETRY_S`. -/
def lbaIoRetryS : Nat := 100

/-- A pointer to entry `idx` of the transaction in a slot. -/
structure EntryPtr where
  slot : Nat
  idx : Nat
  deriving DecidableEq, Repr

/-- The transactions, and the write line with the number of retries. -/
structure TrTable where
  slots : Nat → Tr
  free : List Nat
  used : List Nat := []
  line : List EntryPtr := []
  retry : Nat := 0

/-- The entry behind a pointer. -/
def entryOf (slots : Nat → Tr) (ptr : EntryPtr) : Option TrLog :=
  (slots ptr.slot).entries[ptr.idx]?

/-- The loop of `app_transaction_alloc_list`. -/
def allocLoop : List (Option EntryPtr) → List Ppa → (Nat → Tr) → Nat → Tr
  | some ptr :: ent, ppa :: ppas, slots =>
      allocLoop ent ppas
        (Function.update slots ptr.slot ((slots ptr.slot).allocate ptr.idx ppa))
  | none :: ent, _ :: ppas, slots => allocLoop ent ppas slots
  | _, _, slots => slots

/-- The loop of the error path. -/
def releaseLoop (ent : List (Option EntryPtr)) (slots : Nat → Tr) : Nat → Tr :=
  (ent.filterMap id).foldl
    (fun slots ptr => Function.update slots ptr.slot ((slots ptr.slot).release ptr.idx)) slots

/-- `app_transaction_alloc_list`, with the sectors that provisioning returns and the outcome of the
append. -/
def allocList (geo : Geometry) (slots : Nat → Tr) (ent : List (Option EntryPtr))
    (prov : Option (List Ppa)) (appended : Bool) : (Nat → Tr) × Option (List Ppa) :=
  if ent.length % geo.secPerPlPg ≠ 0 then (slots, none)
  else
    match prov with
    | none => (slots, none)
    | some ppas =>
        let slots := allocLoop ent ppas slots
        if appended then (slots, some ppas) else (releaseLoop ent slots, none)

/-- The entries of a line, padded with `NULL` to whole pages. -/
def lineEntries (geo : Geometry) (line : List EntryPtr) : List (Option EntryPtr) :=
  let nlb := line.length
  let pgs := nlb / geo.secPerPlPg + if 0 < nlb % geo.secPerPlPg then 1 else 0
  line.map some ++ List.replicate (geo.secPerPlPg * pgs - nlb) none

/-- What a call of `lba_io_rw` meets: it ends before the allocation, or the outcomes of the
allocation, of the append and of the submission are given.  A submission with pages in progress
counts as successful. -/
inductive Attempt where
  | noCmd
  | write (prov : Option (List Ppa)) (appended submitted : Bool)
  deriving DecidableEq, Repr

/-- `lba_io_rw` for the write line; the flag tells that it succeeds. -/
def lbaIoRw (geo : Geometry) (table : TrTable) : Attempt → (Nat → Tr) × Bool
  | .noCmd => (table.slots, false)
  | .write prov appended submitted =>
      match allocList geo table.slots (lineEntries geo table.line) prov appended with
      | (slots, none) => (slots, false)
      | (slots, some ppas) => (slots, decide (table.line.length ≤ ppas.length) && submitted)

/-- `app_transaction_recycle`. -/
def recycle (table : TrTable) (slot : Nat) : TrTable :=
  { table with
    slots := Function.update table.slots slot
      { table.slots slot with allocated := 0, committed := false, entries := [], ts := 0 }
    used := table.used.erase slot
    free := table.free ++ [slot] }

/-- `app_transaction_ordered_commit`, with the outcomes for the transactions at the head; one
without an outcome is not committed. -/
def orderedCommit : List Bool → TrTable → TrTable
  | [], table => table
  | ok :: oks, table =>
      match table.used with
      | [] => table
      | slot :: _ =>
          if (table.slots slot).committed ∧ ok then orderedCommit oks (recycle table slot)
          else table

/-- `app_transaction_commit`. -/
def appTransactionCommit (table : TrTable) (slot : Nat) (flush : Bool) (oks : List Bool) :
    TrTable × Int :=
  let tr := table.slots slot
  if tr.allocated ≠ tr.entries.length then (table, -1)
  else
    let tr := { tr with committed := true, flushCommit := flush }
    (orderedCommit oks { table with slots := Function.update table.slots slot tr }, 0)

/-- `app_transaction_abort`. -/
def appTransactionAbort (table : TrTable) (slot : Nat) (oks : List Bool) : TrTable :=
  orderedCommit oks (recycle table slot)

/-- Steps of the threads. -/
inductive TrOp where
  /-- `app_transaction_new`. -/
  | new (lbas : List (Nat × Nat)) (type : TrType)
  /-- `lba_io_sec_sq` puts a sector to the line. -/
  | push (ptr : EntryPtr)
  /-- One round of the retry loop of `lba_io_sec_sq`. -/
  | rw (attempt : Attempt)
  /-- `app_transaction_alloc_list`, called by garbage collection. -/
  | gc (ent : List (Option EntryPtr)) (prov : Option (List Ppa)) (appended : Bool)
  | commit (slot : Nat) (flush : Bool) (oks : List Bool)
  | abort (slot : Nat) (oks : List Bool)
  deriving DecidableEq, Repr

def step (geo : Geometry) (table : TrTable) : TrOp → TrTable
  | .new lbas type =>
      match table.free with
      | [] => table
      | slot :: rest =>
          if appTransactionLogCount < lbas.length then table
          else
            { table with
              slots := Function.update table.slots slot (TrOrder.initTr lbas type)
              free := rest
              used := table.used ++ [slot] }
  | .push ptr => if table.retry = 0 then { table with line := table.line ++ [ptr] } else table
  | .rw attempt =>
      match lbaIoRw geo table attempt with
      | (slots, true) => { table with slots := slots, line := [], retry := 0 }
      | (slots, false) =>
          -- after the last retry the line is dropped and its commands fail
          if table.retry = lbaIoRetryS then { table with slots := slots, line := [], retry := 0 }
          else { table with slots := slots, retry := table.retry + 1 }
  | .gc ent prov appended => { table with slots := (allocList geo table.slots ent prov appended).1 }
  | .commit slot flush oks => (appTransactionCommit table slot flush oks).1
  | .abort slot oks => appTransactionAbort table slot oks

/-- Runs of the threads. -/
def trSystem (geo : Geometry) : System TrTable TrOp Unit where
  step table op := (step geo table op, ())

/-- `app_transaction_init`. -/
def appTransactionInit : TrTable where
  slots _ := { ts := 0, type := .lbaNs, entries := [] }
  free := List.range appTransactionCount

/-- The entries and the addresses of a call of `app_transaction_alloc_list`. -/
def allocArgs (geo : Geometry) (table : TrTable) : TrOp → List (Option EntryPtr) × List Ppa
  | .rw (.write (some ppas) _ _) => (lineEntries geo table.line, ppas)
  | .gc ent (some ppas) _ => (ent, ppas)
  | _ => ([], [])

/-- A call gets pointers to different entries of transactions, and provisioning has an address for
every place.  It never hands out the first sector of the device, which is in a reserved block. -/
def CallerOk (geo : Geometry) (table : TrTable) (op : TrOp) : Prop :=
  ((allocArgs geo table op).1.filterMap id).Nodup ∧
    (∀ ptr ∈ (allocArgs geo table op).1.filterMap id, (entryOf table.slots ptr).isSome) ∧
    (allocArgs geo table op).1.length ≤ (allocArgs geo table op).2.length ∧
    ∀ ppa ∈ (allocArgs geo table op).2, ppa ≠ 0

/-- None of the entries that are to be allocated has an address. -/
def Unallocated (geo : Geometry) (table : TrTable) (op : TrOp) : Prop :=
  ∀ ptr ∈ (allocArgs geo table op).1.filterMap id, ∀ entry ∈ entryOf table.slots ptr, entry.ppa = 0

instance (geo : Geometry) (table : TrTable) (op : TrOp) : Decidable (CallerOk geo table op) :=
  inferInstanceAs (Decidable (_ ∧ _ ∧ _ ∧ _))

instance (geo : Geometry) (table : TrTable) (op : TrOp) : Decidable (Unallocated geo table op) :=
  inferInstanceAs (Decidable (∀ ptr ∈ (allocArgs geo table op).1.filterMap id,
    ∀ entry ∈ entryOf table.slots ptr, entry.ppa = 0))

/-! ## One entry -/

/-- The count is the number of entries with an address. -/
def Exact (tr : Tr) : Prop :=
  tr.allocated = tr.entries.countP fun entry => entry.ppa ≠ 0

/-- The address of an entry is replaced. -/
theorem countP_modify {entries : List TrLog} {idx : Nat} {entry : TrLog}
    (get : entries[idx]? = some entry) (ppa : Ppa) :
    (entries.modify idx fun entry => { entry with ppa := ppa }).countP
        (fun entry => entry.ppa ≠ 0) +
        (if entry.ppa ≠ 0 then 1 else 0) =
      (entries.countP fun entry => entry.ppa ≠ 0) + if ppa ≠ 0 then 1 else 0 := by
  induction entries generalizing idx with
  | nil => simp at get
  | cons first rest ih =>
      cases idx with
      | zero =>
          obtain rfl : first = entry := by simpa using get
          rw [List.modify_zero_cons, List.countP_cons, List.countP_cons]
          simp only [decide_eq_true_eq]
          omega
      | succ idx =>
          have later := ih (by simpa using get)
          rw [List.modify_succ_cons, List.countP_cons, List.countP_cons]
          omega

theorem Exact.allocate {tr : Tr} (exact : Exact tr) {idx : Nat} {entry : TrLog}
    (get : tr.entries[idx]? = some entry) (unset : entry.ppa = 0) {ppa : Ppa} (set : ppa ≠ 0) :
    Exact (tr.allocate idx ppa) := by
  have count := countP_modify get ppa
  rw [if_neg (not_not.mpr unset), if_pos set, Nat.add_zero] at count
  unfold Exact Tr.allocate at *
  simp only
  rw [count, exact]

theorem Exact.release {tr : Tr} (exact : Exact tr) {idx : Nat} {entry : TrLog}
    (get : tr.entries[idx]? = some entry) (set : entry.ppa ≠ 0) : Exact (tr.release idx) := by
  have count := countP_modify get 0
  rw [if_pos set, if_neg (not_not.mpr rfl), Nat.add_zero] at count
  unfold Exact Tr.release at *
  simp only
  omega

/-! ## A call -/

variable {geo : Geometry} {slots : Nat → Tr} {ptr other : EntryPtr}

/-- The counts of all transactions are right. -/
def AllExact (slots : Nat → Tr) : Prop :=
  ∀ slot, Exact (slots slot)

/-- The entry exists and has no address. -/
def Unset (slots : Nat → Tr) (ptr : EntryPtr) : Prop :=
  ∃ entry, entryOf slots ptr = some entry ∧ entry.ppa = 0

/-- The entry exists and has an address. -/
def IsSet (slots : Nat → Tr) (ptr : EntryPtr) : Prop :=
  ∃ entry, entryOf slots ptr = some entry ∧ entry.ppa ≠ 0

theorem AllExact.update (exact : AllExact slots) {slot : Nat} {tr : Tr} (here : Exact tr) :
    AllExact (Function.update slots slot tr) := by
  intro other
  by_cases same : other = slot
  · rw [same, Function.update_self]
    exact here
  · rw [Function.update_of_ne same]
    exact exact other

/-- An update of one entry. -/
theorem entryOf_update {tr : Tr} {f : TrLog → TrLog}
    (entries : tr.entries = (slots ptr.slot).entries.modify ptr.idx f) :
    entryOf (Function.update slots ptr.slot tr) ptr = (entryOf slots ptr).map f := by
  simp [entryOf, entries]

theorem entryOf_update_of_ne {tr : Tr} {f : TrLog → TrLog}
    (entries : tr.entries = (slots ptr.slot).entries.modify ptr.idx f) (ne : other ≠ ptr) :
    entryOf (Function.update slots ptr.slot tr) other = entryOf slots other := by
  unfold entryOf
  by_cases sameSlot : other.slot = ptr.slot
  · have idx : ptr.idx ≠ other.idx := by
      intro sameIdx
      apply ne
      cases other
      cases ptr
      simp_all
    rw [sameSlot, Function.update_self, entries, List.getElem?_modify]
    simp [idx]
  · rw [Function.update_of_ne sameSlot]

theorem allocLoop_spec {ent : List (Option EntryPtr)} {ppas : List Ppa} (exact : AllExact slots)
    (nodup : (ent.filterMap id).Nodup) (unset : ∀ ptr ∈ ent.filterMap id, Unset slots ptr)
    (nonzero : ∀ ppa ∈ ppas, ppa ≠ 0) (enough : ent.length ≤ ppas.length) :
    AllExact (allocLoop ent ppas slots) ∧
      (∀ ptr ∈ ent.filterMap id, IsSet (allocLoop ent ppas slots) ptr) ∧
      ∀ ptr ∉ ent.filterMap id, entryOf (allocLoop ent ppas slots) ptr = entryOf slots ptr := by
  induction ent generalizing ppas slots with
  | nil => exact ⟨exact, by simp, fun ptr _ => rfl⟩
  | cons first ent ih =>
      cases ppas with
      | nil => simp at enough
      | cons ppa ppas =>
          have later : ∀ other ∈ ppas, other ≠ 0 := fun other mem =>
            nonzero other (List.mem_cons_of_mem _ mem)
          have room : ent.length ≤ ppas.length := Nat.le_of_succ_le_succ enough
          cases first with
          | none =>
              have ih := ih exact (by simpa using nodup) (by simpa using unset) later room
              simpa [allocLoop] using ih
          | some ptr =>
              simp only [List.filterMap_cons, id_eq, List.nodup_cons] at nodup unset ⊢
              obtain ⟨entry, get, zero⟩ := unset ptr List.mem_cons_self
              have set := nonzero ppa List.mem_cons_self
              have given := @entryOf_update slots ptr ((slots ptr.slot).allocate ptr.idx ppa) _ rfl
              have kept := fun other ne =>
                @entryOf_update_of_ne slots ptr other ((slots ptr.slot).allocate ptr.idx ppa) _ rfl
                  ne
              rw [allocLoop]
              obtain ⟨exactAfter, setAfter, keptAfter⟩ := ih
                (exact.update ((exact ptr.slot).allocate get zero set)) nodup.2
                (fun other mem => by
                  obtain ⟨entry, get, zero⟩ := unset other (List.mem_cons_of_mem _ mem)
                  have ne : other ≠ ptr := fun same => nodup.1 (same ▸ mem)
                  exact ⟨entry, (kept other ne).trans get, zero⟩)
                later room
              refine ⟨exactAfter, fun other mem => ?_, fun other notMem => ?_⟩
              · rcases List.mem_cons.mp mem with rfl | mem
                · refine ⟨{ entry with ppa := ppa }, ?_, set⟩
                  rw [keptAfter other nodup.1, given, get, Option.map_some]
                · exact setAfter other mem
              · rw [List.mem_cons, not_or] at notMem
                rw [keptAfter other notMem.2, kept other notMem.1]

theorem releaseLoop_spec {ptrs : List EntryPtr} (exact : AllExact slots) (nodup : ptrs.Nodup)
    (set : ∀ ptr ∈ ptrs, IsSet slots ptr) :
    AllExact (ptrs.foldl
      (fun slots ptr => Function.update slots ptr.slot ((slots ptr.slot).release ptr.idx))
      slots) := by
  induction ptrs generalizing slots with
  | nil => exact exact
  | cons ptr ptrs ih =>
      rw [List.nodup_cons] at nodup
      obtain ⟨entry, get, nonzero⟩ := set ptr List.mem_cons_self
      refine ih (exact.update ((exact ptr.slot).release get nonzero)) nodup.2 fun other mem => ?_
      obtain ⟨entry, get, nonzero⟩ := set other (List.mem_cons_of_mem _ mem)
      have ne : other ≠ ptr := fun same => nodup.1 (same ▸ mem)
      have kept :=
        @entryOf_update_of_ne slots ptr other ((slots ptr.slot).release ptr.idx) _ rfl ne
      exact ⟨entry, kept.trans get, nonzero⟩

/-- `app_transaction_alloc_list` on entries without addresses. -/
theorem allocList_exact {ent : List (Option EntryPtr)} {prov : Option (List Ppa)} {appended : Bool}
    (exact : AllExact slots)
    (ready : ∀ ppas, prov = some ppas → (ent.filterMap id).Nodup ∧
      (∀ ptr ∈ ent.filterMap id, Unset slots ptr) ∧ (∀ ppa ∈ ppas, ppa ≠ 0) ∧
      ent.length ≤ ppas.length) :
    AllExact (allocList geo slots ent prov appended).1 := by
  unfold allocList
  split
  · exact exact
  · cases prov with
    | none => exact exact
    | some ppas =>
        obtain ⟨nodup, unset, nonzero, enough⟩ := ready ppas rfl
        obtain ⟨exactAfter, set, -⟩ := allocLoop_spec exact nodup unset nonzero enough
        cases appended with
        | true => exact exactAfter
        | false => exact releaseLoop_spec exactAfter nodup set

/-! ## Runs -/

variable {table : TrTable}

theorem recycle_exact (exact : AllExact table.slots) (slot : Nat) :
    AllExact (recycle table slot).slots :=
  exact.update rfl

theorem orderedCommit_exact (exact : AllExact table.slots) (oks : List Bool) :
    AllExact (orderedCommit oks table).slots := by
  induction oks generalizing table with
  | nil => exact exact
  | cons ok oks ih =>
      rw [orderedCommit]
      split
      next => exact exact
      next slot _ _ =>
        split
        · exact ih (recycle_exact exact slot)
        · exact exact

theorem ready_of_args {ent : List (Option EntryPtr)} {prov : Option (List Ppa)} {op : TrOp}
    (args : ∀ ppas, prov = some ppas → allocArgs geo table op = (ent, ppas))
    (caller : CallerOk geo table op) (unallocated : Unallocated geo table op) :
    ∀ ppas, prov = some ppas → (ent.filterMap id).Nodup ∧
      (∀ ptr ∈ ent.filterMap id, Unset table.slots ptr) ∧ (∀ ppa ∈ ppas, ppa ≠ 0) ∧
      ent.length ≤ ppas.length := by
  intro ppas given
  unfold CallerOk at caller
  unfold Unallocated at unallocated
  rw [args ppas given] at caller unallocated
  obtain ⟨nodup, exist, enough, nonzero⟩ := caller
  refine ⟨nodup, fun ptr mem => ?_, nonzero, enough⟩
  obtain ⟨entry, get⟩ := Option.isSome_iff_exists.mp (exist ptr mem)
  exact ⟨entry, get, unallocated ptr mem entry get⟩

theorem lbaIoRw_exact {attempt : Attempt} (exact : AllExact table.slots)
    (caller : CallerOk geo table (.rw attempt))
    (unallocated : Unallocated geo table (.rw attempt)) :
    AllExact (lbaIoRw geo table attempt).1 := by
  cases attempt with
  | noCmd => exact exact
  | write prov appended submitted =>
      have ready := @ready_of_args geo table (lineEntries geo table.line) prov _
        (fun ppas given => by rw [given]; rfl) caller unallocated
      have after := @allocList_exact geo _ _ prov appended exact ready
      rw [lbaIoRw]
      split
      next slots eq => rwa [eq] at after
      next slots ppas eq => rwa [eq] at after

theorem initTr_exact (lbas : List (Nat × Nat)) (type : TrType) :
    Exact (TrOrder.initTr lbas type) := by
  unfold Exact TrOrder.initTr
  rw [eq_comm, List.countP_eq_zero]
  intro entry mem
  obtain ⟨lba, -, rfl⟩ := List.mem_map.mp mem
  simp

theorem step_exact (exact : AllExact table.slots) {op : TrOp} (caller : CallerOk geo table op)
    (unallocated : Unallocated geo table op) : AllExact (step geo table op).slots := by
  cases op with
  | new lbas type =>
      rw [step]
      split
      · exact exact
      · split
        · exact exact
        · exact exact.update (initTr_exact lbas type)
  | push ptr =>
      rw [step]
      split
      · exact exact
      · exact exact
  | rw attempt =>
      have after := lbaIoRw_exact exact caller unallocated
      rw [step]
      split
      next slots eq => rwa [eq] at after
      next slots eq =>
        rw [eq] at after
        split
        · exact after
        · exact after
  | gc ent prov appended =>
      exact allocList_exact exact (ready_of_args (fun ppas given => by rw [given]; rfl) caller
        unallocated)
  | commit slot flush oks =>
      rw [step, appTransactionCommit]
      split
      · exact exact
      · refine orderedCommit_exact (exact.update ?_) oks
        exact exact slot
  | abort slot oks => exact orderedCommit_exact (recycle_exact exact slot) oks

theorem init_exact : AllExact appTransactionInit.slots := by
  intro slot
  rfl

theorem commit_accepts_iff (exact : AllExact table.slots) (slot : Nat) (flush : Bool)
    (oks : List Bool) :
    (appTransactionCommit table slot flush oks).2 = 0 ↔
      ∀ entry ∈ (table.slots slot).entries, entry.ppa ≠ 0 := by
  have count := exact slot
  unfold Exact at count
  have all : (table.slots slot).allocated = (table.slots slot).entries.length ↔
      ∀ entry ∈ (table.slots slot).entries, entry.ppa ≠ 0 := by
    rw [count, List.countP_eq_length]
    simp
  rw [← all, appTransactionCommit]
  split
  next refused => simp [refused]
  next accepted => simp [not_not.mp accepted]

/-- When no allocation is repeated, the count of every transaction in use is the number of its
entries with an address, and a commit accepts it exactly when all its entries have one. -/
theorem allocated_counted (geo : Geometry) (ops : List TrOp)
    (caller : (trSystem geo).Allowed (CallerOk geo) appTransactionInit ops)
    (unallocated : (trSystem geo).Allowed (Unallocated geo) appTransactionInit ops) :
    ∀ slot ∈ ((trSystem geo).run appTransactionInit ops).used,
      Exact (((trSystem geo).run appTransactionInit ops).slots slot) ∧
        ∀ flush oks,
          (appTransactionCommit ((trSystem geo).run appTransactionInit ops) slot flush oks).2 = 0 ↔
            ∀ entry ∈ (((trSystem geo).run appTransactionInit ops).slots slot).entries,
              entry.ppa ≠ 0 := by
  have exact : AllExact ((trSystem geo).run appTransactionInit ops).slots := by
    refine (trSystem geo).run_invariant
      (fun table op => CallerOk geo table op ∧ Unallocated geo table op)
      (fun table => AllExact table.slots) ?_ init_exact (caller.and unallocated)
    rintro table op ⟨caller, unallocated⟩ exact
    exact step_exact exact caller unallocated
  intro slot _
  exact ⟨exact slot, commit_accepts_iff exact slot⟩

/-! ## A line that is written twice -/

/-- Sector `sec` of page `pg` of block 5. -/
def sectorOf5 (pg sec : Nat) : Ppa :=
  Ppa.sector 0 0 5 pg 0 sec

/-- Two sectors of one command, whose line is written again after the outcomes of the first try. -/
def twoTries (appended submitted : Bool) : List TrOp :=
  [.new [(10, 1), (11, 2)] .lbaNs, .push ⟨0, 0⟩, .push ⟨0, 1⟩,
    .rw (.write (some [sectorOf5 0 0, sectorOf5 0 1]) appended submitted),
    .rw (.write (some [sectorOf5 1 0, sectorOf5 1 1]) true true)]

/-- The append fails, and the line is written again. -/
theorem allocated_counted_failed_append :
    Exact (((trSystem .small).run appTransactionInit (twoTries false true)).slots 0) ∧
      ∀ flush oks,
        (appTransactionCommit ((trSystem .small).run appTransactionInit (twoTries false true)) 0
          flush oks).2 = 0 ↔
            ∀ entry ∈ (((trSystem .small).run appTransactionInit (twoTries false true)).slots
              0).entries, entry.ppa ≠ 0 :=
  allocated_counted .small (twoTries false true) (by decide +kernel) (by decide +kernel) 0
    (by decide +kernel)

/-- The submission fails: the entries are counted twice, and the commit of a transaction whose
entries all have an address is refused. -/
theorem failed_submission_counts_twice :
    (trSystem .small).Allowed (CallerOk .small) appTransactionInit (twoTries true false) ∧
      0 ∈ ((trSystem .small).run appTransactionInit (twoTries true false)).used ∧
      (((trSystem .small).run appTransactionInit (twoTries true false)).slots 0).allocated = 4 ∧
      (((trSystem .small).run appTransactionInit (twoTries true false)).slots 0).entries.map
        TrLog.ppa = [sectorOf5 1 0, sectorOf5 1 1] ∧
      (appTransactionCommit ((trSystem .small).run appTransactionInit (twoTries true false)) 0 true
        []).2 = -1 := by
  decide +kernel

end OxCtrl.TrAlloc
