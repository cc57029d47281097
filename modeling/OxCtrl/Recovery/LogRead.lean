import OxCtrl.Log.Fifo
import OxCtrl.Recovery.Atomicity

/-!
# Reading the log from its head

`oxb_recovery_log_read` follows the pointers from page to page, applies the records of
each page, and stops when none of the three pages that may come next has been written.
A slot without a timestamp is unused.  The source leaves a sector at such a slot, at a second
pointer and at a slot of padding; the pages that the log writes have no record behind these, and for
them `logApplyBuf_pageSlots` shows that the loop over the slots of the page does the same.
-/

namespace OxCtrl.Recovery

open OxCtrl.Lib
open OxCtrl.Log

universe u

/-- The addresses of the pages that may follow a page. -/
def nextPages (pointer : LogEntry) : Nat × Nat × Nat :=
  (pointer.word3, pointer.word4, pointer.word5)

variable {ε : Type u} (oxapp : Oxapp ε)

/-- One slot of a page in `oxb_recovery_log_apply`. -/
def applySlot (current : RecState ε × Option (Nat × Nat × Nat)) (entry : LogEntry) :
    RecState ε × Option (Nat × Nat × Nat) :=
  if entry.ts = 0 then current
  else if entry.type = .pointer then (current.1, some (current.2.getD (nextPages entry)))
  else ((oxbRecoveryLogSwitch oxapp current.1 entry).1, current.2)

/-- `oxb_recovery_log_apply`. -/
def oxbRecoveryLogApply (state : RecState ε) (page : LogPage) :
    RecState ε × Option (Nat × Nat × Nat) :=
  page.slots.foldl (applySlot oxapp) (state, none)

/-- Fix the log block itself and invalidate the log page. -/
def fixLogPage (state : RecState ε) (addr : Nat) : RecState ε :=
  let logPg : LogEntry := { ts := 0, type := .pad, word3 := addr }
  let env := oxbRecoveryApplyWrite oxapp state.env logPg true false
  { state with env := oxapp.invalidateFn env (Ppa.ofNat addr) true }

/-- Address `i` of three. -/
def pick (list : Nat × Nat × Nat) : Nat → Nat
  | 0 => list.1
  | 1 => list.2.1
  | _ => list.2.2

/-- The loop of `oxb_recovery_log_read`, for at most `rounds` pages.  `readPage` is the
log page at an address, if there is one. -/
def oxbRecoveryLogRead (readPage : Nat → Option LogPage) :
    Nat → Nat → Option (Nat × Nat × Nat) → Nat → RecState ε → RecState ε
  | 0, _, _, _, state => state
  | rounds + 1, ppa, ppaList, listI, state =>
      if ppa = 0 then state
      else
        let (state, ret) :=
          match readPage ppa with
          | none => (state, none)
          | some page => oxbRecoveryLogApply oxapp state page
        let state := fixLogPage oxapp state ppa
        match ret, ppaList with
        | some next, _ => oxbRecoveryLogRead readPage rounds next.1 (some next) 0 state
        | none, none => state
        | none, some list =>
            if listI < 2 then
              oxbRecoveryLogRead readPage rounds (pick list (listI + 1)) ppaList (listI + 1) state
            else state

/-! ## The mapping after a replay -/

/-- The writes of a list of records on the mapping table. -/
def applyWrites (map : Nat → Ppa) (writes : List LogEntry) : Nat → Ppa :=
  writes.foldl (fun map entry => Function.update map entry.lba entry.newPpa) map

/-- A record of a user transaction or of a table that was flushed. -/
def TableRecord (entry : LogEntry) : Prop :=
  entry.type = .write ∧ entry.oldPpa = 0 ∨ entry.type = .commit ∨ entry.type = .map ∨
    entry.type = .blkMd ∨ entry.type = .mapMd

instance : DecidablePred TableRecord :=
  fun _ => inferInstanceAs (Decidable (_ ∨ _))

/-- State of a replay after the records `log`, from the mapping `map`. -/
structure Replayed {κ : Type u} (map : Nat → Ppa) (log : List LogEntry)
    (state : RecState (Store κ)) : Prop where
  ordered : state.tree.Ordered
  pending : ∀ tid, (∀ entry ∈ log, isCommit entry → entry.ts ≠ tid) →
    pending state.tree tid = log.filter (collectedFor tid)
  map_eq : state.env.map = applyWrites map (committedWrites log)

variable {κ : Type u} {geo : Geometry} {prov : ProvFns} {map : Nat → Ppa} {log : List LogEntry}
  {state : RecState (Store κ)}

theorem applyWrites_append (map : Nat → Ppa) (first second : List LogEntry) :
    applyWrites map (first ++ second) = applyWrites (applyWrites map first) second :=
  List.foldl_append

theorem collectedFor_eq (records : ∀ entry ∈ log, TableRecord entry) (tid : Nat) :
    log.filter (collectedFor tid) = log.filter (isWriteOf tid) := by
  apply List.filter_congr
  intro entry mem
  rcases records entry mem with ⟨kind, -⟩ | kind | kind | kind | kind <;>
    simp [collectedFor, isCollected, isWriteOf, kind]

theorem drain_map {logs : List LogEntry}
    (writes : ∀ entry ∈ logs, entry.type = .write ∧ entry.oldPpa = 0) (logN : Nat) :
    (drain (Store.oxapp geo prov) state logs logN).env.map = applyWrites state.env.map logs := by
  induction logs generalizing state logN with
  | nil => rfl
  | cons log logs ih =>
      obtain ⟨write, noOld⟩ := writes log List.mem_cons_self
      rw [drain, ih fun entry mem => writes entry (List.mem_cons_of_mem _ mem)]
      simp only [commitRecord, write, upsertRecord, Store.oxapp, noOld, Store.upsert_zero, if_true]
      rfl

theorem upsertMd_map (store : Store κ) (index : Nat) (newPpa oldPpa : Ppa) :
    (store.upsertMd geo index newPpa oldPpa).1.map = store.map := by
  simp only [Store.upsertMd, apply_ite Store.map, Store.invalidate_map, ite_self]
  split <;> rfl

theorem applyWrite_map (store : Store κ) (entry : LogEntry) (logPg inv : Bool) :
    (oxbRecoveryApplyWrite (Store.oxapp geo prov) store entry logPg inv).map = store.map := by
  unfold oxbRecoveryApplyWrite
  split <;> rfl

/-- One record. -/
theorem Replayed.switch (replayed : Replayed map log state)
    (records : ∀ entry ∈ log, TableRecord entry) {entry : LogEntry} (record : TableRecord entry)
    (fresh : isCommit entry → ∀ earlier ∈ log, isCommit earlier → earlier.ts ≠ entry.ts) :
    Replayed map (log ++ [entry])
      (oxbRecoveryLogSwitch (Store.oxapp geo prov) state entry).1 := by
  refine ⟨ordered_logSwitch _ replayed.ordered entry, ?_, ?_⟩
  · intro tid uncommitted
    rw [pending_logSwitch _ replayed.ordered, replayed.pending tid, List.filter_append]
    · rw [if_neg]
      rintro ⟨commit, rfl⟩
      exact uncommitted entry (by simp) commit rfl
    · intro earlier earlierMem
      exact uncommitted earlier (List.mem_append_left _ earlierMem)
  · rw [committedWrites_concat, applyWrites_append, ← replayed.map_eq]
    rcases record with ⟨kind, -⟩ | kind | kind | kind | kind
    · simp [oxbRecoveryLogSwitch, kind, isCommit, applyWrite_map, applyWrites]
    · have commit : isCommit entry := by simp [isCommit, kind]
      have held := replayed.pending entry.ts (fresh commit)
      rw [collectedFor_eq records] at held
      have writes : ∀ other ∈ log.filter (isWriteOf entry.ts),
          other.type = .write ∧ other.oldPpa = 0 := by
        intro other mem
        obtain ⟨otherMem, write⟩ := List.mem_filter.mp mem
        have isWrite : other.type = .write := (by simpa [isWriteOf] using write : _ ∧ _).1
        rcases records other otherMem with both | other | other | other | other
        · exact both
        all_goals simp [isWrite] at other
      simp only [oxbRecoveryLogSwitch, kind, oxbRecoveryBtreeCommit, commit, if_true]
      unfold Recovery.pending at held
      cases found : state.tree.tfind entry.ts with
      | none =>
          rw [found] at held
          simp only [Option.getD_none] at held
          rw [← held]
          rfl
      | some logs =>
          rw [found] at held
          simp only [Option.getD_some] at held
          subst held
          exact drain_map writes 0
    · rw [if_neg (by simp [isCommit, kind])]
      simp only [oxbRecoveryLogSwitch, kind]
      exact (upsertMd_map ..).trans (applyWrite_map ..)
    · simp [oxbRecoveryLogSwitch, kind, isCommit, applyWrite_map, applyWrites]
    · simp [oxbRecoveryLogSwitch, kind, isCommit, applyWrite_map, applyWrites]

theorem Replayed.fix (replayed : Replayed map log state) (addr : Nat) :
    Replayed map log (fixLogPage (Store.oxapp geo prov) state addr) :=
  ⟨replayed.ordered, replayed.pending, (applyWrite_map ..).trans replayed.map_eq⟩

theorem DistinctCommits.fresh {before after : List LogEntry} {entry : LogEntry}
    (distinct : DistinctCommits (before ++ entry :: after)) (commit : isCommit entry) :
    ∀ earlier ∈ before, isCommit earlier → earlier.ts ≠ entry.ts := by
  intro earlier mem earlierCommit
  unfold DistinctCommits at distinct
  rw [List.filter_append, List.map_append, List.nodup_append] at distinct
  refine distinct.2.2 earlier.ts ?_ entry.ts (by simp [commit])
  exact List.mem_map_of_mem (List.mem_filter.mpr ⟨mem, earlierCommit⟩)

theorem DistinctCommits.sublist {log part : List LogEntry} (distinct : DistinctCommits log)
    (sublist : part.Sublist log) : DistinctCommits part :=
  List.Nodup.sublist ((sublist.filter _).map _) distinct

/-! ## One page -/

/-- What the records of a log are when they are replayed. -/
structure Replayable (log : List LogEntry) : Prop where
  records : ∀ entry ∈ log, TableRecord entry ∧ entry.ts ≠ 0
  distinct : DistinctCommits log

theorem Replayed.slots {slots : List LogEntry} (next : Nat × Nat × Nat)
    (replayed : Replayed map log state)
    (replayable : Replayable (log ++ slots.filter fun entry => entry.IsRecord)) :
    ∃ after, slots.foldl (applySlot (Store.oxapp geo prov)) (state, some next) =
        (after, some next) ∧
      Replayed map (log ++ slots.filter fun entry => entry.IsRecord) after := by
  induction slots generalizing log state with
  | nil => exact ⟨state, rfl, by simpa using replayed⟩
  | cons entry slots ih =>
      rw [List.foldl_cons]
      by_cases isRecord : entry.IsRecord
      · rw [List.filter_cons_of_pos (by simpa using isRecord)] at replayable ⊢
        obtain ⟨record, nonzero⟩ := replayable.records entry (by simp)
        have switched := @Replayed.switch _ geo prov _ _ _ replayed
          (fun other mem => (replayable.records other (List.mem_append_left _ mem)).1) entry record
          fun commit => replayable.distinct.fresh commit
        have assoc := List.append_assoc log [entry] (slots.filter fun entry => entry.IsRecord)
        rw [List.singleton_append] at assoc
        obtain ⟨after, eq, final⟩ := ih switched (assoc ▸ replayable)
        rw [assoc] at final
        refine ⟨after, ?_, final⟩
        rw [← eq]
        simp [applySlot, nonzero, isRecord.2]
      · rw [List.filter_cons_of_neg (by simpa using isRecord)] at replayable ⊢
        obtain ⟨after, eq, final⟩ := ih replayed replayable
        refine ⟨after, ?_, final⟩
        rw [← eq]
        have kinds : entry.type = .pad ∨ entry.type = .pointer := by
          unfold LogEntry.IsRecord at isRecord
          tauto
        rcases kinds with kind | kind <;> by_cases zero : entry.ts = 0 <;>
          simp [applySlot, kind, zero, oxbRecoveryLogSwitch]

/-- The first slot of a page is its pointer record. -/
def StartsWithPointer (page : LogPage) : Prop :=
  ∃ pointer slots, page.slots = pointer :: slots ∧ pointer.type = .pointer ∧ pointer.ts ≠ 0

/-- The pages that may follow a page. -/
def nextPagesOf (page : LogPage) : Nat × Nat × Nat :=
  nextPages (page.slots.headD LogEntry.zero)

/-- `oxb_recovery_log_apply` replays the records of the page. -/
theorem Replayed.apply {page : LogPage} (starts : StartsWithPointer page)
    (replayed : Replayed map log state) (replayable : Replayable (log ++ page.records)) :
    ∃ after, oxbRecoveryLogApply (Store.oxapp geo prov) state page =
        (after, some (nextPagesOf page)) ∧ Replayed map (log ++ page.records) after := by
  obtain ⟨pointer, slots, eq, kind, nonzero⟩ := starts
  have records : page.records = slots.filter fun entry => entry.IsRecord := by
    simp [LogPage.records, eq, LogEntry.IsRecord, kind]
  rw [records] at replayable ⊢
  obtain ⟨after, run, final⟩ := @Replayed.slots _ geo prov _ _ _ _
    (nextPages pointer) replayed replayable
  refine ⟨after, ?_, final⟩
  simp only [oxbRecoveryLogApply, nextPagesOf, eq, List.foldl_cons, List.headD_cons]
  rw [← run]
  simp [applySlot, nonzero, kind]

/-! ## The chain of pages -/

/-- Invariant of the pages of the log. -/
structure PagesOk (log : LogCtrl) : Prop where
  starts : ∀ page ∈ log.flash, StartsWithPointer page
  last : ∀ page ∈ log.flash.getLast?, nextPagesOf page = log.nextPpa
  empty : log.flash = [] → log.phyLogTail = log.nextPpa.1

/-- Address of page number `pos` of the log, which may be the next one to be written. -/
def headAddr (log : LogCtrl) (pos : Nat) : Nat :=
  ((log.flash.drop pos).head?.map LogPage.addr).getD log.nextPpa.1

/-- The records in the pages before page number `pos`. -/
def recordsBefore (log : LogCtrl) (pos : Nat) : List LogEntry :=
  (log.flash.take pos).flatMap LogPage.records

/-- The records from page number `pos` on, with those that are not on flash yet. -/
def recordsFrom (log : LogCtrl) (pos : Nat) : List LogEntry :=
  (log.flash.drop pos).flatMap LogPage.records ++ ringRecords log

/-- The records on flash and in the ring. -/
def allRecords (log : LogCtrl) : List LogEntry :=
  flashRecords log ++ ringRecords log

theorem recordsBefore_append (log : LogCtrl) (pos : Nat) :
    recordsBefore log pos ++ recordsFrom log pos = allRecords log := by
  rw [recordsBefore, recordsFrom, ← List.append_assoc, ← List.flatMap_append,
    List.take_append_drop]
  rfl

variable {env : Log.Env}

theorem PagesOk.step {log log' : LogCtrl} (clock : ∀ n, env.clock n ≠ 0)
    (step : LogStep env log log') (ok : PagesOk log) : PagesOk log' := by
  cases step with
  | append entry => exact ⟨ok.starts, ok.last, ok.empty⟩
  | page page =>
      obtain ⟨addr, next⟩ := page.nextPpa
      refine ⟨fun other mem => ?_, fun other mem => ?_, fun empty => ?_⟩
      · rw [page.flash] at mem
        rcases List.mem_append.mp mem with mem | mem
        · exact ok.starts other mem
        · obtain rfl := List.mem_singleton.mp mem
          exact ⟨_, _, rfl, rfl, clock _⟩
      · rw [page.flash, List.getLast?_append_of_ne_nil _ (by simp)] at mem
        obtain rfl : _ = other := by simpa using mem
        rw [next]
        rfl
      · simp [page.flash] at empty

theorem PagesOk.steps {log log' : LogCtrl} (clock : ∀ n, env.clock n ≠ 0)
    (steps : Relation.ReflTransGen (LogStep env) log log') (ok : PagesOk log) : PagesOk log' := by
  induction steps with
  | refl => exact ok
  | tail _ step ih => exact ih.step clock step

/-- What stays when the log moves on: the records before a page, and its address. -/
structure Stays (log log' : LogCtrl) (pos : Nat) : Prop where
  le : pos ≤ log'.flash.length
  before : recordsBefore log' pos = recordsBefore log pos
  head : headAddr log' pos = headAddr log pos

theorem stays_step {log log' : LogCtrl} (step : LogStep env log log') {pos : Nat}
    (le : pos ≤ log.flash.length) : Stays log log' pos := by
  cases step with
  | append entry => exact ⟨le, rfl, rfl⟩
  | page page =>
      constructor
      · rw [page.flash, List.length_append]
        omega
      · rw [recordsBefore, page.flash, List.take_append_of_le_length le]
        rfl
      · unfold headAddr
        rw [page.flash, List.drop_append_of_le_length le]
        cases rest : log.flash.drop pos <;> rfl

theorem stays_steps {log log' : LogCtrl}
    (steps : Relation.ReflTransGen (LogStep env) log log') {pos : Nat}
    (le : pos ≤ log.flash.length) : Stays log log' pos := by
  induction steps with
  | refl => exact ⟨le, rfl, rfl⟩
  | tail _ step ih =>
      have next := stays_step step ih.le
      exact ⟨next.le, next.before.trans ih.before, next.head.trans ih.head⟩

/-- What an operation that appends `list` does to the log. -/
structure Extends (first : Nat) (log log' : LogCtrl) (list : List LogEntry) : Prop where
  fifo : Fifo first (allRecords log') log'
  pages : PagesOk log'
  all : allRecords log' = allRecords log ++ list
  stays : ∀ pos ≤ log.flash.length, Stays log log' pos

theorem Extends.recordsFrom {first : Nat} {log log' : LogCtrl} {list : List LogEntry}
    (step : Extends first log log' list) {pos : Nat} (le : pos ≤ log.flash.length) :
    recordsFrom log' pos = Recovery.recordsFrom log pos ++ list := by
  have split := recordsBefore_append log' pos
  rw [step.all, ← recordsBefore_append log pos, (step.stays pos le).before,
    List.append_assoc] at split
  exact List.append_cancel_left split

theorem logSystem_extends {log : LogCtrl} {first : Nat} (succeeds : env.Succeeds)
    (clock : ∀ n, env.clock n ≠ 0) (op : LogOp)
    (proper : ∀ entry ∈ allRecords log ++ op.records, entry.IsRecord)
    (fifo : Fifo first (allRecords log) log) (pages : PagesOk log) :
    Extends first log ((logSystem env).step log op).1 op.records ∧
      ((logSystem env).step log op).2 = some 0 := by
  obtain ⟨after, result⟩ := logSystem_fifo succeeds op proper fifo
  have steps := logSystem_steps succeeds op fifo.ptrs fifo.running
  have all : allRecords ((logSystem env).step log op).1 = allRecords log ++ op.records :=
    after.records
  exact ⟨⟨all ▸ after, pages.steps clock steps, all, fun pos le => stays_steps steps le⟩, result⟩

end OxCtrl.Recovery
