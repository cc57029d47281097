import OxCtrl.Recovery.Checkpoint
import Mathlib.Data.List.Nodup

/-!
# Committed transactions survive a crash

The records of the log are cut at the head of a checkpoint.  The first part is about
such a cut and the list of committed transactions alone: what a replay of any prefix of
the records after the cut leaves for the LBAs of the transactions.  The second part is
the invariant of the running system.
-/

namespace OxCtrl.Recovery

open OxCtrl.Lib
open OxCtrl.Log
open OxCtrl.Transaction

/-! ## Writes on the mapping -/

theorem applyWrites_of_forall_ne {writes : List LogEntry} {lba : Nat}
    (other : ∀ entry ∈ writes, entry.lba ≠ lba) (map : Nat → Ppa) :
    applyWrites map writes lba = map lba := by
  induction writes generalizing map with
  | nil => rfl
  | cons entry writes ih =>
      have ne : lba ≠ entry.lba := Ne.symm (other entry List.mem_cons_self)
      rw [← List.singleton_append, applyWrites_append,
        ih fun later mem => other later (List.mem_cons_of_mem _ mem)]
      exact Function.update_of_ne ne _ _

/-- The last write of an LBA counts, whatever was mapped before. -/
theorem applyWrites_of_exists {writes : List LogEntry} {lba : Nat}
    (written : ∃ entry ∈ writes, entry.lba = lba) :
    ∃ entry ∈ writes, entry.lba = lba ∧ ∀ map, applyWrites map writes lba = entry.newPpa := by
  induction writes using List.reverseRecOn with
  | nil => simp at written
  | append_singleton writes entry ih =>
      by_cases last : entry.lba = lba
      · refine ⟨entry, by simp, last, fun map => ?_⟩
        rw [applyWrites_append, ← last]
        exact Function.update_self _ _ _
      · obtain ⟨found, mem, eq⟩ := written
        have earlier : ∃ entry ∈ writes, entry.lba = lba := by
          rcases List.mem_append.mp mem with mem | mem
          · exact ⟨found, mem, eq⟩
          · exact absurd (List.mem_singleton.mp mem ▸ eq) last
        obtain ⟨found, mem, eq, value⟩ := ih earlier
        refine ⟨found, List.mem_append_left _ mem, eq, fun map => ?_⟩
        rw [applyWrites_append, ← value map]
        exact Function.update_of_ne (Ne.symm last) _ _

theorem Latest.mono {committed : List Tr} {i j lba : Nat} {ppa : Ppa} (le : i ≤ j)
    (latest : Latest committed j lba ppa) : Latest committed i lba ppa := by
  obtain ⟨k, tr, kLe, rest⟩ := latest
  exact ⟨k, tr, le.trans kLe, rest⟩

theorem Latest.append {committed : List Tr} {i lba : Nat} {ppa : Ppa}
    (latest : Latest committed i lba ppa) (more : List Tr) :
    Latest (committed ++ more) i lba ppa := by
  obtain ⟨k, tr, kLe, get, rest⟩ := latest
  refine ⟨k, tr, kLe, ?_, rest⟩
  rw [List.getElem?_append_left (List.getElem?_eq_some_iff.mp get).1, get]

/-! ## A cut of the log -/

/-- The records of a transaction in the log are those of its entries with a sector. -/
def LoggedIff (all : List LogEntry) (tr : Tr) : Prop :=
  ∀ lba ppa, (∃ entry ∈ all, isWriteOf tr.ts entry ∧ entry.lba = lba ∧ entry.newPpa = ppa) ↔
    ∃ entry ∈ tr.entries, entry.lba = lba ∧ entry.ppa = ppa ∧ ppa ≠ 0

/-- The log and the transactions that it commits. -/
structure History (all : List LogEntry) (committed : List Tr) : Prop where
  commits : all.filter isCommit = committed.map Tr.commitEntry
  commitLast : CommitLast all
  ids : (committed.map Tr.ts).Nodup
  logged : ∀ tr ∈ committed, LoggedIff all tr
  full : ∀ tr ∈ committed, ∀ entry ∈ tr.entries, entry.ppa ≠ 0

/-- A replay of any prefix of the records after the cut, from the given mapping, leaves
the LBAs of every transaction whose commit record it reaches with its sector or a later
one. -/
def Survives (committed : List Tr) (map : Nat → Ppa) (before after : List LogEntry) : Prop :=
  ∀ records, records <+: after → ∀ i tr, committed[i]? = some tr →
    tr.commitEntry ∈ before ++ records → ∀ entry ∈ tr.entries,
      Latest committed i entry.lba (applyWrites map (committedWrites records) entry.lba)

variable {all before after : List LogEntry} {committed : List Tr} {map map' : Nat → Ppa}

theorem isCommit_commitEntry (tr : Tr) : isCommit tr.commitEntry := by
  simp [isCommit, Tr.commitEntry, LogEntry.ofCommit]

/-- Mapping entries may be replaced by ones that are good without a replay. -/
theorem Survives.update (survives : Survives committed map before after)
    (good : ∀ lba, map' lba = map lba ∨ ∀ i tr, committed[i]? = some tr →
      ∀ entry ∈ tr.entries, entry.lba = lba → Latest committed i lba (map' lba)) :
    Survives committed map' before after := by
  intro records le i tr get commitMem entry mem
  have old := survives records le i tr get commitMem entry mem
  by_cases replays : Replays records entry.lba
  · obtain ⟨write, -, -, value⟩ := applyWrites_of_exists replays
    rw [value] at old ⊢
    exact old
  · have other : ∀ write ∈ committedWrites records, write.lba ≠ entry.lba :=
      fun write writeMem eq => replays ⟨write, writeMem, eq⟩
    rw [applyWrites_of_forall_ne other] at old ⊢
    rcases good entry.lba with same | latest
    · rwa [same]
    · exact latest i tr get entry mem rfl

/-- A record that is no commit record changes nothing. -/
theorem Survives.other (survives : Survives committed map before after) {record : LogEntry}
    (noCommit : ¬ isCommit record) : Survives committed map before (after ++ [record]) := by
  intro records le i tr get commitMem entry mem
  rcases List.prefix_concat_iff.mp le with rfl | le
  · rw [committedWrites_concat, if_neg noCommit, List.append_nil]
    refine survives after (List.prefix_refl _) i tr get ?_ entry mem
    rw [← List.append_assoc] at commitMem
    rcases List.mem_append.mp commitMem with commitMem | commitMem
    · exact commitMem
    · exact absurd (List.mem_singleton.mp commitMem ▸ isCommit_commitEntry tr) noCommit
  · exact survives records le i tr get commitMem entry mem

theorem Survives.others (survives : Survives committed map before after)
    {list : List LogEntry} (noCommit : ∀ record ∈ list, ¬ isCommit record) :
    Survives committed map before (after ++ list) := by
  induction list using List.reverseRecOn with
  | nil => simpa using survives
  | append_singleton list record ih =>
      rw [← List.append_assoc]
      exact (ih fun other mem => noCommit other (List.mem_append_left _ mem)).other
        (noCommit record (by simp))

/-- The writes that a commit record makes effective are entries of its transaction. -/
theorem latest_of_write {tr : Tr} {i lba : Nat} (get : committed[i]? = some tr)
    (logged : LoggedIff all tr) {write : LogEntry} (mem : write ∈ all)
    (isWrite : isWriteOf tr.ts write) (eq : write.lba = lba) :
    Latest committed i lba write.newPpa := by
  obtain ⟨entry, entryMem, sameLba, samePpa, -⟩ :=
    (logged lba write.newPpa).mp ⟨write, mem, isWrite, eq, rfl⟩
  exact ⟨i, tr, le_rfl, get, entry, entryMem, sameLba, samePpa⟩

theorem latest_last {tr : Tr} {i : Nat} (le : i ≤ committed.length) {entry : TrLog}
    (mem : entry ∈ tr.entries) : Latest (committed ++ [tr]) i entry.lba entry.ppa :=
  ⟨committed.length, tr, le, by simp, entry, mem, rfl, rfl⟩

/-- A transaction joins the committed ones before its commit record is in the log. -/
theorem Survives.join (survives : Survives committed map before after) {tr : Tr}
    (fresh : tr.commitEntry ∉ before ++ after)
    (moved : ∀ lba, map' lba = map lba ∨
      ∃ entry ∈ tr.entries, entry.lba = lba ∧ map' lba = entry.ppa) :
    Survives (committed ++ [tr]) map' before after := by
  have joined : Survives (committed ++ [tr]) map before after := by
    intro records le i other get commitMem entry mem
    by_cases old : i < committed.length
    · rw [List.getElem?_append_left old] at get
      exact (survives records le i other get commitMem entry mem).append [tr]
    · obtain rfl : tr = other := by
        have := (List.getElem?_eq_some_iff.mp get).1
        simp only [List.length_append, List.length_singleton] at this
        obtain rfl : i = committed.length := by omega
        simpa using get
      refine absurd ?_ fresh
      rcases List.mem_append.mp commitMem with commitMem | commitMem
      · exact List.mem_append_left _ commitMem
      · exact List.mem_append_right _ (le.subset commitMem)
  refine joined.update fun lba => ?_
  rcases moved lba with same | ⟨entry, mem, rfl, eq⟩
  · exact Or.inl same
  · refine Or.inr fun i other get _ _ _ => ?_
    have := (List.getElem?_eq_some_iff.mp get).1
    rw [List.length_append, List.length_singleton] at this
    rw [eq]
    exact latest_last (by omega) mem

/-- The commit record of a transaction is appended. -/
theorem Survives.commit (survives : Survives committed map before after) {tr : Tr}
    (newId : ∀ other ∈ committed, other.ts ≠ tr.ts)
    (fresh : tr.commitEntry ∉ before ++ after) (logged : LoggedIff (before ++ after) tr)
    (moved : ∀ lba, map' lba = map lba ∨
      ∃ entry ∈ tr.entries, entry.lba = lba ∧ map' lba = entry.ppa)
    (safe : ∀ entry ∈ tr.entries, Logged after tr.ts entry.lba ∨
      (∃ other ∈ tr.entries, other.lba = entry.lba ∧ map' entry.lba = other.ppa) ∧
        ¬ Replays after entry.lba) :
    Survives (committed ++ [tr]) map' before (after ++ [tr.commitEntry]) := by
  have joined := survives.join fresh moved
  have last : (committed ++ [tr])[committed.length]? = some tr := by simp
  intro records le i other get commitMem entry mem
  rcases List.prefix_concat_iff.mp le with rfl | le
  · have bound := (List.getElem?_eq_some_iff.mp get).1
    rw [List.length_append, List.length_singleton] at bound
    rw [committedWrites_concat, if_pos (isCommit_commitEntry tr), applyWrites_append]
    by_cases written : ∃ write ∈ after.filter (isWriteOf tr.ts), write.lba = entry.lba
    · -- the transaction itself is replayed for this LBA
      obtain ⟨write, writeMem, eq, value⟩ := applyWrites_of_exists written
      obtain ⟨inAfter, isWrite⟩ := List.mem_filter.mp writeMem
      rw [show tr.commitEntry.ts = tr.ts from rfl, value]
      exact (latest_of_write last logged (List.mem_append_right _ inAfter) isWrite eq).mono
        (by omega)
    · have none : ∀ write ∈ after.filter (isWriteOf tr.ts), write.lba ≠ entry.lba :=
        fun write writeMem eq => written ⟨write, writeMem, eq⟩
      rw [show tr.commitEntry.ts = tr.ts from rfl, applyWrites_of_forall_ne none]
      by_cases old : i < committed.length
      · refine joined after (List.prefix_refl _) i other get ?_ entry mem
        rw [← List.append_assoc] at commitMem
        rcases List.mem_append.mp commitMem with commitMem | commitMem
        · exact commitMem
        · obtain ⟨lt, eq⟩ := List.getElem?_eq_some_iff.mp get
          have same : other.ts = tr.ts := congrArg LogEntry.ts (List.mem_singleton.mp commitMem)
          rw [List.getElem_append_left old] at eq
          exact absurd same (newId other (eq ▸ List.getElem_mem old))
      · obtain rfl : i = committed.length := by omega
        obtain rfl : tr = other := by simpa using get
        rcases safe entry mem with ⟨write, writeMem, isWrite, eq⟩ |
          ⟨⟨other, otherMem, sameLba, value⟩, unreplayed⟩
        · exact absurd eq (none write (List.mem_filter.mpr ⟨writeMem, isWrite⟩))
        · rw [applyWrites_of_forall_ne fun write writeMem eq => unreplayed ⟨write, writeMem, eq⟩,
            value, ← sameLba]
          exact latest_last le_rfl otherMem
  · exact joined records le i other get commitMem entry mem

/-- A transaction is determined by its number. -/
theorem History.unique (history : History all committed) {i j : Nat} {first second : Tr}
    (getFirst : committed[i]? = some first) (getSecond : committed[j]? = some second)
    (same : first.ts = second.ts) : i = j := by
  have lt : i < (committed.map Tr.ts).length := by
    simpa using (List.getElem?_eq_some_iff.mp getFirst).1
  refine (List.getElem?_inj lt history.ids).mp ?_
  rw [List.getElem?_map, List.getElem?_map, getFirst, getSecond, Option.map_some, Option.map_some,
    same]

/-- The commit records stand in the order of the transactions. -/
theorem History.commit_index {records rest : List LogEntry} {commit : LogEntry}
    (history : History (records ++ commit :: rest) committed) (isCommit' : isCommit commit) :
    ∃ (m : Nat) (tr : Tr), committed[m]? = some tr ∧ commit = tr.commitEntry ∧
      ∀ (i : Nat) (other : Tr), committed[i]? = some other → other.commitEntry ∈ records →
        i < m := by
  have commits := history.commits
  rw [List.filter_append, List.filter_cons_of_pos isCommit'] at commits
  have at_ : (committed.map Tr.commitEntry)[(records.filter isCommit).length]? = some commit := by
    rw [← commits]
    simp
  rw [List.getElem?_map, Option.map_eq_some_iff] at at_
  obtain ⟨tr, get, eq⟩ := at_
  refine ⟨_, tr, get, eq.symm, fun i other getOther mem => ?_⟩
  have inFilter : other.commitEntry ∈ records.filter isCommit :=
    List.mem_filter.mpr ⟨mem, isCommit_commitEntry other⟩
  obtain ⟨k, lt, at_⟩ := List.mem_iff_getElem.mp inFilter
  have getK : (committed.map Tr.commitEntry)[k]? = some other.commitEntry := by
    rw [← commits, List.getElem?_append_left lt, List.getElem?_eq_getElem lt, at_]
  rw [List.getElem?_map, Option.map_eq_some_iff] at getK
  obtain ⟨found, getFound, same⟩ := getK
  have := history.unique getFound getOther (congrArg LogEntry.ts same)
  omega

/-- A record of a committed transaction precedes the commit record. -/
theorem History.write_before {records rest : List LogEntry} {tr : Tr}
    (history : History (records ++ tr.commitEntry :: rest) committed) {write : LogEntry}
    (mem : write ∈ records ++ tr.commitEntry :: rest) (isWrite : isWriteOf tr.ts write) :
    write ∈ records := by
  rcases List.mem_append.mp mem with mem | mem
  · exact mem
  · rcases List.mem_cons.mp mem with rfl | mem
    · simp [isWriteOf, Tr.commitEntry, LogEntry.ofCommit] at isWrite
    · have later := (List.pairwise_append.mp history.commitLast).2.1
      exact absurd ⟨isCommit_commitEntry tr, isWrite⟩ (List.rel_of_pairwise_cons later mem)

/-- A checkpoint whose head is safe keeps the committed transactions. -/
theorem History.survives (history : History (before ++ after) committed)
    (mapped : ∀ i tr, committed[i]? = some tr → ∀ entry ∈ tr.entries,
      Latest committed i entry.lba (map entry.lba))
    (safe : ∀ records commit, records ++ [commit] <+: after → isCommit commit →
      ∀ write ∈ before, isWriteOf commit.ts write → ¬ Replays records write.lba) :
    Survives committed map before after := by
  intro records le
  induction records using List.reverseRecOn with
  | nil => exact fun i tr get _ entry mem => mapped i tr get entry mem
  | append_singleton records record ih =>
      have survived := ih ((List.prefix_append ..).trans le)
      intro i tr get commitMem entry mem
      rw [← List.append_assoc] at commitMem
      by_cases commit : isCommit record
      · obtain ⟨rest, split⟩ := le
        have whole : before ++ after = (before ++ records) ++ record :: rest := by
          rw [← split]
          simp
        have history' := whole ▸ history
        obtain ⟨m, last, getLast, rfl, earlier⟩ := history'.commit_index commit
        have iLe : i ≤ m := by
          rcases List.mem_append.mp commitMem with commitMem | commitMem
          · exact (earlier i tr get commitMem).le
          · exact (history.unique get getLast
              (congrArg LogEntry.ts (List.mem_singleton.mp commitMem))).le
        have logged := history.logged last (List.mem_of_getElem? getLast)
        rw [committedWrites_concat, if_pos commit, applyWrites_append]
        by_cases written : ∃ write ∈ records.filter (isWriteOf last.ts), write.lba = entry.lba
        · obtain ⟨write, writeMem, eq, value⟩ := applyWrites_of_exists written
          obtain ⟨inRecords, isWrite⟩ := List.mem_filter.mp writeMem
          rw [show last.commitEntry.ts = last.ts from rfl, value]
          refine (latest_of_write getLast logged ?_ isWrite eq).mono iLe
          simp [whole, inRecords]
        · have none : ∀ write ∈ records.filter (isWriteOf last.ts), write.lba ≠ entry.lba :=
            fun write writeMem eq => written ⟨write, writeMem, eq⟩
          rw [show last.commitEntry.ts = last.ts from rfl, applyWrites_of_forall_ne none]
          by_cases same : i = m
          · -- the record of this LBA lies before the head: its copy counts
            subst same
            obtain rfl : tr = last := Option.some.inj (get.symm.trans getLast)
            obtain ⟨write, writeMem, isWrite, eq, -⟩ := (logged entry.lba entry.ppa).mpr
              ⟨entry, mem, rfl, rfl, history.full tr (List.mem_of_getElem? get) entry mem⟩
            have inFront := history'.write_before (whole ▸ writeMem) isWrite
            rcases List.mem_append.mp inFront with inBefore | inRecords
            · have unreplayed := safe records _ ⟨rest, split⟩ commit write inBefore isWrite
              rw [eq] at unreplayed
              rw [applyWrites_of_forall_ne fun other otherMem otherEq =>
                unreplayed ⟨other, otherMem, otherEq⟩]
              exact mapped i tr get entry mem
            · exact absurd eq (none write (List.mem_filter.mpr ⟨inRecords, isWrite⟩))
          · refine survived i tr get ?_ entry mem
            rcases List.mem_append.mp commitMem with commitMem | commitMem
            · exact commitMem
            · exact absurd (history.unique get getLast
                (congrArg LogEntry.ts (List.mem_singleton.mp commitMem))) same
      · rw [committedWrites_concat, if_neg commit, List.append_nil]
        refine survived i tr get ?_ entry mem
        rcases List.mem_append.mp commitMem with commitMem | commitMem
        · exact commitMem
        · exact absurd (List.mem_singleton.mp commitMem ▸ isCommit_commitEntry tr) commit

/-! ## Transactions in use -/

/-- Invariant of a transaction in use. -/
structure TrInv (all : List LogEntry) (tr : Tr) : Prop where
  user : tr.type = .lbaNs
  ts : tr.ts ≠ 0
  entryTs : ∀ entry ∈ tr.entries, entry.ts ≠ 0
  logged : LoggedIff all tr
  allocated : tr.allocated = tr.entries.countP fun entry => entry.ppa ≠ 0
  complete : tr.committed → tr.allocated = tr.entries.length

theorem TrInv.full {tr : Tr} (inv : TrInv all tr) (isCommitted : tr.committed) :
    ∀ entry ∈ tr.entries, entry.ppa ≠ 0 := by
  have count := inv.complete isCommitted
  rw [inv.allocated, List.countP_eq_length] at count
  simpa using count

theorem LoggedIff.append {tr : Tr} (logged : LoggedIff all tr) {list : List LogEntry}
    (other : ∀ entry ∈ list, ¬ isWriteOf tr.ts entry) : LoggedIff (all ++ list) tr := by
  intro lba ppa
  rw [← logged lba ppa]
  constructor
  · rintro ⟨entry, mem, isWrite, rest⟩
    rcases List.mem_append.mp mem with mem | mem
    · exact ⟨entry, mem, isWrite, rest⟩
    · exact absurd isWrite (other entry mem)
  · rintro ⟨entry, mem, rest⟩
    exact ⟨entry, List.mem_append_left _ mem, rest⟩

theorem TrInv.append {tr : Tr} (inv : TrInv all tr) {list : List LogEntry}
    (other : ∀ entry ∈ list, ¬ isWriteOf tr.ts entry) : TrInv (all ++ list) tr :=
  ⟨inv.user, inv.ts, inv.entryTs, inv.logged.append other, inv.allocated, inv.complete⟩

/-- An entry gets its sector. -/
theorem TrInv.allocate {tr : Tr} (inv : TrInv all tr) {idx : Nat} {entry : TrLog}
    (get : tr.entries[idx]? = some entry) (unset : entry.ppa = 0) {ppa : Ppa} (nonzero : ppa ≠ 0) :
    TrInv (all ++ [.ofWrite .write entry.ts tr.ts entry.lba ppa 0]) (tr.allocate idx ppa) := by
  obtain ⟨lt, eq⟩ := List.getElem?_eq_some_iff.mp get
  obtain ⟨front, back, old, new⟩ : ∃ front back, tr.entries = front ++ entry :: back ∧
      (tr.allocate idx ppa).entries = front ++ { entry with ppa := ppa } :: back := by
    refine ⟨tr.entries.take idx, tr.entries.drop (idx + 1), ?_, ?_⟩
    · rw [← eq, List.getElem_cons_drop, List.take_append_drop]
    · simp only [Tr.allocate]
      rw [List.modify_eq_take_cons_drop lt, eq]
  have pendingTr : ¬ tr.committed := fun isCommitted =>
    inv.full isCommitted entry (List.mem_of_getElem? get) unset
  refine ⟨inv.user, inv.ts, fun other mem => ?_, fun lba sector => ?_, ?_, fun isCommitted =>
    absurd isCommitted pendingTr⟩
  · rw [new] at mem
    rcases List.mem_append.mp mem with mem | mem
    · exact inv.entryTs other (by simp [old, mem])
    · rcases List.mem_cons.mp mem with rfl | mem
      · exact inv.entryTs entry (by simp [old])
      · exact inv.entryTs other (by simp [old, mem])
  · have before := inv.logged lba sector
    rw [old] at before
    rw [new]
    constructor
    · rintro ⟨record, mem, isWrite, sameLba, samePpa⟩
      rcases List.mem_append.mp mem with mem | mem
      · obtain ⟨other, otherMem, rest⟩ := before.mp ⟨record, mem, isWrite, sameLba, samePpa⟩
        refine ⟨other, ?_, rest⟩
        -- the entry had no sector, so no record was its
        have ne : other ≠ entry := fun same => rest.2.2 (rest.2.1 ▸ same ▸ unset)
        have kept : other ∈ front ∨ other ∈ back := by simpa [ne] using otherMem
        rcases kept with kept | kept <;> simp [kept]
      · obtain rfl := List.mem_singleton.mp mem
        rw [LogEntry.ofWrite_newPpa] at samePpa
        exact ⟨{ entry with ppa := ppa }, by simp, sameLba, samePpa, samePpa ▸ nonzero⟩
    · rintro ⟨other, mem, sameLba, samePpa, sectorNe⟩
      by_cases given : other = { entry with ppa := ppa }
      · subst given
        refine ⟨.ofWrite .write entry.ts tr.ts entry.lba ppa 0, by simp, ?_, sameLba, ?_⟩
        · simp [isWriteOf, LogEntry.ofWrite, LogEntry.tid, Tr.allocate]
        · rw [LogEntry.ofWrite_newPpa]
          exact samePpa
      · have kept : other ∈ front ∨ other ∈ back := by simpa [given] using mem
        obtain ⟨record, recordMem, rest⟩ := before.mpr
          ⟨other, by rcases kept with kept | kept <;> simp [kept], sameLba, samePpa, sectorNe⟩
        exact ⟨record, List.mem_append_left _ recordMem, rest⟩
  · have count := inv.allocated
    rw [old, List.countP_append, List.countP_cons_of_neg (by simp [unset])] at count
    rw [new, List.countP_append, List.countP_cons_of_pos (by simp [nonzero])]
    simp only [Tr.allocate]
    omega

theorem History.mem_commit (history : History all committed) {entry : LogEntry}
    (mem : entry ∈ all) (commit : isCommit entry) : ∃ tr ∈ committed, tr.commitEntry = entry := by
  have inFilter : entry ∈ all.filter isCommit := List.mem_filter.mpr ⟨mem, commit⟩
  rw [history.commits] at inFilter
  exact List.mem_map.mp inFilter

theorem History.distinct (history : History all committed) : DistinctCommits all := by
  unfold DistinctCommits
  rw [history.commits, List.map_map]
  exact history.ids

/-- Records of other transactions and of tables. -/
theorem History.append (history : History all committed) {list : List LogEntry}
    (noCommit : ∀ entry ∈ list, ¬ isCommit entry)
    (other : ∀ tr ∈ committed, ∀ entry ∈ list, ¬ isWriteOf tr.ts entry) :
    History (all ++ list) committed := by
  refine ⟨?_, ?_, history.ids, fun tr mem => (history.logged tr mem).append (other tr mem),
    history.full⟩
  · rw [List.filter_append, history.commits,
      List.filter_eq_nil_iff.mpr (fun entry mem => noCommit entry mem), List.append_nil]
  · refine List.pairwise_append.mpr ⟨history.commitLast, ?_, ?_⟩
    · exact List.pairwise_of_forall_mem_list fun first firstMem _ _ both =>
        noCommit first firstMem both.1
    · rintro first firstMem second secondMem ⟨commit, isWrite⟩
      obtain ⟨tr, trMem, rfl⟩ := history.mem_commit firstMem commit
      exact other tr trMem second secondMem isWrite

/-- The commit record of a transaction. -/
theorem History.commit (history : History all committed) {tr : Tr}
    (newId : ∀ other ∈ committed, other.ts ≠ tr.ts) (logged : LoggedIff all tr)
    (full : ∀ entry ∈ tr.entries, entry.ppa ≠ 0) :
    History (all ++ [tr.commitEntry]) (committed ++ [tr]) := by
  have noWrite : ∀ tid, ∀ entry ∈ [tr.commitEntry], ¬ isWriteOf tid entry := by
    simp [isWriteOf, Tr.commitEntry, LogEntry.ofCommit]
  refine ⟨?_, ?_, ?_, fun other mem => ?_, fun other mem => ?_⟩
  · simp [List.filter_append, history.commits, isCommit_commitEntry]
  · refine List.pairwise_append.mpr ⟨history.commitLast, List.pairwise_singleton _ _, ?_⟩
    exact fun first _ second secondMem both => noWrite _ second secondMem both.2
  · rw [List.map_append, List.map_singleton, List.nodup_append]
    refine ⟨history.ids, by simp, ?_⟩
    intro id idMem last lastMem same
    obtain ⟨other, otherMem, rfl⟩ := List.mem_map.mp idMem
    exact newId other otherMem (same.trans (List.mem_singleton.mp lastMem))
  · rcases List.mem_append.mp mem with mem | mem
    · exact (history.logged other mem).append (noWrite _)
    · rw [List.mem_singleton.mp mem]
      exact logged.append (noWrite _)
  · rcases List.mem_append.mp mem with mem | mem
    · exact history.full other mem
    · rw [List.mem_singleton.mp mem]
      exact full

/-- Invariant of the log and the transactions. -/
structure TrsInv (all : List LogEntry) (committed used : List Tr) (clock : Nat) : Prop where
  records : ∀ entry ∈ all, TableRecord entry ∧ entry.ts ≠ 0
  history : History all committed
  ids : ((committed ++ used).map Tr.ts).Nodup
  clocks : ∀ tr ∈ committed ++ used, tr.ts ≤ clock
  tids : ∀ entry ∈ all, entry.type = .write → entry.tid ≤ clock
  used : ∀ tr ∈ used, TrInv all tr

namespace TrsInv

variable {used : List Tr} {clock : Nat}

/-- A transaction in use is not committed. -/
theorem newId (inv : TrsInv all committed used clock) {tr : Tr} (mem : tr ∈ used) :
    ∀ other ∈ committed, other.ts ≠ tr.ts := by
  intro other otherMem
  have ids := inv.ids
  rw [List.map_append, List.nodup_append] at ids
  exact ids.2.2 _ (List.mem_map_of_mem otherMem) _ (List.mem_map_of_mem mem)

/-- Records of tables. -/
theorem append (inv : TrsInv all committed used clock) {list : List LogEntry}
    (tables : ∀ entry ∈ list,
      (entry.type = .map ∨ entry.type = .blkMd ∨ entry.type = .mapMd) ∧ entry.ts ≠ 0) :
    TrsInv (all ++ list) committed used clock := by
  have noWrite : ∀ entry ∈ list, entry.type ≠ .write := by
    intro entry mem
    rcases (tables entry mem).1 with kind | kind | kind <;> simp [kind]
  have noWriteOf : ∀ tid, ∀ entry ∈ list, ¬ isWriteOf tid entry := by
    intro tid entry mem
    simp [isWriteOf, noWrite entry mem]
  have noCommit : ∀ entry ∈ list, ¬ isCommit entry := by
    intro entry mem
    rcases (tables entry mem).1 with kind | kind | kind <;> simp [isCommit, kind]
  refine ⟨fun entry mem => ?_, inv.history.append noCommit fun tr _ => noWriteOf tr.ts, inv.ids,
    inv.clocks, fun entry mem => ?_, fun tr mem => (inv.used tr mem).append (noWriteOf tr.ts)⟩
  · rcases List.mem_append.mp mem with mem | mem
    · exact inv.records entry mem
    · exact ⟨Or.inr (Or.inr (tables entry mem).1), (tables entry mem).2⟩
  · rcases List.mem_append.mp mem with mem | mem
    · exact inv.tids entry mem
    · exact fun kind => absurd kind (noWrite entry mem)

/-- One sector of an allocation. -/
theorem allocate (inv : TrsInv all committed used clock) {ref : EntryRef} {entry : TrLog}
    (found : entryAt used ref = some entry) (unset : entry.ppa = 0) {ppa : Ppa}
    (nonzero : ppa ≠ 0) :
    TrsInv (all ++ [.ofWrite .write entry.ts ref.tid entry.lba ppa 0]) committed
      (updateTr used ref.tid fun tr => tr.allocate ref.idx ppa) clock := by
  obtain ⟨tr, trMem, sameTs, get⟩ := exists_of_entryAt found
  have trInv := inv.used tr trMem
  have noWrite : ∀ tid, tid ≠ ref.tid →
      ∀ record ∈ [LogEntry.ofWrite .write entry.ts ref.tid entry.lba ppa 0],
        ¬ isWriteOf tid record := by
    intro tid ne record mem
    rw [List.mem_singleton.mp mem]
    simp [isWriteOf, LogEntry.ofWrite, LogEntry.tid, Ne.symm ne]
  have keeps : (updateTr used ref.tid fun tr => tr.allocate ref.idx ppa).map Tr.ts =
      used.map Tr.ts := map_ts_updateTr fun _ => rfl
  refine ⟨fun record mem => ?_, inv.history.append ?_ ?_, ?_, fun other mem => ?_,
    fun record mem => ?_, fun other mem => ?_⟩
  · rcases List.mem_append.mp mem with mem | mem
    · exact inv.records record mem
    · rw [List.mem_singleton.mp mem]
      exact ⟨Or.inl ⟨rfl, LogEntry.ofWrite_oldPpa ..⟩,
        trInv.entryTs entry (List.mem_of_getElem? get)⟩
  · simp [isCommit, LogEntry.ofWrite]
  · exact fun other mem => noWrite other.ts (sameTs ▸ inv.newId trMem other mem)
  · rw [List.map_append, keeps, ← List.map_append]
    exact inv.ids
  · rcases List.mem_append.mp mem with mem | mem
    · exact inv.clocks other (List.mem_append_left _ mem)
    · obtain ⟨old, oldMem, ⟨-, rfl⟩ | ⟨-, rfl⟩⟩ := mem_updateTr mem
      · exact inv.clocks other (List.mem_append_right _ oldMem)
      · exact inv.clocks old (List.mem_append_right _ oldMem)
  · rcases List.mem_append.mp mem with mem | mem
    · exact inv.tids record mem
    · rw [List.mem_singleton.mp mem]
      exact fun _ => sameTs ▸ inv.clocks tr (List.mem_append_right _ trMem)
  · obtain ⟨old, oldMem, ⟨ne, rfl⟩ | ⟨same, rfl⟩⟩ := mem_updateTr mem
    · exact (inv.used other oldMem).append (noWrite other.ts ne)
    · have ids := inv.ids
      rw [List.map_append, List.nodup_append] at ids
      obtain rfl : old = tr :=
        List.inj_on_of_nodup_map ids.2.1 oldMem trMem (same.trans sameTs.symm)
      rw [← sameTs]
      exact trInv.allocate get unset nonzero

/-- The loop of an allocation. -/
theorem allocEntries (inv : TrsInv all committed used clock) {ent : List (Option EntryRef)}
    {ppas : List Ppa} (nodup : (ent.filterMap id).Nodup) (sectors : ∀ ppa ∈ ppas, ppa ≠ 0)
    (free : ∀ ref ∈ ent.filterMap id, ∃ entry ∈ entryAt used ref, entry.ppa = 0) :
    TrsInv (all ++ (Transaction.allocEntries .write ent ppas used).2) committed
      (Transaction.allocEntries .write ent ppas used).1 clock := by
  induction ent generalizing all ppas used with
  | nil => simpa [Transaction.allocEntries] using inv
  | cons ref ent ih =>
      cases ppas with
      | nil => cases ref <;> simpa [Transaction.allocEntries] using inv
      | cons ppa ppas =>
          have restSectors : ∀ other ∈ ppas, other ≠ 0 :=
            fun other mem => sectors other (List.mem_cons_of_mem _ mem)
          cases ref with
          | none => exact ih inv (by simpa using nodup) restSectors (by simpa using free)
          | some ref =>
              rw [show (some ref :: ent).filterMap id = ref :: ent.filterMap id from rfl]
                at nodup free
              obtain ⟨entry, found, unset⟩ := free ref List.mem_cons_self
              obtain ⟨notLater, nodup⟩ := List.nodup_cons.mp nodup
              have next := inv.allocate found unset (sectors ppa List.mem_cons_self)
              have restFree : ∀ other ∈ ent.filterMap id, ∃ entry ∈ entryAt
                  (updateTr used ref.tid fun tr => tr.allocate ref.idx ppa) other,
                    entry.ppa = 0 := by
                intro other mem
                have ne : other ≠ ref := fun same => notLater (same ▸ mem)
                rw [entryAt_allocate_of_ne used ne]
                exact free other (List.mem_cons_of_mem _ mem)
              have final := ih next nodup restSectors restFree
              rw [List.append_assoc, List.singleton_append] at final
              simpa only [Transaction.allocEntries, Option.mem_def.mp found] using final

/-- A new transaction. -/
theorem new (inv : TrsInv all committed used clock) {tr : Tr} (later : clock < tr.ts)
    (user : tr.type = .lbaNs) (entryTs : ∀ entry ∈ tr.entries, entry.ts ≠ 0)
    (unset : ∀ entry ∈ tr.entries, entry.ppa = 0) (allocated : tr.allocated = 0)
    (pending : ¬ tr.committed) : TrsInv all committed (used ++ [tr]) tr.ts := by
  refine ⟨inv.records, inv.history, ?_, fun other mem => ?_, fun entry mem write => ?_,
    fun other mem => ?_⟩
  · rw [← List.append_assoc, List.map_append, List.map_singleton, List.nodup_append]
    refine ⟨inv.ids, by simp, fun id idMem last lastMem same => ?_⟩
    obtain ⟨other, otherMem, rfl⟩ := List.mem_map.mp idMem
    have := inv.clocks other otherMem
    have := List.mem_singleton.mp lastMem
    omega
  · rw [← List.append_assoc] at mem
    rcases List.mem_append.mp mem with mem | mem
    · exact (inv.clocks other mem).trans later.le
    · rw [List.mem_singleton.mp mem]
  · exact (inv.tids entry mem write).trans later.le
  · rcases List.mem_append.mp mem with mem | mem
    · exact inv.used other mem
    · rw [List.mem_singleton.mp mem]
      refine ⟨user, by omega, entryTs, fun lba ppa => ?_, ?_, fun isCommitted =>
        absurd isCommitted pending⟩
      · constructor
        · rintro ⟨entry, entryMem, isWrite, -⟩
          have isWrite' : entry.type = .write ∧ entry.tid = tr.ts := by
            simpa [isWriteOf] using isWrite
          have := inv.tids entry entryMem isWrite'.1
          omega
        · rintro ⟨entry, entryMem, -, samePpa, nonzero⟩
          exact absurd (samePpa ▸ unset entry entryMem) nonzero
      · rw [allocated, eq_comm, List.countP_eq_zero]
        simpa using unset

/-- Transactions leave the list, or are marked. -/
theorem shrink (inv : TrsInv all committed used clock) {used' : List Tr}
    (ids : (used'.map Tr.ts).Sublist (used.map Tr.ts)) (kept : ∀ tr ∈ used', TrInv all tr) :
    TrsInv all committed used' clock := by
  refine ⟨inv.records, inv.history, ?_, fun tr mem => ?_, inv.tids, kept⟩
  · rw [List.map_append]
    have nodup := inv.ids
    rw [List.map_append] at nodup
    exact nodup.sublist (ids.append_left _)
  · rcases List.mem_append.mp mem with mem | mem
    · exact inv.clocks tr (List.mem_append_left _ mem)
    · obtain ⟨old, oldMem, same⟩ := List.mem_map.mp (ids.subset (List.mem_map_of_mem mem))
      exact same ▸ inv.clocks old (List.mem_append_right _ oldMem)

theorem fresh (inv : TrsInv all committed used clock) {tr : Tr} (mem : tr ∈ used) :
    tr.commitEntry ∉ all := by
  intro inLog
  obtain ⟨other, otherMem, same⟩ := inv.history.mem_commit inLog (isCommit_commitEntry tr)
  exact inv.newId mem other otherMem (congrArg LogEntry.ts same)

/-- The transaction at the head is committed. -/
theorem commit {tr : Tr} (inv : TrsInv all committed (tr :: used) clock)
    (isCommitted : tr.committed) :
    TrsInv (all ++ [tr.commitEntry]) (committed ++ [tr]) used clock := by
  have mem : tr ∈ tr :: used := List.mem_cons_self
  have trInv := inv.used tr mem
  have noWrite : ∀ tid, ∀ record ∈ [tr.commitEntry], ¬ isWriteOf tid record := by
    simp [isWriteOf, Tr.commitEntry, LogEntry.ofCommit]
  have same : committed ++ [tr] ++ used = committed ++ tr :: used := by simp
  refine ⟨fun record recordMem => ?_, inv.history.commit (inv.newId mem) trInv.logged
    (trInv.full isCommitted), same ▸ inv.ids, same ▸ inv.clocks, fun record recordMem => ?_,
    fun other otherMem => (inv.used other (List.mem_cons_of_mem _ otherMem)).append (noWrite _)⟩
  · rcases List.mem_append.mp recordMem with recordMem | recordMem
    · exact inv.records record recordMem
    · rw [List.mem_singleton.mp recordMem]
      exact ⟨Or.inr (Or.inl rfl), trInv.ts⟩
  · rcases List.mem_append.mp recordMem with recordMem | recordMem
    · exact inv.tids record recordMem
    · rw [List.mem_singleton.mp recordMem]
      intro write
      simp [Tr.commitEntry, LogEntry.ofCommit] at write

end TrsInv

end OxCtrl.Recovery
