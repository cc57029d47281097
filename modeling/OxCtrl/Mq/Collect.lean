import OxCtrl.Lib.LinkedQueue
import OxCtrl.Mq.Core

/-!
# Collection of late entries

`ox_mq_check_queue_to` goes over `sq_wait`, takes the late entries out of it and writes them to
`to_list`, which grows by one entry at a time.  The queues are those of `sys/queue.h`, whose links
the loop changes under its own position.
-/

namespace OxCtrl.Mq.Collect

open OxCtrl.Lib OxCtrl.Lib.LinkedQueue

/-! ## The scan -/

/-- The queues of a `struct ox_mq_queue` that a scan changes. -/
inductive ListId where
  | sqFree
  | sqWait
  deriving DecidableEq, Repr

/-- `struct timeval` -/
structure Timeval where
  tvSec : Int
  tvUsec : Int
  deriving DecidableEq, Repr

/-- Microseconds of a time, as an unsigned word of 64 bits; `SEC64` is a million. -/
def Timeval.usec (time : Timeval) : Int :=
  (time.tvSec * 1000000 + time.tvUsec) % 2 ^ 64

/-- What a scan meets: the clock when an entry is checked and the time when the entry began to wait,
what `ox_malloc` returns for the new entry, and whether there is memory for `to_list` behind a
number of entries. -/
structure ScanEnv where
  toUsec : Nat
  clock : Nat → Timeval
  wtime : Nat → Timeval
  newEntry : Nat → Option Nat
  toListMem : Nat → Bool
  nStatic : Nat

/-- What a scan changes.  `toBytes` is what is allocated for `to_list`, and `writes` has for every
write to it the byte where it ends and the bytes that are allocated then. -/
structure ScanState where
  links : Links ListId Nat
  entries : Nat → Entry
  sqFree : Int
  sqWait : Int
  extList : List Nat
  timeout : Nat := 0
  toBytes : Nat := 0
  toList : List Nat := []
  writes : List (Nat × Nat) := []

variable (env : ScanEnv)

/-- `ox_mq_check_entry_to` -/
def oxMqCheckEntryTo (entry : Nat) : Bool :=
  ((env.clock entry).usec - (env.wtime entry).usec) % 2 ^ 64 ≥ env.toUsec

/-- The memory of an entry is in use, so that `ox_malloc` does not return it. -/
def InUse (state : ScanState) (entry : Nat) : Prop :=
  entry < env.nStatic ∨ entry ∈ state.extList

instance instDecidableInUse (state : ScanState) (entry : Nat) :
    Decidable (InUse env state entry) :=
  inferInstanceAs (Decidable (_ ∨ _))

/-- `ox_mq_create_ext_entry` -/
def oxMqCreateExtEntry (state : ScanState) (req : Nat) : Option (ScanState × Nat) :=
  match env.newEntry req with
  | none => none
  | some new =>
      if InUse env state new then none
      else
        some ({ state with
          entries := Function.update state.entries new { status := .free, isExt := true }
          extList := new :: state.extList }, new)

/-- `ox_mq_process_to_entry` in front of the new entry. -/
def takeLate (state : ScanState) (req : Nat) : ScanState :=
  { state with
    links := state.links.remove .sqWait req
    sqWait := state.sqWait - 1
    entries := Function.update state.entries req { state.entries req with status := .timeout } }

/-- `ox_mq_process_to_entry` -/
def oxMqProcessToEntry (state : ScanState) (req : Nat) : ScanState :=
  match oxMqCreateExtEntry env (takeLate state req) req with
  | none => takeLate state req
  | some (created, new) =>
      { created with
        links := created.links.insertTail .sqFree new
        sqFree := created.sqFree + 1 }

/-- The bytes of `to_list` for its next entry: `ox_malloc` for the first and `ox_realloc` for the
others. -/
def toListBytes (toCount : Nat) : Nat :=
  if ! env.toListMem toCount then 0
  else if toCount ≠ 0 then 8 * toCount + 1
  else 8

/-- The body of the loop of `ox_mq_check_queue_to`.  A write behind the allocated bytes is recorded
like one inside. -/
def checkEntry (state : ScanState) (req : Nat) : ScanState :=
  if oxMqCheckEntryTo env req then
    let processed := oxMqProcessToEntry env state req
    let toCount := state.toList.length
    { processed with
      toBytes := toListBytes env toCount
      writes := state.writes ++ [(8 * toCount + 8, toListBytes env toCount)]
      toList := state.toList ++ [req]
      timeout := state.timeout + 1 }
  else state

/-- The loop of `ox_mq_check_queue_to` under `sq_wait_mutex`, for at most `rounds` entries. -/
def oxMqCheckQueueTo (rounds : Nat) (state : ScanState) : Option ScanState :=
  foreach (fun state => state.links.next) (checkEntry env) rounds (state.links.first .sqWait) state

/-! ## What a scan leaves -/

/-- The queues of a state in front of a scan. -/
structure Begins (state : ScanState) (wait free : List Nat) : Prop where
  isWait : Represents state.links .sqWait wait
  isFree : Represents state.links .sqFree free
  apart : wait.Disjoint free
  usedWait : ∀ entry ∈ wait, InUse env state entry
  usedFree : ∀ entry ∈ free, InUse env state entry
  empty : state.toList = []
  unwritten : state.writes = []

/-- All writes to `to_list` are inside its bytes, the late entries are taken out and collected once,
and the others wait in their order. -/
structure Collected (wait : List Nat) (after : ScanState) : Prop where
  inside : ∀ write ∈ after.writes, write.1 ≤ write.2
  waiting : Represents after.links .sqWait (wait.filter fun entry => ! oxMqCheckEntryTo env entry)
  collected : after.toList = wait.filter (oxMqCheckEntryTo env)
  once : after.toList.Nodup

/-! ## One entry -/

variable {env} {state : ScanState} {front rest wait free : List Nat} {req : Nat}

/-- A new entry was not in use. -/
theorem create_cases (env : ScanEnv) (state : ScanState) (req : Nat) :
    oxMqCreateExtEntry env state req = none ∨
      ∃ new, ¬ InUse env state new ∧
        oxMqCreateExtEntry env state req =
          some ({ state with
            entries := Function.update state.entries new { status := .free, isExt := true }
            extList := new :: state.extList }, new) := by
  rw [oxMqCreateExtEntry]
  cases env.newEntry req with
  | none => exact Or.inl rfl
  | some new =>
      by_cases inUse : InUse env state new
      · exact Or.inl (if_pos inUse)
      · exact Or.inr ⟨new, inUse, if_neg inUse⟩

/-- What the processing of a late entry leaves. -/
structure Processed (env : ScanEnv) (state : ScanState) (front rest free : List Nat) (req : Nat)
    (freeAfter : List Nat) (after : ScanState) : Prop where
  isWait : Represents after.links .sqWait (front ++ rest)
  isFree : Represents after.links .sqFree freeAfter
  goesOn : after.links.next req = rest.head?
  new : ∀ entry ∈ freeAfter, entry ∈ free ∨ ¬ InUse env state entry
  used : ∀ entry, InUse env state entry → InUse env after entry
  usedFree : ∀ entry ∈ freeAfter, InUse env after entry

theorem process_spec (isWait : Represents state.links .sqWait (front ++ req :: rest))
    (isFree : Represents state.links .sqFree free)
    (apart : (front ++ req :: rest).Disjoint free)
    (usedWait : ∀ entry ∈ front ++ req :: rest, InUse env state entry)
    (usedFree : ∀ entry ∈ free, InUse env state entry) :
    ∃ freeAfter,
      Processed env state front rest free req freeAfter (oxMqProcessToEntry env state req) := by
  have memReq : req ∈ front ++ req :: rest := List.mem_append_right _ List.mem_cons_self
  have waitRemoved := isWait.remove
  have freeRemoved := isFree.remove_other isWait (by decide) apart
  have nextRemoved := isWait.next_remove.trans isWait.next_eq
  rw [oxMqProcessToEntry]
  rcases create_cases env (takeLate state req) req with none | ⟨new, fresh, created⟩
  · rw [none]
    exact ⟨free, waitRemoved, freeRemoved, nextRemoved, fun _ mem => Or.inl mem, fun _ used => used,
      usedFree⟩
  · rw [created]
    have notWait : new ∉ front ++ req :: rest := fun mem => fresh (usedWait new mem)
    have notFree : new ∉ free := fun mem => fresh (usedFree new mem)
    have sub : ∀ entry ∈ front ++ rest, entry ∈ front ++ req :: rest := fun entry mem =>
      (List.Sublist.append_left (List.sublist_cons_self req rest) front).subset mem
    have keeps : ∀ entry, InUse env state entry → entry < env.nStatic ∨
        entry ∈ new :: state.extList := fun entry used =>
      used.imp_right (List.mem_cons_of_mem new)
    refine ⟨free ++ [new], ?_, freeRemoved.insertTail notFree, ?_, ?_, keeps, ?_⟩
    · exact waitRemoved.insertTail_other freeRemoved (by decide)
        (fun entry inFree mem => apart (sub entry mem) inFree) fun mem => notWait (sub new mem)
    · refine (freeRemoved.next_insertTail ?_ (apart memReq)).trans nextRemoved
      rintro rfl
      exact notWait memReq
    · intro entry mem
      rcases List.mem_append.mp mem with inFree | isNew
      · exact Or.inl inFree
      · rw [List.mem_singleton.mp isNew]
        exact Or.inr fresh
    · intro entry mem
      rcases List.mem_append.mp mem with inFree | isNew
      · exact keeps entry (usedFree entry inFree)
      · exact Or.inr (List.mem_singleton.mp isNew ▸ List.mem_cons_self)

/-! ## The loop -/

/-- The writes of the first entries of `to_list`. -/
def writesOf (env : ScanEnv) (count : Nat) : List (Nat × Nat) :=
  (List.range count).map fun toCount => (8 * toCount + 8, toListBytes env toCount)

/-- The loop has gone over the entries in front of the rest. -/
structure ScanInv (env : ScanEnv) (wait : List Nat) (done rest free : List Nat)
    (state : ScanState) : Prop where
  split : wait = done ++ rest
  isWait : Represents state.links .sqWait
    ((done.filter fun entry => ! oxMqCheckEntryTo env entry) ++ rest)
  isFree : Represents state.links .sqFree free
  apart : wait.Disjoint free
  usedWait : ∀ entry ∈ wait, InUse env state entry
  usedFree : ∀ entry ∈ free, InUse env state entry
  collected : state.toList = done.filter (oxMqCheckEntryTo env)
  writes : state.writes = writesOf env state.toList.length

theorem ScanInv.checkEntry {done : List Nat}
    (inv : ScanInv env wait done (req :: rest) free state) :
    (∃ freeAfter, ScanInv env wait (done ++ [req]) rest freeAfter (checkEntry env state req)) ∧
      (checkEntry env state req).links.next req = rest.head? := by
  have split : wait = done ++ [req] ++ rest := by
    rw [inv.split, List.append_assoc, List.singleton_append]
  rw [Collect.checkEntry]
  cases late : oxMqCheckEntryTo env req with
  | false =>
      refine ⟨⟨free, split, ?_, inv.isFree, inv.apart, inv.usedWait, inv.usedFree, ?_, inv.writes⟩,
        inv.isWait.next_eq⟩
      · rw [List.filter_append, List.append_assoc, List.filter_cons_of_pos (by rw [late]; rfl)]
        exact inv.isWait
      · rw [List.filter_append, List.filter_cons_of_neg (by rw [late]; decide), List.filter_nil,
          List.append_nil]
        exact inv.collected
  | true =>
      have sub : ∀ entry ∈ (done.filter fun entry => ! oxMqCheckEntryTo env entry) ++ req :: rest,
          entry ∈ wait := by
        rw [inv.split]
        exact (List.Sublist.append_right List.filter_sublist _).subset
      obtain ⟨freeAfter, processed⟩ := process_spec inv.isWait inv.isFree
        (fun entry mem => inv.apart (sub entry mem))
        (fun entry mem => inv.usedWait entry (sub entry mem)) inv.usedFree
      refine ⟨⟨freeAfter, split, ?_, processed.isFree, ?_, ?_, processed.usedFree, ?_, ?_⟩,
        processed.goesOn⟩
      · rw [List.filter_append, List.filter_cons_of_neg (by rw [late]; decide), List.filter_nil,
          List.append_nil]
        exact processed.isWait
      · intro entry mem inFree
        rcases processed.new entry inFree with old | unused
        · exact inv.apart mem old
        · exact unused (inv.usedWait entry mem)
      · exact fun entry mem => processed.used entry (inv.usedWait entry mem)
      · rw [List.filter_append, List.filter_cons_of_pos late, List.filter_nil, ← inv.collected]
        rfl
      · change state.writes ++
          [(8 * state.toList.length + 8, toListBytes env state.toList.length)] =
          writesOf env (state.toList ++ [req]).length
        rw [List.length_append, List.length_singleton, writesOf, List.range_succ, List.map_append,
          ← writesOf, ← inv.writes]
        rfl

/-- For every number of late entries a scan comes to its end with them collected, the others waiting
in their order, and one write for each late entry. -/
theorem scan_spec (begins : Begins env state wait free) {rounds : Nat}
    (enough : wait.length ≤ rounds) :
    ∃ after, oxMqCheckQueueTo env rounds state = some after ∧
      Represents after.links .sqWait (wait.filter fun entry => ! oxMqCheckEntryTo env entry) ∧
      after.toList = wait.filter (oxMqCheckEntryTo env) ∧
      after.writes = writesOf env (wait.countP (oxMqCheckEntryTo env)) := by
  have initial : ∃ done free, ScanInv env wait done wait free state := by
    refine ⟨[], free, rfl, begins.isWait, begins.isFree, begins.apart, begins.usedWait,
      begins.usedFree, begins.empty, ?_⟩
    rw [begins.unwritten, begins.empty]
    rfl
  obtain ⟨after, eq, done, free, inv⟩ := foreach_rule (fun state => state.links.next)
    (checkEntry env) (fun rest state => ∃ done free, ScanInv env wait done rest free state)
    (fun req rest state ⟨done, free, inv⟩ => by
      obtain ⟨⟨freeAfter, next⟩, goesOn⟩ := inv.checkEntry
      exact ⟨⟨done ++ [req], freeAfter, next⟩, goesOn⟩)
    initial enough
  have split := inv.split
  rw [List.append_nil] at split
  subst split
  refine ⟨after, ?_, ?_, inv.collected, ?_⟩
  · rw [oxMqCheckQueueTo, begins.isWait.first_eq, eq]
  · have isWait := inv.isWait
    rw [List.append_nil] at isWait
    exact isWait
  · rw [inv.writes, inv.collected, List.countP_eq_length_filter]

/-- The first write is inside when there is memory, and no other one is. -/
theorem writes_inside_iff (env : ScanEnv) (count : Nat) :
    (∀ write ∈ writesOf env count, write.1 ≤ write.2) ↔
      count = 0 ∨ count = 1 ∧ env.toListMem 0 = true := by
  have mem : ∀ toCount, toCount < count →
      (8 * toCount + 8, toListBytes env toCount) ∈ writesOf env count := fun toCount lt =>
    List.mem_map.mpr ⟨toCount, List.mem_range.mpr lt, rfl⟩
  constructor
  · intro inside
    rcases count with _ | _ | count
    · exact Or.inl rfl
    · refine Or.inr ⟨rfl, ?_⟩
      have first := inside _ (mem 0 (Nat.zero_lt_succ _))
      by_contra noMem
      rw [toListBytes, Bool.eq_false_iff.mpr noMem] at first
      exact absurd first (by decide)
    · have second := inside _ (mem 1 (Nat.succ_lt_succ (Nat.zero_lt_succ _)))
      rw [toListBytes] at second
      split at second <;> exact absurd second (by decide)
  · rintro (rfl | ⟨rfl, some⟩) write isWrite
    · cases isWrite
    · obtain rfl : write = (8, toListBytes env 0) := List.mem_singleton.mp isWrite
      change 8 ≤ toListBytes env 0
      rw [toListBytes, some]
      decide

/-- A scan collects the late entries inside of `to_list` exactly when it finds no late entry, or
finds one and there is memory for it. -/
theorem scan_collects_iff (begins : Begins env state wait free) {rounds : Nat}
    (enough : wait.length ≤ rounds) :
    (∃ after, oxMqCheckQueueTo env rounds state = some after ∧ Collected env wait after) ↔
      wait.countP (oxMqCheckEntryTo env) = 0 ∨
        wait.countP (oxMqCheckEntryTo env) = 1 ∧ env.toListMem 0 = true := by
  obtain ⟨after, eq, waiting, collected, writes⟩ := scan_spec begins enough
  rw [← writes_inside_iff, ← writes]
  constructor
  · rintro ⟨other, isOther, ok⟩
    rw [Option.some.inj (eq.symm.trans isOther)]
    exact ok.inside
  · intro inside
    refine ⟨after, eq, inside, waiting, collected, ?_⟩
    rw [collected]
    exact begins.isWait.nodup.filter _

/-! ## Two waiting entries -/

/-- Queues with two waiting entries. -/
def twoWaiting : ScanState where
  links :=
    ((Links.init (fun _ => none) fun _ => .first .sqWait).insertTail .sqWait 0).insertTail .sqWait 1
  entries _ := { status := .waiting }
  sqFree := 0
  sqWait := 2
  extList := []

/-- The entries that are late have waited for ten microseconds. -/
def lateEnv (late : Nat → Bool) : ScanEnv where
  toUsec := 10
  clock entry := if late entry then ⟨0, 10⟩ else ⟨0, 0⟩
  wtime _ := ⟨0, 0⟩
  newEntry req := some (2 + req)
  toListMem _ := true
  nStatic := 2

theorem begins_twoWaiting (late : Nat → Bool) : Begins (lateEnv late) twoWaiting [0, 1] [] where
  isWait := ((represents_init _ _ _).insertTail (by decide)).insertTail (by decide)
  isFree := ⟨rfl, rfl, List.nodup_nil⟩
  apart := List.disjoint_nil_right _
  usedWait entry mem := Or.inl (List.mem_range.mp mem)
  usedFree entry mem := by cases mem
  empty := rfl
  unwritten := rfl

/-- One of the two entries is late. -/
theorem scan_collects_first :
    ∃ after, oxMqCheckQueueTo (lateEnv (· = 0)) 2 twoWaiting = some after ∧
      Collected (lateEnv (· = 0)) [0, 1] after :=
  (scan_collects_iff (begins_twoWaiting (· = 0)) (Nat.le_refl 2)).mpr (by decide)

/-- Both are late: the second one is written to the bytes from 8 to 16 of nine. -/
theorem second_write_outside :
    ¬ ∃ after, oxMqCheckQueueTo (lateEnv fun _ => true) 2 twoWaiting = some after ∧
      Collected (lateEnv fun _ => true) [0, 1] after := by
  have writes : (oxMqCheckQueueTo (lateEnv fun _ => true) 2 twoWaiting).map ScanState.writes =
      some [(8, 8), (16, 9)] := by decide
  rintro ⟨after, eq, collected⟩
  rw [eq, Option.map_some, Option.some.injEq] at writes
  have second := collected.inside (16, 9) (writes ▸ by decide)
  exact absurd second (by decide)

end OxCtrl.Mq.Collect
