import OxCtrl.Log.Fifo
import Mathlib.Data.List.Forall2
import Mathlib.Data.List.Nodup

/-!
# Log pages and failed writes

The log writes to the pages in the order in which it took them.  A write that fails is
repeated at the next page, and the pointers of the log page are corrected, so the page
of write number `n` names the pages of the three writes after it.
-/

namespace OxCtrl.Log

/-- Address of the page of write number `n`: the three pages of the start come first. -/
def writeAddr (env : Env) (start : Nat × Nat × Nat) : Nat → Nat
  | 0 => start.1
  | 1 => start.2.1
  | 2 => start.2.2
  | n + 3 => (env.newFn n).getD 0

/-- The pages of three writes. -/
def writeAddrs (env : Env) (start : Nat × Nat × Nat) (n : Nat) : Nat × Nat × Nat :=
  (writeAddr env start n, writeAddr env start (n + 1), writeAddr env start (n + 2))

/-- A page with a pointer record that names three pages. -/
def Points (slots : List LogEntry) (next : Nat × Nat × Nat) : Prop :=
  ∃ pointer rest, slots = pointer :: rest ∧ pointer.type = .pointer ∧ pointer.ts ≠ 0 ∧
    (pointer.word3, pointer.word4, pointer.word5) = next

/-- The log page of write number `n`. -/
def IsWrite (env : Env) (start : Nat × Nat × Nat) (page : LogPage) (n : Nat) : Prop :=
  page.addr = writeAddr env start n ∧ Points page.slots (writeAddrs env start (n + 1))

/-- The writes that succeeded among the first `count`. -/
def okWrites (env : Env) (count : Nat) : List Nat :=
  (List.range count).filter env.writeOk

/-- The last write that succeeded. -/
def lastWrite (env : Env) (count : Nat) : Nat :=
  (okWrites env count).getLast?.getD 0

/-- Invariant of the log: its pages are those of the writes that succeeded.  At least
`least` writes were made. -/
structure Attempts (env : Env) (start : Nat × Nat × Nat) (least : Nat) (log : LogCtrl) : Prop where
  least : least ≤ log.writes
  running : log.running = true
  provs : log.provs = log.writes
  next : log.nextPpa = writeAddrs env start log.writes
  flash : List.Forall₂ (IsWrite env start) log.flash (okWrites env log.writes)
  tail : log.phyLogTail = writeAddr env start (lastWrite env log.writes)
  ended : log.writes ≠ 0 → env.writeOk (log.writes - 1) = true

variable {env : Env} {start : Nat × Nat × Nat} {least : Nat} {log : LogCtrl}

theorem okWrites_succ (env : Env) (count : Nat) :
    okWrites env (count + 1) =
      okWrites env count ++ if env.writeOk count then [count] else [] := by
  rw [okWrites, List.range_succ, List.filter_append]
  cases ok : env.writeOk count <;> simp [ok, okWrites]

/-! ## Writing a page -/

/-- A page was taken for the next write. -/
structure Taken (env : Env) (start : Nat × Nat × Nat) (least : Nat) (log : LogCtrl) (wppa : Nat) :
    Prop where
  least : least ≤ log.writes
  running : log.running = true
  provs : log.provs = log.writes + 1
  wppa : wppa = writeAddr env start log.writes
  next : log.nextPpa = writeAddrs env start (log.writes + 1)
  flash : List.Forall₂ (IsWrite env start) log.flash (okWrites env log.writes)

/-- A page was written. -/
structure Written (env : Env) (start : Nat × Nat × Nat) (least : Nat) (log : LogCtrl) (wppa : Nat) :
    Prop where
  least : least ≤ log.writes
  running : log.running = true
  provs : log.provs = log.writes
  next : log.nextPpa = writeAddrs env start log.writes
  flash : List.Forall₂ (IsWrite env start) log.flash (okWrites env log.writes)
  pos : log.writes ≠ 0
  ok : env.writeOk (log.writes - 1) = true
  wppa : wppa = writeAddr env start (log.writes - 1)

theorem Taken.ok {wppa : Nat} {slots : List LogEntry} (taken : Taken env start least log wppa)
    (points : Points slots log.nextPpa) (ok : env.writeOk log.writes = true) :
    Written env start least
      { log with writes := log.writes + 1, flash := log.flash ++ [⟨wppa, slots⟩] } wppa := by
  refine ⟨Nat.le_succ_of_le taken.least, taken.running, taken.provs, taken.next, ?_,
    Nat.succ_ne_zero _, ok, taken.wppa⟩
  rw [okWrites_succ, if_pos ok]
  apply List.rel_append taken.flash
  exact .cons ⟨taken.wppa, taken.next ▸ points⟩ .nil

theorem Taken.failed {wppa : Nat} (taken : Taken env start least log wppa)
    (failed : ¬ env.writeOk log.writes = true) :
    Taken env start least
      { log with
        writes := log.writes + 1
        provs := log.provs + 1
        nextPpa := writeAddrs env start (log.writes + 2) }
          (writeAddr env start (log.writes + 1)) := by
  refine ⟨Nat.le_succ_of_le taken.least, taken.running, by rw [taken.provs], rfl, rfl, ?_⟩
  rw [okWrites_succ, if_neg failed, List.append_nil]
  exact taken.flash

theorem Written.done {wppa : Nat} (written : Written env start least log wppa) (readPtr : Nat) :
    Attempts env start least (pageDone log wppa readPtr) := by
  have last : lastWrite env log.writes = log.writes - 1 := by
    obtain ⟨n, eq⟩ := Nat.exists_eq_succ_of_ne_zero written.pos
    have ok := written.ok
    rw [eq, Nat.succ_sub_one] at ok ⊢
    rw [lastWrite, okWrites_succ, if_pos ok]
    simp
  refine ⟨written.least, written.running, written.provs, written.next, written.flash, ?_,
    fun _ => written.ok⟩
  change wppa = writeAddr env start (lastWrite env log.writes)
  rw [last, written.wppa]

/-! ## Operations -/

/-- Write number `n` succeeded. -/
def Wrote (env : Env) (log : LogCtrl) (n : Nat) : Prop :=
  n < log.writes ∧ env.writeOk n = true

instance instDecidableWrote (env : Env) (log : LogCtrl) (n : Nat) : Decidable (Wrote env log n) :=
  inferInstanceAs (Decidable (_ ∧ _))

/-- The log page of write number `n`. -/
def writtenPage (env : Env) (log : LogCtrl) (n : Nat) : LogPage :=
  log.flash.getD (okWrites env n).length ⟨0, []⟩

theorem okWrites_split {count n : Nat} (lt : n < count) (ok : env.writeOk n = true) :
    ∃ rest, okWrites env count = okWrites env n ++ n :: rest := by
  induction count with
  | zero => omega
  | succ count ih =>
      rw [okWrites_succ]
      rcases Nat.lt_succ_iff_lt_or_eq.mp lt with earlier | rfl
      · obtain ⟨rest, eq⟩ := ih earlier
        exact ⟨rest ++ if env.writeOk count then [count] else [], by rw [eq]; simp⟩
      · exact ⟨[], by rw [if_pos ok]⟩

theorem getElem?_okWrites {count n : Nat} (lt : n < count) (ok : env.writeOk n = true) :
    (okWrites env count)[(okWrites env n).length]? = some n := by
  obtain ⟨rest, split⟩ := okWrites_split lt ok
  rw [split, List.getElem?_append_right le_rfl, Nat.sub_self]
  rfl

theorem Attempts.isWrite (attempts : Attempts env start least log) {n : Nat}
    (wrote : Wrote env log n) :
    IsWrite env start (writtenPage env log n) n := by
  obtain ⟨bound, isN⟩ := List.getElem?_eq_some_iff.mp (getElem?_okWrites wrote.1 wrote.2)
  have below : (okWrites env n).length < log.flash.length := by
    rwa [attempts.flash.length_eq]
  have related := attempts.flash.get below bound
  simp only [List.get_eq_getElem, isN] at related
  rwa [writtenPage, List.getD_eq_getElem?_getD, List.getElem?_eq_getElem below]

end OxCtrl.Log
