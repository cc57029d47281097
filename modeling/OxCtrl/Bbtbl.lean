import Mathlib.Logic.Function.Basic
import OxCtrl.Lib.System

/-!
# The bad block table

`oxb_bbt_byte_flush` writes the table of a channel behind the copies that its reserved block has.
The newest copy is the last page of the run of pages with the magic number.  The block is erased
when it is full, and again when the write of the copy fails.
-/

namespace OxCtrl.Bbtbl

open OxCtrl.Lib

/-! ## Block -/

/-- `NVM_MAGIC`. -/
def nvmMagic : UInt32 := 0x3c

theorem zero_ne_magic : (0 : UInt32) ≠ nvmMagic := by decide

/-- What the first plane of a page has: the magic number of its spare bytes, and its bytes. -/
structure Page where
  magic : UInt32
  data : Nat → UInt8

/-- The reserved block, the table and a page as it is read behind an erase. -/
structure Conf where
  pgPerBlk : Nat
  pgSize : Nat
  bbSz : Nat
  erased : Page
  pos : 0 < pgPerBlk
  /-- The number of a page has 12 bits. -/
  pg_le : pgPerBlk ≤ 4096
  erased_magic : erased.magic ≠ nvmMagic

/-- `tbl` -/
abbrev Table (conf : Conf) : Type :=
  Fin conf.bbSz → UInt8

abbrev Block : Type :=
  Nat → Page

variable {conf : Conf}

/-- The bytes that the load copies from a page. -/
def tableOf (conf : Conf) (page : Page) : Table conf :=
  fun i => page.data i

/-- The page that the flush writes: the table and zeros behind it. -/
def copyOf (tbl : Table conf) : Page where
  magic := nvmMagic
  data i := if lt : i < conf.bbSz then tbl ⟨i, lt⟩ else 0

/-- The block behind an erase. -/
def erasedBlock (conf : Conf) : Block :=
  fun _ => conf.erased

/-! ## Flush and load -/

/-- The loop of `oxb_bbt_byte_flush` over the pages.  A read may fail at one page. -/
def scan (block : Block) (readError : Option Nat) : Nat → Nat → Int × Nat
  | 0, pg => (0, pg)
  | left + 1, pg =>
      if readError = some pg then (-1, pg)
      else if (block pg).magic ≠ nvmMagic then (0, pg)
      else scan block readError left (pg + 1)

/-- The loop of `oxb_bbt_byte_load`, which also copies the table of each page. -/
def loadScan (conf : Conf) (block : Block) (readError : Option Nat) :
    Nat → Nat → Table conf → Int × Nat × Table conf
  | 0, pg, tbl => (0, pg, tbl)
  | left + 1, pg, tbl =>
      if readError = some pg then (-1, pg, tbl)
      else if (block pg).magic ≠ nvmMagic then (0, pg, tbl)
      else loadScan conf block readError left (pg + 1) (tableOf conf (block pg))

/-- An operation of the media manager.  A failed one leaves the pages in any state. -/
inductive Outcome (α : Type) where
  | ok
  | failed (left : α)

/-- What the media manager and the allocation of the buffer do in a flush. -/
structure FlushEnv where
  noIo : Bool := false
  readError : Option Nat := none
  erase : Outcome Block := .ok
  write : Bool := true
  retryErase : Outcome Block := .ok
  retryWrite : Outcome Page := .ok

/-- The write of the copy, and the second try behind an erase. -/
def writeCopy (block : Block) (pg : Nat) (tbl : Table conf) (env : FlushEnv) : Block × Int :=
  if env.write then (Function.update block pg (copyOf tbl), 0)
  else
    match env.retryErase with
    | .failed left => (left, -1)
    | .ok =>
        match env.retryWrite with
        | .ok => (Function.update (erasedBlock conf) 0 (copyOf tbl), 0)
        | .failed left => (Function.update (erasedBlock conf) 0 left, -1)

/-- `oxb_bbt_byte_flush`: the block and the return value. -/
def oxbBbtByteFlush (block : Block) (tbl : Table conf) (env : FlushEnv) : Block × Int :=
  if conf.bbSz > conf.pgSize ∨ env.noIo = true then (block, -1)
  else
    let (ret, pg) := scan block env.readError conf.pgPerBlk 0
    if ret ≠ 0 then (block, ret)
    else if pg = conf.pgPerBlk then
      match env.erase with
      -- `ret` is still that of the last read
      | .failed left => (left, ret)
      | .ok => writeCopy (erasedBlock conf) 0 tbl env
    else writeCopy block pg tbl env

/-- What a load leaves: the block, `byte.magic`, the table and the return value. -/
structure Loaded (conf : Conf) where
  block : Block
  magic : UInt32
  tbl : Table conf
  ret : Int

/-- `oxb_bbt_byte_load` -/
def oxbBbtByteLoad (block : Block) (magic : UInt32) (tbl : Table conf) (readError : Option Nat)
    (erase : Outcome Block) : Loaded conf :=
  if conf.bbSz > conf.pgSize then { block, magic, tbl, ret := -1 }
  else
    let (ret, pg, tbl) := loadScan conf block readError conf.pgPerBlk 0 tbl
    if ret ≠ 0 then { block, magic, tbl, ret }
    else if pg = 0 then
      match erase with
      | .ok => { block := erasedBlock conf, magic := nvmMagic, tbl, ret := 0 }
      | .failed left => { block := left, magic := nvmMagic, tbl, ret := -1 }
    else { block, magic := 0, tbl, ret }

/-! ## Runs -/

/-- The block, and the table of the last flush that returned zero. -/
structure State (conf : Conf) where
  block : Block
  flushed : Option (Table conf)

inductive Op (conf : Conf) where
  | flush (tbl : Table conf) (env : FlushEnv)
  | load (magic : UInt32) (tbl : Table conf) (readError : Option Nat) (erase : Outcome Block)

/-- Runs of flushes and loads, with any tables. -/
def bbtSystem (conf : Conf) : System (State conf) (Op conf) Unit where
  step
    | state, .flush tbl env =>
        let (block, ret) := oxbBbtByteFlush state.block tbl env
        ({ block, flushed := if ret = 0 then some tbl else state.flushed }, ())
    | state, .load magic tbl readError erase =>
        ({ state with block := (oxbBbtByteLoad state.block magic tbl readError erase).block }, ())

/-- A load whose reads succeed yields the table of the last flush that returned zero. -/
def Durable (state : State conf) : Prop :=
  ∀ tbl, state.flushed = some tbl → ∀ magic old erase,
    oxbBbtByteLoad state.block magic old none erase =
      { block := state.block, magic := 0, tbl := tbl, ret := 0 }

/-- The newest copy in the run of copies from a page on. -/
def newestFrom (conf : Conf) (block : Block) : Nat → Nat → Option (Table conf)
  | 0, _ => none
  | left + 1, pg =>
      if (block pg).magic = nvmMagic then
        some ((newestFrom conf block left (pg + 1)).getD (tableOf conf (block pg)))
      else none

/-- The newest copy of a block. -/
def newest (conf : Conf) (block : Block) : Option (Table conf) :=
  newestFrom conf block conf.pgPerBlk 0

/-- The second try succeeds, or there is no table to lose, or its copy is still the newest one. -/
def RetryHarmless (state : State conf) (env : FlushEnv) : Prop :=
  match env.retryErase with
  | .failed left => state.flushed = none ∨ newest conf left = state.flushed
  | .ok =>
      match env.retryWrite with
      | .ok => True
      | .failed left =>
          state.flushed = none ∨
            newest conf (Function.update (erasedBlock conf) 0 left) = state.flushed

/-- The condition on a flush that has found the end of the copies at a page. -/
def HarmlessAt (state : State conf) (tbl : Table conf) (env : FlushEnv) (pg : Nat) : Prop :=
  if pg = conf.pgPerBlk then
    match env.erase with
    | .failed left => newest conf left = some tbl
    | .ok => env.write = true ∨ RetryHarmless state env
  else if env.write then
    ∀ other, newestFrom conf state.block (conf.pgPerBlk - (pg + 1)) (pg + 1) = some other →
      other = tbl
  else RetryHarmless state env

/-- The erase of a full block does not fail, except when the table is still the newest copy; no
copy of another table follows the page that is written; and a flush does not fail in its second try,
except when the newest copy is the one that it should be. -/
def Harmless (state : State conf) : Op conf → Prop
  | .flush tbl env =>
      conf.bbSz ≤ conf.pgSize → env.noIo = false →
        (scan state.block env.readError conf.pgPerBlk 0).1 = 0 →
          HarmlessAt state tbl env (scan state.block env.readError conf.pgPerBlk 0).2
  | .load .. => True

/-! ## Copies -/

variable {block : Block} {tbl old : Table conf} {left pg : Nat}

theorem tableOf_copyOf (tbl : Table conf) : tableOf conf (copyOf tbl) = tbl := by
  funext i
  exact dif_pos i.isLt

section Loops

variable {readError : Option Nat}

theorem scan_copy (read : readError ≠ some pg) (copy : (block pg).magic = nvmMagic) :
    scan block readError (left + 1) pg = scan block readError left (pg + 1) := by
  rw [scan, if_neg read, if_neg (not_not_intro copy)]

theorem scan_end (read : readError ≠ some pg) (other : (block pg).magic ≠ nvmMagic) :
    scan block readError (left + 1) pg = (0, pg) := by
  rw [scan, if_neg read, if_pos other]

theorem scan_fails : (scan block (some pg) (left + 1) pg).1 ≠ 0 := by
  rw [scan, if_pos rfl]
  exact Int.neg_ne_zero.mpr Int.one_ne_zero

theorem newestFrom_copy (copy : (block pg).magic = nvmMagic) :
    newestFrom conf block (left + 1) pg =
      some ((newestFrom conf block left (pg + 1)).getD (tableOf conf (block pg))) := by
  rw [newestFrom, if_pos copy]

theorem newestFrom_end (other : (block pg).magic ≠ nvmMagic) :
    newestFrom conf block (left + 1) pg = none := by
  rw [newestFrom, if_neg other]

theorem newestFrom_erased (left pg : Nat) : newestFrom conf (erasedBlock conf) left pg = none := by
  cases left with
  | zero => rfl
  | succ left => exact newestFrom_end conf.erased_magic

/-- A scan without a failed read ends behind the copies, wherever a later read would fail. -/
theorem scan_none (ok : (scan block readError left pg).1 = 0) :
    scan block readError left pg = scan block none left pg := by
  induction left generalizing pg with
  | zero => rfl
  | succ left ih =>
      have read : readError ≠ some pg := by
        rintro rfl
        exact scan_fails ok
      by_cases copy : (block pg).magic = nvmMagic
      · rw [scan_copy read copy] at ok
        rw [scan_copy read copy, scan_copy (Option.some_ne_none pg).symm copy]
        exact ih ok
      · rw [scan_end read copy, scan_end (Option.some_ne_none pg).symm copy]

end Loops

theorem le_scan (block : Block) (left pg : Nat) : pg ≤ (scan block none left pg).2 := by
  induction left generalizing pg with
  | zero => exact Nat.le_refl _
  | succ left ih =>
      by_cases copy : (block pg).magic = nvmMagic
      · rw [scan_copy (Option.some_ne_none pg).symm copy]
        exact Nat.le_trans (Nat.le_succ pg) (ih (pg + 1))
      · have ends : scan block none (left + 1) pg = (0, pg) :=
          scan_end (Option.some_ne_none pg).symm copy
        exact Nat.le_of_eq (congrArg Prod.snd ends).symm

theorem scan_le (block : Block) (left pg : Nat) : (scan block none left pg).2 ≤ pg + left := by
  induction left generalizing pg with
  | zero => exact Nat.le_refl _
  | succ left ih =>
      by_cases copy : (block pg).magic = nvmMagic
      · have later := ih (pg + 1)
        rw [Nat.add_assoc, Nat.add_comm 1 left] at later
        rw [scan_copy (Option.some_ne_none pg).symm copy]
        exact later
      · rw [scan_end (Option.some_ne_none pg).symm copy]
        exact Nat.le_add_right _ _

/-- The load copies the newest table, and keeps the old one when there is none. -/
theorem loadScan_eq (block : Block) (left pg : Nat) (old : Table conf) :
    loadScan conf block none left pg old =
      (0, (scan block none left pg).2, (newestFrom conf block left pg).getD old) := by
  induction left generalizing pg old with
  | zero => rfl
  | succ left ih =>
      have read : none ≠ some pg := (Option.some_ne_none pg).symm
      by_cases copy : (block pg).magic = nvmMagic
      · rw [loadScan, if_neg read, if_neg (not_not_intro copy), scan_copy read copy,
          newestFrom_copy copy, ih]
        rfl
      · rw [loadScan, if_neg read, if_pos copy, scan_end read copy, newestFrom_end copy]
        rfl

theorem scan_eq_iff (block : Block) (left pg : Nat) :
    (scan block none left pg).2 = pg ↔ newestFrom conf block left pg = none := by
  cases left with
  | zero => exact iff_of_true rfl rfl
  | succ left =>
      have read : none ≠ some pg := (Option.some_ne_none pg).symm
      by_cases copy : (block pg).magic = nvmMagic
      · rw [scan_copy read copy, newestFrom_copy copy]
        exact iff_of_false (Nat.ne_of_gt (le_scan block left (pg + 1))) (Option.some_ne_none _)
      · rw [scan_end read copy, newestFrom_end copy]
        exact iff_of_true rfl rfl

/-- A page in front of the others is not read. -/
theorem newestFrom_update_of_lt (page : Page) {at' : Nat} (lt : at' < pg) :
    newestFrom conf (Function.update block at' page) left pg = newestFrom conf block left pg := by
  induction left generalizing pg with
  | zero => rfl
  | succ left ih =>
      rw [newestFrom, newestFrom, Function.update_of_ne (Nat.ne_of_gt lt),
        ih (Nat.lt_succ_of_lt lt)]

/-- The page behind the copies becomes a copy, and what follows it is read too. -/
theorem newestFrom_update (tbl : Table conf) (lt : (scan block none left pg).2 < pg + left) :
    newestFrom conf (Function.update block (scan block none left pg).2 (copyOf tbl)) left pg =
      some ((newestFrom conf block (pg + left - ((scan block none left pg).2 + 1))
        ((scan block none left pg).2 + 1)).getD tbl) := by
  induction left generalizing pg with
  | zero => exact absurd lt (Nat.lt_irrefl _)
  | succ left ih =>
      by_cases copy : (block pg).magic = nvmMagic
      · rw [scan_copy (Option.some_ne_none pg).symm copy] at lt ⊢
        have differ : pg ≠ (scan block none left (pg + 1)).2 :=
          Nat.ne_of_lt (le_scan block left (pg + 1))
        have length : pg + (left + 1) = pg + 1 + left := by
          rw [Nat.add_assoc, Nat.add_comm 1 left]
        rw [length] at lt ⊢
        have kept : (Function.update block (scan block none left (pg + 1)).2
          (copyOf tbl) pg).magic =
            nvmMagic := by
          rw [Function.update_of_ne differ]
          exact copy
        rw [newestFrom_copy kept, ih lt]
        rfl
      · have written : (Function.update block pg (copyOf tbl) pg).magic = nvmMagic := by
          rw [Function.update_self]
          rfl
        have length : pg + (left + 1) - (pg + 1) = left := by
          rw [Nat.add_comm left 1, ← Nat.add_assoc, Nat.add_sub_cancel_left]
        rw [scan_end (Option.some_ne_none pg).symm copy, newestFrom_copy written, length,
          newestFrom_update_of_lt _ (Nat.lt_succ_self pg), Function.update_self, tableOf_copyOf]

/-- A copy on an erased block is the newest one. -/
theorem newest_erased_update (tbl : Table conf) :
    newest conf (Function.update (erasedBlock conf) 0 (copyOf tbl)) = some tbl := by
  obtain ⟨n, length⟩ := Nat.exists_eq_succ_of_ne_zero (Nat.ne_of_gt conf.pos)
  have written : (Function.update (erasedBlock conf) 0 (copyOf tbl) 0).magic = nvmMagic := by
    rw [Function.update_self]
    rfl
  rw [newest, length, newestFrom_copy written, newestFrom_update_of_lt _ Nat.zero_lt_one,
    newestFrom_erased, Function.update_self, tableOf_copyOf]
  rfl

/-! ## Loads -/

theorem loadScan_fst (block : Block) (readError : Option Nat) (left pg : Nat) (old : Table conf) :
    (loadScan conf block readError left pg old).1 = (scan block readError left pg).1 ∧
      (loadScan conf block readError left pg old).2.1 = (scan block readError left pg).2 := by
  induction left generalizing pg old with
  | zero => exact ⟨rfl, rfl⟩
  | succ left ih =>
      rw [loadScan, scan]
      split
      · exact ⟨rfl, rfl⟩
      · split
        · exact ⟨rfl, rfl⟩
        · exact ih (pg + 1) _

variable {state : State conf} {magic : UInt32} {erase : Outcome Block}

theorem scan_ne_zero (found : newest conf block = some tbl) :
    (scan block none conf.pgPerBlk 0).2 ≠ 0 := by
  intro stays
  have none' : newest conf block = none := (scan_eq_iff block conf.pgPerBlk 0).mp stays
  rw [found] at none'
  cases none'

/-- A load of a block with a copy. -/
theorem load_of_newest (fits : conf.bbSz ≤ conf.pgSize) (found : newest conf block = some tbl) :
    oxbBbtByteLoad block magic old none erase = { block, magic := 0, tbl, ret := 0 } := by
  have moved := scan_ne_zero found
  rw [newest] at found
  rw [oxbBbtByteLoad, if_neg (Nat.not_lt.mpr fits)]
  simp only [loadScan_eq, found, Option.getD_some, ne_eq, not_true_eq_false, if_false, if_neg moved]

/-- A load of a block without a copy says that the block is new. -/
theorem load_magic_of_none (fits : conf.bbSz ≤ conf.pgSize) (none' : newest conf block = none) :
    (oxbBbtByteLoad block magic old none .ok).magic = nvmMagic := by
  have stays : (scan block none conf.pgPerBlk 0).2 = 0 :=
    (scan_eq_iff block conf.pgPerBlk 0).mpr none'
  rw [oxbBbtByteLoad, if_neg (Nat.not_lt.mpr fits)]
  simp only [loadScan_eq, ne_eq, not_true_eq_false, if_false, if_pos stays]

theorem durable_iff (fits : conf.bbSz ≤ conf.pgSize) (state : State conf) :
    Durable state ↔ state.flushed = none ∨ newest conf state.block = state.flushed := by
  constructor
  · intro durable
    cases flushed : state.flushed with
    | none => exact Or.inl rfl
    | some tbl =>
        right
        have loads := durable tbl flushed 0
        cases found : newest conf state.block with
        | none =>
            have new : (oxbBbtByteLoad state.block 0 tbl none .ok).magic = nvmMagic :=
              load_magic_of_none fits found
            rw [loads tbl .ok] at new
            exact absurd new zero_ne_magic
        | some other =>
            have yields := loads tbl .ok
            rw [load_of_newest fits found] at yields
            exact congrArg some (Loaded.mk.inj yields).2.2.1
  · rintro (none | found) tbl flushed magic old erase
    · rw [none] at flushed
      cases flushed
    · rw [flushed] at found
      exact load_of_newest fits found

/-- A load leaves a block that has a copy. -/
theorem load_block (found : newest conf block = some tbl) (readError : Option Nat) :
    (oxbBbtByteLoad block magic old readError erase).block = block := by
  rw [oxbBbtByteLoad]
  split
  · rfl
  · obtain ⟨first, second⟩ := loadScan_fst block readError conf.pgPerBlk 0 old
    simp only
    split
    · rfl
    · rename_i ok
      rw [first] at ok
      rw [second, scan_none (not_not.mp ok), if_neg (scan_ne_zero found)]

/-! ## Flushes -/

/-- The state behind a write of the copy. -/
theorem writeCopy_durable_iff (fits : conf.bbSz ≤ conf.pgSize) (state : State conf) (block : Block)
    (pg : Nat) (tbl : Table conf) (env : FlushEnv) :
    Durable
        ({ block := (writeCopy block pg tbl env).1
           flushed := if (writeCopy block pg tbl env).2 = 0 then some tbl else state.flushed } :
          State conf) ↔
      if env.write then newest conf (Function.update block pg (copyOf tbl)) = some tbl
      else RetryHarmless state env := by
  rw [durable_iff fits, writeCopy]
  split
  · simp
  · rw [RetryHarmless]
    cases env.retryErase with
    | failed left => simp
    | ok =>
        cases env.retryWrite with
        | ok => simp [newest_erased_update]
        | failed left => simp

/-- The write behind the copies of the block. -/
theorem newest_update_iff (more : (scan block none conf.pgPerBlk 0).2 ≠ conf.pgPerBlk) :
    newest conf (Function.update block (scan block none conf.pgPerBlk 0).2 (copyOf tbl)) =
      some tbl ↔
      ∀ other, newestFrom conf block (conf.pgPerBlk - ((scan block none conf.pgPerBlk 0).2 + 1))
        ((scan block none conf.pgPerBlk 0).2 + 1) = some other → other = tbl := by
  have le := scan_le block conf.pgPerBlk 0
  rw [Nat.zero_add] at le
  have lt : (scan block none conf.pgPerBlk 0).2 < 0 + conf.pgPerBlk := by
    rw [Nat.zero_add]
    exact Nat.lt_of_le_of_ne le more
  rw [newest, newestFrom_update tbl lt, Nat.zero_add]
  cases newestFrom conf block (conf.pgPerBlk - ((scan block none conf.pgPerBlk 0).2 + 1))
      ((scan block none conf.pgPerBlk 0).2 + 1) with
  | none => simp
  | some other => simp

theorem flush_durable_iff (durable : Durable state) (tbl : Table conf) (env : FlushEnv) :
    Durable ((bbtSystem conf).step state (.flush tbl env)).1 ↔ Harmless state (.flush tbl env) := by
  simp only [bbtSystem, Harmless, oxbBbtByteFlush]
  by_cases refused : conf.bbSz > conf.pgSize ∨ env.noIo = true
  · refine iff_of_true ?_ fun fits noIo => ?_
    · rw [if_pos refused]
      exact durable
    · rcases refused with large | none
      · exact absurd fits (Nat.not_le.mpr large)
      · rw [noIo] at none
        cases none
  · obtain ⟨small, io⟩ := not_or.mp refused
    have fits := Nat.not_lt.mp small
    rw [if_neg refused]
    by_cases ok : (scan state.block env.readError conf.pgPerBlk 0).1 = 0
    · have scanned := scan_none ok
      simp only [fits, Bool.eq_false_iff.mpr io, ok, forall_const, ne_eq, not_true_eq_false,
        if_false, HarmlessAt]
      by_cases full : (scan state.block env.readError conf.pgPerBlk 0).2 = conf.pgPerBlk
      · rw [if_pos full, if_pos full]
        cases env.erase with
        | failed left =>
            rw [durable_iff fits]
            simp
        | ok =>
            rw [writeCopy_durable_iff fits, newest_erased_update]
            cases env.write <;> simp
      · rw [if_neg full, if_neg full]
        rw [scanned] at full ⊢
        rw [writeCopy_durable_iff fits, newest_update_iff full]
    · refine iff_of_true ?_ fun _ _ again => absurd again ok
      simp only [ne_eq, ok, not_false_eq_true, if_true, if_false]
      exact durable

theorem load_durable (durable : Durable state) (tbl : Table conf) (readError : Option Nat) :
    Durable ((bbtSystem conf).step state (.load magic tbl readError erase)).1 := by
  cases flushed : state.flushed with
  | none =>
      intro other found
      simp only [bbtSystem, flushed] at found
      cases found
  | some newTbl =>
      by_cases fits : conf.bbSz ≤ conf.pgSize
      · have found := ((durable_iff fits state).mp durable).resolve_left (by simp [flushed])
        rw [flushed] at found
        simp only [bbtSystem, load_block found]
        exact durable
      · have kept : (oxbBbtByteLoad state.block magic tbl readError erase).block = state.block := by
          rw [oxbBbtByteLoad, if_pos (Nat.not_le.mp fits)]
        simp only [bbtSystem, kept]
        exact durable

/-- One step of a run. -/
theorem step_durable_iff (durable : Durable state) (op : Op conf) :
    Durable ((bbtSystem conf).step state op).1 ↔ Harmless state op := by
  cases op with
  | flush tbl env => exact flush_durable_iff durable tbl env
  | load magic tbl readError erase =>
      exact iff_of_true (load_durable durable tbl readError) trivial

/-- From any state of the block, every flush that returned zero is durable through a run exactly
when the flushes of the run are harmless. -/
theorem flushes_durable_iff (conf : Conf) (block : Block) (ops : List (Op conf)) :
    (∀ before, before <+: ops →
        Durable ((bbtSystem conf).run { block := block, flushed := none } before)) ↔
      (bbtSystem conf).Allowed Harmless { block := block, flushed := none } ops :=
  (bbtSystem conf).forall_prefix_iff_allowed Harmless Durable Durable
    (fun _ op harmless durable => (step_durable_iff durable op).mpr harmless)
    (fun _ durable => durable)
    (fun _ op harmful durable => fun after => harmful ((step_durable_iff durable op).mp after))
    (fun _ none => by cases none) ops

/-! ## Failed erase of the full block -/

theorem two_le : 2 ≤ 4096 := by
  decide

/-- A block of two pages that are zero behind an erase, and a table of one byte. -/
def twoPages : Conf where
  pgPerBlk := 2
  pgSize := 1
  bbSz := 1
  erased := { magic := 0, data := fun _ => 0 }
  pos := Nat.two_pos
  pg_le := two_le
  erased_magic := zero_ne_magic

/-- The block with the first table in its first page and the second one in the other. -/
def twoCopies : Block :=
  fun pg => copyOf fun _ : Fin twoPages.bbSz => if pg = 0 then 1 else 2

/-- Three flushes.  The third one finds the block full, and its erase fails and leaves the block as
it is. -/
def thirdFlush : List (Op twoPages) :=
  [.flush (fun _ => 1) {}, .flush (fun _ => 2) {},
    .flush (fun _ => 3) { erase := .failed twoCopies }]

/-- The third flush returns zero, and a load yields the second table. -/
theorem failed_erase_not_durable :
    (∀ pg < 2, ((bbtSystem twoPages).run ⟨erasedBlock twoPages, none⟩
      (thirdFlush.take 2)).block pg = twoCopies pg) ∧
    ((bbtSystem twoPages).run ⟨erasedBlock twoPages, none⟩ thirdFlush).flushed = some (fun _ => 3) ∧
      ¬ Durable ((bbtSystem twoPages).run ⟨erasedBlock twoPages, none⟩ thirdFlush) := by
  refine ⟨fun pg lt => ?_, rfl, fun durable => ?_⟩
  · rcases Nat.le_one_iff_eq_zero_or_eq_one.mp (Nat.le_of_lt_succ lt) with rfl | rfl
    · rfl
    · rfl
  · have loads := durable (fun _ => 3) rfl 0 (fun _ => 0) .ok
    have byte := congrArg (fun loaded => loaded.tbl (0 : Fin 1)) loads
    exact absurd byte (by decide)

end OxCtrl.Bbtbl
