import OxCtrl.BlkMd
import OxCtrl.Gc.Core
import OxCtrl.Lib.System
import OxCtrl.SeqTransfer

/-!
# Persistence of the block metadata

`oxb_blk_md_flush` writes the dirty pages of the block metadata table of a channel and
keeps their addresses in the tiny table, which the checkpoint carries over.
`oxb_blk_md_load` reads the pages back.  Both cut the last page at `entries % ent_per_pg`
entries, which is zero when all the pages are full.
-/

namespace OxCtrl.MdFlush

open OxCtrl.Lib OxCtrl.SeqTransfer OxCtrl.Gc

/-! ## Model -/

/-- The channel: its geometry and the sizes of a page and of a table entry. -/
structure MdConf where
  geo : Geometry
  appChId : Nat
  pgSize : Nat
  entrySz : Nat
  entry_pos : 0 < entrySz
  entry_le : entrySz ≤ pgSize

namespace MdConf

/-- `tblks`: entries of the table. -/
def entries (conf : MdConf) : Nat :=
  conf.geo.blkPerLun * conf.geo.lunPerCh

/-- `ent_per_pg`. -/
def entPerPg (conf : MdConf) : Nat :=
  conf.pgSize / conf.entrySz * conf.geo.nOfPlanes

/-- `tiny_sz`: pages of the table. -/
def tinySz (conf : MdConf) : Nat :=
  conf.entries / conf.entPerPg + if conf.entries % conf.entPerPg ≠ 0 then 1 else 0

/-- The units of a transfer are whole entries. -/
def layout (conf : MdConf) : Layout where
  nPl := conf.geo.nOfPlanes
  entPerPg := conf.entPerPg
  entrySz := 1
  pl_pos := conf.geo.pl_pos
  aligned := Nat.dvd_mul_left ..

/-- Entries of a page that are transferred. -/
def pgEntries (conf : MdConf) (entI : Nat) : Nat :=
  if entI = conf.tinySz - 1 then conf.entries % conf.entPerPg else conf.entPerPg

end MdConf

/-- `struct app_blk_md`, with the pages on the medium. -/
structure MdTable where
  tbl : Nat → BlkMdEntry
  tiny : Nat → Nat
  dirty : Nat → Bool
  medium : Nat → PgIo BlkMdEntry SecOob

variable (conf : MdConf)

/-- `oxb_blk_md_create`: the addresses of the blocks, and every page is dirty. -/
def oxbBlkMdCreate (table : MdTable) : MdTable :=
  { table with
    tbl := fun i =>
      { ppa := Ppa.sector conf.appChId (i / conf.geo.blkPerLun) (i % conf.geo.blkPerLun) 0 0 0 }
    dirty := fun _ => true }

/-- `oxb_blk_md_mark`. -/
def oxbBlkMdMark (table : MdTable) (index : Nat) : MdTable :=
  { table with dirty := Function.update table.dirty index true }

/-- A change of an entry whose page is marked. -/
def changeEntry (table : MdTable) (change : Nat × BlkMdEntry) : MdTable :=
  oxbBlkMdMark { table with tbl := Function.update table.tbl change.1 change.2 }
    (change.1 / conf.entPerPg)

/-- The write of a page: the address that provisioning hands out, and the changes of the
table between the copy of the page and the update of the tiny table.  They are those of
provisioning itself, the invalidation of the old page and what other threads do. -/
structure PgWrite where
  addr : Nat
  changes : List (Nat × BlkMdEntry)

/-- `oxb_blk_md_nvm_write`: the medium after the transfer of a page. -/
def oxbBlkMdNvmWrite (medium : Nat → PgIo BlkMdEntry SecOob) (buf : Nat → BlkMdEntry)
    (entI addr : Nat) : Nat → PgIo BlkMdEntry SecOob :=
  let io : PgIo BlkMdEntry SecOob :=
    ⟨fun _ _ => {}, ⟨conf.tinySz * conf.appChId + entI, .blkMd⟩⟩
  (transferTo conf.layout addr buf 1 0 (conf.pgEntries entI) io medium).1

/-- The new address of a page, which is not dirty any more. -/
def MdTable.setTiny (table : MdTable) (entI addr : Nat) : MdTable :=
  { table with
    tiny := Function.update table.tiny entI addr
    dirty := Function.update table.dirty entI false }

/-- The loop body of `oxb_blk_md_flush`, with the page buffer. -/
def flushPage (write : PgWrite) (entI : Nat) (table : MdTable) (buf : Nat → BlkMdEntry) :
    MdTable × (Nat → BlkMdEntry) :=
  if table.dirty entI then
    let buf := fun x =>
      if x < conf.pgEntries entI then table.tbl (entI * conf.entPerPg + x) else buf x
    let table :=
      { table with medium := oxbBlkMdNvmWrite conf table.medium buf entI write.addr }
    let table := write.changes.foldl (changeEntry conf) table
    (table.setTiny entI write.addr, buf)
  else (table, buf)

/-- The loop of `oxb_blk_md_flush`, `left` pages from page `entI` on. -/
def flushLoop (writes : Nat → PgWrite) : Nat → Nat → MdTable → (Nat → BlkMdEntry) → MdTable
  | 0, _, table, _ => table
  | left + 1, entI, table, buf =>
      let (table, buf) := flushPage conf (writes entI) entI table buf
      flushLoop writes left (entI + 1) table buf

/-- `oxb_blk_md_flush`. -/
def oxbBlkMdFlush (writes : Nat → PgWrite) (table : MdTable) : MdTable :=
  flushLoop conf writes conf.tinySz 0 table fun _ => {}

/-- The loop of `oxb_blk_md_load`: the table, or nothing when an address is zero. -/
def loadLoop (tiny : Nat → Nat) (medium : Nat → PgIo BlkMdEntry SecOob) :
    Nat → Nat → (Nat → BlkMdEntry) → Option (Nat → BlkMdEntry)
  | 0, _, tbl => some tbl
  | left + 1, entI, tbl =>
      if tiny entI ≠ 0 then
        let off := entI * conf.entPerPg
        let entLeft :=
          if entI < conf.tinySz - 1 then conf.entPerPg else conf.entries % conf.entPerPg
        let mdEnts := transferFrom conf.layout (tiny entI) medium 1 0 entLeft
          fun x => tbl (off + x)
        loadLoop tiny medium left (entI + 1)
          fun x => if off ≤ x then mdEnts (x - off) else tbl x
      else none

/-- `oxb_blk_md_load` into a zeroed table. -/
def oxbBlkMdLoad (tiny : Nat → Nat) (medium : Nat → PgIo BlkMdEntry SecOob) :
    Option (Nat → BlkMdEntry) :=
  loadLoop conf tiny medium conf.tinySz 0 fun _ => {}

/-- `app_init_blk_md`: the table is loaded, or created where there is none. -/
def appInitBlkMd (reset : Bool) (table : MdTable) : MdTable :=
  match oxbBlkMdLoad conf table.tiny table.medium with
  | some tbl =>
      if reset then oxbBlkMdCreate conf { table with tbl := tbl }
      else { table with tbl := tbl, dirty := fun _ => false }
  | none => oxbBlkMdCreate conf table

/-- Operations on the table. -/
inductive MdOp where
  | change (index : Nat) (entry : BlkMdEntry)
  | flush (writes : Nat → PgWrite)
  | restart (reset : Bool)

/-- Runs of operations. -/
def mdSystem : System MdTable MdOp Unit where
  step table
    | .change index entry => (changeEntry conf table (index, entry), ())
    | .flush writes => (oxbBlkMdFlush conf writes table, ())
    | .restart reset => (appInitBlkMd conf reset table, ())

/-- The table of a new device. -/
def MdTable.init : MdTable :=
  oxbBlkMdCreate conf
    ⟨fun _ => {}, fun _ => 0, fun _ => false, fun _ => ⟨fun _ _ => {}, ⟨0, .unknown⟩⟩⟩

/-! ## Pages -/

variable {conf}

theorem MdConf.entPerPg_pos (conf : MdConf) : 0 < conf.entPerPg :=
  Nat.mul_pos (Nat.div_pos conf.entry_le conf.entry_pos) conf.geo.pl_pos

theorem MdConf.entries_pos (conf : MdConf) : 0 < conf.entries :=
  Nat.mul_pos conf.geo.blk_pos conf.geo.lun_pos

theorem MdConf.pgEntries_le (conf : MdConf) (entI : Nat) :
    conf.pgEntries entI ≤ conf.entPerPg := by
  rw [MdConf.pgEntries]
  split
  · exact (Nat.mod_lt _ conf.entPerPg_pos).le
  · exact Nat.le_refl _

/-- Entry `i` stands on page `i / ent_per_pg`. -/
theorem MdConf.page_lt (conf : MdConf) {i : Nat} (lt : i < conf.entries) :
    i / conf.entPerPg < conf.tinySz := by
  have pos := conf.entPerPg_pos
  have split := Nat.div_add_mod conf.entries conf.entPerPg
  rw [MdConf.tinySz]
  by_cases rest : conf.entries % conf.entPerPg = 0
  · rw [if_neg (not_not.mpr rest), Nat.add_zero, Nat.div_lt_iff_lt_mul pos, Nat.mul_comm]
    omega
  · rw [if_pos rest, Nat.lt_succ_iff]
    exact Nat.div_le_div_right lt.le

/-- Without a remainder the last page is full; with one, every entry is transferred. -/
theorem MdConf.mod_lt_pgEntries_iff (conf : MdConf) {i : Nat} (lt : i < conf.entries) :
    i % conf.entPerPg < conf.pgEntries (i / conf.entPerPg) ↔
      conf.entries % conf.entPerPg ≠ 0 ∨ i / conf.entPerPg ≠ conf.tinySz - 1 := by
  have pos := conf.entPerPg_pos
  have inPage := Nat.mod_lt i pos
  have whole := Nat.div_add_mod conf.entries conf.entPerPg
  have place := Nat.div_add_mod i conf.entPerPg
  rw [MdConf.pgEntries]
  by_cases last : i / conf.entPerPg = conf.tinySz - 1
  · rw [if_pos last]
    constructor
    · intro less
      exact Or.inl (by omega)
    · rintro (rest | other)
      · have page : i / conf.entPerPg = conf.entries / conf.entPerPg := by
          rw [last, MdConf.tinySz, if_pos rest, Nat.add_sub_cancel]
        rw [page] at place
        omega
      · exact absurd last other
  · rw [if_neg last]
    constructor
    · exact fun _ => Or.inr last
    · exact fun _ => inPage

/-- The page on the medium holds the entries that are transferred. -/
def PageOn (conf : MdConf) (table : MdTable) (pg : Nat) : Prop :=
  table.tiny pg ≠ 0 ∧ ∀ k < conf.pgEntries pg,
    unitAt conf.layout (table.medium (table.tiny pg)).planes k =
      table.tbl (pg * conf.entPerPg + k)

/-- Every page that is not dirty is on the medium. -/
def MdInv (conf : MdConf) (table : MdTable) : Prop :=
  ∀ pg < conf.tinySz, table.dirty pg = true ∨ PageOn conf table pg

/-- A page that changes leave alone. -/
def Untouched (conf : MdConf) (table table' : MdTable) (pg : Nat) : Prop :=
  table'.dirty pg = table.dirty pg ∧ ∀ k < conf.entPerPg,
    table'.tbl (pg * conf.entPerPg + k) = table.tbl (pg * conf.entPerPg + k)

theorem changeEntry_other (table : MdTable) (change : Nat × BlkMdEntry) {pg : Nat}
    (other : change.1 / conf.entPerPg ≠ pg) :
    Untouched conf table (changeEntry conf table change) pg := by
  constructor
  · exact Function.update_of_ne (Ne.symm other) _ _
  · intro k lt
    apply Function.update_of_ne
    intro same
    apply other
    rw [← same, Nat.mul_comm, Nat.mul_add_div conf.entPerPg_pos, Nat.div_eq_of_lt lt, Nat.add_zero]

theorem Untouched.trans {first second third : MdTable} {pg : Nat}
    (before : Untouched conf first second pg) (after : Untouched conf second third pg) :
    Untouched conf first third pg :=
  ⟨after.1.trans before.1, fun k lt => (after.2 k lt).trans (before.2 k lt)⟩

/-- Changes mark the pages that they touch, and keep the medium. -/
theorem changes_spec (changes : List (Nat × BlkMdEntry)) (table : MdTable) :
    (changes.foldl (changeEntry conf) table).tiny = table.tiny ∧
      (changes.foldl (changeEntry conf) table).medium = table.medium ∧
      ∀ pg, (changes.foldl (changeEntry conf) table).dirty pg = true ∨
        Untouched conf table (changes.foldl (changeEntry conf) table) pg := by
  induction changes generalizing table with
  | nil => exact ⟨rfl, rfl, fun pg => Or.inr ⟨rfl, fun _ _ => rfl⟩⟩
  | cons change changes ih =>
      obtain ⟨tiny, medium, pages⟩ := ih (changeEntry conf table change)
      refine ⟨tiny, medium, fun pg => ?_⟩
      rcases pages pg with marked | untouched
      · exact Or.inl marked
      · by_cases here : change.1 / conf.entPerPg = pg
        · apply Or.inl
          rw [List.foldl_cons, untouched.1, ← here]
          exact Function.update_self ..
        · exact Or.inr ((changeEntry_other table change here).trans untouched)

theorem changes_other (changes : List (Nat × BlkMdEntry)) (table : MdTable) {pg : Nat}
    (other : ∀ change ∈ changes, change.1 / conf.entPerPg ≠ pg) :
    Untouched conf table (changes.foldl (changeEntry conf) table) pg := by
  induction changes generalizing table with
  | nil => exact ⟨rfl, fun _ _ => rfl⟩
  | cons change changes ih =>
      have here := other change List.mem_cons_self
      have later := ih (changeEntry conf table change) fun next mem =>
        other next (List.mem_cons_of_mem change mem)
      exact (changeEntry_other table change here).trans later

/-- A page stays on the medium while it is not touched and its address is not written. -/
theorem PageOn.congr {table table' : MdTable} {pg : Nat} (page : PageOn conf table pg)
    (tiny : table'.tiny pg = table.tiny pg)
    (medium : table'.medium (table.tiny pg) = table.medium (table.tiny pg))
    (untouched : Untouched conf table table' pg) : PageOn conf table' pg := by
  constructor
  · rw [tiny]
    exact page.1
  · intro k lt
    rw [tiny, medium, untouched.2 k (lt_of_lt_of_le lt (conf.pgEntries_le pg))]
    exact page.2 k lt

/-! ## Flush -/

theorem nvmWrite_other (medium : Nat → PgIo BlkMdEntry SecOob) (buf : Nat → BlkMdEntry)
    (entI : Nat) {addr other : Nat} (ne : other ≠ addr) :
    oxbBlkMdNvmWrite conf medium buf entI addr other = medium other :=
  transferTo_frame _ _ _ _ _ _ _ (by omega)

theorem nvmWrite_page (medium : Nat → PgIo BlkMdEntry SecOob) (buf : Nat → BlkMdEntry)
    {entI addr k : Nat} (lt : k < conf.pgEntries entI) :
    unitAt conf.layout (oxbBlkMdNvmWrite conf medium buf entI addr addr).planes k = buf k := by
  have le := conf.pgEntries_le entI
  have spec := (@transferTo_spec _ _ conf.layout addr buf 1 0 (conf.pgEntries entI)
    ⟨fun _ _ => {}, ⟨conf.tinySz * conf.appChId + entI, .blkMd⟩⟩ medium 0 Nat.one_pos).2 k
  rw [Nat.zero_mul, Nat.sub_zero, Nat.add_zero, Nat.add_zero, Nat.mul_zero, Nat.zero_add] at spec
  apply spec
  change k < min conf.entPerPg (conf.pgEntries entI) * 1
  omega

/-- The addresses that provisioning hands out are new. -/
def Fresh (conf : MdConf) (table : MdTable) (writes : Nat → PgWrite) : Prop :=
  ∀ pg < conf.tinySz, (writes pg).addr ≠ 0 ∧
    ∀ other < conf.tinySz, other ≠ pg →
      table.tiny other ≠ (writes pg).addr ∧ (writes other).addr ≠ (writes pg).addr

/-- What changes while a page is written stands behind it. -/
def Quiet (conf : MdConf) (writes : Nat → PgWrite) : Prop :=
  ∀ pg < conf.tinySz, ∀ change ∈ (writes pg).changes, pg < change.1 / conf.entPerPg

/-- The flush of `start` has reached page `entI`. -/
structure Flushed (conf : MdConf) (writes : Nat → PgWrite) (start table : MdTable) (entI : Nat) :
    Prop where
  done : ∀ pg < entI, table.dirty pg = false ∧ PageOn conf table pg
  todo : ∀ pg, entI ≤ pg → pg < conf.tinySz → table.dirty pg = true ∨ PageOn conf table pg
  addr : ∀ pg, table.tiny pg = start.tiny pg ∨ table.tiny pg = (writes pg).addr

variable {writes : Nat → PgWrite} {start table : MdTable} {entI : Nat} {buf : Nat → BlkMdEntry}

/-- A page that is not dirty is passed. -/
theorem Flushed.clean (flushed : Flushed conf writes start table entI) (lt : entI < conf.tinySz)
    (clean : table.dirty entI = false) : Flushed conf writes start table (entI + 1) where
  done := by
    intro pg less
    rcases Nat.lt_succ_iff_lt_or_eq.mp less with before | rfl
    · exact flushed.done pg before
    · refine ⟨clean, ?_⟩
      rcases flushed.todo pg (Nat.le_refl pg) lt with dirty | page
      · rw [clean] at dirty
        cases dirty
      · exact page
  todo := fun pg le => flushed.todo pg (by omega)
  addr := flushed.addr

/-- The table before its tiny table is updated. -/
theorem flushPage_dirty (write : PgWrite) (dirty : table.dirty entI = true) :
    ∃ table', (flushPage conf write entI table buf).1 = table'.setTiny entI write.addr ∧
      table'.tiny = table.tiny ∧
      (∀ addr, addr ≠ write.addr → table'.medium addr = table.medium addr) ∧
      (∀ k < conf.pgEntries entI, unitAt conf.layout (table'.medium write.addr).planes k =
        table.tbl (entI * conf.entPerPg + k)) ∧
      (∀ pg, table'.dirty pg = true ∨ Untouched conf table table' pg) ∧
      ∀ pg, (∀ change ∈ write.changes, change.1 / conf.entPerPg ≠ pg) →
        Untouched conf table table' pg := by
  generalize isBuf : (fun x =>
    if x < conf.pgEntries entI then table.tbl (entI * conf.entPerPg + x) else buf x) = pgBuf
  generalize isNext : { table with
    medium := oxbBlkMdNvmWrite conf table.medium pgBuf entI write.addr } = next
  have medium : next.medium = oxbBlkMdNvmWrite conf table.medium pgBuf entI write.addr := by
    rw [← isNext]
  obtain ⟨tiny, sameMedium, pages⟩ := @changes_spec conf write.changes next
  refine ⟨write.changes.foldl (changeEntry conf) next, ?_, ?_, ?_, ?_, ?_, ?_⟩
  · rw [flushPage, if_pos dirty, ← isNext, ← isBuf]
  · rw [tiny, ← isNext]
  · intro addr ne
    rw [sameMedium, medium, nvmWrite_other _ _ _ ne]
  · intro k lt
    rw [sameMedium, medium, nvmWrite_page _ _ lt, ← isBuf]
    exact if_pos lt
  · intro pg
    have here := pages pg
    rw [← isNext] at here ⊢
    exact here
  · intro pg other
    have here := @changes_other conf write.changes next pg other
    rw [← isNext] at here ⊢
    exact here

theorem setTiny_other {pg addr : Nat} (ne : pg ≠ entI) :
    (table.setTiny entI addr).tiny pg = table.tiny pg ∧
      (table.setTiny entI addr).dirty pg = table.dirty pg :=
  ⟨Function.update_of_ne ne _ _, Function.update_of_ne ne _ _⟩

theorem setTiny_self {addr : Nat} :
    (table.setTiny entI addr).tiny entI = addr ∧ (table.setTiny entI addr).dirty entI = false :=
  ⟨Function.update_self .., Function.update_self ..⟩

/-- A dirty page is written. -/
theorem Flushed.write (flushed : Flushed conf writes start table entI) (lt : entI < conf.tinySz)
    (fresh : Fresh conf start writes) (quiet : Quiet conf writes)
    (dirty : table.dirty entI = true) :
    Flushed conf writes start (flushPage conf (writes entI) entI table buf).1 (entI + 1) := by
  obtain ⟨table', isTable, tiny, medium, page, pages, others⟩ :=
    @flushPage_dirty conf table entI buf (writes entI) dirty
  have before : ∀ pg ≤ entI, Untouched conf table table' pg := by
    intro pg le
    apply others
    intro change mem
    have behind := quiet entI lt change mem
    omega
  have kept : ∀ pg, pg ≠ entI → pg < conf.tinySz → PageOn conf table pg →
      Untouched conf table table' pg →
      PageOn conf (table'.setTiny entI (writes entI).addr) pg := by
    intro pg ne less old untouched
    have other : table.tiny pg ≠ (writes entI).addr := by
      rcases flushed.addr pg with same | own
      · rw [same]
        exact ((fresh entI lt).2 pg less ne).1
      · rw [own]
        exact ((fresh entI lt).2 pg less ne).2
    apply old.congr
    · rw [(setTiny_other ne).1, tiny]
    · exact medium _ other
    · exact ⟨(setTiny_other ne).2.trans untouched.1, untouched.2⟩
  rw [isTable]
  constructor
  case done =>
    intro pg less
    rcases Nat.lt_succ_iff_lt_or_eq.mp less with earlier | rfl
    · have ne : pg ≠ entI := earlier.ne
      have done := flushed.done pg earlier
      have untouched := before pg earlier.le
      exact ⟨((setTiny_other ne).2.trans untouched.1).trans done.1,
        kept pg ne (by omega) done.2 untouched⟩
    · refine ⟨setTiny_self.2, ?_⟩
      constructor
      · rw [setTiny_self.1]
        exact (fresh pg lt).1
      · intro k less
        have inPage := lt_of_lt_of_le less (conf.pgEntries_le pg)
        rw [setTiny_self.1]
        exact (page k less).trans ((before pg (Nat.le_refl pg)).2 k inPage).symm
  case todo =>
    intro pg le less
    have ne : pg ≠ entI := by omega
    rcases pages pg with marked | untouched
    · exact Or.inl ((setTiny_other ne).2.trans marked)
    · rcases flushed.todo pg (by omega) less with marked | old
      · exact Or.inl (((setTiny_other ne).2.trans untouched.1).trans marked)
      · exact Or.inr (kept pg ne less old untouched)
  case addr =>
    intro pg
    by_cases here : pg = entI
    · rw [here, setTiny_self.1]
      exact Or.inr rfl
    · rw [(setTiny_other here).1, tiny]
      exact flushed.addr pg

theorem Flushed.loop (fresh : Fresh conf start writes) (quiet : Quiet conf writes) (left : Nat)
    (flushed : Flushed conf writes start table entI) (all : entI + left = conf.tinySz) :
    Flushed conf writes start (flushLoop conf writes left entI table buf) conf.tinySz := by
  induction left generalizing entI table buf with
  | zero =>
      rw [Nat.add_zero] at all
      rw [← all]
      exact flushed
  | succ left ih =>
      have lt : entI < conf.tinySz := by omega
      have next : Flushed conf writes start (flushPage conf (writes entI) entI table buf).1
          (entI + 1) := by
        by_cases dirty : table.dirty entI = true
        · exact flushed.write lt fresh quiet dirty
        · rw [flushPage, if_neg dirty]
          exact flushed.clean lt (Bool.eq_false_iff.mpr dirty)
      exact ih next (by omega)

/-- After a flush, every page is on the medium. -/
theorem pageOn_flush (inv : MdInv conf table) (fresh : Fresh conf table writes)
    (quiet : Quiet conf writes) :
    ∀ pg < conf.tinySz, PageOn conf (oxbBlkMdFlush conf writes table) pg := by
  have begin : Flushed conf writes table table 0 :=
    ⟨fun pg lt => absurd lt (Nat.not_lt_zero pg), fun pg _ => inv pg, fun _ => Or.inl rfl⟩
  intro pg lt
  exact ((begin.loop fresh quiet conf.tinySz (Nat.zero_add _)).done pg lt).2

/-! ## Load -/

/-- What the medium holds of an entry: nothing beyond the entries that are transferred. -/
def stored (conf : MdConf) (table : MdTable) (i : Nat) : BlkMdEntry :=
  if i % conf.entPerPg < conf.pgEntries (i / conf.entPerPg) then
    unitAt conf.layout (table.medium (table.tiny (i / conf.entPerPg))).planes (i % conf.entPerPg)
  else {}

/-- One page of the table is replaced. -/
theorem loadPage (table : MdTable) (tbl : Nat → BlkMdEntry) (lt : entI < conf.tinySz) (x : Nat) :
    (if entI * conf.entPerPg ≤ x then
        transferFrom conf.layout (table.tiny entI) table.medium 1 0
          (if entI < conf.tinySz - 1 then conf.entPerPg else conf.entries % conf.entPerPg)
          (fun y => tbl (entI * conf.entPerPg + y)) (x - entI * conf.entPerPg)
      else tbl x) =
    if x / conf.entPerPg = entI ∧ x % conf.entPerPg < conf.pgEntries entI then
      unitAt conf.layout (table.medium (table.tiny entI)).planes (x % conf.entPerPg)
    else tbl x := by
  have pos := conf.entPerPg_pos
  have size : (if entI < conf.tinySz - 1 then conf.entPerPg
      else conf.entries % conf.entPerPg) = conf.pgEntries entI := by
    rw [MdConf.pgEntries]
    by_cases last : entI = conf.tinySz - 1
    · rw [if_neg (by omega), if_pos last]
    · rw [if_pos (by omega), if_neg last]
  have le := conf.pgEntries_le entI
  have page : conf.layout.pgEntSz = conf.entPerPg := Nat.mul_one _
  have range : min (1 * conf.layout.entPerPg) (conf.pgEntries entI) * conf.layout.entrySz =
      conf.pgEntries entI := by
    change min (1 * conf.entPerPg) (conf.pgEntries entI) * 1 = _
    omega
  rw [size]
  by_cases behind : entI * conf.entPerPg ≤ x
  · rw [if_pos behind, transferFrom_spec, Nat.mul_zero, Nat.zero_add, range, page]
    obtain ⟨y, rfl⟩ := Nat.exists_eq_add_of_le behind
    rw [Nat.add_sub_cancel_left, Nat.mul_comm, Nat.mul_add_div pos, Nat.mul_add_mod]
    by_cases inPage : y < conf.pgEntries entI
    · have less : y < conf.entPerPg := lt_of_lt_of_le inPage le
      rw [Nat.div_eq_of_lt less, Nat.mod_eq_of_lt less, if_pos ⟨Nat.zero_le y, inPage⟩,
        if_pos ⟨Nat.add_zero entI, inPage⟩, Nat.add_zero]
    · rw [if_neg (fun both => inPage both.2), if_neg]
      rintro ⟨same, less⟩
      have first : y / conf.entPerPg = 0 := by omega
      rw [Nat.mod_eq_of_lt ((Nat.div_eq_zero_iff_lt pos).mp first)] at less
      exact inPage less
  · rw [if_neg behind, if_neg]
    rintro ⟨same, -⟩
    apply behind
    rw [← same]
    exact Nat.div_mul_le_self x conf.entPerPg

theorem loadLoop_spec (table : MdTable) (left : Nat) (tbl : Nat → BlkMdEntry)
    (all : entI + left = conf.tinySz)
    (known : ∀ pg, entI ≤ pg → pg < conf.tinySz → table.tiny pg ≠ 0) :
    ∃ loaded, loadLoop conf table.tiny table.medium left entI tbl = some loaded ∧
      ∀ x, x / conf.entPerPg < conf.tinySz →
        loaded x = if entI ≤ x / conf.entPerPg ∧
            x % conf.entPerPg < conf.pgEntries (x / conf.entPerPg) then
          unitAt conf.layout (table.medium (table.tiny (x / conf.entPerPg))).planes
            (x % conf.entPerPg)
        else tbl x := by
  induction left generalizing entI tbl with
  | zero =>
      refine ⟨tbl, rfl, fun x lt => ?_⟩
      rw [if_neg (by omega)]
  | succ left ih =>
      have lt : entI < conf.tinySz := by omega
      obtain ⟨loaded, loads, entries⟩ := @ih (entI + 1) (fun x =>
        if entI * conf.entPerPg ≤ x then
          transferFrom conf.layout (table.tiny entI) table.medium 1 0
            (if entI < conf.tinySz - 1 then conf.entPerPg else conf.entries % conf.entPerPg)
            (fun y => tbl (entI * conf.entPerPg + y)) (x - entI * conf.entPerPg)
        else tbl x) (by omega) fun pg le => known pg (by omega)
      refine ⟨loaded, ?_, fun x less => ?_⟩
      · rw [loadLoop, if_pos (known entI (Nat.le_refl _) lt)]
        exact loads
      · rw [entries x less, loadPage table tbl lt]
        by_cases later : entI + 1 ≤ x / conf.entPerPg
        · have other : x / conf.entPerPg ≠ entI := by omega
          have reached : entI ≤ x / conf.entPerPg := by omega
          simp only [later, reached, other, true_and, false_and, if_false]
        · by_cases here : x / conf.entPerPg = entI
          · simp [here]
          · have before : ¬ entI ≤ x / conf.entPerPg := by omega
            simp only [later, before, here, false_and, if_false]

/-- The table that is loaded when every page has an address. -/
theorem oxbBlkMdLoad_eq (table : MdTable) (known : ∀ pg < conf.tinySz, table.tiny pg ≠ 0) :
    ∃ loaded, oxbBlkMdLoad conf table.tiny table.medium = some loaded ∧
      ∀ x, x / conf.entPerPg < conf.tinySz → loaded x = stored conf table x := by
  obtain ⟨loaded, loads, entries⟩ := @loadLoop_spec conf 0 table conf.tinySz (fun _ => {})
    (Nat.zero_add _) fun pg _ => known pg
  refine ⟨loaded, loads, fun x lt => ?_⟩
  rw [entries x lt, stored]
  simp only [Nat.zero_le, true_and]

theorem known_of_loadLoop (table : MdTable) (left : Nat) (tbl : Nat → BlkMdEntry)
    {loaded : Nat → BlkMdEntry}
    (loads : loadLoop conf table.tiny table.medium left entI tbl = some loaded) :
    ∀ pg, entI ≤ pg → pg < entI + left → table.tiny pg ≠ 0 := by
  induction left generalizing entI tbl with
  | zero =>
      intro pg le lt
      omega
  | succ left ih =>
      intro pg le lt
      rw [loadLoop] at loads
      split at loads
      case isTrue known =>
        rcases Nat.eq_or_lt_of_le le with rfl | later
        · exact known
        · exact ih _ loads pg later (by omega)
      case isFalse => cases loads

/-! ## Runs -/

theorem mdInv_create (table : MdTable) : MdInv conf (oxbBlkMdCreate conf table) :=
  fun _ _ => Or.inl rfl

theorem MdInv.change (inv : MdInv conf table) (change : Nat × BlkMdEntry) :
    MdInv conf (changeEntry conf table change) := by
  intro pg lt
  by_cases here : change.1 / conf.entPerPg = pg
  · apply Or.inl
    rw [← here]
    exact Function.update_self ..
  · have untouched := changeEntry_other table change here
    rcases inv pg lt with dirty | page
    · exact Or.inl (untouched.1.trans dirty)
    · exact Or.inr (page.congr rfl rfl untouched)

theorem mdInv_restart (table : MdTable) (reset : Bool) :
    MdInv conf (appInitBlkMd conf reset table) := by
  rw [appInitBlkMd]
  cases loads : oxbBlkMdLoad conf table.tiny table.medium with
  | none => exact mdInv_create table
  | some tbl =>
      cases reset with
      | true => exact mdInv_create _
      | false =>
          have known : ∀ pg < conf.tinySz, table.tiny pg ≠ 0 := by
            intro pg lt
            exact known_of_loadLoop table conf.tinySz _ loads pg (Nat.zero_le pg) (by omega)
          obtain ⟨loaded, same, entries⟩ := oxbBlkMdLoad_eq table known
          rw [loads] at same
          cases same
          intro pg lt
          refine Or.inr ⟨known pg lt, fun k less => ?_⟩
          have inPage := lt_of_lt_of_le less (conf.pgEntries_le pg)
          have page : (pg * conf.entPerPg + k) / conf.entPerPg = pg := by
            rw [Nat.mul_comm, Nat.mul_add_div conf.entPerPg_pos, Nat.div_eq_of_lt inPage,
              Nat.add_zero]
          have offset : (pg * conf.entPerPg + k) % conf.entPerPg = k := by
            rw [Nat.mul_comm, Nat.mul_add_mod, Nat.mod_eq_of_lt inPage]
          have entry := entries (pg * conf.entPerPg + k) (by rw [page]; exact lt)
          rw [stored, page, offset, if_pos less] at entry
          exact entry.symm

/-- The addresses of a flush are new. -/
def MdOp.Fresh (conf : MdConf) (table : MdTable) : MdOp → Prop
  | .flush writes => MdFlush.Fresh conf table writes
  | _ => True

/-- No change during a flush falls on a page that it has passed. -/
def MdOp.Quiet (conf : MdConf) : MdOp → Prop
  | .flush writes => MdFlush.Quiet conf writes
  | _ => True

theorem mdInv_step (table : MdTable) (op : MdOp)
    (admissible : op.Fresh conf table ∧ op.Quiet conf) (inv : MdInv conf table) :
    MdInv conf ((mdSystem conf).step table op).1 := by
  cases op with
  | change index entry => exact inv.change (index, entry)
  | flush writes =>
      intro pg lt
      exact Or.inr (pageOn_flush inv admissible.1 admissible.2 pg lt)
  | restart reset => exact mdInv_restart table reset

/-- The table that is loaded is the table. -/
def Restores (conf : MdConf) (table : MdTable) : Prop :=
  ∃ loaded, oxbBlkMdLoad conf table.tiny table.medium = some loaded ∧
    ∀ i < conf.entries, loaded i = table.tbl i

/-- The last page is cut where it holds entries, or it holds none but zeroes. -/
def LastPage (conf : MdConf) (table : MdTable) : Prop :=
  conf.entries % conf.entPerPg ≠ 0 ∨
    ∀ i < conf.entries, i / conf.entPerPg = conf.tinySz - 1 → table.tbl i = {}

theorem stored_of_pageOn (pages : ∀ pg < conf.tinySz, PageOn conf table pg) {i : Nat}
    (lt : i < conf.entries) :
    stored conf table i =
      if conf.entries % conf.entPerPg ≠ 0 ∨ i / conf.entPerPg ≠ conf.tinySz - 1 then table.tbl i
      else {} := by
  have place : i / conf.entPerPg * conf.entPerPg + i % conf.entPerPg = i := by
    rw [Nat.mul_comm]
    exact Nat.div_add_mod i conf.entPerPg
  have moved := conf.mod_lt_pgEntries_iff lt
  rw [stored]
  by_cases covered : i % conf.entPerPg < conf.pgEntries (i / conf.entPerPg)
  · have page := (pages _ (conf.page_lt lt)).2 _ covered
    rw [place] at page
    rw [if_pos covered, if_pos (moved.mp covered), page]
  · rw [if_neg covered, if_neg (mt moved.mpr covered)]

theorem restores_iff (pages : ∀ pg < conf.tinySz, PageOn conf table pg) :
    Restores conf table ↔ LastPage conf table := by
  obtain ⟨loaded, loads, entries⟩ := oxbBlkMdLoad_eq table fun pg lt => (pages pg lt).1
  have entry : ∀ i < conf.entries, loaded i =
      if conf.entries % conf.entPerPg ≠ 0 ∨ i / conf.entPerPg ≠ conf.tinySz - 1 then table.tbl i
      else {} := by
    intro i lt
    rw [entries i (conf.page_lt lt), stored_of_pageOn pages lt]
  constructor
  · rintro ⟨other, same, restored⟩
    rw [loads] at same
    cases same
    by_cases rest : conf.entries % conf.entPerPg ≠ 0
    · exact Or.inl rest
    · apply Or.inr
      intro i lt last
      rw [← restored i lt, entry i lt, if_neg]
      rintro (some | other)
      · exact rest some
      · exact other last
  · intro full
    refine ⟨loaded, loads, fun i lt => ?_⟩
    rw [entry i lt]
    split
    case isTrue => rfl
    case isFalse none =>
      rw [not_or, not_not, not_not] at none
      rcases full with rest | zero
      · exact absurd none.1 rest
      · exact (zero i lt none.2).symm

/-- After any run in which the changes of every flush stand behind the page that it writes,
the table is loaded as it is exactly when its last page is not cut to nothing. -/
theorem md_flush_load_iff (conf : MdConf) {ops : List MdOp} {writes : Nat → PgWrite}
    (fresh : (mdSystem conf).Allowed (fun table op => op.Fresh conf table) (MdTable.init conf)
      (ops ++ [.flush writes]))
    (quiet : ∀ op ∈ ops ++ [MdOp.flush writes], op.Quiet conf) :
    Restores conf ((mdSystem conf).run (MdTable.init conf) (ops ++ [.flush writes])) ↔
      LastPage conf ((mdSystem conf).run (MdTable.init conf) (ops ++ [.flush writes])) := by
  have admissible := fresh.and ((mdSystem conf).allowed_of_forall_mem quiet (MdTable.init conf))
  rw [System.allowed_append] at admissible
  have inv := (mdSystem conf).run_invariant _ (MdInv conf) mdInv_step (mdInv_create _) admissible.1
  have last : MdOp.Fresh conf ((mdSystem conf).run (MdTable.init conf) ops) (.flush writes) ∧
      MdOp.Quiet conf (.flush writes) := admissible.2.1
  apply restores_iff
  rw [System.run_append]
  exact pageOn_flush inv last.1 last.2

theorem MdConf.small_pos : 0 < 4 :=
  Nat.succ_pos 3

theorem MdConf.small_le (n : Nat) : 4 ≤ 4 * (n + 1) :=
  Nat.le_mul_of_pos_right 4 (Nat.succ_pos n)

/-- Twenty blocks, with `n + 1` entries on a page. -/
def MdConf.small (n : Nat) : MdConf where
  geo := Geometry.small
  appChId := 0
  pgSize := 4 * (n + 1)
  entrySz := 4
  entry_pos := MdConf.small_pos
  entry_le := MdConf.small_le n

/-- Page `pg` goes to address `pg + 1`, and nothing else changes. -/
def plainWrites (pg : Nat) : PgWrite :=
  ⟨pg + 1, []⟩

theorem plainWrites_fresh (conf : MdConf) (table : MdTable) (none : table.tiny = fun _ => 0) :
    Fresh conf table plainWrites := by
  intro pg _
  refine ⟨Nat.succ_ne_zero pg, fun other _ ne => ⟨?_, ?_⟩⟩
  · rw [none]
    exact (Nat.succ_ne_zero pg).symm
  · intro same
    exact ne (Nat.succ.inj same)

theorem plainWrites_quiet (conf : MdConf) : Quiet conf plainWrites := by
  intro pg _ change mem
  exact absurd mem List.not_mem_nil

/-- Seven entries on a page: the last page holds six, and the table is loaded. -/
theorem md_flush_load_iff_small :
    Restores (MdConf.small 6) ((mdSystem (MdConf.small 6)).run (MdTable.init (MdConf.small 6))
      ([.change 3 { currentPg := 1 }] ++ [.flush plainWrites])) := by
  apply (md_flush_load_iff (MdConf.small 6) _ _).mpr
  · exact Or.inl (by decide)
  · exact ⟨trivial, plainWrites_fresh _ _ rfl, trivial⟩
  · intro op mem
    rw [List.singleton_append, List.mem_cons, List.mem_singleton] at mem
    rcases mem with rfl | rfl
    · trivial
    · exact plainWrites_quiet _

/-- Ten entries on a page: nothing of the second page is written or read. -/
theorem md_flush_load_cut :
    (mdSystem (MdConf.small 9)).Allowed (fun table op => op.Fresh (MdConf.small 9) table)
        (MdTable.init (MdConf.small 9)) [.flush plainWrites] ∧
      MdOp.Quiet (MdConf.small 9) (.flush plainWrites) ∧
      ¬ Restores (MdConf.small 9) ((mdSystem (MdConf.small 9)).run (MdTable.init (MdConf.small 9))
        [.flush plainWrites]) := by
  refine ⟨⟨plainWrites_fresh _ _ rfl, trivial⟩, plainWrites_quiet _, ?_⟩
  rintro ⟨loaded, loads, restored⟩
  have entry := congrArg BlkMdEntry.ppa (restored 19 (by decide))
  have zero : (oxbBlkMdLoad (MdConf.small 9)
      ((mdSystem (MdConf.small 9)).run (MdTable.init (MdConf.small 9)) [.flush plainWrites]).tiny
      ((mdSystem (MdConf.small 9)).run (MdTable.init (MdConf.small 9)) [.flush plainWrites]).medium
      ).map (fun tbl => (tbl 19).ppa) = some 0 := by decide +kernel
  have block : (((mdSystem (MdConf.small 9)).run (MdTable.init (MdConf.small 9))
      [.flush plainWrites]).tbl 19).ppa = Ppa.sector 0 0 19 0 0 0 := by decide +kernel
  rw [loads, Option.map_some, entry, block] at zero
  exact absurd zero (by decide)

end OxCtrl.MdFlush
