import OxCtrl.Exec
import OxCtrl.Lib.Runs

/-!
# Page commands of a sector list

`nvme_parser_prepare_read` and `lba_io_prepare_cmd` cut the sectors of a command into pages by
looking at neighbours only, and `ppa_io_check_pg` gives each page a buffer slot for each of its
sectors.  A sector that comes back in one page behind another one takes the slot of the first.
-/

namespace OxCtrl.Split

open OxCtrl.Lib OxCtrl.Exec OxCtrl.Fabrics

/-- The queue of a line of `lba_io`. -/
inductive Queue where
  | write
  | read
  deriving DecidableEq, Repr

/-- The type of a command with pages: `MMGR_WRITE_PG` or `MMGR_READ_PG`. -/
inductive CmdType where
  | writePg
  | readPg
  deriving DecidableEq, Repr

/-- What the functions read of the geometry of a channel. -/
structure PgGeometry where
  secSize : Nat
  secPerPg : Nat
  pgSize : Nat
  pgOobSz : Nat
  secOobSz : Nat

/-- A command with its sectors.  There is one, at least. -/
structure NvmIoCmd where
  cmdtype : CmdType
  secSz : Nat
  nSec : Nat
  ppalist : Nat → Ppa
  prp : Nat → UInt64
  channel : Nat → PgGeometry
  pos : 0 < nSec

/-- The fields of an item of `mmgr_io` that the splitters set, with its item of `md_prp`. -/
structure PgCmd where
  pgIndex : Nat
  pgSz : Nat
  nSectors : Nat
  secOffset : Nat
  mdPrp : Nat
  deriving DecidableEq, Repr

/-- The sectors of a page command. -/
def PgCmd.span (page : PgCmd) : Span :=
  ⟨page.secOffset, page.nSectors⟩

/-- An index of one of the arrays of a command. -/
inductive Access where
  | channel (sec : Nat)
  | ppalist (sec : Nat)
  | mmgrIo (pg : Nat)
  | mdPrp (pg : Nat)
  | forceSyncData (sec : Nat)
  deriving DecidableEq, Repr

/-- The variables of the loop of a splitter; `pg` is the number of pages.  `moff` is what the next
page gets as `md_prp`. -/
structure Splitter where
  pages : List PgCmd := []
  nsec : Nat := 0
  moff : Nat
  accesses : List Access := []

/-- A round of the loop.  `md` is the metadata address of the page that begins at a sector, and
`geometry` holds what the copy of `lba_io` reads for it. -/
def splitSec (ppalist : Nat → Ppa) (nSec : Nat) (md : Nat → Nat) (geometry : List Access)
    (loop : Splitter) (i : Nat) : Splitter :=
  let pg := loop.pages.length
  let neighbours := if i = nSec ∨ i = 0 then [] else [.ppalist i, .ppalist (i - 1)]
  let accesses := loop.accesses ++ .mmgrIo pg :: .forceSyncData i :: neighbours
  if cutsPage ppalist nSec i then
    { pages := loop.pages ++
        [⟨pg, loop.nsec * nvmeKernelPgSize, loop.nsec, i - loop.nsec, loop.moff⟩]
      nsec := 1
      moff := md i
      accesses := accesses ++ .mmgrIo pg :: .mdPrp pg :: geometry }
  else { loop with nsec := loop.nsec + 1, accesses := accesses }

/-- The loop that both splitters have. -/
def splitLoop (ppalist : Nat → Ppa) (nSec : Nat) (md : Nat → Nat) (geometry : List Access) :
    Splitter :=
  (List.range (nSec + 1)).foldl (splitSec ppalist nSec md geometry) { moff := md 0 }

/-- `nvme_parser_prepare_read` -/
def nvmeParserPrepareRead (ppalist : Nat → Ppa) (nSec : Nat) : Splitter :=
  splitLoop ppalist nSec (fun _ => 0) []

/-- `lba_io_prepare_cmd`.  The metadata of a write lies at `oob_lba`. -/
def lbaIoPrepareCmd (ppalist : Nat → Ppa) (nSec : Nat) (type : Queue) (oobLba secOobSz : Nat) :
    Splitter :=
  splitLoop ppalist nSec
    (fun i => match type with
      | .write => oobLba + secOobSz * i
      | .read => 0)
    [.channel 0]

/-- The caller of a splitter. -/
inductive Caller where
  | nvmeParser
  | lbaIo (type : Queue) (oobLba : Nat)
  deriving DecidableEq, Repr

/-- The pages of a command. -/
def Caller.prepare (caller : Caller) (cmd : NvmIoCmd) : List PgCmd :=
  match caller with
  | .nvmeParser => (nvmeParserPrepareRead cmd.ppalist cmd.nSec).pages
  | .lbaIo type oobLba =>
      (lbaIoPrepareCmd cmd.ppalist cmd.nSec type oobLba (cmd.channel 0).secOobSz).pages

/-- A page command for the media manager. -/
structure MmgrIo where
  ppa : Ppa
  secSz : Nat
  mdSz : Nat
  prp : Nat → UInt64
  pgSz : Nat
  nSectors : Nat
  mdPrp : Nat

/-- The sectors behind the first one of a write do not follow it. -/
def wrongSequence (cmd : NvmIoCmd) (page : PgCmd) : Bool :=
  (List.range' 1 ((cmd.channel page.secOffset).secPerPg - 1)).any fun c =>
    !samePage (cmd.ppalist (page.secOffset + c)) (cmd.ppalist page.secOffset) ||
      (cmd.ppalist (page.secOffset + c)).sec.val != (cmd.ppalist page.secOffset).sec.val + c

/-- `ppa_io_check_pg` of a page whose slots hold `old`. -/
def ppaIoCheckPg (cmd : NvmIoCmd) (old : Nat → UInt64) (page : PgCmd) : Option MmgrIo :=
  let g := cmd.channel page.secOffset
  if cmd.cmdtype = .writePg ∧ wrongSequence cmd page then none
  else if cmd.secSz ≠ g.secSize then none
  else
    some
      { ppa := cmd.ppalist page.secOffset
        secSz := cmd.secSz
        mdSz := g.pgOobSz
        prp := writeSlots (fun sec => (cmd.ppalist sec).sec.val) cmd.prp
          (fun slot => if slot < g.secPerPg then 0 else old slot) page.span.positions
        pgSz := g.pgSize
        nSectors := g.pgSize / cmd.secSz
        mdPrp := page.mdPrp }

/-- The first loop of `ppa_io_submit`: one refused page ends the command. -/
def ppaIoCheckPgs (cmd : NvmIoCmd) (old : Nat → Nat → UInt64) : List PgCmd → Option (List MmgrIo)
  | [] => some []
  | page :: rest => do
      let mio ← ppaIoCheckPg cmd (old page.pgIndex) page
      let mios ← ppaIoCheckPgs cmd old rest
      return mio :: mios

/-- The pages take consecutive sectors, all of them, and each page is inside one plane page. -/
structure Partitioned (cmd : NvmIoCmd) (pages : List PgCmd) : Prop where
  all : (pages.map PgCmd.span).flatMap Span.positions = List.range cmd.nSec
  onePage : ∀ page ∈ pages, ∀ p ∈ page.span.positions, ∀ q ∈ page.span.positions,
    samePage (cmd.ppalist p) (cmd.ppalist q) = true

/-- Every sector has its buffer in the slot of its page. -/
def Transferred (cmd : NvmIoCmd) (pages : List PgCmd) (mios : List MmgrIo) : Prop :=
  List.Forall₂ (fun page mio => ∀ sec ∈ page.span.positions,
    mio.prp (cmd.ppalist sec).sec.val = cmd.prp sec) pages mios

/-- From one position to another, every sector differs from its predecessor and is in its plane
page. -/
def Together (cmd : NvmIoCmd) (p q : Nat) : Prop :=
  ∀ sec, p < sec → sec ≤ q → cmd.ppalist sec ≠ cmd.ppalist (sec - 1) ∧
    samePage (cmd.ppalist sec) (cmd.ppalist (sec - 1)) = true

/-- No sector comes back, with another buffer, behind others of its plane page. -/
def NoReturn (cmd : NvmIoCmd) : Prop :=
  ∀ p q, p < q → q < cmd.nSec → Together cmd p q →
    (cmd.ppalist p).sec = (cmd.ppalist q).sec → cmd.prp p = cmd.prp q

/-! ## The loop -/

section Loop

variable {ppalist : Nat → Ppa} {nSec : Nat} {md : Nat → Nat} {geometry : List Access}

/-- The loop after some rounds: the pages so far are runs, and behind them `nsec` sectors are not
cut. -/
structure SplitInv (ppalist : Nat → Ppa) (nSec i : Nat) (loop : Splitter) : Prop where
  runs : Runs (fun sec => cutsPage ppalist nSec sec = true) (i - loop.nsec)
    (loop.pages.map PgCmd.span)
  nsec : loop.nsec ≤ i
  open' : 0 < i → 0 < loop.nsec
  cut : 0 < i - loop.nsec → cutsPage ppalist nSec (i - loop.nsec) = true
  uncut : ∀ sec, i - loop.nsec < sec → sec < i → ¬ cutsPage ppalist nSec sec = true

theorem cutsPage_zero (pos : 0 < nSec) : cutsPage ppalist nSec 0 = false := by
  simp [cutsPage, Nat.ne_of_lt pos]

theorem cutsPage_last : cutsPage ppalist nSec nSec = true := by
  simp [cutsPage]

theorem SplitInv.splitSec (pos : 0 < nSec) {i : Nat} {loop : Splitter}
    (inv : SplitInv ppalist nSec i loop) :
    SplitInv ppalist nSec (i + 1) (splitSec ppalist nSec md geometry loop i) := by
  have le := inv.nsec
  rw [Split.splitSec]
  cases cut : cutsPage ppalist nSec i with
  | true =>
      have some : 0 < i := by
        rcases Nat.eq_zero_or_pos i with rfl | some
        · rw [cutsPage_zero pos] at cut
          cases cut
        · exact some
      have closed := inv.runs.snoc inv.cut (inv.open' some)
        fun sec behind below => inv.uncut sec behind (by omega)
      rw [Nat.sub_add_cancel le] at closed
      simp only [if_true]
      refine ⟨?_, by simp, fun _ => Nat.one_pos, fun _ => cut, ?_⟩
      · simpa [PgCmd.span] using closed
      · intro sec behind below
        simp only [Nat.add_sub_cancel] at behind
        omega
  | false =>
      simp only [Bool.false_eq_true, if_false]
      have shift : i + 1 - (loop.nsec + 1) = i - loop.nsec := by omega
      refine ⟨?_, by simp only; omega, fun _ => Nat.succ_pos _, ?_, ?_⟩
      · rw [shift]
        exact inv.runs
      · rw [shift]
        exact inv.cut
      · rw [shift]
        intro sec behind below
        rcases Nat.lt_succ_iff_lt_or_eq.mp below with before | rfl
        · exact inv.uncut sec behind before
        · rw [cut]
          exact Bool.false_ne_true

theorem splitInv_foldl (ppalist : Nat → Ppa) (md : Nat → Nat) (geometry : List Access)
    (pos : 0 < nSec) (rounds : Nat) :
    SplitInv ppalist nSec rounds
      ((List.range rounds).foldl (Split.splitSec ppalist nSec md geometry) { moff := md 0 }) := by
  induction rounds with
  | zero => exact ⟨runs_nil _, Nat.le_refl _, fun some => some, by simp, by simp⟩
  | succ rounds ih =>
      rw [List.range_succ, List.foldl_append, List.foldl_cons, List.foldl_nil]
      exact ih.splitSec pos

/-- The pages of the loop are the runs between the cuts. -/
theorem runs_splitLoop (pos : 0 < nSec) :
    Runs (fun sec => cutsPage ppalist nSec sec = true) nSec
      ((splitLoop ppalist nSec md geometry).pages.map PgCmd.span) := by
  have inv := splitInv_foldl ppalist md geometry pos (nSec + 1)
  have last : (splitLoop ppalist nSec md geometry).nsec = 1 := by
    rw [splitLoop, List.range_succ, List.foldl_append, List.foldl_cons, List.foldl_nil,
      Split.splitSec, cutsPage_last, if_pos rfl]
  rw [← splitLoop] at inv
  simpa [last] using inv.runs

end Loop

/-! ## One page -/

section Pages

variable {cmd : NvmIoCmd}

theorem samePage_refl (ppa : Ppa) : samePage ppa ppa = true := by
  simp [samePage]

theorem samePage_trans {first second third : Ppa} (one : samePage first second = true)
    (two : samePage second third = true) : samePage first third = true := by
  simp only [samePage, decide_eq_true_eq] at one two ⊢
  obtain ⟨ch, lun, blk, pg, pl⟩ := one
  rw [ch, lun, blk, pg, pl]
  exact two

theorem samePage_symm {first second : Ppa} (same : samePage first second = true) :
    samePage second first = true := by
  simp only [samePage, decide_eq_true_eq] at same ⊢
  obtain ⟨ch, lun, blk, pg, pl⟩ := same
  exact ⟨ch.symm, lun.symm, blk.symm, pg.symm, pl.symm⟩

/-- What no cut in front of a sector says. -/
theorem not_cutsPage_iff {sec : Nat} (some : 0 < sec) (lt : sec < cmd.nSec) :
    ¬ cutsPage cmd.ppalist cmd.nSec sec = true ↔
      cmd.ppalist sec ≠ cmd.ppalist (sec - 1) ∧
        samePage (cmd.ppalist sec) (cmd.ppalist (sec - 1)) = true := by
  simp [cutsPage, Nat.ne_of_lt lt, Nat.ne_of_gt some]

theorem together_iff {p q : Nat} (lt : q < cmd.nSec) :
    Together cmd p q ↔
      ∀ sec, p < sec → sec ≤ q → ¬ cutsPage cmd.ppalist cmd.nSec sec = true :=
  forall_congr' fun _ => forall_congr' fun behind => forall_congr' fun upTo =>
    (not_cutsPage_iff (by omega) (by omega)).symm

theorem Together.samePage {p q : Nat} (together : Together cmd p q) (le : p ≤ q) :
    samePage (cmd.ppalist q) (cmd.ppalist p) = true := by
  induction q, le using Nat.le_induction with
  | base => exact samePage_refl _
  | succ q le ih =>
      have step := (together (q + 1) (by omega) (Nat.le_refl _)).2
      exact samePage_trans step (ih fun sec behind upTo => together sec behind (by omega))

/-- The pages of both splitters are the runs between the cuts. -/
theorem Caller.runs (caller : Caller) (cmd : NvmIoCmd) :
    Runs (fun sec => cutsPage cmd.ppalist cmd.nSec sec = true) cmd.nSec
      ((caller.prepare cmd).map PgCmd.span) := by
  cases caller with
  | nvmeParser => exact runs_splitLoop cmd.pos
  | lbaIo type oobLba => exact runs_splitLoop cmd.pos

/-- The two copies of the splitter cut at the same sectors. -/
theorem splitters_agree (type : Queue) (oobLba : Nat) (cmd : NvmIoCmd) :
    (Caller.nvmeParser.prepare cmd).map PgCmd.span =
      ((Caller.lbaIo type oobLba).prepare cmd).map PgCmd.span := by
  have loop : ∀ (md md' : Nat → Nat) (geometry geometry' : List Access) (rounds : Nat),
      let first := (List.range rounds).foldl (splitSec cmd.ppalist cmd.nSec md geometry)
        { moff := md 0 }
      let second :=
        (List.range rounds).foldl (splitSec cmd.ppalist cmd.nSec md' geometry') { moff := md' 0 }
      first.pages.map PgCmd.span = second.pages.map PgCmd.span ∧ first.nsec = second.nsec := by
    intro md md' geometry geometry' rounds
    induction rounds with
    | zero => exact ⟨rfl, rfl⟩
    | succ rounds ih =>
        simp only [List.range_succ, List.foldl_append, List.foldl_cons, List.foldl_nil] at ih ⊢
        obtain ⟨pages, nsec⟩ := ih
        rw [splitSec, splitSec]
        split
        · simp [pages, nsec, PgCmd.span]
        · simp [pages, nsec]
  exact (loop _ _ _ _ _).1

variable {caller : Caller}

/-- Two sectors are in one page exactly when they are together. -/
theorem inPage_iff (caller : Caller) {p q : Nat} (le : p ≤ q) (lt : q < cmd.nSec) :
    (∃ page ∈ caller.prepare cmd, p ∈ page.span.positions ∧ q ∈ page.span.positions) ↔
      Together cmd p q := by
  rw [together_iff lt, ← (caller.runs cmd).together_iff le lt]
  simp

theorem lt_of_mem_page {page : PgCmd} (mem : page ∈ caller.prepare cmd) {sec : Nat}
    (at' : sec ∈ page.span.positions) : sec < cmd.nSec := by
  have le := (caller.runs cmd).end_le (List.mem_map_of_mem mem)
  exact lt_of_lt_of_le (Span.mem_positions.mp at').2 le

theorem partitioned_prepare (caller : Caller) (cmd : NvmIoCmd) :
    Partitioned cmd (caller.prepare cmd) where
  all := (caller.runs cmd).partition
  onePage := by
    intro page mem p pMem q qMem
    rcases Nat.le_total p q with le | le
    · have together := (inPage_iff caller le (lt_of_mem_page mem qMem)).mp ⟨page, mem, pMem, qMem⟩
      exact samePage_symm (together.samePage le)
    · have together := (inPage_iff caller le (lt_of_mem_page mem pMem)).mp ⟨page, mem, qMem, pMem⟩
      exact together.samePage le

/-- The slots of an accepted page. -/
theorem ppaIoCheckPg_eq_some {old : Nat → UInt64} {page : PgCmd} {mio : MmgrIo}
    (checked : ppaIoCheckPg cmd old page = some mio) :
    mio.prp = writeSlots (fun sec => (cmd.ppalist sec).sec.val) cmd.prp
      (fun slot => if slot < (cmd.channel page.secOffset).secPerPg then 0 else old slot)
      page.span.positions := by
  simp only [ppaIoCheckPg] at checked
  split at checked
  · cases checked
  · split at checked
    · cases checked
    · cases checked
      rfl

/-- All sectors of the accepted pages have their slots when none of their own page takes it. -/
theorem transferred_iff {old : Nat → Nat → UInt64} {pages : List PgCmd} {mios : List MmgrIo}
    (checked : ppaIoCheckPgs cmd old pages = some mios) :
    Transferred cmd pages mios ↔
      ∀ page ∈ pages, ∀ p ∈ page.span.positions, ∀ q ∈ page.span.positions,
        (cmd.ppalist p).sec.val = (cmd.ppalist q).sec.val → cmd.prp p = cmd.prp q := by
  rw [Transferred]
  induction pages generalizing mios with
  | nil =>
      cases checked
      simp
  | cons page rest ih =>
      simp only [ppaIoCheckPgs, Option.bind_eq_bind, Option.bind_eq_some_iff, Option.pure_def,
        Option.some.injEq] at checked
      obtain ⟨mio, one, others, more, rfl⟩ := checked
      rw [List.forall₂_cons, ih more, List.forall_mem_cons, ppaIoCheckPg_eq_some one,
        writeSlots_kept_iff]

/-- Both splitters partition the sectors, and an accepted command transfers every sector to its
own buffer if and only if no sector comes back in its page. -/
theorem sectors_transferred_iff (caller : Caller) (cmd : NvmIoCmd) (old : Nat → Nat → UInt64)
    {mios : List MmgrIo} (checked : ppaIoCheckPgs cmd old (caller.prepare cmd) = some mios) :
    Partitioned cmd (caller.prepare cmd) ∧
      (Transferred cmd (caller.prepare cmd) mios ↔ NoReturn cmd) := by
  refine ⟨partitioned_prepare caller cmd, ?_⟩
  rw [transferred_iff checked]
  constructor
  · intro equal p q lt within together same
    obtain ⟨page, mem, pMem, qMem⟩ := (inPage_iff caller (Nat.le_of_lt lt) within).mpr together
    exact equal page mem p pMem q qMem (congrArg Fin.val same)
  · intro noReturn page mem p pMem q qMem same
    have pLt := lt_of_mem_page mem pMem
    have qLt := lt_of_mem_page mem qMem
    rcases Nat.lt_trichotomy p q with lt | rfl | lt
    · have together := (inPage_iff caller (Nat.le_of_lt lt) qLt).mp ⟨page, mem, pMem, qMem⟩
      exact noReturn p q lt qLt together (Fin.ext same)
    · rfl
    · have together := (inPage_iff caller (Nat.le_of_lt lt) pLt).mp ⟨page, mem, qMem, pMem⟩
      exact (noReturn q p lt pLt together (Fin.ext same.symm)).symm

end Pages

/-- A read of the given sectors of one plane page, each into a buffer of its own. -/
def readOf (first : Nat) (rest : List Nat) : NvmIoCmd where
  cmdtype := .readPg
  secSz := 4096
  nSec := rest.length + 1
  ppalist sec := Ppa.sector 0 0 5 0 0 ((first :: rest).getD sec 0)
  prp sec := UInt64.ofNat (4096 * (sec + 1))
  channel _ := ⟨4096, 4, 16384, 64, 16⟩
  pos := Nat.succ_pos _

theorem checked_readOf (caller : Caller) (first : Nat) (rest : List Nat) :
    ∃ mios, ppaIoCheckPgs (readOf first rest) (fun _ _ => 0) (caller.prepare (readOf first rest)) =
      some mios := by
  induction caller.prepare (readOf first rest) with
  | nil => exact ⟨[], rfl⟩
  | cons page pages ih =>
      obtain ⟨mios, eq⟩ := ih
      rw [ppaIoCheckPgs, eq]
      exact ⟨_, rfl⟩

theorem sectors_transferred_two :
    ∃ mios, Transferred (readOf 0 [1]) (Caller.nvmeParser.prepare (readOf 0 [1])) mios := by
  obtain ⟨mios, checked⟩ := checked_readOf .nvmeParser 0 [1]
  refine ⟨mios,
    (sectors_transferred_iff .nvmeParser (readOf 0 [1]) (fun _ _ => 0) checked).2.mpr ?_⟩
  intro p q lt within _ same
  have two : q < 2 := within
  obtain rfl : p = 0 := by omega
  obtain rfl : q = 1 := by omega
  exact absurd same (by decide)

theorem not_transferred_returned (caller : Caller) :
    ∃ mios, ppaIoCheckPgs (readOf 0 [1, 0]) (fun _ _ => 0) (caller.prepare (readOf 0 [1, 0])) =
        some mios ∧ ¬ Transferred (readOf 0 [1, 0]) (caller.prepare (readOf 0 [1, 0])) mios := by
  obtain ⟨mios, checked⟩ := checked_readOf caller 0 [1, 0]
  refine ⟨mios, checked, fun transferred => ?_⟩
  have together : Together (readOf 0 [1, 0]) 0 2 := by
    intro sec behind upTo
    obtain rfl | rfl : sec = 1 ∨ sec = 2 := by omega
    · decide
    · decide
  obtain ⟨page, mem, first, last⟩ := (inPage_iff caller (by decide) (by decide)).mpr together
  have equal := (transferred_iff checked).mp transferred page mem 0 first 2 last (by decide)
  exact absurd equal (by decide)

/-- Sector 0 comes back behind sector 1, and the first of its two buffers gets nothing. -/
theorem sector_returns :
    (∃ mios, ppaIoCheckPgs (readOf 0 [1, 0]) (fun _ _ => 0)
        (Caller.nvmeParser.prepare (readOf 0 [1, 0])) = some mios ∧
      ¬ Transferred (readOf 0 [1, 0]) (Caller.nvmeParser.prepare (readOf 0 [1, 0])) mios) ∧
    ∃ mios, ppaIoCheckPgs (readOf 0 [1, 0]) (fun _ _ => 0)
        ((Caller.lbaIo .read 0).prepare (readOf 0 [1, 0])) = some mios ∧
      ¬ Transferred (readOf 0 [1, 0]) ((Caller.lbaIo .read 0).prepare (readOf 0 [1, 0])) mios :=
  ⟨not_transferred_returned .nvmeParser, not_transferred_returned (.lbaIo .read 0)⟩

end OxCtrl.Split
