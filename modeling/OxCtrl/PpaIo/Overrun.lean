import OxCtrl.PpaIo.Split

/-!
# The arrays of a command

The loops that prepare a command index `channel[64]`, `ppalist[256]`, `mmgr_io[64]`, `md_prp[256]`
and `force_sync_data[32]` by sectors and by pages.  `ppa_io_check` compares the number of pages with
64 when the arrays have been written, and nothing compares the number of sectors with 32 or 64.
-/

namespace OxCtrl.Split

open OxCtrl.Fabrics OxCtrl.NvmeParser OxCtrl.Exec

/-- The index is inside the array. -/
def Access.InBounds : Access → Prop
  | .channel sec => sec < 64
  | .ppalist sec => sec < 256
  | .mmgrIo pg => pg < 64
  | .mdPrp pg => pg < 256
  | .forceSyncData sec => sec < 32

instance : ∀ access : Access, Decidable access.InBounds
  | .channel sec => inferInstanceAs (Decidable (sec < 64))
  | .ppalist sec => inferInstanceAs (Decidable (sec < 256))
  | .mmgrIo pg => inferInstanceAs (Decidable (pg < 64))
  | .mdPrp pg => inferInstanceAs (Decidable (pg < 256))
  | .forceSyncData sec => inferInstanceAs (Decidable (sec < 32))

/-- A loop over the sectors of a command that ends early at a sector for which `stops` holds. -/
def sectorLoop (stops : Nat → Bool) (tested stored : Nat → List Access) : Nat → Nat → List Access
  | 0, _ => []
  | rest + 1, sec =>
      tested sec ++ if stops sec then [] else
        stored sec ++ sectorLoop stops tested stored rest (sec + 1)

/-- The loop of `nvme_parser_read_submit` and of `lba_io_read`. -/
def readLoop (unmapped : Nat → Bool) (nSec : Nat) : List Access :=
  sectorLoop unmapped (fun _ => []) (fun sec => [.ppalist sec, .channel sec]) nSec 0

/-- The loop of `ox_submit_ftl` for the LightNVM FTL. -/
def ppaLoop (refused : Nat → Bool) (nSec : Nat) : List Access :=
  sectorLoop refused (fun sec => [.ppalist sec]) (fun sec => [.channel sec]) nSec 0

/-- The mapping of a sector is missing. -/
def unmapped (core : Core) (req : Request) (sec : Nat) : Bool :=
  mapped core req sec = and64

/-- `ox_submit_ftl` has no channel for a sector, or a channel of another FTL. -/
def refused (core : Core) (req : Request) (sec : Nat) : Bool :=
  (req.ppalist sec).ch.val ≥ core.chCount ∨
    core.chFtl (req.ppalist sec).ch.val ≠ core.chFtl (req.ppalist 0).ch.val

/-- A line of `lba_io`: at most `LBA_IO_PPA_SIZE` sectors, the addresses that the splitter finds in
the list, and the place of each sector in its NVMe command, which has at most 256 blocks. -/
structure Line where
  nlb : Nat
  ppalist : Nat → Ppa
  lbaId : Nat → Nat
  pos : 0 < nlb
  le : nlb ≤ 64
  lbaId_lt : ∀ sec, lbaId sec < 256

/-- A command to prepare: a read or a write of the parser, a read line or a write line. -/
inductive Issued where
  | parserRead (core : Core) (req : Request)
  | parserWrite (core : Core) (req : Request)
  | lineRead (line : Line) (unmapped : Nat → Bool)
  | lineWrite (line : Line) (secPlPg oobLba secOobSz : Nat)

/-- `n_sec` of a write line: whole multi-plane pages. -/
def writeSectors (line : Line) (secPlPg : Nat) : Nat :=
  secPlPg * (line.nlb / secPlPg + if line.nlb % secPlPg > 0 then 1 else 0)

/-- The indices of `nvme_parser_read_submit`. -/
def nvmeParserReadSubmitAccesses (core : Core) (req : Request) : List Access :=
  let nSec := blocks req.cmd
  readLoop (unmapped core req) nSec ++
    match readMap core req.cmd.slba nSec 0 req.words with
    | none => []
    | some words =>
        (nvmeParserPrepareRead (Request.ppalist { req with words := words }) nSec).accesses

/-- The indices of `ox_submit_ftl`. -/
def oxSubmitFtlAccesses (core : Core) (req : Request) : List Access :=
  match core.ftl with
  | .lnvm =>
      .ppalist 0 :: if (req.ppalist 0).ch.val ≥ core.chCount then []
        else ppaLoop (refused core req) (blocks req.cmd)
  | .eleos => [.channel 0]
  | .block => if ftlError core req = none then [.channel 0] else []

/-- The indices of `lba_io_read`. -/
def lbaIoReadAccesses (line : Line) (unmapped : Nat → Bool) : List Access :=
  readLoop unmapped line.nlb ++
    if (List.range line.nlb).any unmapped then []
    else (lbaIoPrepareCmd line.ppalist line.nlb .read 0 0).accesses

/-- The indices for a sector in `lba_io_write`: the address of a sector that is no padding is noted
in its NVMe command, too. -/
def writeSec (line : Line) (sec : Nat) : List Access :=
  [.ppalist sec, .channel sec] ++ if sec < line.nlb then [.mmgrIo (line.lbaId sec / 4)] else []

/-- The indices of `lba_io_write` from its list of addresses on. -/
def lbaIoWriteAccesses (line : Line) (secPlPg oobLba secOobSz : Nat) : List Access :=
  let nSec := writeSectors line secPlPg
  sectorLoop (fun _ => false) (fun _ => []) (writeSec line) nSec 0 ++
    (lbaIoPrepareCmd line.ppalist nSec .write oobLba secOobSz).accesses

/-- The indices used while a command is prepared. -/
def Issued.accesses : Issued → List Access
  | .parserRead core req => nvmeParserReadSubmitAccesses core req
  | .parserWrite core req => oxSubmitFtlAccesses core req
  | .lineRead line unmapped => lbaIoReadAccesses line unmapped
  | .lineWrite line secPlPg oobLba secOobSz => lbaIoWriteAccesses line secPlPg oobLba secOobSz

/-- One of the first 65 sectors ends the loop over the sectors. -/
def StopsEarly (stops : Nat → Bool) (nSec : Nat) : Prop :=
  ∃ sec < nSec, sec ≤ 64 ∧ stops sec = true

/-- The command has less than 32 sectors, or it is not prepared because of one of its first 65
sectors.  A write of the parser is not split; it has at most 64 sectors, or one of the first
65 is refused. -/
def Issued.Small : Issued → Prop
  | .parserRead core req =>
      blocks req.cmd ≤ 31 ∨ StopsEarly (unmapped core req) (blocks req.cmd)
  | .parserWrite core req =>
      core.ftl = .lnvm → blocks req.cmd ≤ 64 ∨ StopsEarly (refused core req) (blocks req.cmd)
  | .lineRead line unmapped => line.nlb ≤ 31 ∨ StopsEarly unmapped line.nlb
  | .lineWrite line secPlPg _ _ => writeSectors line secPlPg ≤ 31

/-! ## The loops over the sectors -/

section Loops

variable {stops : Nat → Bool} {tested stored : Nat → List Access}

/-- The loop writes a channel for each sector before it stops. -/
theorem sectorLoop_inBounds_iff
    (testedIn : ∀ sec ≤ 64, ∀ access ∈ tested sec, access.InBounds)
    (storedIn : ∀ sec, (∀ access ∈ stored sec, access.InBounds) ↔ sec < 64)
    (rest sec : Nat) (le : sec ≤ 64) :
    (∀ access ∈ sectorLoop stops tested stored rest sec, access.InBounds) ↔
      sec + rest ≤ 64 ∨ ∃ other, sec ≤ other ∧ other < sec + rest ∧ other ≤ 64 ∧
        stops other = true := by
  induction rest generalizing sec with
  | zero => simp [sectorLoop, le]
  | succ rest ih =>
      rw [sectorLoop, List.forall_mem_append]
      cases stop : stops sec with
      | true =>
          simp only [if_true, List.not_mem_nil, false_implies, implies_true, and_true]
          exact iff_of_true (testedIn sec le) (Or.inr ⟨sec, Nat.le_refl _, by omega, le, stop⟩)
      | false =>
          simp only [Bool.false_eq_true, if_false, List.forall_mem_append, storedIn]
          constructor
          · rintro ⟨_, lt, more⟩
            rcases (ih (sec + 1) lt).mp more with few | ⟨other, ge, below, top, found⟩
            · exact Or.inl (by omega)
            · exact Or.inr ⟨other, by omega, by omega, top, found⟩
          · intro bounded
            have behind : ∀ other, sec ≤ other → stops other = true → sec + 1 ≤ other := by
              intro other ge found
              rcases Nat.eq_or_lt_of_le ge with rfl | lt
              · rw [stop] at found
                cases found
              · exact lt
            have lt : sec < 64 := by
              rcases bounded with few | ⟨other, ge, _, top, found⟩
              · omega
              · have := behind other ge found
                omega
            refine ⟨testedIn sec le, lt, (ih (sec + 1) lt).mpr ?_⟩
            rcases bounded with few | ⟨other, ge, below, top, found⟩
            · exact Or.inl (by omega)
            · exact Or.inr ⟨other, behind other ge found, by omega, top, found⟩

/-- The address and the channel of a sector. -/
theorem readSec_inBounds_iff (sec : Nat) :
    (∀ access ∈ [Access.ppalist sec, .channel sec], access.InBounds) ↔ sec < 64 := by
  simp only [List.mem_cons, List.not_mem_nil, or_false, forall_eq_or_imp, forall_eq,
    Access.InBounds]
  omega

theorem writeSec_inBounds_iff (line : Line) (sec : Nat) :
    (∀ access ∈ writeSec line sec, access.InBounds) ↔ sec < 64 := by
  have noted : ∀ access ∈ (if sec < line.nlb then [Access.mmgrIo (line.lbaId sec / 4)] else []),
      access.InBounds := by
    have lt := line.lbaId_lt sec
    intro access mem
    split at mem
    · rw [List.mem_singleton.mp mem, Access.InBounds]
      omega
    · cases mem
  rw [writeSec, List.forall_mem_append, readSec_inBounds_iff]
  exact and_iff_left noted

theorem ppaLoop_inBounds_iff (refused : Nat → Bool) (nSec : Nat) :
    (∀ access ∈ ppaLoop refused nSec, access.InBounds) ↔ nSec ≤ 64 ∨ StopsEarly refused nSec := by
  rw [ppaLoop, sectorLoop_inBounds_iff ?_ ?_ nSec 0 (by decide)]
  · simp [StopsEarly]
  · intro sec le access mem
    rw [List.mem_singleton.mp mem]
    exact Nat.lt_of_le_of_lt le (by decide)
  · intro sec
    simp [Access.InBounds]

end Loops

/-! ## The splitters -/

section Splitters

variable {ppalist : Nat → Ppa} {nSec : Nat} {md : Nat → Nat} {geometry : List Access}

/-- A round of the splitter adds one page at most, and the indices of a round below 32 are
inside the arrays. -/
theorem splitSec_inBounds (inside : ∀ access ∈ geometry, access.InBounds) {loop : Splitter}
    {i : Nat} (lt : i < 32) (few : loop.pages.length ≤ i)
    (fine : ∀ access ∈ loop.accesses, access.InBounds) :
    (splitSec ppalist nSec md geometry loop i).pages.length ≤ i + 1 ∧
      ∀ access ∈ (splitSec ppalist nSec md geometry loop i).accesses, access.InBounds := by
  have neighbours : ∀ access ∈ (if i = nSec ∨ i = 0 then []
      else [Access.ppalist i, Access.ppalist (i - 1)]), access.InBounds := by
    intro access mem
    split at mem
    · cases mem
    · simp only [List.mem_cons, List.not_mem_nil, or_false] at mem
      rcases mem with rfl | rfl <;> simp only [Access.InBounds] <;> omega
  have page : (Access.mmgrIo loop.pages.length).InBounds := by
    rw [Access.InBounds]
    omega
  have metadata : (Access.mdPrp loop.pages.length).InBounds := by
    rw [Access.InBounds]
    omega
  have sync : (Access.forceSyncData i).InBounds := lt
  rw [splitSec]
  split
  · refine ⟨by simpa using few, ?_⟩
    simp only [List.forall_mem_append, List.forall_mem_cons]
    exact ⟨⟨fine, page, sync, neighbours⟩, page, metadata, inside⟩
  · refine ⟨by simp only; omega, ?_⟩
    simp only [List.forall_mem_append, List.forall_mem_cons]
    exact ⟨fine, page, sync, neighbours⟩

/-- The splitter stays inside the arrays exactly when the command has less than 32 sectors. -/
theorem splitLoop_inBounds_iff (inside : ∀ access ∈ geometry, access.InBounds) :
    (∀ access ∈ (splitLoop ppalist nSec md geometry).accesses, access.InBounds) ↔ nSec ≤ 31 := by
  constructor
  · intro fine
    have last : Access.forceSyncData nSec ∈ (splitLoop ppalist nSec md geometry).accesses := by
      rw [splitLoop, List.range_succ, List.foldl_append, List.foldl_cons, List.foldl_nil, splitSec]
      split <;> simp
    exact Nat.le_of_lt_succ (fine _ last)
  · intro few
    have rounds : ∀ count ≤ nSec + 1,
        let loop := (List.range count).foldl (splitSec ppalist nSec md geometry) { moff := md 0 }
        loop.pages.length ≤ count ∧ ∀ access ∈ loop.accesses, access.InBounds := by
      intro count
      induction count with
      | zero => simp
      | succ count ih =>
          intro le
          obtain ⟨pages, fine⟩ := ih (by omega)
          simp only [List.range_succ, List.foldl_append, List.foldl_cons, List.foldl_nil]
          exact splitSec_inBounds inside (by omega) pages fine
    exact (rounds (nSec + 1) (Nat.le_refl _)).2

end Splitters

/-! ## Every command -/

/-- A loop over the sectors and, unless a sector stops it, the splitter behind it. -/
theorem preparing_inBounds_iff {unmapped : Nat → Bool} {stored : Nat → List Access}
    (storedIn : ∀ sec, (∀ access ∈ stored sec, access.InBounds) ↔ sec < 64)
    {nSec : Nat} {prepared : List Access}
    (stopped : (∃ sec < nSec, unmapped sec = true) → prepared = [])
    (split : (∀ sec < nSec, unmapped sec = false) →
      ((∀ access ∈ prepared, access.InBounds) ↔ nSec ≤ 31)) :
    (∀ access ∈ sectorLoop unmapped (fun _ => []) stored nSec 0 ++ prepared, access.InBounds) ↔
      nSec ≤ 31 ∨ StopsEarly unmapped nSec := by
  have loop : (∀ access ∈ sectorLoop unmapped (fun _ => []) stored nSec 0, access.InBounds) ↔
      nSec ≤ 64 ∨ StopsEarly unmapped nSec := by
    rw [sectorLoop_inBounds_iff (by simp) storedIn nSec 0 (by decide)]
    simp [StopsEarly]
  rw [List.forall_mem_append, loop]
  by_cases stop : ∃ sec < nSec, unmapped sec = true
  · rw [stopped stop]
    obtain ⟨sec, lt, found⟩ := stop
    constructor
    · rintro ⟨few | early, _⟩
      · exact Or.inr ⟨sec, lt, by omega, found⟩
      · exact Or.inr early
    · rintro (few | early)
      · exact ⟨Or.inl (by omega), by simp⟩
      · exact ⟨Or.inr early, by simp⟩
  · have all : ∀ sec < nSec, unmapped sec = false := by
      intro sec lt
      exact Bool.eq_false_iff.mpr fun found => stop ⟨sec, lt, found⟩
    have notEarly : ¬ StopsEarly unmapped nSec := fun ⟨sec, lt, _, found⟩ => stop ⟨sec, lt, found⟩
    rw [split all]
    constructor
    · exact fun both => Or.inl both.2
    · intro small
      have few := small.resolve_right notEarly
      exact ⟨Or.inl (by omega), few⟩

theorem unmapped_iff {core : Core} {req : Request} {sec : Nat} :
    unmapped core req sec = true ↔ core.readFn ((req.cmd.slba + sec) % 2 ^ 64) = and64 :=
  decide_eq_true_iff

theorem parserRead_inBounds_iff (core : Core) (req : Request) :
    (∀ access ∈ nvmeParserReadSubmitAccesses core req, access.InBounds) ↔
      blocks req.cmd ≤ 31 ∨ StopsEarly (unmapped core req) (blocks req.cmd) := by
  rw [nvmeParserReadSubmitAccesses]
  have none : readMap core req.cmd.slba (blocks req.cmd) 0 req.words = Option.none ↔ _ :=
    readMap_eq_none_iff core (blocks req.cmd) 0 req.words
  refine preparing_inBounds_iff readSec_inBounds_iff ?_ ?_
  · rintro ⟨sec, lt, found⟩
    rw [none.mpr ⟨sec, Nat.zero_le _, by omega, unmapped_iff.mp found⟩]
  · intro all
    cases arrays : readMap core req.cmd.slba (blocks req.cmd) 0 req.words with
    | none =>
        obtain ⟨sec, _, lt, found⟩ := none.mp arrays
        have mapped := all sec (by omega)
        rw [unmapped_iff.mpr found] at mapped
        cases mapped
    | some words => exact splitLoop_inBounds_iff (by simp)

theorem parserWrite_inBounds_iff (core : Core) (req : Request) :
    (∀ access ∈ oxSubmitFtlAccesses core req, access.InBounds) ↔
      (core.ftl = .lnvm →
        blocks req.cmd ≤ 64 ∨ StopsEarly (refused core req) (blocks req.cmd)) := by
  rw [oxSubmitFtlAccesses]
  have single : (Access.channel 0).InBounds := by decide
  cases ftl : core.ftl with
  | lnvm =>
      have zero : (Access.ppalist 0).InBounds := by decide
      simp only [List.forall_mem_cons, zero, true_and, forall_const]
      split
      · rename_i range
        refine iff_of_true (by simp) (Or.inr ⟨0, Nat.succ_pos _, Nat.zero_le _, ?_⟩)
        simp [refused, range]
      · exact ppaLoop_inBounds_iff _ _
  | eleos => simp [single]
  | block =>
      refine iff_of_true ?_ (by simp)
      simp only
      split
      · simp [single]
      · simp

theorem lineRead_inBounds_iff (line : Line) (unmapped : Nat → Bool) :
    (∀ access ∈ lbaIoReadAccesses line unmapped, access.InBounds) ↔
      line.nlb ≤ 31 ∨ StopsEarly unmapped line.nlb := by
  refine preparing_inBounds_iff readSec_inBounds_iff ?_ ?_
  · rintro ⟨sec, lt, found⟩
    rw [if_pos (List.any_eq_true.mpr ⟨sec, List.mem_range.mpr lt, found⟩)]
  · intro all
    have none : (List.range line.nlb).any unmapped = false := by
      rw [List.any_eq_false]
      intro sec mem
      simp [all sec (List.mem_range.mp mem)]
    rw [none, if_neg (by decide)]
    exact splitLoop_inBounds_iff (by simp [Access.InBounds])

theorem lineWrite_inBounds_iff (line : Line) (secPlPg oobLba secOobSz : Nat) :
    (∀ access ∈ lbaIoWriteAccesses line secPlPg oobLba secOobSz, access.InBounds) ↔
      writeSectors line secPlPg ≤ 31 := by
  have never : ¬ StopsEarly (fun _ => false) (writeSectors line secPlPg) := by
    rintro ⟨sec, _, _, found⟩
    cases found
  rw [lbaIoWriteAccesses, preparing_inBounds_iff (writeSec_inBounds_iff line)]
  · exact or_iff_left never
  · rintro ⟨_, _, found⟩
    cases found
  · exact fun _ => splitLoop_inBounds_iff (by simp [Access.InBounds])

/-- The arrays of a command are not overrun if and only if the command is small. -/
theorem arrays_in_bounds_iff (issued : Issued) :
    (∀ access ∈ issued.accesses, access.InBounds) ↔ issued.Small := by
  cases issued with
  | parserRead core req => exact parserRead_inBounds_iff core req
  | parserWrite core req => exact parserWrite_inBounds_iff core req
  | lineRead line unmapped => exact lineRead_inBounds_iff line unmapped
  | lineWrite line secPlPg oobLba secOobSz =>
      exact lineWrite_inBounds_iff line secPlPg oobLba secOobSz

/-- A read from block 0 on; `nlb` is one less than its number of blocks. -/
def readBlocks (nlb : UInt32) : NvmeCmd where
  opcode := nvmeCmdRead
  psdt := .prp
  cid := 1
  sgl := { SglDesc.zero with addr := 4096 }
  cdw10 := { SglDesc.zero with addr := 0, word := nlb }

/-- The splitter writes `force_sync_data[32]` for an accepted read of 32 blocks. -/
theorem read_overruns_force_sync :
    (∃ prps, mapAddresses blockCore.limits blockCore.memory 1 (readBlocks 31) = .mapped prps) ∧
      ¬ ∀ access ∈ (Issued.parserRead blockCore { cmd := readBlocks 31 }).accesses,
        access.InBounds := by
  refine ⟨⟨_, rfl⟩, fun fine => ?_⟩
  rcases (parserRead_inBounds_iff blockCore { cmd := readBlocks 31 }).mp fine with few | early
  · exact absurd few (by decide)
  · obtain ⟨sec, _, _, found⟩ := early
    have mapped : unmapped blockCore { cmd := readBlocks 31 } sec = false := rfl
    rw [mapped] at found
    cases found

end OxCtrl.Split
