import OxCtrl.Exec

/-!
# The blocks of accepted commands

`parser_nvme_rw` compares the block behind a command with the size of the namespace, and
`ox_submit_ftl` compares the start and the bytes of a write with its size in bytes.  The first
check lets the block behind the last one pass, and its sum wraps at 64 bits.
-/

namespace OxCtrl.LbaRange

open OxCtrl.Fabrics OxCtrl.NvmeParser OxCtrl.Exec

/-- The index of `core.nvm_ch` that `ox_submit_ftl` computes; there is none when it divides by
zero. -/
def channelIndex (core : Core) (cmd : NvmeCmd) : Option Nat :=
  let chSize := core.nsSize / core.chCount
  if core.chCount = 0 ∨ chSize = 0 then none else some (cmd.slba / chSize)

/-- The checks of `parser_nvme_rw` on the size of the transfer and on its addresses. -/
def SizeAccepted (core : Core) (segments : Nat) (cmd : NvmeCmd) : Prop :=
  ¬ (core.limits.mdts ≠ 0 ∧
      dataSize core.limits cmd > core.limits.pageSize * 2 ^ core.limits.mdts) ∧
    blocks cmd ≤ 256 ∧
    (cmd.psdt = .prp ∨ cmd.psdt = .rsv ∨
      ∃ walk, nvmefSglToPrp core.memory.descs (blocks cmd) segments
        (cmd.sgl :: cmd.cdw10 :: core.memory.behind) core.memory.nextDesc {} = .prps walk)

/-- The write check of `ox_submit_ftl`. -/
def FtlAccepted (core : Core) (req : Request) : Prop :=
  req.cmd.opcode = nvmeCmdWrite → ftlError core req = none

/-- `parser_nvme_rw` maps the addresses of the command, and `ox_submit_ftl` has a place for it if
it is a write. -/
def Accepted (core : Core) (segments : Nat) (req : Request) : Prop :=
  (∃ prps, mapAddresses core.limits core.memory segments req.cmd = .mapped prps) ∧
    FtlAccepted core req

/-- All blocks of the command are blocks of the namespace. -/
def Inside (limits : Limits) (cmd : NvmeCmd) : Prop :=
  cmd.slba + blocks cmd ≤ limits.nsze

/-- A write for which `ox_submit_ftl` computes a channel. -/
def IndexesChannel (core : Core) (cmd : NvmeCmd) : Prop :=
  cmd.opcode = nvmeCmdWrite ∧ core.ftl = .block

/-- The computed channel exists. -/
def ChannelExists (core : Core) (cmd : NvmeCmd) : Prop :=
  ∃ index, channelIndex core cmd = some index ∧ index < core.chCount

/-- The command ends with the block behind the namespace, or its end wraps to a block that is not
behind that one. -/
def RangeSlips (limits : Limits) (cmd : NvmeCmd) : Prop :=
  cmd.slba + blocks cmd = limits.nsze + 1 ∨
    2 ^ 64 ≤ cmd.slba + blocks cmd ∧ cmd.slba + blocks cmd - 2 ^ 64 ≤ limits.nsze + 1

theorem slba_lt (cmd : NvmeCmd) : cmd.slba < 2 ^ 64 :=
  cmd.cdw10.addr.toNat_lt

theorem blocks_le (cmd : NvmeCmd) : blocks cmd ≤ 2 ^ 16 :=
  Nat.mod_lt _ (by decide)

/-- A command is mapped when the range check and the other checks let it pass. -/
theorem mapped_iff (core : Core) (segments : Nat) (cmd : NvmeCmd) :
    (∃ prps, mapAddresses core.limits core.memory segments cmd = .mapped prps) ↔
      elba cmd ≤ (core.limits.nsze + 1) % 2 ^ 64 ∧ SizeAccepted core segments cmd := by
  rw [mapAddresses, SizeAccepted]
  by_cases range : elba cmd > (core.limits.nsze + 1) % 2 ^ 64
  · rw [if_pos range]
    exact iff_of_false (by rintro ⟨_, ⟨⟩⟩) fun both => Nat.not_le.mpr range both.1
  · rw [if_neg range]
    by_cases size : core.limits.mdts ≠ 0 ∧
        dataSize core.limits cmd > core.limits.pageSize * 2 ^ core.limits.mdts
    · rw [if_pos size]
      exact iff_of_false (by rintro ⟨_, ⟨⟩⟩) fun both => both.2.1 size
    · rw [if_neg size]
      by_cases many : blocks cmd > 256
      · rw [if_pos many]
        exact iff_of_false (by rintro ⟨_, ⟨⟩⟩)
          fun both => Nat.not_le.mpr many both.2.2.1
      · rw [if_neg many]
        simp only [Nat.not_lt.mp range, Nat.not_lt.mp many, size, not_false_eq_true, true_and]
        cases cmd.psdt with
        | prp => simp
        | rsv => simp
        | sgl =>
            simp only [reduceCtorEq, false_or]
            cases nvmefSglToPrp core.memory.descs (blocks cmd) segments
              (cmd.sgl :: cmd.cdw10 :: core.memory.behind) core.memory.nextDesc {} <;> simp
        | sglMd =>
            simp only [reduceCtorEq, false_or]
            cases nvmefSglToPrp core.memory.descs (blocks cmd) segments
              (cmd.sgl :: cmd.cdw10 :: core.memory.behind) core.memory.nextDesc {} <;> simp

/-- The end of a command is computed without the carry. -/
theorem elba_eq (cmd : NvmeCmd) :
    elba cmd =
      if cmd.slba + blocks cmd < 2 ^ 64 then cmd.slba + blocks cmd
      else cmd.slba + blocks cmd - 2 ^ 64 := by
  have start := slba_lt cmd
  have length := blocks_le cmd
  rw [elba]
  split
  · rename_i fits
    exact Nat.mod_eq_of_lt fits
  · omega

/-- What the range check lets pass beyond the namespace. -/
theorem range_check_iff {limits : Limits} (fits : limits.nsze + 1 < 2 ^ 64) (cmd : NvmeCmd) :
    elba cmd ≤ (limits.nsze + 1) % 2 ^ 64 ↔ Inside limits cmd ∨ RangeSlips limits cmd := by
  rw [Nat.mod_eq_of_lt fits, elba_eq, Inside, RangeSlips]
  split
  · omega
  · omega

theorem inside_not_slips {limits : Limits} (fits : limits.nsze + 1 < 2 ^ 64) {cmd : NvmeCmd}
    (inside : Inside limits cmd) : ¬ RangeSlips limits cmd := by
  rw [Inside] at inside
  rw [RangeSlips]
  omega

/-- The two units of `ox_submit_ftl` do no harm to the channel: the start of a write is far below
the size of the namespace in bytes. -/
theorem channelExists_iff {core : Core} {req : Request} (indexes : IndexesChannel core req.cmd)
    (accepted : FtlAccepted core req) :
    ChannelExists core req.cmd ↔ 0 < core.nsSize / core.chCount := by
  have none := accepted indexes.1
  simp only [ftlError, indexes.2, ite_eq_right_iff, reduceCtorEq, imp_false, not_or,
    Nat.not_lt] at none
  rw [ChannelExists, channelIndex]
  constructor
  · rintro ⟨index, found, _⟩
    split at found
    · cases found
    · rename_i sizes
      exact Nat.pos_of_ne_zero (not_or.mp sizes).2
  · intro pos
    have count : core.chCount ≠ 0 := by
      intro zero
      simp [zero] at pos
    refine ⟨_, if_neg (not_or.mpr ⟨count, Nat.ne_of_gt pos⟩), ?_⟩
    rw [Nat.div_lt_iff_lt_mul pos]
    have whole := Nat.div_add_mod core.nsSize core.chCount
    have rest := Nat.mod_lt core.nsSize (Nat.pos_of_ne_zero count)
    have least : core.chCount * 1 ≤ core.chCount * (core.nsSize / core.chCount) :=
      Nat.mul_le_mul_left _ pos
    have start := none.1
    rw [nvmeKernelPgSize] at start
    omega

/-- An accepted command stays inside the namespace and has a channel if and only if the checks
with the right bounds stop the commands for which the range check has the wrong one. -/
theorem accepted_inside_iff (core : Core) (segments : Nat) (req : Request)
    (fits : core.limits.nsze + 1 < 2 ^ 64) :
    (Accepted core segments req →
        Inside core.limits req.cmd ∧ (IndexesChannel core req.cmd → ChannelExists core req.cmd)) ↔
      (SizeAccepted core segments req.cmd → FtlAccepted core req →
        ¬ RangeSlips core.limits req.cmd ∧
          (IndexesChannel core req.cmd → Inside core.limits req.cmd →
            0 < core.nsSize / core.chCount)) := by
  rw [Accepted, mapped_iff, range_check_iff fits]
  constructor
  · intro claim size ftl
    constructor
    · intro slips
      have inside := (claim ⟨⟨Or.inr slips, size⟩, ftl⟩).1
      exact inside_not_slips fits inside slips
    · intro indexes inside
      have found := (claim ⟨⟨Or.inl inside, size⟩, ftl⟩).2 indexes
      exact (channelExists_iff indexes ftl).mp found
  · rintro condition ⟨⟨range, size⟩, ftl⟩
    obtain ⟨kept, channels⟩ := condition size ftl
    have inside : Inside core.limits req.cmd := range.resolve_right kept
    exact ⟨inside, fun indexes => (channelExists_iff indexes ftl).mpr (channels indexes inside)⟩

/-- A write of one block from the given LBA on. -/
def oneBlock (slba : UInt64) : NvmeCmd where
  opcode := nvmeCmdWrite
  psdt := .prp
  cid := 1
  sgl := { SglDesc.zero with addr := 4096 }
  cdw10 := { SglDesc.zero with addr := slba, word := 0 }

theorem accepted_inside_first :
    Inside blockCore.limits (oneBlock 0) ∧ ChannelExists blockCore (oneBlock 0) := by
  have claim := (accepted_inside_iff blockCore 1 { cmd := oneBlock 0 } (by decide)).mpr
    fun _ _ => ⟨by unfold RangeSlips; decide, fun _ _ => by decide⟩
  obtain ⟨inside, channel⟩ := claim ⟨⟨[4096], by decide⟩, fun _ => by decide⟩
  exact ⟨inside, channel ⟨rfl, rfl⟩⟩

/-- The write of the block behind the last one goes to the FTL queue. -/
theorem accepted_behind_end :
    (parserNvmeRw blockCore 1 { cmd := oneBlock (2 ^ 18) }).map Prod.snd = some nvmeNoComplete ∧
      Accepted blockCore 1 { cmd := oneBlock (2 ^ 18) } ∧
      ¬ Inside blockCore.limits (oneBlock (2 ^ 18)) := by
  refine ⟨by decide, ⟨⟨[4096], by decide⟩, fun _ => by decide⟩, ?_⟩
  unfold Inside
  decide

end OxCtrl.LbaRange
