import Mathlib.Order.Lattice
import OxCtrl.NvmeHost.Core

/-!
# The commands of a buffer

The blocks of the commands of `nvmeh_rw`, one command after another, are the blocks of the buffer
with the addresses from the first one on.
-/

namespace OxCtrl.NvmeHost

/-- A block of the buffer, with its logical address. -/
def Args.block (args : Args) (j : Nat) : Nat × UInt64 :=
  (args.buf + j * oxfBlkSize, args.slba + UInt64.ofNat j)

/-- The blocks of a command in memory, with their logical addresses. -/
def Cmd.blocks (cmd : Cmd) : List (Nat × UInt64) :=
  (List.range (cmd.nlb.toNat + 1)).map fun k =>
    (cmd.addr + k * oxfBlkSize, cmd.slba + UInt64.ofNat k)

/-- The descriptor of a command has its blocks and there are at most `blk_per_cmd` of them, and its
queue is one of the I/O queues. -/
structure Cmd.Fits (args : Args) (cmd : Cmd) : Prop where
  length : cmd.length = (cmd.nlb.toNat + 1) * oxfBlkSize
  small : cmd.nlb.toNat + 1 ≤ blkPerCmd
  queue : 1 ≤ cmd.queue ∧ cmd.queue < args.nQueues

/-- `buf_off[0]` of a command. -/
def offsetOf (cmdI : Nat) : Nat :=
  cmdI * (blkPerCmd * oxfBlkSize)

/-- `cmd[cmd_i]` as the loop makes it. -/
def command (args : Args) (cmdI : Nat) : Cmd :=
  cmdAt args cmdI (offsetOf cmdI) (shorten args (offsetOf cmdI) (blkPerCmd * oxfBlkSize))

namespace Args

variable {args : Args} {cmdI : Nat}

theorem nblk_eq (small : args.size < 2 ^ 44) : args.nblk = args.size / oxfBlkSize :=
  Nat.mod_eq_of_lt (by rw [oxfBlkSize]; omega)

theorem size_eq (accepted : args.Accepted) (small : args.size < 2 ^ 44) :
    args.size = args.nblk * oxfBlkSize := by
  rw [nblk_eq small]
  exact (Nat.div_mul_cancel (Nat.dvd_of_mod_eq_zero accepted.1)).symm

/-- The commands before the last one are full. -/
theorem lt_nCmd_iff : cmdI < args.nCmd ↔ cmdI * blkPerCmd < args.nblk := by
  simp only [nCmd, show blkPerCmd = 15 from rfl]
  split <;> omega

theorem nCmd_pos (accepted : args.Accepted) (small : args.size < 2 ^ 44) : 0 < args.nCmd := by
  have size := size_eq accepted small
  rw [lt_nCmd_iff, Nat.zero_mul]
  apply Nat.pos_of_ne_zero
  intro zero
  rw [zero, Nat.zero_mul] at size
  exact accepted.2.2.1 size

end Args

variable {args : Args} {cmdI : Nat}

/-- Blocks of a command. -/
def countOf (args : Args) (cmdI : Nat) : Nat :=
  min blkPerCmd (args.nblk - cmdI * blkPerCmd)

theorem countOf_pos (lt : cmdI < args.nCmd) : 0 < countOf args cmdI := by
  have before := Args.lt_nCmd_iff.mp lt
  rw [countOf]
  exact lt_min (by decide) (Nat.sub_pos_of_lt before)

theorem countOf_le (args : Args) (cmdI : Nat) : countOf args cmdI ≤ blkPerCmd :=
  min_le_left _ _

theorem shorten_offsetOf (accepted : args.Accepted) (small : args.size < 2 ^ 44) :
    shorten args (offsetOf cmdI) (blkPerCmd * oxfBlkSize) = countOf args cmdI * oxfBlkSize := by
  have size := Args.size_eq accepted small
  have bytes : oxfBlkSize = 4096 := rfl
  have perCmd : blkPerCmd = 15 := rfl
  rw [bytes] at size
  rw [shorten, offsetOf, countOf, perCmd, bytes]
  split <;> omega

/-- A command with another one behind it is not shortened. -/
theorem shorten_of_lt (accepted : args.Accepted) (small : args.size < 2 ^ 44)
    (lt : cmdI + 1 < args.nCmd) :
    shorten args (offsetOf cmdI) (blkPerCmd * oxfBlkSize) = blkPerCmd * oxfBlkSize := by
  have before := Args.lt_nCmd_iff.mp lt
  rw [shorten_offsetOf accepted small, countOf, min_eq_left]
  rw [Nat.succ_mul] at before
  exact Nat.le_sub_of_add_le (by rw [Nat.add_comm]; exact before.le)

theorem command_nlb (accepted : args.Accepted) (small : args.size < 2 ^ 44)
    (lt : cmdI < args.nCmd) : (command args cmdI).nlb.toNat + 1 = countOf args cmdI := by
  have pos := countOf_pos lt
  have le := countOf_le args cmdI
  simp only [command, cmdAt, shorten_offsetOf accepted small]
  rw [Nat.mul_div_cancel _ (by decide), UInt16.toNat_ofNat_of_lt', Nat.sub_add_cancel pos]
  exact lt_of_le_of_lt (Nat.sub_le _ _) (lt_of_le_of_lt le (by decide))

theorem command_fits (accepted : args.Accepted) (small : args.size < 2 ^ 44)
    (queues : 2 ≤ args.nQueues) (lt : cmdI < args.nCmd) : (command args cmdI).Fits args where
  length := by
    rw [command_nlb accepted small lt]
    exact shorten_offsetOf accepted small
  small := by
    rw [command_nlb accepted small lt]
    exact countOf_le args cmdI
  queue := by
    have below := Nat.mod_lt cmdI (Nat.sub_pos_of_lt queues)
    exact ⟨Nat.le_add_left _ _, Nat.add_lt_of_lt_sub below⟩

theorem command_blocks (accepted : args.Accepted) (small : args.size < 2 ^ 44)
    (lt : cmdI < args.nCmd) :
    (command args cmdI).blocks =
      (List.range (countOf args cmdI)).map fun k => args.block (cmdI * blkPerCmd + k) := by
  have batch : cmdI * blkPerCmd < 2 ^ 32 := by
    have max := accepted.2.2.2
    rw [nvmehMaxCmdBatch] at max
    rw [show blkPerCmd = 15 from rfl]
    omega
  rw [Cmd.blocks, command_nlb accepted small lt]
  refine List.map_congr_left fun k _ => ?_
  rw [Args.block, command, cmdAt, Nat.mod_eq_of_lt batch, UInt64.ofNat_add, UInt64.add_assoc,
    offsetOf, Nat.add_mul, Nat.add_assoc, Nat.mul_assoc]

/-- The blocks of the first commands are the first blocks of the buffer. -/
theorem flatMap_blocks (accepted : args.Accepted) (small : args.size < 2 ^ 44) (k : Nat)
    (le : k ≤ args.nCmd) :
    (List.range k).flatMap (fun cmdI => (command args cmdI).blocks) =
      (List.range (min (k * blkPerCmd) args.nblk)).map args.block := by
  induction k with
  | zero => simp
  | succ k ih =>
      have before := (Args.lt_nCmd_iff.mp le).le
      have length : min ((k + 1) * blkPerCmd) args.nblk = k * blkPerCmd + countOf args k := by
        rw [countOf, Nat.succ_mul, ← Nat.add_min_add_left, Nat.add_sub_cancel' before]
      rw [List.range_succ, List.flatMap_append, ih (Nat.le_of_succ_le le), List.flatMap_singleton,
        command_blocks accepted small le, length, List.range_add, List.map_append, List.map_map,
        min_eq_left before]
      rfl

/-- All commands together have the blocks of the buffer. -/
theorem flatMap_blocks_all (accepted : args.Accepted) (small : args.size < 2 ^ 44) :
    (List.range args.nCmd).flatMap (fun cmdI => (command args cmdI).blocks) =
      (List.range (args.size / oxfBlkSize)).map args.block := by
  have all : args.nblk ≤ args.nCmd * blkPerCmd := by
    by_contra more
    exact absurd (Args.lt_nCmd_iff.mpr (Nat.not_le.mp more)) (Nat.lt_irrefl _)
  rw [flatMap_blocks accepted small _ (Nat.le_refl _), min_eq_right all, Args.nblk_eq small]

end OxCtrl.NvmeHost
