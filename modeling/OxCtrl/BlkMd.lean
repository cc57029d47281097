import OxCtrl.Geometry

/-!
# Block metadata entries

`BlkMdEntry` is `struct app_blk_md_entry`: the state flags of a block, its write
pointer, and one byte of page state per plane page with one bit per sector.  A set
bit means that the sector is invalid.
-/

namespace OxCtrl

/-- The bits of `enum app_blk_md_flags`. -/
structure BlkFlags where
  used : Bool := false
  isOpen : Bool := false
  line : Bool := false
  avlb : Bool := false
  cold : Bool := false
  metadata : Bool := false
  deriving DecidableEq, Repr

/-- `struct app_blk_md_entry`.  `pgState` is indexed by `pg * n_of_planes + pl`. -/
structure BlkMdEntry where
  flags : BlkFlags := {}
  ppa : Ppa := 0
  eraseCount : Nat := 0
  currentPg : Nat := 0
  invalidSec : Nat := 0
  pgState : Nat → BitVec 8 := fun _ => 0

namespace BlkMdEntry

/-- The fields that tell whether a block is in use, open, and where it is written. -/
def usage (entry : BlkMdEntry) : Bool × Bool × Nat :=
  (entry.flags.used, entry.flags.isOpen, entry.currentPg)

/-- Index of a plane page in the page-state vector. -/
def stateIdx (geo : Geometry) (pg pl : Nat) : Nat :=
  pg * geo.nOfPlanes + pl

/-- The sector bit of an address is set. -/
def isInvalid (geo : Geometry) (entry : BlkMdEntry) (pg pl sec : Nat) : Bool :=
  (entry.pgState (stateIdx geo pg pl)).getLsbD sec

/-- The byte value of a plane page with all its sectors invalid. -/
def fullMask (geo : Geometry) : BitVec 8 :=
  BitVec.ofNat 8 (2 ^ geo.secPerPg - 1)

/-- Store one byte of page state. -/
def setByte (entry : BlkMdEntry) (idx : Nat) (byte : BitVec 8) : BlkMdEntry :=
  { entry with pgState := Function.update entry.pgState idx byte }

/-- The plane loop of a full-page invalidation, from plane `pl` on.  A plane that
is already full makes the function return at once, with the earlier planes written
and `invalid_sec` not updated. -/
def invalidatePlanes (geo : Geometry) (pg : Nat) : Nat → Nat → BlkMdEntry → BlkMdEntry
  | 0, _, entry => { entry with invalidSec := entry.invalidSec + geo.secPerPlPg }
  | left + 1, pl, entry =>
      if entry.pgState (stateIdx geo pg pl) = fullMask geo then entry
      else invalidatePlanes geo pg left (pl + 1)
        (entry.setByte (stateIdx geo pg pl) (fullMask geo))

/-- `oxb_blk_md_invalidate` on the entry of the block of `ppa`. -/
def invalidate (geo : Geometry) (entry : BlkMdEntry) (ppa : Ppa) (full : Bool) : BlkMdEntry :=
  if full then invalidatePlanes geo ppa.pg geo.nOfPlanes 0 entry
  else if entry.isInvalid geo ppa.pg ppa.pl ppa.sec then entry
  else
    let idx := stateIdx geo ppa.pg ppa.pl
    { entry.setByte idx (entry.pgState idx ||| BitVec.ofNat 8 (2 ^ ppa.sec.val)) with
      invalidSec := entry.invalidSec + 1 }

@[simp]
theorem invalidatePlanes_flags (geo : Geometry) (pg left pl : Nat) (entry : BlkMdEntry) :
    (invalidatePlanes geo pg left pl entry).flags = entry.flags := by
  induction left generalizing pl entry with
  | zero => rfl
  | succ left ih =>
      rw [invalidatePlanes]
      split
      · rfl
      · exact ih _ _

@[simp]
theorem invalidate_flags (geo : Geometry) (entry : BlkMdEntry) (ppa : Ppa) (full : Bool) :
    (entry.invalidate geo ppa full).flags = entry.flags := by
  unfold invalidate
  split
  · simp
  · split <;> rfl

@[simp]
theorem invalidate_sector_currentPg (geo : Geometry) (entry : BlkMdEntry) (ppa : Ppa) :
    (entry.invalidate geo ppa false).currentPg = entry.currentPg := by
  simp only [invalidate, Bool.false_eq_true, if_false]
  split <;> rfl

/-- A sector invalidation sets the bit of the sector. -/
theorem getLsbD_invalidate (geo : Geometry) (entry : BlkMdEntry) (ppa : Ppa) (idx i : Nat) :
    ((entry.invalidate geo ppa false).pgState idx).getLsbD i =
      ((entry.pgState idx).getLsbD i ||
        decide (idx = stateIdx geo ppa.pg ppa.pl ∧ i = ppa.sec)) := by
  have bound : ppa.sec.val < 8 := ppa.sec.isLt
  simp only [invalidate, Bool.false_eq_true, if_false]
  split
  next already =>
    by_cases bit : idx = stateIdx geo ppa.pg ppa.pl ∧ i = ppa.sec
    · obtain ⟨rfl, rfl⟩ := bit
      unfold isInvalid at already
      simp [already]
    · simp [bit]
  next =>
    by_cases byte : idx = stateIdx geo ppa.pg ppa.pl
    · subst byte
      simp only [setByte, Function.update_self, BitVec.getLsbD_or, BitVec.getLsbD_ofNat,
        Nat.testBit_two_pow, true_and]
      congr 1
      by_cases same : i = ppa.sec
      · subst same
        simp [bound]
      · simp [same, Ne.symm same]
    · simp [setByte, byte]

end BlkMdEntry

end OxCtrl
