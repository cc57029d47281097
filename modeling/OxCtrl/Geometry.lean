import Mathlib.Algebra.Group.Nat.Defs
import Mathlib.Data.Fin.Basic

/-!
# Device geometry and physical addresses

`Ppa` is the bit-field view of the 64-bit `nvm_ppa_addr`.  Every field has the
width of the source's bit-field, so the record and the 64-bit word determine each
other and two records are equal exactly when the two words are.  `Geometry` keeps
the figures of `nvm_mmgr_geometry` that the translation layer reads, together with
the limits that the address layout and the page-state vector impose on them.
-/

namespace OxCtrl

/-- `struct nvm_ppa_addr`: a sector address. -/
@[ext]
structure Ppa where
  sec : Fin 8
  pl : Fin 4
  ch : Fin 4096
  lun : Fin 64
  pg : Fin 4096
  blk : Fin 32768
  rsv : Fin 16384
  deriving DecidableEq, Repr

namespace Ppa

/-- The address word zero, which the mapping table uses for "not mapped". -/
instance : Zero Ppa :=
  ⟨⟨0, 0, 0, 0, 0, 0, 0⟩⟩

/-- Read the fields of a 64-bit address word. -/
def ofNat (word : Nat) : Ppa where
  sec := Fin.ofNat 8 word
  pl := Fin.ofNat 4 (word / 2 ^ 3)
  ch := Fin.ofNat 4096 (word / 2 ^ 5)
  lun := Fin.ofNat 64 (word / 2 ^ 17)
  pg := Fin.ofNat 4096 (word / 2 ^ 23)
  blk := Fin.ofNat 32768 (word / 2 ^ 35)
  rsv := Fin.ofNat 16384 (word / 2 ^ 50)

/-- The 64-bit word of an address. -/
def toNat (ppa : Ppa) : Nat :=
  ppa.sec + 2 ^ 3 * ppa.pl + 2 ^ 5 * ppa.ch + 2 ^ 17 * ppa.lun + 2 ^ 23 * ppa.pg +
    2 ^ 35 * ppa.blk + 2 ^ 50 * ppa.rsv

@[simp]
theorem ofNat_toNat (ppa : Ppa) : ofNat ppa.toNat = ppa := by
  rcases ppa with ⟨sec, pl, ch, lun, pg, blk, rsv⟩
  simp only [ofNat, toNat, Ppa.mk.injEq, Fin.ext_iff, Fin.val_ofNat]
  refine ⟨?_, ?_, ?_, ?_, ?_, ?_, ?_⟩ <;> omega

/-- Address of a sector. -/
def sector (ch lun blk pg pl sec : Nat) : Ppa where
  sec := Fin.ofNat 8 sec
  pl := Fin.ofNat 4 pl
  ch := Fin.ofNat 4096 ch
  lun := Fin.ofNat 64 lun
  pg := Fin.ofNat 4096 pg
  blk := Fin.ofNat 32768 blk
  rsv := Fin.ofNat 16384 0

/-- `addr.g.pg = pg`. -/
def setPg (ppa : Ppa) (pg : Nat) : Ppa :=
  { ppa with pg := Fin.ofNat 4096 pg }

/-- `addr.g.pl = pl; addr.g.sec = sec`. -/
def setSector (ppa : Ppa) (pl sec : Nat) : Ppa :=
  { ppa with pl := Fin.ofNat 4 pl, sec := Fin.ofNat 8 sec }

/-- Two addresses name sectors of the same block. -/
def SameBlock (first second : Ppa) : Prop :=
  first.ch = second.ch ∧ first.lun = second.lun ∧ first.blk = second.blk

instance (first second : Ppa) : Decidable (SameBlock first second) :=
  inferInstanceAs (Decidable (_ ∧ _ ∧ _))

end Ppa

/-- `BLK_MD_BYTE_VEC_SZ`: bytes of page state kept per block. -/
def blkMdByteVecSz : Nat := 2048

/-- The part of `struct nvm_mmgr_geometry` that the translation layer reads.
The bounds are those of the address bit-fields and of the page-state vector. -/
structure Geometry where
  lunPerCh : Nat
  blkPerLun : Nat
  pgPerBlk : Nat
  secPerPg : Nat
  nOfPlanes : Nat
  lun_pos : 0 < lunPerCh
  lun_le : lunPerCh ≤ 64
  blk_pos : 0 < blkPerLun
  blk_le : blkPerLun ≤ 32768
  pg_pos : 0 < pgPerBlk
  pg_le : pgPerBlk ≤ 4096
  sec_pos : 0 < secPerPg
  sec_le : secPerPg ≤ 8
  pl_pos : 0 < nOfPlanes
  pl_le : nOfPlanes ≤ 4
  state_le : pgPerBlk * nOfPlanes ≤ blkMdByteVecSz

namespace Geometry

/-- Sectors of a multi-plane page. -/
def secPerPlPg (geo : Geometry) : Nat :=
  geo.secPerPg * geo.nOfPlanes

theorem secPerPlPg_pos (geo : Geometry) : 0 < geo.secPerPlPg :=
  Nat.mul_pos geo.sec_pos geo.pl_pos

/-- One LUN with 20 blocks of two pages, each page with two sectors. -/
def small : Geometry where
  lunPerCh := 1
  blkPerLun := 20
  pgPerBlk := 2
  secPerPg := 2
  nOfPlanes := 1
  lun_pos := Nat.one_pos
  lun_le := by decide
  blk_pos := by decide
  blk_le := by decide
  pg_pos := Nat.two_pos
  pg_le := by decide
  sec_pos := Nat.two_pos
  sec_le := by decide
  pl_pos := Nat.one_pos
  pl_le := by decide
  state_le := by decide

end Geometry

end OxCtrl
