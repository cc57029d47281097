import OxCtrl.Gc.Core
import OxCtrl.Lib.Increasing
import Mathlib.Data.List.GetD

/-!
# What moving a page does to the tables

The sectors of a block are numbered from page to page.  A page that is moved updates the
mapping of those LBAs whose address is the one that they are compared with, and
invalidates these addresses.
-/

namespace OxCtrl.Gc

open OxCtrl.Lib

universe u

variable {δ : Type u} (geo : Geometry)

/-- Address of sector number `k` of a block. -/
def place (ppa : Ppa) (k : Nat) : Ppa :=
  sectorOf geo (ppa.setPg (k / geo.secPerPlPg)) (k % geo.secPerPlPg)

/-- Number of sectors of a block. -/
def secPerBlk : Nat :=
  geo.pgPerBlk * geo.secPerPlPg

/-- Sector number `k` of a block is marked as invalid. -/
def Invalid (md : BlkMdEntry) (k : Nat) : Prop :=
  md.isInvalid geo (k / geo.secPerPlPg) (k % geo.secPerPlPg / geo.secPerPg)
    (k % geo.secPerPlPg % geo.secPerPg)

instance (md : BlkMdEntry) (k : Nat) : Decidable (Invalid geo md k) :=
  inferInstanceAs (Decidable (_ = true))

variable {geo} {ppa : Ppa} {k k' : Nat}

@[simp]
theorem place_block (ppa : Ppa) (k : Nat) : (place geo ppa k).block = ppa.block :=
  rfl

theorem place_ne_zero (nonzero : ppa.block ≠ (0, 0, 0)) (k : Nat) : place geo ppa k ≠ 0 := by
  intro zero
  apply nonzero
  rw [← @place_block geo ppa k, zero]
  rfl

theorem page_lt (lt : k < secPerBlk geo) : k / geo.secPerPlPg < geo.pgPerBlk :=
  Nat.div_lt_of_lt_mul (by rwa [Nat.mul_comm])

theorem plane_lt (k : Nat) : k % geo.secPerPlPg / geo.secPerPg < geo.nOfPlanes :=
  Nat.div_lt_of_lt_mul (Nat.mod_lt _ geo.secPerPlPg_pos)

theorem sec_lt (k : Nat) : k % geo.secPerPlPg % geo.secPerPg < geo.secPerPg :=
  Nat.mod_lt _ geo.sec_pos

/-- Page, plane and sector determine the number of a sector. -/
theorem number_eq (page : k / geo.secPerPlPg = k' / geo.secPerPlPg)
    (plane : k % geo.secPerPlPg / geo.secPerPg = k' % geo.secPerPlPg / geo.secPerPg)
    (sec : k % geo.secPerPlPg % geo.secPerPg = k' % geo.secPerPlPg % geo.secPerPg) : k = k' := by
  have inPage : k % geo.secPerPlPg = k' % geo.secPerPlPg := by
    rw [← Nat.div_add_mod (k % geo.secPerPlPg) geo.secPerPg, plane, sec, Nat.div_add_mod]
  rw [← Nat.div_add_mod k geo.secPerPlPg, page, inPage, Nat.div_add_mod]

theorem place_injective (lt : k < secPerBlk geo) (lt' : k' < secPerBlk geo)
    (same : place geo ppa k = place geo ppa k') : k = k' := by
  have pageLt := (page_lt lt).trans_le geo.pg_le
  have pageLt' := (page_lt lt').trans_le geo.pg_le
  have planeLt := (@plane_lt geo k).trans_le geo.pl_le
  have planeLt' := (@plane_lt geo k').trans_le geo.pl_le
  have secLt := (@sec_lt geo k).trans_le geo.sec_le
  have secLt' := (@sec_lt geo k').trans_le geo.sec_le
  simp only [place, sectorOf, Ppa.setSector, Ppa.setPg, Ppa.mk.injEq, Fin.ext_iff, Fin.val_ofNat,
    Nat.mod_eq_of_lt, *] at same
  exact number_eq same.2.2.2.2.1 same.2.1 same.1

/-- The sectors of page `pg`. -/
theorem place_page (ppa : Ppa) (pg : Nat) {i : Nat} (lt : i < geo.secPerPlPg) :
    place geo ppa (pg * geo.secPerPlPg + i) = sectorOf geo (ppa.setPg pg) i := by
  rw [place, Nat.mul_comm, Nat.mul_add_div geo.secPerPlPg_pos, Nat.div_eq_of_lt lt, Nat.add_zero,
    Nat.mul_add_mod, Nat.mod_eq_of_lt lt]

theorem page_add_lt {pg i : Nat} (pgLt : pg < geo.pgPerBlk) (lt : i < geo.secPerPlPg) :
    pg * geo.secPerPlPg + i < secPerBlk geo :=
  calc
    pg * geo.secPerPlPg + i < (pg + 1) * geo.secPerPlPg := by rw [Nat.succ_mul]; omega
    _ ≤ secPerBlk geo := Nat.mul_le_mul_right _ pgLt

/-! ## Invalidation -/

theorem invalid_of_invalidate (store : Store Unit) (k : Nat) (lt' : k' < secPerBlk geo) :
    Invalid geo ((store.invalidate geo (place geo ppa k') false).blocks ppa.block) k ↔
      Invalid geo (store.blocks ppa.block) k ∨ k = k' := by
  have pageLt' := (page_lt lt').trans_le geo.pg_le
  have planeLt := @plane_lt geo k
  have planeLt' := @plane_lt geo k'
  have secLt' := (@sec_lt geo k').trans_le geo.sec_le
  rw [Store.invalidate_blocks, if_pos (place_block ppa k').symm]
  unfold Invalid BlkMdEntry.isInvalid
  rw [BlkMdEntry.getLsbD_invalidate, Bool.or_eq_true, decide_eq_true_eq]
  refine or_congr_right ?_
  simp only [place, sectorOf, Ppa.setSector, Ppa.setPg, Fin.val_ofNat, BlkMdEntry.stateIdx,
    Nat.mod_eq_of_lt pageLt', Nat.mod_eq_of_lt (planeLt'.trans_le geo.pl_le),
    Nat.mod_eq_of_lt secLt']
  constructor
  · rintro ⟨idx, sec⟩
    have page := congrArg (· / geo.nOfPlanes) idx
    have plane := congrArg (· % geo.nOfPlanes) idx
    simp only [Nat.mul_comm _ geo.nOfPlanes, Nat.mul_add_div geo.pl_pos, Nat.div_eq_of_lt planeLt,
      Nat.div_eq_of_lt planeLt', Nat.add_zero, Nat.mul_add_mod, Nat.mod_eq_of_lt planeLt,
      Nat.mod_eq_of_lt planeLt'] at page plane
    exact number_eq page plane sec
  · rintro rfl
    exact ⟨rfl, rfl⟩

theorem blocks_invalidate_outside (store : Store Unit) {other : Ppa} {victim : BlkAddr}
    (outside : other.block ≠ victim) :
    (store.invalidate geo other false).blocks victim = store.blocks victim := by
  rw [Store.invalidate_blocks, if_neg (Ne.symm outside)]

/-! ## The loop over the sectors of a page -/

/-- LBA number `i` of the buffer is mapped to the address that it is compared with. -/
def Hit (geo : Geometry) (ppa : Ppa) (store : Store Unit) (lbas : Nat → Nat) (nSec pg i : Nat) :
    Prop :=
  i < nSec ∧ store.map (lbas i) = place geo ppa (pg * geo.secPerPlPg + i)

/-- What the loop over the sectors of a page does. -/
structure Remapped (geo : Geometry) (ppa : Ppa) (store : Store Unit) (lbas : Nat → Nat)
    (nSec pg : Nat) (ppas : List Ppa) (m : Nat) (after : Store Unit) : Prop where
  moved : ∀ i < m, Hit geo ppa store lbas nSec pg i → after.map (lbas i) = ppas.getD i 0
  kept : ∀ lba, (∀ i < m, Hit geo ppa store lbas nSec pg i → lbas i ≠ lba) →
    after.map lba = store.map lba
  invalid : ∀ k < secPerBlk geo, Invalid geo (after.blocks ppa.block) k ↔
    Invalid geo (store.blocks ppa.block) k ∨
      ∃ i < m, Hit geo ppa store lbas nSec pg i ∧ k = pg * geo.secPerPlPg + i

variable {store : Store Unit} {lbas : Nat → Nat} {nSec pg : Nat} {ppas : List Ppa}

theorem Hit.unique {i j : Nat} (hitI : Hit geo ppa store lbas nSec pg i)
    (hitJ : Hit geo ppa store lbas nSec pg j) (pgLt : pg < geo.pgPerBlk)
    (ltI : i < geo.secPerPlPg) (ltJ : j < geo.secPerPlPg) (same : lbas i = lbas j) : i = j := by
  have equal := place_injective (page_add_lt pgLt ltI) (page_add_lt pgLt ltJ)
    (hitI.2.symm.trans ((congrArg store.map same).trans hitJ.2))
  omega

theorem remapSector_spec (nonzero : ppa.block ≠ (0, 0, 0)) (pgLt : pg < geo.pgPerBlk)
    (length : ppas.length = geo.secPerPlPg) (outside : ∀ other ∈ ppas, other.block ≠ ppa.block)
    {gcOldPpa : Ppa} (page : ∀ i, sectorOf geo gcOldPpa i = sectorOf geo (ppa.setPg pg) i)
    {m : Nat} (lt : m < geo.secPerPlPg) {after : Store Unit}
    (remapped : Remapped geo ppa store lbas nSec pg ppas m after) :
    Remapped geo ppa store lbas nSec pg ppas (m + 1)
      (remapSector geo lbas nSec ppas gcOldPpa after m) := by
  have newOutside : (ppas.getD m 0).block ≠ ppa.block := by
    rw [List.getD_eq_getElem _ _ (by omega)]
    exact outside _ (List.getElem_mem _)
  have kLt := page_add_lt pgLt lt
  have old : sectorOf geo gcOldPpa m = place geo ppa (pg * geo.secPerPlPg + m) := by
    rw [page, place_page ppa pg lt]
  by_cases hit : Hit geo ppa store lbas nSec pg m
  · have unmoved : after.map (lbas m) = store.map (lbas m) := by
      refine remapped.kept _ fun i iLt hitI same => ?_
      have := hitI.unique hit pgLt (by omega) lt same
      omega
    have equal : after.map (lbas m) = place geo ppa (pg * geo.secPerPlPg + m) :=
      unmoved.trans hit.2
    have result : remapSector geo lbas nSec ppas gcOldPpa after m =
        ({ after with map := Function.update after.map (lbas m) (ppas.getD m 0) } :
          Store Unit).invalidate geo (place geo ppa (pg * geo.secPerPlPg + m)) false := by
      simp only [remapSector, Nat.not_le.mpr hit.1, if_false, old, Store.upsert, equal, ne_eq,
        not_true, and_false, place_ne_zero nonzero]
    rw [result]
    refine ⟨fun i iLt hitI => ?_, fun lba other => ?_, fun k kLt' => ?_⟩
    · rw [Store.invalidate_map]
      by_cases last : i = m
      · subst last
        exact Function.update_self _ _ _
      · have ne : lbas i ≠ lbas m :=
          fun same => last (hitI.unique hit pgLt (by omega) lt same)
        simp only [Function.update_of_ne ne]
        exact remapped.moved i (by omega) hitI
    · rw [Store.invalidate_map]
      simp only [Function.update_of_ne (Ne.symm (other m (by omega) hit))]
      exact remapped.kept lba fun i iLt => other i (by omega)
    · rw [invalid_of_invalidate _ k kLt, remapped.invalid k kLt', or_assoc]
      refine or_congr_right ?_
      constructor
      · rintro (⟨i, iLt, hitI, eq⟩ | eq)
        · exact ⟨i, by omega, hitI, eq⟩
        · exact ⟨m, by omega, hit, eq⟩
      · rintro ⟨i, iLt, hitI, eq⟩
        by_cases last : i = m
        · exact Or.inr (last ▸ eq)
        · exact Or.inl ⟨i, by omega, hitI, eq⟩
  · have result : remapSector geo lbas nSec ppas gcOldPpa after m =
        after.invalidate geo (ppas.getD m 0) false := by
      unfold remapSector
      split
      · rfl
      next more =>
        -- the LBA is mapped as before the page, or to a sector of the new page
        have differs : after.map (lbas m) ≠ place geo ppa (pg * geo.secPerPlPg + m) := by
          intro equal
          by_cases earlier : ∃ i < m, Hit geo ppa store lbas nSec pg i ∧ lbas i = lbas m
          · obtain ⟨i, iLt, hitI, same⟩ := earlier
            have moved := remapped.moved i iLt hitI
            rw [same, equal, List.getD_eq_getElem _ _ (by omega)] at moved
            refine outside ppas[i] (List.getElem_mem _) ?_
            rw [← moved, place_block]
          · have unmoved := remapped.kept (lbas m) fun i iLt hitI same =>
              earlier ⟨i, iLt, hitI, same⟩
            exact hit ⟨Nat.not_le.mp more, unmoved.symm.trans equal⟩
        simp only [old, Store.upsert, ne_eq, place_ne_zero nonzero, not_false_iff, differs,
          and_self, if_true]
    rw [result]
    have sameRange : ∀ i, i < m + 1 → Hit geo ppa store lbas nSec pg i → i < m := by
      intro i iLt hitI
      have : i ≠ m := fun same => hit (same ▸ hitI)
      omega
    refine ⟨fun i iLt hitI => ?_, fun lba other => ?_, fun k kLt' => ?_⟩
    · rw [Store.invalidate_map]
      exact remapped.moved i (sameRange i iLt hitI) hitI
    · rw [Store.invalidate_map]
      exact remapped.kept lba fun i iLt => other i (by omega)
    · rw [blocks_invalidate_outside _ newOutside, remapped.invalid k kLt']
      refine or_congr_right ⟨?_, ?_⟩
      · rintro ⟨i, iLt, rest⟩
        exact ⟨i, by omega, rest⟩
      · rintro ⟨i, iLt, hitI, eq⟩
        exact ⟨i, sameRange i iLt hitI, hitI, eq⟩

/-- The loop over the sectors of a page. -/
theorem remap_spec (nonzero : ppa.block ≠ (0, 0, 0)) (pgLt : pg < geo.pgPerBlk)
    (length : ppas.length = geo.secPerPlPg) (outside : ∀ other ∈ ppas, other.block ≠ ppa.block)
    {gcOldPpa : Ppa} (page : ∀ i, sectorOf geo gcOldPpa i = sectorOf geo (ppa.setPg pg) i)
    (store : Store Unit) (lbas : Nat → Nat) (nSec : Nat) :
    Remapped geo ppa store lbas nSec pg ppas geo.secPerPlPg
      ((List.range geo.secPerPlPg).foldl (remapSector geo lbas nSec ppas gcOldPpa) store) := by
  suffices all : ∀ m ≤ geo.secPerPlPg, Remapped geo ppa store lbas nSec pg ppas m
      ((List.range m).foldl (remapSector geo lbas nSec ppas gcOldPpa) store) from
    all _ le_rfl
  intro m le
  induction m with
  | zero => exact ⟨by simp, fun _ _ => rfl, by simp⟩
  | succ m ih =>
      rw [List.range_succ, List.foldl_append]
      exact remapSector_spec nonzero pgLt length outside page le (ih (by omega))

end OxCtrl.Gc
