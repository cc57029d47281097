import OxCtrl.Transaction

/-!
# The tables behind the modules

`Store` holds the tables that transactions and log replay change: the mapping from LBAs
to sectors, the directory of the mapping pages, the metadata of the blocks, and the log.
The mapping is the plain map that the cached mapping table represents.  Closing and
returning blocks is left to provisioning.
-/

namespace OxCtrl

open OxCtrl.Transaction
open OxCtrl.Log

universe u

/-- Channel, LUN and number of a block. -/
abbrev BlkAddr : Type := Fin 4096 × Fin 64 × Fin 32768

/-- The block of an address. -/
def Ppa.block (ppa : Ppa) : BlkAddr :=
  (ppa.ch, ppa.lun, ppa.blk)

/-- The metadata of all blocks. -/
abbrev Blocks : Type := BlkAddr → BlkMdEntry

/-- The functions of provisioning that log replay calls. -/
structure ProvFns where
  closeBlkFn : Blocks → Ppa → Nat → Blocks × Int
  putBlkFn : Blocks → Ppa → Blocks × Int

/-- Provisioning functions for histories that call none of them. -/
def noProvFns : ProvFns :=
  ⟨fun blocks _ _ => (blocks, 0), fun blocks _ => (blocks, 0)⟩

/-- The tables and the log. -/
structure Store (κ : Type u) where
  map : Nat → Ppa
  mapMd : Nat → Ppa
  blocks : Blocks
  log : κ

namespace Store

variable {κ : Type u}

/-- `map_upsert` on a plain map. -/
def upsert (store : Store κ) (lba : Nat) (ppa oldCaller : Ppa) : Store κ × Ppa × Int :=
  if oldCaller ≠ 0 ∧ store.map lba ≠ oldCaller then (store, store.map lba, 1)
  else ({ store with map := Function.update store.map lba ppa }, store.map lba, 0)

/-- Store the metadata of the block of an address. -/
def setBlk (store : Store κ) (ppa : Ppa) (entry : BlkMdEntry) : Store κ :=
  { store with blocks := Function.update store.blocks ppa.block entry }

/-- `oxb_blk_md_invalidate`. -/
def invalidate (geo : Geometry) (store : Store κ) (ppa : Ppa) (full : Bool) : Store κ :=
  store.setBlk ppa ((store.blocks ppa.block).invalidate geo ppa full)

/-- `map_upsert_md` on a plain directory. -/
def upsertMd (geo : Geometry) (store : Store κ) (index : Nat) (newPpa oldPpa : Ppa) :
    Store κ × Int :=
  let (store, ret) : Store κ × Int :=
    if store.mapMd index ≠ oldPpa then (store, 1)
    else ({ store with mapMd := Function.update store.mapMd index newPpa }, 0)
  (if oldPpa = 0 then store else store.invalidate geo oldPpa true, ret)

/-- The modules over the tables.  Marking a metadata page as dirty changes no table. -/
def oxapp (geo : Geometry) (prov : ProvFns) : Oxapp (Store κ) where
  geo := geo
  upsertFn := upsert
  upsertMdFn := upsertMd geo
  getBlk store ppa := store.blocks ppa.block
  setBlk := setBlk
  markFn store _ := store
  invalidateFn := invalidate geo
  closeBlkFn store ppa type :=
    ({ store with blocks := (prov.closeBlkFn store.blocks ppa type).1 },
      (prov.closeBlkFn store.blocks ppa type).2)
  putBlkFn store ppa :=
    ({ store with blocks := (prov.putBlkFn store.blocks ppa).1 },
      (prov.putBlkFn store.blocks ppa).2)

/-! ## What the functions leave alone -/

@[simp]
theorem upsert_blocks (store : Store κ) (lba : Nat) (ppa oldCaller : Ppa) :
    (store.upsert lba ppa oldCaller).1.blocks = store.blocks := by
  unfold upsert
  split <;> rfl

@[simp]
theorem upsert_log (store : Store κ) (lba : Nat) (ppa oldCaller : Ppa) :
    (store.upsert lba ppa oldCaller).1.log = store.log := by
  unfold upsert
  split <;> rfl

/-- A user write always takes effect. -/
theorem upsert_zero (store : Store κ) (lba : Nat) (ppa : Ppa) :
    store.upsert lba ppa 0 =
      ({ store with map := Function.update store.map lba ppa }, store.map lba, 0) := by
  simp [upsert]

@[simp]
theorem invalidate_map (geo : Geometry) (store : Store κ) (ppa : Ppa) (full : Bool) :
    (store.invalidate geo ppa full).map = store.map :=
  rfl

@[simp]
theorem invalidate_log (geo : Geometry) (store : Store κ) (ppa : Ppa) (full : Bool) :
    (store.invalidate geo ppa full).log = store.log :=
  rfl

theorem invalidate_blocks (geo : Geometry) (store : Store κ) (ppa : Ppa) (full : Bool)
    (block : BlkAddr) :
    (store.invalidate geo ppa full).blocks block =
      if block = ppa.block then (store.blocks block).invalidate geo ppa full
      else store.blocks block := by
  unfold invalidate setBlk
  by_cases same : block = ppa.block
  · subst same
    simp
  · simp [same]

theorem invalidate_eq_self {geo : Geometry} {store : Store κ} {ppa : Ppa}
    (invalid : (store.blocks ppa.block).isInvalid geo ppa.pg ppa.pl ppa.sec) :
    store.invalidate geo ppa false = store := by
  simp [invalidate, setBlk, BlkMdEntry.invalidate, invalid]

/-! ## Invalidation of replaced sectors -/

/-- The sector of an address is marked as invalid. -/
def SectorInvalid (geo : Geometry) (blocks : Blocks) (ppa : Ppa) : Prop :=
  (blocks ppa.block).isInvalid geo ppa.pg ppa.pl ppa.sec

instance (geo : Geometry) (blocks : Blocks) (ppa : Ppa) :
    Decidable (SectorInvalid geo blocks ppa) :=
  inferInstanceAs (Decidable (_ = true))

/-- The metadata of the blocks after some sectors were invalidated. -/
structure Invalidated (before after : Blocks) : Prop where
  flags : ∀ block, (after block).flags = (before block).flags
  currentPg : ∀ block, (after block).currentPg = (before block).currentPg
  grows : ∀ block idx i, ((before block).pgState idx).getLsbD i →
    ((after block).pgState idx).getLsbD i

theorem Invalidated.sector {before after : Blocks} (invalidated : Invalidated before after)
    {geo : Geometry} {ppa : Ppa} (invalid : SectorInvalid geo before ppa) :
    SectorInvalid geo after ppa :=
  invalidated.grows _ _ _ invalid

theorem invalidate_invalidated (geo : Geometry) (store : Store κ) (ppa : Ppa) :
    Invalidated store.blocks (store.invalidate geo ppa false).blocks := by
  refine ⟨fun block => ?_, fun block => ?_, fun block idx i bit => ?_⟩
  · rw [invalidate_blocks]
    split <;> simp
  · rw [invalidate_blocks]
    split <;> simp
  · rw [invalidate_blocks]
    split
    · simp [BlkMdEntry.getLsbD_invalidate, bit]
    · exact bit

theorem invalidate_sector (geo : Geometry) (store : Store κ) (ppa : Ppa) :
    SectorInvalid geo (store.invalidate geo ppa false).blocks ppa := by
  unfold SectorInvalid BlkMdEntry.isInvalid
  rw [invalidate_blocks, if_pos rfl, BlkMdEntry.getLsbD_invalidate]
  simp

variable {geo : Geometry} {app : TrApp (Store κ)}

theorem invalidateOld_spec (invalidates : app.invalidateFn = invalidate geo) (store : Store κ)
    (oldPpas : List Ppa) :
    (invalidateOld app store oldPpas).map = store.map ∧
      (invalidateOld app store oldPpas).log = store.log ∧
      Invalidated store.blocks (invalidateOld app store oldPpas).blocks ∧
      ∀ old ∈ oldPpas, old ≠ 0 →
        SectorInvalid geo (invalidateOld app store oldPpas).blocks old := by
  induction oldPpas generalizing store with
  | nil => exact ⟨rfl, rfl, ⟨fun _ => rfl, fun _ => rfl, fun _ _ _ bit => bit⟩, by simp⟩
  | cons old oldPpas ih =>
      unfold invalidateOld at ih ⊢
      rw [List.foldl_cons]
      by_cases zero : old = 0
      · obtain ⟨map, log, invalidated, sectors⟩ := ih store
        simp only [zero, if_true]
        refine ⟨map, log, invalidated, fun other mem nonzero => ?_⟩
        exact sectors other ((List.mem_cons.mp mem).resolve_left nonzero) nonzero
      · obtain ⟨map, log, invalidated, sectors⟩ := ih (store.invalidate geo old false)
        have first := invalidate_invalidated geo store old
        simp only [zero, if_false, invalidates]
        rw [invalidates] at map log invalidated sectors
        refine ⟨map, log, ?_, fun other mem nonzero => ?_⟩
        · exact ⟨fun block => (invalidated.flags block).trans (first.flags block),
            fun block => (invalidated.currentPg block).trans (first.currentPg block),
            fun block idx i bit => invalidated.grows _ _ _ (first.grows _ _ _ bit)⟩
        · rcases List.mem_cons.mp mem with rfl | mem
          · exact invalidated.sector (invalidate_sector geo store _)
          · exact sectors other mem nonzero

theorem invalidateOld_eq_self (invalidates : app.invalidateFn = invalidate geo) {store : Store κ}
    {oldPpas : List Ppa} (invalid : ∀ old ∈ oldPpas, old = 0 ∨ SectorInvalid geo store.blocks old) :
    invalidateOld app store oldPpas = store := by
  induction oldPpas with
  | nil => rfl
  | cons old oldPpas ih =>
      unfold invalidateOld at ih ⊢
      rw [List.foldl_cons]
      have same : (if old = 0 then store else app.invalidateFn store old false) = store := by
        split
        · rfl
        next nonzero =>
          rw [invalidates]
          exact invalidate_eq_self ((invalid old List.mem_cons_self).resolve_left nonzero)
      rw [same]
      exact ih fun other mem => invalid other (List.mem_cons_of_mem _ mem)

/-! ## The upserts of a transaction -/

/-- The writes of a transaction on the mapping table. -/
def applyEntries (map : Nat → Ppa) (entries : List TrLog) : Nat → Ppa :=
  entries.foldl (fun map entry => Function.update map entry.lba entry.ppa) map

/-- The addresses that the writes of a transaction replace in the mapping table. -/
def overwritten : (Nat → Ppa) → List TrLog → List Ppa
  | _, [] => []
  | map, entry :: entries =>
      map entry.lba :: overwritten (Function.update map entry.lba entry.ppa) entries

theorem upsertEntries_eq (upserts : app.upsertFn = upsert)
    (store : Store κ) (entries : List TrLog) :
    upsertEntries app store entries =
      ({ store with map := applyEntries store.map entries },
        overwritten store.map entries, true) := by
  induction entries generalizing store with
  | nil => rfl
  | cons entry entries ih =>
      rw [upsertEntries, upserts, upsert_zero]
      simp only [ih]
      rfl

theorem mem_overwritten {map : Nat → Ppa} {entries : List TrLog} {old : Ppa}
    (mem : old ∈ overwritten map entries) :
    (∃ lba, map lba = old) ∨ ∃ entry ∈ entries, entry.ppa = old := by
  induction entries generalizing map with
  | nil => simp [overwritten] at mem
  | cons entry entries ih =>
      rcases List.mem_cons.mp mem with rfl | mem
      · exact Or.inl ⟨entry.lba, rfl⟩
      · rcases ih mem with ⟨lba, eq⟩ | ⟨later, laterMem, eq⟩
        · by_cases same : lba = entry.lba
          · subst same
            rw [Function.update_self] at eq
            exact Or.inr ⟨entry, List.mem_cons_self, eq⟩
          · rw [Function.update_of_ne same] at eq
            exact Or.inl ⟨lba, eq⟩
        · exact Or.inr ⟨later, List.mem_cons_of_mem _ laterMem, eq⟩

/-- The last write of an LBA counts. -/
theorem applyEntries_apply (map : Nat → Ppa) (entries : List TrLog) (lba : Nat) :
    (∀ entry ∈ entries, entry.lba ≠ lba) ∧ applyEntries map entries lba = map lba ∨
      ∃ entry ∈ entries, entry.lba = lba ∧ applyEntries map entries lba = entry.ppa := by
  induction entries generalizing map with
  | nil => exact Or.inl ⟨by simp, rfl⟩
  | cons entry entries ih =>
      rcases ih (Function.update map entry.lba entry.ppa) with ⟨other, eq⟩ | ⟨later, laterMem, eq⟩
      · by_cases same : entry.lba = lba
        · subst same
          rw [Function.update_self] at eq
          exact Or.inr ⟨entry, List.mem_cons_self, rfl, eq⟩
        · rw [Function.update_of_ne (Ne.symm same)] at eq
          exact Or.inl ⟨by simpa using ⟨same, other⟩, eq⟩
      · exact Or.inr ⟨later, List.mem_cons_of_mem _ laterMem, eq⟩

end Store

end OxCtrl
