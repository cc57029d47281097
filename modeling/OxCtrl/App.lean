import OxCtrl.BlkMd

/-!
# The module table of the translation layer

The source reaches its modules through the function table returned by `oxapp ()`.
`Oxapp` is the part of this table that log replay uses, over an arbitrary state `ε`
of the modules behind it.  Functions that return a pointer into the block metadata
are a read and a write of the entry.
-/

namespace OxCtrl

universe u

/-- `struct app_global`, as far as log replay calls it. -/
structure Oxapp (ε : Type u) where
  /-- Geometry of the channels. -/
  geo : Geometry
  /-- `gl_map->upsert_fn (lba, ppa, &old, old_caller)`: new state, `*old`, return value. -/
  upsertFn : ε → Nat → Ppa → Ppa → ε × Ppa × Int
  /-- `gl_map->upsert_md_fn (index, new_ppa, old_ppa)`. -/
  upsertMdFn : ε → Nat → Ppa → Ppa → ε × Int
  /-- `md->get_fn (lch, lun)[blk]` for the block of an address. -/
  getBlk : ε → Ppa → BlkMdEntry
  /-- Store through the pointer of `md->get_fn`. -/
  setBlk : ε → Ppa → BlkMdEntry → ε
  /-- `md->mark_fn` on the metadata page of a block. -/
  markFn : ε → Ppa → ε
  /-- `md->invalidate_fn (lch, ppa, full)`. -/
  invalidateFn : ε → Ppa → Bool → ε
  /-- `ch_prov->close_blk_fn (lch, ppa, type)`. -/
  closeBlkFn : ε → Ppa → Nat → ε × Int
  /-- `ch_prov->put_blk_fn (lch, lun, blk)`. -/
  putBlkFn : ε → Ppa → ε × Int

end OxCtrl
