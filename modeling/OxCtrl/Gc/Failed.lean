import OxCtrl.Gc.Moves

/-!
# The count of failed moves

`block_gc_process_blk` adds the sectors of each buffer that is not written to `failed_sec`, which
is a byte.  `block_gc_recycle_blks` gives the block back when the count is zero.  A request without
a page stands for a failed allocation and for a failed write: both end `block_gc_process_pg` before
the mapping is changed.
-/

namespace OxCtrl.Gc

universe u

variable {δ : Type u} {geo : Geometry} {ppa : Ppa} {dest : Dest geo ppa.block}
  {sectors : Nat → Nat → Sector δ} {state : GcState δ}

variable (dest) in
/-- Number of sectors, of the first `n` that were copied, whose buffer is not written. -/
def notWritten (n : Nat) : Nat :=
  (List.range n).countP fun j => (destOf dest j).isNone

/-- The sectors of buffer `b`, up to place `m`. -/
theorem notWritten_add (b : Nat) {m : Nat} (le : m ≤ geo.secPerPlPg) :
    notWritten dest (b * geo.secPerPlPg + m) =
      notWritten dest (b * geo.secPerPlPg) + if (dest.pages b).isNone then m else 0 := by
  unfold notWritten
  rw [List.range_add, List.countP_append, List.countP_map]
  congr 1
  have same : ∀ i ∈ List.range m,
      (((fun j => (destOf dest j).isNone) ∘ (b * geo.secPerPlPg + ·)) i = true ↔
        (dest.pages b).isNone = true) := by
    intro i mem
    have lt := (List.mem_range.mp mem).trans_le le
    simp only [Function.comp_apply, destOf, Option.isNone_map, (div_mod_buffer b lt).1]
  rw [List.countP_congr same]
  cases dest.pages b with
  | none => simp
  | some ppas => simp

theorem secPerPlPg_lt_byte (geo : Geometry) : geo.secPerPlPg < 2 ^ 8 :=
  calc
    geo.secPerPlPg ≤ 8 * 4 := Nat.mul_le_mul geo.sec_le geo.pl_le
    _ < 2 ^ 8 := by decide

/-- A buffer with `m` sectors: they all fail or none does. -/
theorem flushBuffer_failedSec {b m : Nat} (calls : state.calls = b) (off : state.ppaOff = m)
    (le : m ≤ geo.secPerPlPg)
    (failed : state.failedSec = notWritten dest (b * geo.secPerPlPg) % 2 ^ 8) (oldPpa : Ppa) :
    (flushBuffer geo dest state oldPpa).failedSec =
      notWritten dest (b * geo.secPerPlPg + m) % 2 ^ 8 := by
  rw [notWritten_add b le]
  unfold flushBuffer blockGcProcessPg
  rw [calls, off, failed]
  cases pages : dest.pages b with
  | none => simp
  | some ppas =>
      have byte := le.trans_lt (secPerPlPg_lt_byte geo)
      simp only [dest.length pages, lt_irrefl, if_false, Nat.mod_eq_of_lt byte, Nat.sub_self]
      simp

variable (dest) in
/-- The counters after `n` sectors were copied. -/
structure Counted (n : Nat) (state : GcState δ) : Prop where
  calls : state.calls = n / geo.secPerPlPg
  off : state.ppaOff = n % geo.secPerPlPg
  failed : state.failedSec = notWritten dest (n / geo.secPerPlPg * geo.secPerPlPg) % 2 ^ 8

/-- A sector is copied, and a full buffer is written. -/
theorem Counted.move {n : Nat} (counted : Counted dest n state) {sector : Sector δ}
    {next : GcState δ}
    (eq : next = { state with
      wIo := Function.update state.wIo state.ppaOff sector
      ppaOff := state.ppaOff + 1 }) (oldPpa : Ppa) :
    Counted dest (n + 1)
      (if next.ppaOff = geo.secPerPlPg then flushBuffer geo dest next oldPpa else next) := by
  have pos := geo.secPerPlPg_pos
  have parts := Nat.div_add_mod n geo.secPerPlPg
  rw [Nat.mul_comm] at parts
  have rest := Nat.mod_lt n pos
  have calls : next.calls = n / geo.secPerPlPg := by rw [eq, ← counted.calls]
  have off : next.ppaOff = n % geo.secPerPlPg + 1 := by rw [eq, ← counted.off]
  have failed : next.failedSec =
      notWritten dest (n / geo.secPerPlPg * geo.secPerPlPg) % 2 ^ 8 := by
    rw [eq, ← counted.failed]
  by_cases full : n % geo.secPerPlPg + 1 = geo.secPerPlPg
  · have sum : n + 1 = (n / geo.secPerPlPg + 1) * geo.secPerPlPg := by
      rw [Nat.succ_mul]
      omega
    rw [if_pos (off.trans full)]
    constructor
    · rw [flushBuffer_calls, calls, sum, Nat.mul_div_cancel _ pos]
    · rw [sum, Nat.mul_mod_left]
      rfl
    · rw [flushBuffer_failedSec calls (off.trans full) le_rfl failed, sum,
        Nat.mul_div_cancel _ pos, Nat.succ_mul]
  · have sum : n + 1 = n / geo.secPerPlPg * geo.secPerPlPg + (n % geo.secPerPlPg + 1) := by omega
    obtain ⟨buffer, place⟩ := @div_mod_buffer geo (n / geo.secPerPlPg)
      (n % geo.secPerPlPg + 1) (by omega)
    rw [if_neg (off ▸ full)]
    constructor
    · rw [calls, sum, buffer]
    · rw [off, sum, place]
    · rw [failed, sum, buffer]

/-- One sector of the block. -/
theorem Counted.visit {n : Nat} (counted : Counted dest n state) (k : Nat) :
    Counted dest (if Copies geo ppa sectors state k then n + 1 else n)
      (Gc.visit dest sectors state k) := by
  unfold Gc.visit processSector
  by_cases invalid : Invalid geo (state.store.blocks ppa.block) k
  · have isInvalid := invalid
    unfold Invalid at isInvalid
    simp only [isInvalid, if_true]
    rwa [if_neg fun copies => copies.1 invalid]
  · have isValid := invalid
    unfold Invalid at isValid
    simp only [isValid, blockGcMoveSector]
    cases type : (sectors (k / geo.secPerPlPg) (k % geo.secPerPlPg)).oob.pgType with
    | nameSpace =>
        rw [if_pos ⟨invalid, type⟩]
        exact counted.move rfl _
    | blkMd | mapMd | log =>
        rw [if_neg fun copies => by simp [Copies, sectorAt, type] at copies]
        exact counted
    | padding | map | reserved | unknown =>
        rw [if_neg fun copies => by simp [Copies, sectorAt, type] at copies]
        exact ⟨counted.calls, counted.off, counted.failed⟩

theorem visits_counted (start : Store Unit) (wIo : Nat → Sector δ) (k : Nat) :
    Counted dest (copied dest sectors { store := start, wIo := wIo } k).length
      (visits dest sectors { store := start, wIo := wIo } k) := by
  induction k with
  | zero => exact ⟨by simp [copied, visits], by simp [copied, visits],
      by simp [copied, visits, notWritten]⟩
  | succ k ih =>
      have next := @Counted.visit _ _ _ _ sectors _ _ ih k
      rw [visits_succ, copied]
      split
      next copies =>
        rw [if_pos copies] at next
        rwa [List.length_append, List.length_singleton]
      next stays => rwa [if_neg stays] at next

/-- The byte counts modulo 256. -/
theorem failedSec_eq (start : Store Unit) (wIo : Nat → Sector δ) :
    (blockGcProcessBlk geo dest sectors ppa { store := start, wIo := wIo }).failedSec =
      notWritten dest
        (copied dest sectors { store := start, wIo := wIo } (secPerBlk geo)).length % 2 ^ 8 := by
  have counted := @visits_counted _ _ _ dest sectors start wIo (secPerBlk geo)
  generalize (copied dest sectors { store := start, wIo := wIo } (secPerBlk geo)).length = n
    at counted ⊢
  have parts := Nat.div_add_mod n geo.secPerPlPg
  rw [Nat.mul_comm] at parts
  unfold visits at counted
  unfold blockGcProcessBlk
  rw [processPages_eq]
  simp only
  split
  next empty =>
    rw [← counted.off, empty, Nat.add_zero] at parts
    rw [counted.failed, parts]
  next =>
    have rest := (Nat.mod_lt n geo.secPerPlPg_pos).le
    have flushed := @flushBuffer_failedSec _ _ _ _ (padBuffer geo _) _ _ counted.calls counted.off
      rest counted.failed (ppa.setPg (geo.pgPerBlk - 1))
    rw [flushed, parts]

/-- The block is given back when the number of failed moves is a multiple of 256. -/
theorem failedSec_eq_zero_iff (start : Store Unit) (wIo : Nat → Sector δ) :
    (blockGcProcessBlk geo dest sectors ppa { store := start, wIo := wIo }).failedSec = 0 ↔
      2 ^ 8 ∣ notWritten dest
        (copied dest sectors { store := start, wIo := wIo } (secPerBlk geo)).length := by
  rw [failedSec_eq]
  exact Nat.dvd_iff_mod_eq_zero.symm

/-- `failed` is the number of sectors that were read for moving and not written exactly when fewer
than 256 were not written. -/
theorem gc_failed_counted_iff (dest : Dest geo ppa.block) (sectors : Nat → Nat → Sector δ)
    (start : Store Unit) (wIo : Nat → Sector δ) :
    (blockGcProcessBlk geo dest sectors ppa { store := start, wIo := wIo }).failedSec =
        notWritten dest
          (copied dest sectors { store := start, wIo := wIo } (secPerBlk geo)).length ↔
      notWritten dest
        (copied dest sectors { store := start, wIo := wIo } (secPerBlk geo)).length < 2 ^ 8 := by
  rw [failedSec_eq]
  exact Nat.mod_eq_iff_lt (by decide)

/-! ## A block of which nothing is written -/

/-- Without pages a user sector leaves the tables as they are. -/
theorem visits_store_of_refused (refused : ∀ b, dest.pages b = none)
    (user : ∀ k, (sectorAt geo sectors k).oob.pgType = .nameSpace) (state : GcState δ) (k : Nat) :
    (visits dest sectors state k).store = state.store := by
  induction k with
  | zero => rfl
  | succ k ih =>
      rw [visits_succ, ← ih]
      have type := user k
      unfold sectorAt at type
      unfold Gc.visit processSector
      simp only [blockGcMoveSector, type, flushBuffer, blockGcProcessPg, refused]
      split
      next => rfl
      next => split <;> rfl

theorem copied_of_refused (refused : ∀ b, dest.pages b = none)
    (user : ∀ k, (sectorAt geo sectors k).oob.pgType = .nameSpace) (state : GcState δ)
    (valid : ∀ k, ¬ Invalid geo (state.store.blocks ppa.block) k) (k : Nat) :
    copied dest sectors state k = List.range k := by
  induction k with
  | zero => rfl
  | succ k ih =>
      have copies : Copies geo ppa sectors (visits dest sectors state k) k := by
        refine ⟨?_, user k⟩
        rw [visits_store_of_refused refused user]
        exact valid k
      rw [copied, if_pos copies, ih, List.range_succ]

theorem notWritten_of_refused (refused : ∀ b, dest.pages b = none) (n : Nat) :
    notWritten dest n = n := by
  simp [notWritten, destOf, refused]

theorem large_pos : 0 < 8 := by decide

theorem large_pg_le : 8 ≤ 4096 := by decide

theorem large_pl_pos : 0 < 4 := by decide

theorem large_state_le : 8 * 4 ≤ blkMdByteVecSz := by decide

/-- A block with 256 sectors: eight pages of four planes with eight sectors. -/
def largeBlock : Geometry :=
  { Geometry.small with
    pgPerBlk := 8
    secPerPg := 8
    nOfPlanes := 4
    pg_pos := large_pos
    pg_le := large_pg_le
    sec_pos := large_pos
    sec_le := Nat.le_refl 8
    pl_pos := large_pl_pos
    pl_le := Nat.le_refl 4
    state_le := large_state_le }

/-- Provisioning has no page. -/
def noPages (geo : Geometry) (victim : BlkAddr) : Dest geo victim where
  pages _ := none
  length eq := absurd eq.symm (Option.some_ne_none _)
  outside eq := absurd eq.symm (Option.some_ne_none _)
  nodup eq := absurd eq.symm (Option.some_ne_none _)
  disjoint eq := absurd eq.symm (Option.some_ne_none _)

/-- No sector is marked as invalid. -/
def validStore : Store Unit where
  map _ := 0
  mapMd _ := 0
  blocks _ := { ppa := 0, currentPg := 8, pgState := fun _ => 0 }
  log := ()

/-- User sectors. -/
def fullBlock : Nat → Nat → Sector Unit :=
  fun _ _ => ⟨(), ⟨0, .nameSpace⟩⟩

/-- The state in which `block_gc_process_blk` starts. -/
def fullStart : GcState Unit where
  store := validStore
  wIo _ := ⟨(), ⟨0, .padding⟩⟩

/-- A block behind the reserved ones. -/
def dataBlk : Ppa :=
  Ppa.sector 0 0 12 0 0 0

/-- None of the 256 sectors of a block is written, and the count is zero. -/
theorem failed_wraps :
    notWritten (noPages largeBlock dataBlk.block)
        (copied (noPages largeBlock dataBlk.block) fullBlock fullStart
          (secPerBlk largeBlock)).length = 256 ∧
      (blockGcProcessBlk largeBlock (noPages largeBlock dataBlk.block) fullBlock dataBlk
        fullStart).failedSec = 0 := by
  have refused : ∀ b, (noPages largeBlock dataBlk.block).pages b = none := fun _ => rfl
  have valid : ∀ k, ¬ Invalid largeBlock (fullStart.store.blocks dataBlk.block) k := by
    intro k invalid
    simp [Invalid, BlkMdEntry.isInvalid, fullStart, validStore] at invalid
  have count : notWritten (noPages largeBlock dataBlk.block)
      (copied (noPages largeBlock dataBlk.block) fullBlock fullStart
        (secPerBlk largeBlock)).length = 256 := by
    rw [notWritten_of_refused refused, copied_of_refused refused (fun _ => rfl) fullStart valid,
      List.length_range]
    rfl
  refine ⟨count, (failedSec_eq_zero_iff _ _).mpr ?_⟩
  change 2 ^ 8 ∣ notWritten (noPages largeBlock dataBlk.block)
    (copied (noPages largeBlock dataBlk.block) fullBlock fullStart (secPerBlk largeBlock)).length
  rw [count]
  exact Nat.dvd_refl 256

end OxCtrl.Gc
