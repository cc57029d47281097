import OxCtrl.Gc.Moves

/-!
# Garbage collection and the data of a block

Sectors of several pages share a write buffer, but the addresses that the mapping is
compared with are those of one page, in the order of the buffer.  An LBA is moved exactly
when its sector stands at its own place in the buffer that is full in its page.
-/

namespace OxCtrl.Gc

open OxCtrl.Lib

universe u

/-! ## The data has no influence on the tables -/

/-- Two runs with the same tables and out-of-band areas. -/
structure SameTables {δ ε : Type u} (state : GcState δ) (other : GcState ε) : Prop where
  store : state.store = other.store
  oob : ∀ i, (state.wIo i).oob = (other.wIo i).oob
  ppaOff : state.ppaOff = other.ppaOff
  failedSec : state.failedSec = other.failedSec
  secOk : state.secOk = other.secOk
  calls : state.calls = other.calls

variable {δ ε : Type u} {geo : Geometry} {ppa : Ppa} {dest : Dest geo ppa.block}
  {state : GcState δ} {other : GcState ε}

theorem SameTables.flush (same : SameTables state other) (oldPpa : Ppa) :
    SameTables (flushBuffer geo dest state oldPpa) (flushBuffer geo dest other oldPpa) := by
  have lbas : (fun i => (state.wIo i).oob.lba) = fun i => (other.wIo i).oob.lba :=
    funext fun i => congrArg SecOob.lba (same.oob i)
  unfold flushBuffer blockGcProcessPg
  rw [same.calls, same.ppaOff, same.failedSec, same.secOk]
  cases dest.pages other.calls with
  | none => exact ⟨same.store, same.oob, rfl, rfl, rfl, rfl⟩
  | some ppas =>
      by_cases short : ppas.length < geo.secPerPlPg
      · simp only [short, if_true]
        exact ⟨same.store, same.oob, rfl, rfl, rfl, rfl⟩
      · simp only [short, if_false]
        refine ⟨?_, same.oob, rfl, rfl, rfl, rfl⟩
        simp only [lbas, same.store]

theorem SameTables.visit {sectors : Nat → Nat → Sector δ} {sectors' : Nat → Nat → Sector ε}
    (oob : ∀ pg i, (sectors pg i).oob = (sectors' pg i).oob) (same : SameTables state other)
    (k : Nat) : SameTables (visit dest sectors state k) (visit dest sectors' other k) := by
  unfold Gc.visit processSector blockGcMoveSector
  simp only [same.store, oob]
  by_cases invalid : (other.store.blocks ppa.block).isInvalid geo (k / geo.secPerPlPg)
      (k % geo.secPerPlPg / geo.secPerPg) (k % geo.secPerPlPg % geo.secPerPg)
  · simp only [invalid, if_true]
    exact same
  · simp only [invalid]
    cases (sectors' (k / geo.secPerPlPg) (k % geo.secPerPlPg)).oob.pgType with
    | nameSpace =>
        have copied : SameTables
            { state with
              wIo := Function.update state.wIo state.ppaOff
                (sectors (k / geo.secPerPlPg) (k % geo.secPerPlPg))
              ppaOff := state.ppaOff + 1 }
            { other with
              wIo := Function.update other.wIo other.ppaOff
                (sectors' (k / geo.secPerPlPg) (k % geo.secPerPlPg))
              ppaOff := other.ppaOff + 1 } := by
          refine ⟨same.store, fun i => ?_, by simp [same.ppaOff], same.failedSec, same.secOk,
            same.calls⟩
          simp only [same.ppaOff, Function.update_apply]
          split
          · exact oob _ _
          · exact same.oob i
        simp only [same.ppaOff]
        rw [same.ppaOff, same.store] at copied
        by_cases full : other.ppaOff + 1 = geo.secPerPlPg
        · simp only [if_pos full]
          exact copied.flush _
        · simp only [if_neg full]
          exact copied
    | blkMd | mapMd | log => exact same
    | padding | map | reserved | unknown =>
        exact ⟨rfl, same.oob, same.ppaOff, same.failedSec, same.secOk, same.calls⟩

theorem SameTables.process {sectors : Nat → Nat → Sector δ} {sectors' : Nat → Nat → Sector ε}
    (oob : ∀ pg i, (sectors pg i).oob = (sectors' pg i).oob) (same : SameTables state other) :
    SameTables (blockGcProcessBlk geo dest sectors ppa state)
      (blockGcProcessBlk geo dest sectors' ppa other) := by
  have loop : ∀ list : List Nat, SameTables (list.foldl (Gc.visit dest sectors) state)
      (list.foldl (Gc.visit dest sectors') other) := by
    intro list
    induction list generalizing state other with
    | nil => exact same
    | cons k list ih => exact ih (same.visit oob k)
  have done := loop (List.range (secPerBlk geo))
  unfold blockGcProcessBlk
  rw [processPages_eq, processPages_eq]
  have padded : SameTables
      (padBuffer geo ((List.range (secPerBlk geo)).foldl (Gc.visit dest sectors) state))
      (padBuffer geo ((List.range (secPerBlk geo)).foldl (Gc.visit dest sectors') other)) := by
    refine ⟨done.store, fun i => ?_, done.ppaOff, done.failedSec, done.secOk, done.calls⟩
    simp only [padBuffer, done.ppaOff]
    split
    · rfl
    · exact done.oob i
  simp only [done.ppaOff]
  by_cases empty : ((List.range (secPerBlk geo)).foldl (Gc.visit dest sectors') other).ppaOff = 0
  · simp only [if_pos empty]
    exact done
  · simp only [if_neg empty]
    exact padded.flush _

/-! ## The property and the condition -/

section

variable (geo : Geometry) (ppa : Ppa) (oob : Nat → Nat → SecOob) (store : Store Unit)

/-- The pages of the victim, with their data. -/
def withData (data : Nat → Nat → Nat) : Nat → Nat → Sector Nat :=
  fun pgI secI => ⟨data pgI secI, oob pgI secI⟩

/-- Out-of-band area of sector number `k`. -/
def oobAt (k : Nat) : SecOob :=
  oob (k / geo.secPerPlPg) (k % geo.secPerPlPg)

/-- Sector number `k` is a valid user sector of the block. -/
def UserSector (k : Nat) : Prop :=
  ¬ Invalid geo (store.blocks ppa.block) k ∧ (oobAt geo oob k).pgType = .nameSpace

instance (k : Nat) : Decidable (UserSector geo ppa oob store k) :=
  inferInstanceAs (Decidable (_ ∧ _))

/-- The LBA is mapped to a valid user sector of the block. -/
def Live (lba k : Nat) : Prop :=
  k < secPerBlk geo ∧ UserSector geo ppa oob store k ∧ store.map lba = place geo ppa k

/-- Every LBA that was mapped to a valid user sector of the block is mapped to a sector
outside the block that was written with the same data and the same LBA. -/
def KeepsData (data : Nat → Nat → Nat) (after : GcState Nat) : Prop :=
  ∀ lba k, Live geo ppa oob store lba k →
    (after.store.map lba).block ≠ ppa.block ∧
      ∃ sector, after.written (after.store.map lba) = some sector ∧
        sector.data = data (k / geo.secPerPlPg) (k % geo.secPerPlPg) ∧
        sector.oob.lba = (oobAt geo oob k).lba

/-- A block that is given back has lost no data, whatever the data is. -/
def GcLosesNoData (dest : Dest geo ppa.block) (wIo : Nat → Sector Nat) : Prop :=
  ∀ data,
    let after := blockGcProcessBlk geo dest (withData oob data) ppa { store := store, wIo := wIo }
    after.failedSec = 0 → KeepsData geo ppa oob store data after

/-- The valid user sectors of the block, in order. -/
def userSectors : List Nat :=
  (List.range (secPerBlk geo)).filter fun k => UserSector geo ppa oob store k

/-- Every LBA that is mapped to a valid user sector of the block is the LBA in the
out-of-band area of that sector.  The sector stands at its own place in its buffer: its
page is the one where the buffer is written, and its number in the page is its number in
the buffer.  And there is a new page for the buffer. -/
def Aligned (dest : Dest geo ppa.block) : Prop :=
  ∀ lba k, Live geo ppa oob store lba k → (oobAt geo oob k).lba = lba ∧
    ∃ j, (userSectors geo ppa oob store)[j]? = some k ∧
      comparedWith geo (userSectors geo ppa oob store) j = k ∧
      (dest.pages (j / geo.secPerPlPg)).isSome

end

variable {oob : Nat → Nat → SecOob} {store : Store Unit} {data : Nat → Nat → Nat} {moves : List Nat}

theorem userSectors_increasing : (userSectors geo ppa oob store).Pairwise (· < ·) :=
  List.pairwise_lt_range.filter _

theorem mem_userSectors {k : Nat} :
    k ∈ userSectors geo ppa oob store ↔ k < secPerBlk geo ∧ UserSector geo ppa oob store k := by
  simp [userSectors]

/-- Moves that cover the user sectors are the user sectors. -/
theorem Selected.eq_userSectors
    (selected : Selected dest (withData oob data) store (secPerBlk geo) moves)
    (all : ∀ k ∈ userSectors geo ppa oob store, k ∈ moves) :
    moves = userSectors geo ppa oob store := by
  refine List.Perm.eq_of_pairwise (fun a b _ _ ab ba => absurd ab (Nat.lt_asymm ba))
    selected.increasing userSectors_increasing ?_
  refine (List.perm_ext_iff_of_nodup (selected.increasing.imp Nat.ne_of_lt)
    (userSectors_increasing.imp Nat.ne_of_lt)).mpr fun k => ⟨fun mem => ?_, all k⟩
  exact mem_userSectors.mpr (selected.user k mem)

/-- A sector is not compared with the address of a sector of a later buffer. -/
theorem not_comparedWith_later (increasing : moves.Pairwise (· < ·)) {i j k : Nat}
    (get : moves[j]? = some k) (compared : comparedWith geo moves i = k)
    (same : i % geo.secPerPlPg = j % geo.secPerPlPg)
    (earlier : i / geo.secPerPlPg < j / geo.secPerPlPg) : False := by
  have pos := geo.secPerPlPg_pos
  have parts := Nat.div_add_mod j geo.secPerPlPg
  rw [Nat.mul_comm] at parts
  have next := Nat.mul_le_mul_right geo.secPerPlPg (Nat.succ_le_of_lt earlier)
  rw [Nat.succ_mul] at next
  have jLt := (List.getElem?_eq_some_iff.mp get).1
  -- the last sector of the earlier buffer lies in the page of the comparison
  have full : i / geo.secPerPlPg * geo.secPerPlPg + (geo.secPerPlPg - 1) < moves.length := by omega
  have last := List.getElem?_eq_getElem full
  obtain ⟨d, dEq⟩ : ∃ d, j = i / geo.secPerPlPg * geo.secPerPlPg + (geo.secPerPlPg - 1) + d :=
    ⟨j - (i / geo.secPerPlPg * geo.secPerPlPg + (geo.secPerPlPg - 1)), by omega⟩
  have apart := le_of_increasing increasing last (dEq ▸ get)
  have page := Nat.div_mul_le_self
    (moves[i / geo.secPerPlPg * geo.secPerPlPg + (geo.secPerPlPg - 1)]) geo.secPerPlPg
  unfold comparedWith bufferPage at compared
  rw [last] at compared
  simp only at compared
  omega

/-- The LBA of a hit is mapped to the sector that it is compared with. -/
theorem Selected.live (selected : Selected dest (withData oob data) store (secPerBlk geo) moves)
    {lba j : Nat} (hit : HitAt dest (withData oob data) store.map moves lba j)
    (isUser : UserSector geo ppa oob store (comparedWith geo moves j)) :
    Live geo ppa oob store lba (comparedWith geo moves j) :=
  ⟨comparedWith_lt (fun x mem => (selected.user x mem).1) j, isUser, hit.2.2⟩

/-! ## Data that is kept -/

/-- If the sectors are aligned, all user sectors are moved. -/
theorem Aligned.moves_eq (aligned : Aligned geo ppa oob store dest)
    (selected : Selected dest (withData oob data) store (secPerBlk geo) moves) :
    moves = userSectors geo ppa oob store := by
  refine selected.eq_userSectors ?_
  intro k
  induction k using Nat.strongRecOn with
  | ind k ih =>
      intro mem
      obtain ⟨kLt, isUser⟩ := mem_userSectors.mp mem
      rcases selected.covered k kLt isUser.1 isUser.2 with
        found | ⟨lba, i, first, eq, last, lastLt, get⟩
      · exact found
      · exfalso
        -- up to number `k` the moves are the user sectors
        have below : ∀ x < k, x ∈ moves ↔ x ∈ userSectors geo ppa oob store := fun x lt =>
          ⟨fun xMem => mem_userSectors.mpr (selected.user x xMem), ih x lt⟩
        have getLast := getElem?_of_same_below selected.increasing userSectors_increasing
          below get lastLt
        have compared : comparedWith geo (userSectors geo ppa oob store) i = k := by
          rw [eq]
          unfold comparedWith bufferPage
          rw [getLast, get]
        have live : Live geo ppa oob store lba k := eq ▸ selected.live first.1 (eq ▸ isUser)
        obtain ⟨-, j, getK, comparedK, -⟩ := aligned lba k live
        have sameColumn : i % geo.secPerPlPg = j % geo.secPerPlPg := by
          have equal := congrArg (· % geo.secPerPlPg) (compared.trans comparedK.symm)
          simpa [comparedWith, Nat.mul_add_mod'] using equal
        refine not_comparedWith_later userSectors_increasing getK compared sameColumn ?_
        by_contra later
        have rows := Nat.mul_le_mul_right geo.secPerPlPg (Nat.not_lt.mp later)
        have parts := Nat.div_add_mod j geo.secPerPlPg
        rw [Nat.mul_comm] at parts
        have rest := Nat.mod_lt j geo.secPerPlPg_pos
        obtain ⟨d, dEq⟩ : ∃ d, i / geo.secPerPlPg * geo.secPerPlPg + (geo.secPerPlPg - 1) = j + d :=
          ⟨i / geo.secPerPlPg * geo.secPerPlPg + (geo.secPerPlPg - 1) - j, by omega⟩
        have apart := le_of_increasing userSectors_increasing getK (dEq ▸ getLast)
        omega

theorem Aligned.keeps (nonzero : ppa.block ≠ (0, 0, 0)) (aligned : Aligned geo ppa oob store dest)
    (wIo : Nat → Sector Nat) : GcLosesNoData geo ppa oob store dest wIo := by
  intro data after _ lba k live
  obtain ⟨selected, moved⟩ :=
    @blockGcProcessBlk_moved _ _ _ dest (withData oob data) nonzero store wIo
  generalize copied dest (withData oob data) _ _ = moves at selected moved
  have eq := aligned.moves_eq selected
  obtain ⟨sameLba, j, get, compared, given⟩ := aligned lba k live
  rw [← eq] at get compared
  have hit : HitAt dest (withData oob data) store.map moves lba j := by
    refine ⟨by rw [destOf, Option.isSome_map]; exact given, ⟨k, get, sameLba⟩, ?_⟩
    rw [compared]
    exact live.2.2
  have jLt := (List.getElem?_eq_some_iff.mp get).1
  rcases moved.map lba with ⟨i, iLt, first, dest⟩ | ⟨none, -⟩
  · have inBlock : ∀ x ∈ moves, x < secPerBlk geo := fun x mem => (selected.user x mem).1
    have comparedI : comparedWith geo moves i = k :=
      place_injective (comparedWith_lt inBlock i) live.1 (first.1.2.2.symm.trans live.2.2)
    have sameColumn : i % geo.secPerPlPg = j % geo.secPerPlPg := by
      have equal := congrArg (· % geo.secPerPlPg) (comparedI.trans compared.symm)
      simpa [comparedWith, Nat.mul_add_mod'] using equal
    have notLater := not_comparedWith_later selected.increasing get comparedI sameColumn
    obtain rfl : i = j := by
      have iLe : i ≤ j := Nat.not_lt.mp fun lt => first.2 j lt hit
      have rows := Nat.div_le_div_right (c := geo.secPerPlPg) iLe
      have sameRow : i / geo.secPerPlPg = j / geo.secPerPlPg :=
        Nat.le_antisymm rows (Nat.not_lt.mp notLater)
      rw [← Nat.div_add_mod i geo.secPerPlPg, sameRow, sameColumn, Nat.div_add_mod]
    exact ⟨destOf_outside dest, _, moved.written i iLt k get _ dest, rfl, rfl⟩
  · exact absurd hit (none j jLt)

/-! ## Data that is lost -/

theorem Aligned.of_keeps (nonzero : ppa.block ≠ (0, 0, 0)) {wIo : Nat → Sector Nat}
    (recycled : (blockGcProcessBlk geo dest (withData oob data) ppa
      { store := store, wIo := wIo }).failedSec = 0)
    (keeps : GcLosesNoData geo ppa oob store dest wIo) : Aligned geo ppa oob store dest := by
  -- every sector has data of its own
  let numbered : Nat → Nat → Nat := fun pgI secI => pgI * geo.secPerPlPg + secI
  have same := @SameTables.process _ _ geo ppa dest { store := store, wIo := wIo }
    { store := store, wIo := wIo } (withData oob numbered) (withData oob data) (fun _ _ => rfl)
    ⟨rfl, fun _ => rfl, rfl, rfl, rfl, rfl⟩
  have kept := keeps numbered (same.failedSec.trans recycled)
  obtain ⟨selected, moved⟩ :=
    @blockGcProcessBlk_moved _ _ _ dest (withData oob numbered) nonzero store wIo
  generalize copied dest (withData oob numbered) _ _ = moves at selected moved
  have inBlock : ∀ x ∈ moves, x < secPerBlk geo := fun x mem => (selected.user x mem).1
  have number : ∀ k, numbered (k / geo.secPerPlPg) (k % geo.secPerPlPg) = k := by
    intro k
    simp only [numbered]
    rw [Nat.mul_comm, Nat.div_add_mod]
  have found : ∀ lba k, Live geo ppa oob store lba k → (oobAt geo oob k).lba = lba ∧
      ∃ j, moves[j]? = some k ∧ comparedWith geo moves j = k ∧
        (dest.pages (j / geo.secPerPlPg)).isSome := by
    intro lba k live
    obtain ⟨outside, sector, isWritten, sameData, -⟩ := kept lba k live
    rcases moved.map lba with ⟨j, jLt, first, eq⟩ | ⟨-, unmoved⟩
    · obtain ⟨given, ⟨x, get, sameLba⟩, mapped⟩ := first.1
      have copy := moved.written j jLt x get _ eq
      obtain rfl := Option.some.inj (isWritten.symm.trans copy)
      obtain rfl : x = k := by
        rw [number] at sameData
        rw [← sameData]
        exact (number x).symm
      refine ⟨sameLba, j, get, ?_, by rwa [destOf, Option.isSome_map] at given⟩
      exact place_injective (comparedWith_lt inBlock j) live.1 (mapped.symm.trans live.2.2)
    · refine absurd ?_ outside
      rw [unmoved, live.2.2, place_block]
  have eq : moves = userSectors geo ppa oob store := by
    refine selected.eq_userSectors fun k mem => ?_
    obtain ⟨kLt, isUser⟩ := mem_userSectors.mp mem
    rcases selected.covered k kLt isUser.1 isUser.2 with isMove | ⟨lba, i, first, rfl, -⟩
    · exact isMove
    · obtain ⟨-, j, get, -⟩ := found lba _ (selected.live first.1 isUser)
      exact List.mem_of_getElem? get
  intro lba k live
  rw [← eq]
  exact found lba k live

/-- A block that is given back has lost no data exactly when its sectors are aligned. -/
theorem gc_loses_no_data_iff (nonzero : ppa.block ≠ (0, 0, 0)) (dest : Dest geo ppa.block)
    (oob : Nat → Nat → SecOob) (store : Store Unit) (wIo : Nat → Sector Nat)
    (data : Nat → Nat → Nat)
    (recycled : (blockGcProcessBlk geo dest (withData oob data) ppa
      { store := store, wIo := wIo }).failedSec = 0) :
    GcLosesNoData geo ppa oob store dest wIo ↔ Aligned geo ppa oob store dest :=
  ⟨Aligned.of_keeps nonzero recycled, fun aligned => aligned.keeps nonzero wIo⟩

/-! ## Two blocks -/

/-- Block 5 of a LUN. -/
def block5 : Ppa :=
  .sector 0 0 5 0 0 0

/-- Two pages of block 6. -/
def smallPages : Nat → Option (List Ppa)
  | 0 => some [.sector 0 0 6 0 0 0, .sector 0 0 6 0 0 1]
  | 1 => some [.sector 0 0 6 1 0 0, .sector 0 0 6 1 0 1]
  | _ + 2 => none

theorem smallPages_cases {b : Nat} {ppas : List Ppa} (eq : smallPages b = some ppas) :
    b = 0 ∧ ppas = [.sector 0 0 6 0 0 0, .sector 0 0 6 0 0 1] ∨
      b = 1 ∧ ppas = [.sector 0 0 6 1 0 0, .sector 0 0 6 1 0 1] := by
  match b, eq with
  | 0, rfl => exact Or.inl ⟨rfl, rfl⟩
  | 1, rfl => exact Or.inr ⟨rfl, rfl⟩

def smallDest : Dest .small block5.block where
  pages := smallPages
  length := by
    intro b ppas eq
    obtain ⟨rfl, rfl⟩ | ⟨rfl, rfl⟩ := smallPages_cases eq <;> rfl
  outside := by
    intro b ppas eq
    obtain ⟨rfl, rfl⟩ | ⟨rfl, rfl⟩ := smallPages_cases eq <;> decide
  nodup := by
    intro b ppas eq
    obtain ⟨rfl, rfl⟩ | ⟨rfl, rfl⟩ := smallPages_cases eq <;> decide
  disjoint := by
    intro b c first second eq eq' ne
    obtain ⟨rfl, rfl⟩ | ⟨rfl, rfl⟩ := smallPages_cases eq <;>
      obtain ⟨rfl, rfl⟩ | ⟨rfl, rfl⟩ := smallPages_cases eq' <;>
        first | exact absurd rfl ne | exact List.disjoint_left.mpr (by decide)

/-- LBAs 10 to 13 are in the four sectors of block 5. -/
def fourLbas (invalid : BitVec 8) : Store Unit where
  map lba := if 10 ≤ lba ∧ lba < 14 then place .small block5 (lba - 10) else 0
  mapMd _ := 0
  blocks _ :=
    { ppa := block5, currentPg := 2, pgState := fun idx => if idx = 0 then invalid else 0 }
  log := ()

/-- The four sectors are user sectors. -/
def fourOob (pgI secI : Nat) : SecOob :=
  ⟨10 + 2 * pgI + secI, .nameSpace⟩

/-- All sectors are valid. -/
theorem gc_loses_no_data_small :
    GcLosesNoData .small block5 fourOob (fourLbas 0) smallDest fun _ => ⟨0, 0, .padding⟩ := by
  refine (gc_loses_no_data_iff (by decide) smallDest fourOob (fourLbas 0) _ (fun _ _ => 0)
    (by decide +kernel)).mpr ?_
  have places : ∀ k < secPerBlk .small, (oobAt .small fourOob k).lba = 10 + k ∧
      (userSectors .small block5 fourOob (fourLbas 0))[k]? = some k ∧
      comparedWith .small (userSectors .small block5 fourOob (fourLbas 0)) k = k ∧
      (smallDest.pages (k / Geometry.small.secPerPlPg)).isSome := by
    decide +kernel
  rintro lba k ⟨kLt, -, mapped⟩
  obtain ⟨sameLba, place⟩ := places k kLt
  simp only [fourLbas] at mapped
  split at mapped
  next inRange =>
    have inBlock : lba - 10 < secPerBlk .small := by
      have size : secPerBlk .small = 4 := rfl
      omega
    have eq := place_injective inBlock kLt mapped
    exact ⟨by omega, k, place⟩
  next => exact absurd mapped.symm (place_ne_zero (by decide) k)

/-- The first sector is invalid: no LBA is moved, and the block is given back. -/
theorem gc_loses_data :
    ¬ GcLosesNoData .small block5 fourOob (fourLbas 1) smallDest fun _ => ⟨0, 0, .padding⟩ := by
  intro keeps
  have kept := keeps (fun _ _ => 0) (by decide +kernel) 11 1 ⟨by decide, by decide, by decide⟩
  have outside := kept.1
  revert outside
  decide +kernel

end OxCtrl.Gc
