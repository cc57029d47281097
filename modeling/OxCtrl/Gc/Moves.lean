import OxCtrl.Gc.Remap
import Mathlib.Data.List.Nodup

/-!
# The moves of a block

The loops of `block_gc_process_blk` are one loop over the sectors of the block.  The
invariant is stated with the list of the sectors that were copied to the buffer: sector
`j` of the list goes to page `j / sec_per_pl_pg`, and its LBA is compared with an address
in the page where that buffer was full.
-/

namespace OxCtrl.Gc

open OxCtrl.Lib

universe u

variable {δ : Type u} {geo : Geometry} {ppa : Ppa} {dest : Dest geo ppa.block}
  {sectors : Nat → Nat → Sector δ}

/-- The body of the loop for sector number `k` of the block. -/
def visit (dest : Dest geo ppa.block) (sectors : Nat → Nat → Sector δ)
    (state : GcState δ) (k : Nat) :
    GcState δ :=
  processSector geo dest sectors ppa (k / geo.secPerPlPg) state (k % geo.secPerPlPg)

/-- A page without valid planes has no valid sectors. -/
theorem isInvalid_of_check {md : BlkMdEntry} {pg : Nat} (none : blockGcCheckValidPg geo md pg = 0)
    {i : Nat} (lt : i < geo.secPerPlPg) :
    md.isInvalid geo pg (i / geo.secPerPg) (i % geo.secPerPg) := by
  have planeLt : i / geo.secPerPg < geo.nOfPlanes := Nat.div_lt_of_lt_mul lt
  have secLt : i % geo.secPerPg < geo.secPerPg := Nat.mod_lt _ geo.sec_pos
  have full := List.countP_eq_zero.mp none _ (List.mem_range.mpr planeLt)
  have bit := congrArg (BitVec.getLsbD · (i % geo.secPerPg)) (not_not.mp (by simpa using full))
  have mask : (BlkMdEntry.fullMask geo).getLsbD (i % geo.secPerPg) = true := by
    have inByte : i % geo.secPerPg < 8 := secLt.trans_le geo.sec_le
    rw [BlkMdEntry.fullMask, BitVec.getLsbD_ofNat, Nat.testBit_two_pow_sub_one]
    simp [secLt, inByte]
  simpa [mask, BlkMdEntry.isInvalid] using bit

theorem processPage_eq (state : GcState δ) (pg : Nat) :
    processPage geo dest sectors ppa state pg =
      (List.range geo.secPerPlPg).foldl (processSector geo dest sectors ppa pg) state := by
  unfold processPage
  split
  next none =>
    have same : ∀ list : List Nat, (∀ i ∈ list, i < geo.secPerPlPg) →
        list.foldl (processSector geo dest sectors ppa pg) state = state := by
      intro list lt
      induction list with
      | nil => rfl
      | cons i list ih =>
          have invalid := isInvalid_of_check none (lt i List.mem_cons_self)
          rw [List.foldl_cons, processSector]
          simp only [invalid, if_true]
          exact ih fun j mem => lt j (List.mem_cons_of_mem _ mem)
    exact (same _ fun i => List.mem_range.mp).symm
  next => rfl

/-- The two loops are one loop over the sectors. -/
theorem processPages_eq (state : GcState δ) :
    (List.range geo.pgPerBlk).foldl (processPage geo dest sectors ppa) state =
      (List.range (secPerBlk geo)).foldl (visit dest sectors) state := by
  have loop := foldl_range_mul (processSector geo dest sectors ppa) state geo.pgPerBlk
    geo.secPerPlPg_pos
  refine Eq.trans ?_ loop.symm
  apply List.foldl_ext
  intro current pg _
  exact processPage_eq current pg

/-! ## The list of moved sectors -/

/-- Sector number `k` as it was read. -/
def sectorAt (geo : Geometry) (sectors : Nat → Nat → Sector δ) (k : Nat) : Sector δ :=
  sectors (k / geo.secPerPlPg) (k % geo.secPerPlPg)

/-- Page in which the buffer number `b` is written: the one where it was full, or the last
one. -/
def bufferPage (geo : Geometry) (moves : List Nat) (b : Nat) : Nat :=
  match moves[b * geo.secPerPlPg + (geo.secPerPlPg - 1)]? with
  | some k => k / geo.secPerPlPg
  | none => geo.pgPerBlk - 1

/-- Number of the sector whose address the LBA of move number `j` is compared with. -/
def comparedWith (geo : Geometry) (moves : List Nat) (j : Nat) : Nat :=
  bufferPage geo moves (j / geo.secPerPlPg) * geo.secPerPlPg + j % geo.secPerPlPg

/-- Sector to which move number `j` goes. -/
def destOf (dest : Dest geo ppa.block) (j : Nat) : Option Ppa :=
  (dest.pages (j / geo.secPerPlPg)).map fun ppas => ppas.getD (j % geo.secPerPlPg) 0

variable (dest sectors)

/-- Move number `j` is one of the LBA, and the LBA is mapped to the address that it is
compared with. -/
def HitAt (map : Nat → Ppa) (moves : List Nat) (lba j : Nat) : Prop :=
  (destOf dest j).isSome ∧ (∃ k, moves[j]? = some k ∧ (sectorAt geo sectors k).oob.lba = lba) ∧
    map lba = place geo ppa (comparedWith geo moves j)

/-- The move that changes the mapping of the LBA. -/
def FirstHit (map : Nat → Ppa) (moves : List Nat) (lba j : Nat) : Prop :=
  HitAt dest sectors map moves lba j ∧ ∀ i < j, ¬ HitAt dest sectors map moves lba i

/-- What the first `count` moves did. -/
structure Moved (start : Store Unit) (moves : List Nat) (count : Nat) (state : GcState δ) :
    Prop where
  map : ∀ lba,
    (∃ j < count, FirstHit dest sectors start.map moves lba j ∧
      destOf dest j = some (state.store.map lba)) ∨
    (∀ j < count, ¬ HitAt dest sectors start.map moves lba j) ∧
      state.store.map lba = start.map lba
  invalid : ∀ k < secPerBlk geo, (sectorAt geo sectors k).oob.pgType = .nameSpace →
    (Invalid geo (state.store.blocks ppa.block) k ↔ Invalid geo (start.blocks ppa.block) k ∨
      ∃ lba, ∃ j < count, FirstHit dest sectors start.map moves lba j ∧
        k = comparedWith geo moves j)
  written : ∀ j < count, ∀ k, moves[j]? = some k → ∀ new, destOf dest j = some new →
    state.written new = some (sectorAt geo sectors k)

/-- The moves are user sectors that were valid at the start, in order.  A user sector
before number `k` that was valid and is no move was the address of an earlier hit. -/
structure Selected (start : Store Unit) (k : Nat) (moves : List Nat) : Prop where
  increasing : moves.Pairwise (· < ·)
  user : ∀ x ∈ moves, x < k ∧ ¬ Invalid geo (start.blocks ppa.block) x ∧
    (sectorAt geo sectors x).oob.pgType = .nameSpace
  covered : ∀ x < k, ¬ Invalid geo (start.blocks ppa.block) x →
    (sectorAt geo sectors x).oob.pgType = .nameSpace → x ∈ moves ∨
      ∃ lba j, FirstHit dest sectors start.map moves lba j ∧ x = comparedWith geo moves j ∧
        ∃ last < x, moves[j / geo.secPerPlPg * geo.secPerPlPg + (geo.secPerPlPg - 1)]? = some last

/-- Invariant of the loop after the sectors before number `k`. -/
structure MoveInv (start : Store Unit) (k : Nat) (moves : List Nat) (state : GcState δ) : Prop where
  selected : Selected dest sectors start k moves
  calls : state.calls = moves.length / geo.secPerPlPg
  off : state.ppaOff = moves.length % geo.secPerPlPg
  buffer : ∀ i < moves.length % geo.secPerPlPg, ∃ x,
    moves[moves.length / geo.secPerPlPg * geo.secPerPlPg + i]? = some x ∧
      state.wIo i = sectorAt geo sectors x
  moved : Moved dest sectors start moves (moves.length / geo.secPerPlPg * geo.secPerPlPg) state

variable {dest sectors} {start : Store Unit} {moves : List Nat} {count lba : Nat}
  {state : GcState δ}

/-! ## One buffer -/

theorem destOf_outside {j : Nat} {new : Ppa} (given : destOf dest j = some new) :
    new.block ≠ ppa.block := by
  obtain ⟨ppas, pages, rfl⟩ := Option.map_eq_some_iff.mp given
  have lt : j % geo.secPerPlPg < ppas.length := by
    rw [dest.length pages]
    exact Nat.mod_lt _ geo.secPerPlPg_pos
  rw [List.getD_eq_getElem _ _ lt]
  exact dest.outside pages _ (List.getElem_mem lt)

theorem bufferPage_lt (inBlock : ∀ x ∈ moves, x < secPerBlk geo) (b : Nat) :
    bufferPage geo moves b < geo.pgPerBlk := by
  unfold bufferPage
  split
  next k get => exact page_lt (inBlock k (List.mem_of_getElem? get))
  next => exact Nat.sub_lt geo.pg_pos Nat.one_pos

theorem comparedWith_lt (inBlock : ∀ x ∈ moves, x < secPerBlk geo) (j : Nat) :
    comparedWith geo moves j < secPerBlk geo :=
  page_add_lt (bufferPage_lt inBlock _) (Nat.mod_lt _ geo.secPerPlPg_pos)

theorem FirstHit.unique {i j : Nat} {map : Nat → Ppa}
    (first : FirstHit dest sectors map moves lba i)
    (second : FirstHit dest sectors map moves lba j) : i = j := by
  rcases Nat.lt_trichotomy i j with lt | eq | lt
  · exact absurd first.1 (second.2 i lt)
  · exact eq
  · exact absurd second.1 (first.2 j lt)

/-- Number `i` of buffer `b`. -/
theorem div_mod_buffer (b : Nat) {i : Nat} (lt : i < geo.secPerPlPg) :
    (b * geo.secPerPlPg + i) / geo.secPerPlPg = b ∧
    (b * geo.secPerPlPg + i) % geo.secPerPlPg = i := by
  rw [Nat.mul_comm, Nat.mul_add_div geo.secPerPlPg_pos, Nat.div_eq_of_lt lt, Nat.add_zero,
    Nat.mul_add_mod, Nat.mod_eq_of_lt lt]
  exact ⟨rfl, rfl⟩

/-- The first `m` places of the write buffer number `b`. -/
structure Buffered (geo : Geometry) (sectors : Nat → Nat → Sector δ) (moves : List Nat)
    (b m : Nat) (state : GcState δ) : Prop where
  le : m ≤ geo.secPerPlPg
  inBlock : ∀ x ∈ moves, x < secPerBlk geo
  read : ∀ i < m, ∃ x, moves[b * geo.secPerPlPg + i]? = some x ∧
    state.wIo i = sectorAt geo sectors x

variable {b m : Nat}

/-- A hit of a place of the buffer. -/
theorem Buffered.hitAt (buffered : Buffered geo sectors moves b m state) {i : Nat}
    (lt : i < m) :
    HitAt dest sectors start.map moves lba (b * geo.secPerPlPg + i) ↔
      (dest.pages b).isSome ∧ (state.wIo i).oob.lba = lba ∧
        start.map lba = place geo ppa (bufferPage geo moves b * geo.secPerPlPg + i) := by
  obtain ⟨atBuffer, inBuffer⟩ := @div_mod_buffer geo b i (lt.trans_le buffered.le)
  obtain ⟨x, get, read⟩ := buffered.read i lt
  rw [HitAt, destOf, comparedWith, atBuffer, inBuffer, Option.isSome_map, read]
  refine and_congr_right fun _ => and_congr_left fun _ => ?_
  constructor
  · rintro ⟨y, get', same⟩
    obtain rfl : x = y := Option.some.inj (get.symm.trans get')
    exact same
  · exact fun same => ⟨x, get, same⟩

/-- The places of the buffer that change the mapping. -/
theorem Buffered.hit_iff (buffered : Buffered geo sectors moves b m state)
    (moved : Moved dest sectors start moves (b * geo.secPerPlPg) state)
    (given : (dest.pages b).isSome) {i : Nat} (lt : i < m) :
    Hit geo ppa state.store (fun secI => (state.wIo secI).oob.lba) m (bufferPage geo moves b) i ↔
      FirstHit dest sectors start.map moves (state.wIo i).oob.lba (b * geo.secPerPlPg + i) := by
  rw [FirstHit, buffered.hitAt lt]
  constructor
  · rintro ⟨-, mapped⟩
    rcases moved.map (state.wIo i).oob.lba with ⟨j, -, -, eq⟩ | ⟨noHit, same⟩
    · refine absurd ?_ (destOf_outside eq)
      rw [mapped, place_block]
    · rw [same] at mapped
      refine ⟨⟨given, rfl, mapped⟩, fun j jLt hit => ?_⟩
      by_cases earlier : j < b * geo.secPerPlPg
      · exact noHit j earlier hit
      · -- another place of the same buffer is compared with another address
        obtain ⟨d, rfl⟩ : ∃ d, j = b * geo.secPerPlPg + d := ⟨j - b * geo.secPerPlPg, by omega⟩
        have pageLt := bufferPage_lt buffered.inBlock b
        have le := buffered.le
        have equal := place_injective (page_add_lt pageLt (by omega))
          (page_add_lt pageLt (by omega))
          (((buffered.hitAt (by omega)).mp hit).2.2.symm.trans mapped)
        omega
  · rintro ⟨⟨-, -, mapped⟩, first⟩
    refine ⟨lt, ?_⟩
    rw [← mapped]
    rcases moved.map (state.wIo i).oob.lba with ⟨j, jLt, earlier, -⟩ | ⟨-, same⟩
    · exact absurd earlier.1 (first j (by omega))
    · exact same

/-- No page for the buffer: nothing is moved. -/
theorem Moved.skip (buffered : Buffered geo sectors moves b m state)
    (moved : Moved dest sectors start moves (b * geo.secPerPlPg) state)
    (refused : dest.pages b = none) {after : GcState δ} (store : after.store = state.store)
    (written : after.written = state.written) :
    Moved dest sectors start moves (b * geo.secPerPlPg + m) after := by
  have noHit : ∀ lba, ¬ ∃ i < m,
      HitAt dest sectors start.map moves lba (b * geo.secPerPlPg + i) := by
    rintro lba ⟨i, lt, hit⟩
    have given := ((buffered.hitAt lt).mp hit).1
    simp [refused] at given
  refine ⟨fun lba => ?_, fun k kLt isUser => ?_, fun j lt k get sector eq => ?_⟩
  · rw [store]
    refine (moved.map lba).imp ?_ ?_
    · rintro ⟨j, lt, rest⟩
      exact ⟨j, by omega, rest⟩
    · rintro ⟨none, same⟩
      refine ⟨fun j lt hit => ?_, same⟩
      rcases exists_lt_add.mp ⟨j, lt, hit⟩ with ⟨j, lt, hit⟩ | new
      · exact none j lt hit
      · exact noHit lba new
  · rw [store, moved.invalid k kLt isUser]
    refine or_congr_right (exists_congr fun lba => ?_)
    rw [exists_lt_add]
    refine (or_iff_left ?_).symm
    rintro ⟨i, lt, hit, -⟩
    exact noHit lba ⟨i, lt, hit.1⟩
  · rw [written]
    by_cases earlier : j < b * geo.secPerPlPg
    · exact moved.written j earlier k get sector eq
    · have le := buffered.le
      obtain ⟨d, rfl⟩ : ∃ d, j = b * geo.secPerPlPg + d := ⟨j - b * geo.secPerPlPg, by omega⟩
      rw [destOf, (div_mod_buffer b (by omega)).1, refused] at eq
      simp at eq

/-- The buffer is written to a new page. -/
theorem Moved.flush (buffered : Buffered geo sectors moves b m state)
    (moved : Moved dest sectors start moves (b * geo.secPerPlPg) state) {ppas : List Ppa}
    (pages : dest.pages b = some ppas) {after : GcState δ}
    (remapped : Remapped geo ppa state.store (fun secI => (state.wIo secI).oob.lba) m
      (bufferPage geo moves b) ppas geo.secPerPlPg after.store)
    (written : after.written = writePg state.written ppas state.wIo) :
    Moved dest sectors start moves (b * geo.secPerPlPg + m) after := by
  have le := buffered.le
  have given : (dest.pages b).isSome := by simp [pages]
  have hitIff := fun i lt => @Buffered.hit_iff _ _ _ _ _ _ _ _ _ _ buffered moved given i lt
  have destEq : ∀ i < m, destOf dest (b * geo.secPerPlPg + i) = some (ppas.getD i 0) := by
    intro i lt
    obtain ⟨atBuffer, inBuffer⟩ := @div_mod_buffer geo b i (by omega)
    rw [destOf, atBuffer, inBuffer, pages, Option.map_some]
  refine ⟨fun lba => ?_, fun k kLt isUser => ?_, fun j lt k get sector eq => ?_⟩
  · by_cases hits : ∃ i < m, Hit geo ppa state.store (fun secI => (state.wIo secI).oob.lba) m
        (bufferPage geo moves b) i ∧ (state.wIo i).oob.lba = lba
    · obtain ⟨i, lt, hit, rfl⟩ := hits
      refine Or.inl ⟨_, by omega, (hitIff i lt).mp hit, ?_⟩
      rw [destEq i lt, remapped.moved i (by omega) hit]
    · have kept : after.store.map lba = state.store.map lba :=
        remapped.kept lba fun i _ hit same => hits ⟨i, hit.1, hit, same⟩
      rw [kept]
      refine (moved.map lba).imp ?_ ?_
      · rintro ⟨j, lt, rest⟩
        exact ⟨j, by omega, rest⟩
      · rintro ⟨none, same⟩
        refine ⟨fun j lt hit => ?_, same⟩
        rcases exists_lt_add.mp ⟨j, lt, hit⟩ with ⟨j, lt, hit⟩ | ⟨i, lt, hit⟩
        · exact none j lt hit
        · obtain ⟨-, sameLba, mapped⟩ := (buffered.hitAt lt).mp hit
          refine hits ⟨i, lt, ⟨lt, ?_⟩, sameLba⟩
          simp only [sameLba, same, mapped]
  · rw [remapped.invalid k kLt, moved.invalid k kLt isUser, or_assoc]
    refine or_congr_right ?_
    have new : (∃ i < geo.secPerPlPg, Hit geo ppa state.store
        (fun secI => (state.wIo secI).oob.lba) m (bufferPage geo moves b) i ∧
          k = bufferPage geo moves b * geo.secPerPlPg + i) ↔
        ∃ lba, ∃ i < m, FirstHit dest sectors start.map moves lba (b * geo.secPerPlPg + i) ∧
          k = comparedWith geo moves (b * geo.secPerPlPg + i) := by
      have compared : ∀ i < m, comparedWith geo moves (b * geo.secPerPlPg + i) =
          bufferPage geo moves b * geo.secPerPlPg + i := by
        intro i lt
        obtain ⟨atBuffer, inBuffer⟩ := @div_mod_buffer geo b i (by omega)
        rw [comparedWith, atBuffer, inBuffer]
      constructor
      · rintro ⟨i, -, hit, eq⟩
        exact ⟨_, i, hit.1, (hitIff i hit.1).mp hit, (compared i hit.1).symm ▸ eq⟩
      · rintro ⟨lba, i, lt, first, eq⟩
        obtain ⟨-, rfl, -⟩ := (buffered.hitAt lt).mp first.1
        exact ⟨i, by omega, (hitIff i lt).mpr first, compared i lt ▸ eq⟩
    rw [new, ← exists_or]
    exact exists_congr fun lba => exists_lt_add.symm
  · rw [written, writePg]
    by_cases earlier : j < b * geo.secPerPlPg
    · have old := moved.written j earlier k get sector eq
      obtain ⟨ppas', pages', rfl⟩ := Option.map_eq_some_iff.mp eq
      have ne : j / geo.secPerPlPg ≠ b := by
        have := Nat.div_lt_of_lt_mul (Nat.mul_comm b _ ▸ earlier)
        omega
      have lt' : j % geo.secPerPlPg < ppas'.length := by
        rw [dest.length pages']
        exact Nat.mod_lt _ geo.secPerPlPg_pos
      have absent : ppas'.getD (j % geo.secPerPlPg) 0 ∉ ppas := by
        rw [List.getD_eq_getElem _ _ lt']
        exact dest.disjoint pages' pages ne (List.getElem_mem lt')
      rw [List.idxOf?_eq_none_iff.mpr absent]
      exact old
    · obtain ⟨d, rfl⟩ : ∃ d, j = b * geo.secPerPlPg + d := ⟨j - b * geo.secPerPlPg, by omega⟩
      have dLt : d < ppas.length := by
        rw [dest.length pages]
        omega
      obtain ⟨x, get', read⟩ := buffered.read d (by omega)
      obtain rfl : k = x := Option.some.inj (get.symm.trans get')
      rw [destEq d (by omega), Option.some.injEq, List.getD_eq_getElem _ _ dLt] at eq
      have found : ppas.idxOf? sector = some d := by
        refine List.idxOf?_eq_some_iff.mpr ⟨dLt, eq, fun i iLt same => ?_⟩
        have := (List.Nodup.getElem_inj_iff (dest.nodup pages)).mp (same.trans eq.symm)
        omega
      rw [found]
      exact congrArg some read

theorem flushBuffer_moved (nonzero : ppa.block ≠ (0, 0, 0))
    (buffered : Buffered geo sectors moves b m state) (off : state.ppaOff = m)
    (calls : state.calls = b) {oldPpa : Ppa}
    (page : ∀ i, sectorOf geo oldPpa i = sectorOf geo (ppa.setPg (bufferPage geo moves b)) i)
    (moved : Moved dest sectors start moves (b * geo.secPerPlPg) state) :
    Moved dest sectors start moves (b * geo.secPerPlPg + m)
      (flushBuffer geo dest state oldPpa) := by
  unfold flushBuffer blockGcProcessPg
  rw [off, calls]
  cases pages : dest.pages b with
  | none => exact moved.skip buffered pages rfl rfl
  | some ppas =>
      have length := dest.length pages
      simp only [length, lt_irrefl, if_false]
      exact moved.flush buffered pages
        (remap_spec nonzero (bufferPage_lt buffered.inBlock b) length (dest.outside pages) page
          state.store _ m) rfl

theorem flushBuffer_calls (state : GcState δ) (oldPpa : Ppa) :
    (flushBuffer geo dest state oldPpa).calls = state.calls + 1 := by
  unfold flushBuffer blockGcProcessPg
  cases dest.pages state.calls with
  | none => rfl
  | some ppas =>
      simp only
      split <;> rfl

/-! ## One sector -/

/-- The buffer of move number `j` is full. -/
def Full (geo : Geometry) (moves : List Nat) (j : Nat) : Prop :=
  j / geo.secPerPlPg * geo.secPerPlPg + (geo.secPerPlPg - 1) < moves.length

theorem full_of_lt {j : Nat} (lt : j < moves.length / geo.secPerPlPg * geo.secPerPlPg) :
    Full geo moves j := by
  have pos := geo.secPerPlPg_pos
  have buffer : j / geo.secPerPlPg < moves.length / geo.secPerPlPg :=
    Nat.div_lt_of_lt_mul (Nat.mul_comm _ geo.secPerPlPg ▸ lt)
  have next := Nat.mul_le_mul_right geo.secPerPlPg (Nat.succ_le_of_lt buffer)
  rw [Nat.succ_mul] at next
  have := Nat.div_mul_le_self moves.length geo.secPerPlPg
  unfold Full
  omega

theorem Full.of_le {i j : Nat} (full : Full geo moves j) (le : i ≤ j) : Full geo moves i := by
  have := Nat.mul_le_mul_right geo.secPerPlPg (Nat.div_le_div_right (c := geo.secPerPlPg) le)
  unfold Full at full ⊢
  omega

theorem Full.lt {j : Nat} (full : Full geo moves j) : j < moves.length := by
  have parts := Nat.div_add_mod j geo.secPerPlPg
  have rest := Nat.mod_lt j geo.secPerPlPg_pos
  rw [Nat.mul_comm] at parts
  unfold Full at full
  omega

theorem comparedWith_append {j : Nat} (full : Full geo moves j) (more : List Nat) :
    comparedWith geo (moves ++ more) j = comparedWith geo moves j := by
  unfold comparedWith bufferPage
  rw [List.getElem?_append_left full]

theorem hitAt_append {map : Nat → Ppa} {j : Nat} (full : Full geo moves j) (more : List Nat) :
    HitAt dest sectors map (moves ++ more) lba j ↔ HitAt dest sectors map moves lba j := by
  unfold HitAt
  rw [comparedWith_append full, List.getElem?_append_left full.lt]

theorem firstHit_append {map : Nat → Ppa} {j : Nat} (full : Full geo moves j) (more : List Nat) :
    FirstHit dest sectors map (moves ++ more) lba j ↔ FirstHit dest sectors map moves lba j := by
  refine and_congr (hitAt_append full more) (forall₂_congr fun i lt => not_congr ?_)
  exact hitAt_append (full.of_le lt.le) more

theorem Moved.append (moved : Moved dest sectors start moves count state)
    (full : ∀ j < count, Full geo moves j) (more : List Nat) {after : GcState δ}
    (store : after.store = state.store) (written : after.written = state.written) :
    Moved dest sectors start (moves ++ more) count after := by
  refine ⟨fun lba => ?_, fun k kLt isUser => ?_, fun j lt k get => ?_⟩
  · rw [store]
    refine (moved.map lba).imp ?_ ?_
    · rintro ⟨j, lt, first, eq⟩
      exact ⟨j, lt, (firstHit_append (full j lt) more).mpr first, eq⟩
    · rintro ⟨none, same⟩
      exact ⟨fun j lt hit => none j lt ((hitAt_append (full j lt) more).mp hit), same⟩
  · rw [store, moved.invalid k kLt isUser]
    refine or_congr_right
      (exists_congr fun lba => exists_congr fun j => and_congr_right fun lt => ?_)
    rw [firstHit_append (full j lt), comparedWith_append (full j lt)]
  · rw [written]
    rw [List.getElem?_append_left (full j lt).lt] at get
    exact moved.written j lt k get

/-- A sector that is not moved. -/
theorem Selected.skip (selected : Selected dest sectors start k moves)
    (skipped : ¬ Invalid geo (start.blocks ppa.block) k →
      (sectorAt geo sectors k).oob.pgType = .nameSpace →
        ∃ lba j, FirstHit dest sectors start.map moves lba j ∧ k = comparedWith geo moves j ∧
          Full geo moves j) :
    Selected dest sectors start (k + 1) moves := by
  refine ⟨selected.increasing, fun x mem => ?_, fun x lt valid isUser => ?_⟩
  · obtain ⟨lt, rest⟩ := selected.user x mem
    exact ⟨by omega, rest⟩
  · by_cases last : x = k
    · subst last
      obtain ⟨lba, j, first, eq, full⟩ := skipped valid isUser
      refine Or.inr ⟨lba, j, first, eq, _, ?_, List.getElem?_eq_getElem full⟩
      exact (selected.user _ (List.getElem_mem full)).1
    · exact selected.covered x (by omega) valid isUser

/-- A sector that is moved. -/
theorem Selected.move (selected : Selected dest sectors start k moves)
    (valid : ¬ Invalid geo (start.blocks ppa.block) k)
    (isUser : (sectorAt geo sectors k).oob.pgType = .nameSpace) :
    Selected dest sectors start (k + 1) (moves ++ [k]) := by
  refine ⟨?_, fun x mem => ?_, fun x lt validX isUserX => ?_⟩
  · refine List.pairwise_append.mpr ⟨selected.increasing, List.pairwise_singleton _ _, ?_⟩
    intro x mem y isLast
    rw [List.mem_singleton.mp isLast]
    exact (selected.user x mem).1
  · rcases List.mem_append.mp mem with mem | mem
    · obtain ⟨lt, rest⟩ := selected.user x mem
      exact ⟨by omega, rest⟩
    · rw [List.mem_singleton.mp mem]
      exact ⟨Nat.lt_succ_self k, valid, isUser⟩
  · by_cases last : x = k
    · exact Or.inl (by simp [last])
    · rcases selected.covered x (by omega) validX isUserX with
        mem | ⟨lba, j, first, eq, y, yLt, get⟩
      · exact Or.inl (List.mem_append_left _ mem)
      · have full : Full geo moves j := (List.getElem?_eq_some_iff.mp get).1
        refine Or.inr ⟨lba, j, (firstHit_append full [k]).mpr first, ?_, y, yLt, ?_⟩
        · rw [comparedWith_append full]
          exact eq
        · rw [List.getElem?_append_left full]
          exact get

/-- A sector that is no user sector may be invalidated. -/
theorem Moved.invalidate (moved : Moved dest sectors start moves count state)
    (kLt : k < secPerBlk geo) (other : (sectorAt geo sectors k).oob.pgType ≠ .nameSpace) :
    Moved dest sectors start moves count
      { state with store := state.store.invalidate geo (place geo ppa k) false } := by
  refine ⟨moved.map, fun x lt isUser => ?_, moved.written⟩
  have ne : x ≠ k := fun same => other (same ▸ isUser)
  rw [← moved.invalid x lt isUser]
  simp only [invalid_of_invalidate _ x kLt, ne, or_false]

theorem MoveInv.skip (inv : MoveInv dest sectors start k moves state)
    (other : (sectorAt geo sectors k).oob.pgType ≠ .nameSpace) :
    Selected dest sectors start (k + 1) moves :=
  inv.selected.skip fun _ isUser => absurd isUser other

/-- A user sector is copied to the buffer. -/
theorem MoveInv.move (nonzero : ppa.block ≠ (0, 0, 0)) (kLt : k < secPerBlk geo)
    (inv : MoveInv dest sectors start k moves state)
    (valid : ¬ Invalid geo (start.blocks ppa.block) k)
    (isUser : (sectorAt geo sectors k).oob.pgType = .nameSpace) {copied : GcState δ}
    (eq : copied = { state with
      wIo := Function.update state.wIo state.ppaOff (sectorAt geo sectors k)
      ppaOff := state.ppaOff + 1 }) :
    MoveInv dest sectors start (k + 1) (moves ++ [k])
      (if copied.ppaOff = geo.secPerPlPg then flushBuffer geo dest copied (place geo ppa k)
        else copied) := by
  have pos := geo.secPerPlPg_pos
  have selected := inv.selected.move valid isUser
  have parts := Nat.div_add_mod moves.length geo.secPerPlPg
  rw [Nat.mul_comm] at parts
  have rest := Nat.mod_lt moves.length pos
  have off : copied.ppaOff = moves.length % geo.secPerPlPg + 1 := by
    rw [eq]
    simp only [inv.off]
  have read : ∀ i < moves.length % geo.secPerPlPg + 1, ∃ x,
      (moves ++ [k])[moves.length / geo.secPerPlPg * geo.secPerPlPg + i]? = some x ∧
        copied.wIo i = sectorAt geo sectors x := by
    intro i lt
    rw [eq]
    simp only [inv.off]
    by_cases last : i = moves.length % geo.secPerPlPg
    · refine ⟨k, ?_, by rw [last, Function.update_self]⟩
      rw [last, parts]
      simp
    · obtain ⟨x, get, read⟩ := inv.buffer i (by omega)
      refine ⟨x, ?_, by rw [Function.update_of_ne last, read]⟩
      rw [List.getElem?_append_left (by omega), get]
  have moved : Moved dest sectors start (moves ++ [k])
      (moves.length / geo.secPerPlPg * geo.secPerPlPg) copied :=
    inv.moved.append (fun j => full_of_lt) [k] (by rw [eq]) (by rw [eq])
  have calls : copied.calls = moves.length / geo.secPerPlPg := by rw [eq, ← inv.calls]
  by_cases full : moves.length % geo.secPerPlPg + 1 = geo.secPerPlPg
  · have length : (moves ++ [k]).length = (moves.length / geo.secPerPlPg + 1) * geo.secPerPlPg := by
      rw [List.length_append, List.length_singleton, Nat.succ_mul]
      omega
    have inBlock : ∀ x ∈ moves ++ [k], x < secPerBlk geo := by
      intro x mem
      have := (selected.user x mem).1
      omega
    have page : bufferPage geo (moves ++ [k]) (moves.length / geo.secPerPlPg) =
        k / geo.secPerPlPg := by
      unfold bufferPage
      rw [show moves.length / geo.secPerPlPg * geo.secPerPlPg + (geo.secPerPlPg - 1) =
        moves.length by omega]
      simp
    have flushed := @flushBuffer_moved _ _ _ dest sectors _ _ _ _ geo.secPerPlPg nonzero
      ⟨le_rfl, inBlock, fun i lt => read i (by omega)⟩ (off.trans full) calls (place geo ppa k)
      (fun i => by rw [page]; rfl) moved
    rw [if_pos (off.trans full)]
    refine ⟨selected, ?_, ?_, ?_, ?_⟩
    · rw [flushBuffer_calls, calls, length, Nat.mul_div_cancel _ pos]
    · rw [length, Nat.mul_mod_left]
      rfl
    · rw [length, Nat.mul_mod_left]
      simp
    · rw [length, Nat.mul_div_cancel _ pos, Nat.succ_mul]
      exact flushed
  · have length : (moves ++ [k]).length = moves.length / geo.secPerPlPg * geo.secPerPlPg +
        (moves.length % geo.secPerPlPg + 1) := by
      rw [List.length_append, List.length_singleton]
      omega
    obtain ⟨atBuffer, inBuffer⟩ := @div_mod_buffer geo (moves.length / geo.secPerPlPg)
      (moves.length % geo.secPerPlPg + 1) (by omega)
    rw [if_neg (off ▸ full)]
    refine ⟨selected, ?_, ?_, ?_, ?_⟩
    · rw [length, atBuffer, calls]
    · rw [length, inBuffer, off]
    · rw [length, inBuffer, atBuffer]
      exact read
    · rw [length, atBuffer]
      exact moved

variable (geo ppa sectors) in
/-- Sector number `k` is copied to the write buffer. -/
def Copies (state : GcState δ) (k : Nat) : Prop :=
  ¬ Invalid geo (state.store.blocks ppa.block) k ∧
    (sectorAt geo sectors k).oob.pgType = .nameSpace

instance (state : GcState δ) (k : Nat) : Decidable (Copies geo ppa sectors state k) :=
  inferInstanceAs (Decidable (_ ∧ _))

variable (dest sectors) in
/-- The loop over the first `k` sectors. -/
def visits (state : GcState δ) (k : Nat) : GcState δ :=
  (List.range k).foldl (visit dest sectors) state

variable (dest sectors) in
/-- The sectors that are copied to the write buffer, of the first `k` sectors. -/
def copied (state : GcState δ) : Nat → List Nat
  | 0 => []
  | k + 1 =>
      if Copies geo ppa sectors (visits dest sectors state k) k then copied state k ++ [k]
      else copied state k

theorem visits_succ (state : GcState δ) (k : Nat) :
    visits dest sectors state (k + 1) = visit dest sectors (visits dest sectors state k) k := by
  rw [visits, List.range_succ, List.foldl_append]
  rfl

/-- One sector of the block. -/
theorem visit_inv (nonzero : ppa.block ≠ (0, 0, 0)) (kLt : k < secPerBlk geo)
    (inv : MoveInv dest sectors start k moves state) :
    MoveInv dest sectors start (k + 1)
      (if Copies geo ppa sectors state k then moves ++ [k] else moves)
      (visit dest sectors state k) := by
  unfold visit processSector
  by_cases invalid : Invalid geo (state.store.blocks ppa.block) k
  · have isInvalid := invalid
    unfold Invalid at isInvalid
    simp only [isInvalid, if_true]
    rw [if_neg fun copies => copies.1 invalid]
    refine ⟨inv.selected.skip fun valid isUser => ?_, inv.calls, inv.off, inv.buffer, inv.moved⟩
    obtain ⟨lba, j, lt, first, eq⟩ :=
      ((inv.moved.invalid k kLt isUser).mp invalid).resolve_left valid
    exact ⟨lba, j, first, eq, full_of_lt lt⟩
  · have isValid := invalid
    unfold Invalid at isValid
    simp only [isValid, blockGcMoveSector]
    cases type : (sectors (k / geo.secPerPlPg) (k % geo.secPerPlPg)).oob.pgType with
    | nameSpace =>
        have valid : ¬ Invalid geo (start.blocks ppa.block) k := fun before =>
          invalid ((inv.moved.invalid k kLt type).mpr (Or.inl before))
        rw [if_pos ⟨invalid, type⟩]
        exact inv.move nonzero kLt valid type rfl
    | blkMd | mapMd | log =>
        have other : (sectorAt geo sectors k).oob.pgType ≠ .nameSpace := by simp [sectorAt, type]
        rw [if_neg fun copies => other copies.2]
        exact ⟨inv.skip other, inv.calls, inv.off, inv.buffer, inv.moved⟩
    | padding | map | reserved | unknown =>
        have other : (sectorAt geo sectors k).oob.pgType ≠ .nameSpace := by simp [sectorAt, type]
        rw [if_neg fun copies => other copies.2]
        exact ⟨inv.skip other, inv.calls, inv.off, inv.buffer, inv.moved.invalidate kLt other⟩

/-! ## The block -/

theorem visits_inv (nonzero : ppa.block ≠ (0, 0, 0)) (start : Store Unit) (wIo : Nat → Sector δ)
    {k : Nat} (le : k ≤ secPerBlk geo) :
    MoveInv dest sectors start k (copied dest sectors { store := start, wIo := wIo } k)
      (visits dest sectors { store := start, wIo := wIo } k) := by
  induction k with
  | zero =>
      refine ⟨⟨List.Pairwise.nil, by simp [copied], by simp⟩, by simp [copied, visits],
        by simp [copied, visits], by simp [copied], ?_⟩
      exact ⟨fun lba => Or.inr ⟨by simp [copied], rfl⟩, by simp [copied, visits], by simp [copied]⟩
  | succ k ih =>
      rw [visits_succ]
      exact visit_inv nonzero le (ih (by omega))

/-- What `block_gc_process_blk` does. -/
theorem blockGcProcessBlk_moved (nonzero : ppa.block ≠ (0, 0, 0)) (start : Store Unit)
    (wIo : Nat → Sector δ) :
    Selected dest sectors start (secPerBlk geo)
        (copied dest sectors { store := start, wIo := wIo } (secPerBlk geo)) ∧
      Moved dest sectors start
        (copied dest sectors { store := start, wIo := wIo } (secPerBlk geo))
        (copied dest sectors { store := start, wIo := wIo } (secPerBlk geo)).length
        (blockGcProcessBlk geo dest sectors ppa { store := start, wIo := wIo }) := by
  have inv := @visits_inv _ _ _ dest sectors nonzero start wIo _ le_rfl
  generalize copied dest sectors { store := start, wIo := wIo } (secPerBlk geo) = moves at inv ⊢
  refine ⟨inv.selected, ?_⟩
  unfold blockGcProcessBlk
  rw [processPages_eq]
  unfold visits at inv
  have parts := Nat.div_add_mod moves.length geo.secPerPlPg
  rw [Nat.mul_comm] at parts
  have rest := Nat.mod_lt moves.length geo.secPerPlPg_pos
  simp only
  split
  next empty =>
    have done := inv.moved
    rw [← inv.off, empty, Nat.add_zero] at parts
    rwa [parts] at done
  next =>
    have page : bufferPage geo moves (moves.length / geo.secPerPlPg) = geo.pgPerBlk - 1 := by
      unfold bufferPage
      rw [List.getElem?_eq_none (by omega)]
    have inBlock : ∀ x ∈ moves, x < secPerBlk geo := fun x mem => (inv.selected.user x mem).1
    have done := @flushBuffer_moved _ _ _ dest sectors start moves
      (padBuffer geo ((List.range (secPerBlk geo)).foldl (visit dest sectors)
        { store := start, wIo := wIo })) _ (moves.length % geo.secPerPlPg) nonzero
      ⟨rest.le, inBlock, fun i lt => ?_⟩ inv.off inv.calls (ppa.setPg (geo.pgPerBlk - 1))
      (fun i => by rw [page]) ⟨inv.moved.map, inv.moved.invalid, inv.moved.written⟩
    · rwa [parts] at done
    · obtain ⟨x, get, read⟩ := inv.buffer i lt
      refine ⟨x, get, ?_⟩
      simp only [padBuffer]
      rw [if_neg (by have := inv.off; omega), read]

end OxCtrl.Gc
