import OxCtrl.Gc.Remap
import OxCtrl.Lib.Buckets
import Mathlib.Data.Rat.Cast.Order
import Mathlib.Data.List.Perm.Subperm

/-!
# Selection of victims

`block_gc_bucket_sort` puts the blocks with the most invalid sectors in front of the list, and
returns how many of them are to be recycled.  The list is overwritten while the buckets are read:
they hold pointers of their own, so nothing is read from the list again.
-/

namespace OxCtrl.Gc

open OxCtrl.Lib

universe u

/-- `APP_GC_TARGET_RATE`. -/
def appGcTargetRate : ℚ := 1 / 2

/-- `APP_GC_MAX_BLKS`. -/
def appGcMaxBlks : Nat := 25

/-! ## Model -/

variable {α : Type u} (invalidSec : α → Nat) (geo : Geometry)

/-- The loop body that puts a block to its bucket; `none` is the jump to `FREE`. -/
def fillBucket (bucket : Nat → List α) (blk : α) : Option (Nat → List α) :=
  let ip := invalidSec blk
  if ip = 0 then some bucket
  -- `sec_per_blk` has 16 bits here
  else if secPerBlk geo % 2 ^ 16 < ip then none
  else some (Function.update bucket ip (bucket ip ++ [blk]))

/-- The list and the variables of the second loop. -/
structure SortState (α : Type u) where
  list : List α
  k : Nat := 0
  stop : Bool := false

/-- The condition that stops the loop at a block of bucket `bi`. -/
def Stops (nBuckets minInvalid bi k : Nat) : Prop :=
  ((bi : ℚ) / nBuckets < appGcTargetRate ∧ appGcMaxBlks ≤ k) ∨ bi < minInvalid

instance (nBuckets minInvalid bi k : Nat) : Decidable (Stops nBuckets minInvalid bi k) :=
  inferInstanceAs (Decidable (_ ∨ _))

/-- The inner loop, over the blocks of bucket `bi`. -/
def takeBucket (nBuckets minInvalid bi : Nat) : List α → SortState α → SortState α
  | [], state => state
  | blk :: rest, state =>
      if Stops nBuckets minInvalid bi state.k then { state with stop := true }
      else
        takeBucket nBuckets minInvalid bi rest
          { state with list := state.list.set state.k blk, k := state.k + 1 }

/-- The outer loop, from bucket `bi` down to bucket one. -/
def takeBuckets (nBuckets minInvalid : Nat) (bucket : Nat → List α) :
    Nat → SortState α → SortState α
  | 0, state => state
  | bi + 1, state =>
      let state := takeBucket nBuckets minInvalid (bi + 1) (bucket (bi + 1)) state
      if state.stop then state else takeBuckets nBuckets minInvalid bucket bi state

/-- `block_gc_bucket_sort`: the list as it is left, and the result. -/
def blockGcBucketSort (list : List α) (nBuckets minInvalid : Nat) : List α × Int :=
  let nBuckets := nBuckets + 1
  match list.foldlM (fillBucket invalidSec geo) (fun _ => []) with
  | none => (list, -1)
  | some bucket =>
      let state := takeBuckets nBuckets minInvalid bucket (nBuckets - 1) { list := list }
      (state.list, state.k)

/-! ## The buckets -/

variable {geo} {list : List α}

theorem secPerBlk_lt (geo : Geometry) : secPerBlk geo < 2 ^ 16 :=
  calc
    secPerBlk geo = geo.pgPerBlk * geo.nOfPlanes * geo.secPerPg := by
      rw [secPerBlk, Geometry.secPerPlPg, Nat.mul_comm geo.secPerPg, Nat.mul_assoc]
    _ ≤ blkMdByteVecSz * 8 := Nat.mul_le_mul geo.state_le geo.sec_le
    _ < 2 ^ 16 := by decide

/-- Bucket `ip` gets the blocks with `ip` invalid sectors. -/
theorem fillBuckets_eq (bounded : ∀ blk ∈ list, invalidSec blk ≤ secPerBlk geo)
    (bucket : Nat → List α) :
    list.foldlM (fillBucket invalidSec geo) bucket =
      some fun ip => bucket ip ++ if ip = 0 then [] else bucketOf invalidSec list ip := by
  induction list generalizing bucket with
  | nil => simp [bucketOf]
  | cons blk rest ih =>
      have inSize := bounded blk List.mem_cons_self
      have ih := ih fun other mem => bounded other (List.mem_cons_of_mem _ mem)
      have sameSize := Nat.mod_eq_of_lt (secPerBlk_lt geo)
      rw [List.foldlM_cons, fillBucket]
      by_cases zero : invalidSec blk = 0
      · simp only [zero, if_true, Option.bind_eq_bind, Option.bind_some, ih, Option.some.injEq]
        funext ip
        by_cases ipZero : ip = 0
        · simp [ipZero]
        · simp [bucketOf, zero, Ne.symm ipZero]
      · simp only [zero, if_false, sameSize, Nat.not_lt.mpr inSize, Option.bind_eq_bind,
          Option.bind_some, ih, Option.some.injEq]
        funext ip
        by_cases here : ip = invalidSec blk
        · subst here
          simp [bucketOf, zero]
        · simp [bucketOf, Function.update_of_ne here, Ne.symm here]

/-! ## The loops -/

/-- What a part of the loop does that meets the blocks `order` in this order: the blocks `chosen`
are written behind those that were chosen before. -/
structure Takes (nBuckets minInvalid : Nat) (order done chosen left : List α)
    (state after : SortState α) : Prop where
  split : order = chosen ++ left
  length : after.list.length = state.list.length
  count : after.k = (done ++ chosen).length
  placed : after.list.take after.k = done ++ chosen
  enough : ∀ blk ∈ chosen, minInvalid ≤ invalidSec blk
  stopped : ∀ blk ∈ left.head?, Stops nBuckets minInvalid (invalidSec blk) after.k
  stop : after.stop = true ↔ left ≠ []

variable {invalidSec} {nBuckets minInvalid : Nat} {order done : List α} {state : SortState α}

theorem take_set {k : Nat} (lt : k < list.length) (blk : α) :
    (list.set k blk).take (k + 1) = list.take k ++ [blk] := by
  have lt' : k < (list.set k blk).length := by rwa [List.length_set]
  rw [List.take_succ_eq_append_getElem lt', List.getElem_set_self, List.take_set_of_le le_rfl]

/-- Nothing is left in the buckets. -/
theorem Takes.nil (count : state.k = done.length) (placed : state.list.take state.k = done)
    (running : state.stop = false) :
    Takes invalidSec nBuckets minInvalid [] done [] [] state state := by
  constructor
  · rfl
  · rfl
  · rw [count, List.append_nil]
  · rw [placed, List.append_nil]
  · simp
  · simp
  · simp [running]

theorem takeBucket_takes {bi : Nat} (same : ∀ blk ∈ order, invalidSec blk = bi)
    (count : state.k = done.length) (placed : state.list.take state.k = done)
    (running : state.stop = false) (room : (done ++ order).length ≤ state.list.length) :
    ∃ chosen left, Takes invalidSec nBuckets minInvalid order done chosen left state
      (takeBucket nBuckets minInvalid bi order state) := by
  induction order generalizing state done with
  | nil => exact ⟨[], [], Takes.nil count placed running⟩
  | cons blk rest ih =>
      have here := same blk List.mem_cons_self
      rw [takeBucket]
      split
      next stops =>
        refine ⟨[], blk :: rest, rfl, rfl, by simpa using count, by simpa using placed, by simp, ?_,
          by simp⟩
        intro first isFirst
        obtain rfl : blk = first := Option.some.inj isFirst
        rwa [here]
      next goes =>
        have lt : state.k < state.list.length := by
          rw [List.length_append, List.length_cons] at room
          omega
        have next := @ih (done ++ [blk])
          { state with list := state.list.set state.k blk, k := state.k + 1 }
          (fun other mem => same other (List.mem_cons_of_mem _ mem)) (by simp [count])
          (by simp only [take_set lt, placed]) running (by simpa using room)
        obtain ⟨chosen, left, takes⟩ := next
        refine ⟨blk :: chosen, left, ?_, ?_, ?_, ?_, ?_, takes.stopped, takes.stop⟩
        · rw [takes.split, List.cons_append]
        · rw [takes.length, List.length_set]
        · rw [takes.count, List.append_assoc, List.singleton_append]
        · rw [takes.placed, List.append_assoc, List.singleton_append]
        · intro other mem
          rcases List.mem_cons.mp mem with rfl | mem
          · rw [here]
            exact Nat.not_lt.mp fun below => goes (Or.inr below)
          · exact takes.enough other mem

/-- The loops meet the blocks from the most invalid sectors to the fewest. -/
theorem takeBuckets_takes {n : Nat} {bucket : Nat → List α}
    (buckets : ∀ bi, 0 < bi → bucket bi = bucketOf invalidSec list bi)
    (count : state.k = done.length) (placed : state.list.take state.k = done)
    (running : state.stop = false)
    (room : (done ++ descending invalidSec list n).length ≤ state.list.length) :
    ∃ chosen left, Takes invalidSec nBuckets minInvalid (descending invalidSec list n) done chosen
      left state (takeBuckets nBuckets minInvalid bucket n state) := by
  induction n generalizing state done with
  | zero => exact ⟨[], [], Takes.nil count placed running⟩
  | succ n ih =>
      rw [descending] at room ⊢
      rw [← List.append_assoc, List.length_append] at room
      rw [takeBuckets, buckets (n + 1) (Nat.succ_pos n)]
      obtain ⟨chosen, left, takes⟩ := @takeBucket_takes _ invalidSec nBuckets minInvalid
        (bucketOf invalidSec list (n + 1)) done state (n + 1)
        (fun blk mem => (mem_bucketOf.mp mem).2) count placed running (by omega)
      split
      next stop =>
        have some := takes.stop.mp stop
        refine ⟨chosen, left ++ descending invalidSec list n, ?_, takes.length, takes.count,
          takes.placed, takes.enough, ?_, ?_⟩
        · rw [takes.split, List.append_assoc]
        · rw [List.head?_append_of_ne_nil _ some]
          exact takes.stopped
        · simp [stop, some]
      next goes =>
        obtain rfl : left = [] := not_not.mp fun some => goes (takes.stop.mpr some)
        have whole : bucketOf invalidSec list (n + 1) = chosen := by simpa using takes.split
        rw [whole] at room
        obtain ⟨more, left, rest⟩ := ih takes.count takes.placed (Bool.eq_false_iff.mpr goes)
          (by rw [takes.length, List.length_append]; omega)
        refine ⟨chosen ++ more, left, ?_, ?_, ?_, ?_, ?_, rest.stopped, rest.stop⟩
        · rw [rest.split, whole, List.append_assoc]
        · rw [rest.length, takes.length]
        · rw [rest.count, List.append_assoc]
        · rw [rest.placed, List.append_assoc]
        · intro blk mem
          rcases List.mem_append.mp mem with mem | mem
          · exact takes.enough blk mem
          · exact rest.enough blk mem

/-! ## The victims -/

variable (invalidSec) in
/-- `chosen` are victims of the blocks in the list, and `left` are the other blocks. -/
structure Victims (nBuckets minInvalid : Nat) (list chosen left : List α) : Prop where
  perm : (chosen ++ left).Perm list
  distinct : list.Nodup → chosen.Nodup
  sorted : chosen.Pairwise fun first second => invalidSec second ≤ invalidSec first
  enough : ∀ blk ∈ chosen, max 1 minInvalid ≤ invalidSec blk
  leftOut : ∀ blk ∈ left, max 1 minInvalid ≤ invalidSec blk →
    (∀ victim ∈ chosen, invalidSec blk ≤ invalidSec victim) ∧
      appGcMaxBlks ≤ chosen.length ∧ (invalidSec blk : ℚ) / nBuckets < appGcTargetRate

/-- The loops choose victims, and leave the other blocks and those without invalid sectors. -/
theorem Takes.victims {n : Nat} {chosen left : List α} {start after : SortState α}
    (takes : Takes invalidSec nBuckets minInvalid (descending invalidSec list n) [] chosen left
      start after)
    (bounded : ∀ blk ∈ list, invalidSec blk ≤ n) :
    Victims invalidSec nBuckets minInvalid list chosen
      (left ++ list.filter fun blk => !decide (0 < invalidSec blk)) := by
  have sorted := descending_pairwise invalidSec list n
  have perm := descending_perm invalidSec list n
  have positive : (list.filter fun blk => 0 < invalidSec blk ∧ invalidSec blk ≤ n) =
      list.filter fun blk => 0 < invalidSec blk := by
    apply List.filter_congr
    intro blk mem
    have := bounded blk mem
    exact decide_eq_decide.mpr (by omega)
  rw [positive, takes.split] at perm
  rw [takes.split] at sorted
  have all : (chosen ++ (left ++ list.filter fun blk => !decide (0 < invalidSec blk))).Perm
      list := by
    rw [← List.append_assoc]
    exact (List.Perm.append_right _ perm).trans (List.filter_append_perm _ _)
  refine ⟨all, fun nodup => ?_, (List.pairwise_append.mp sorted).1, fun blk mem => ?_,
    fun blk mem enough => ?_⟩
  · exact (List.nodup_append.mp (all.nodup_iff.mpr nodup)).1
  · have inOrder : blk ∈ descending invalidSec list n := by
      rw [takes.split]
      exact List.mem_append_left _ mem
    exact Nat.max_le.mpr ⟨(mem_descending.mp inOrder).2.1, takes.enough blk mem⟩
  · rcases List.mem_append.mp mem with mem | mem
    · refine ⟨fun victim memVictim => (List.pairwise_append.mp sorted).2.2 victim memVictim blk mem,
        ?_⟩
      cases left with
      | nil => exact absurd mem List.not_mem_nil
      | cons first rest =>
          have le : invalidSec blk ≤ invalidSec first := by
            rcases List.mem_cons.mp mem with rfl | memRest
            · exact le_rfl
            · exact (List.pairwise_cons.mp (List.pairwise_append.mp sorted).2.1).1 blk memRest
          rcases takes.stopped first rfl with ⟨rate, full⟩ | below
          · rw [takes.count, List.nil_append] at full
            refine ⟨full, lt_of_le_of_lt ?_ rate⟩
            have cast : (invalidSec blk : ℚ) ≤ invalidSec first := by exact_mod_cast le
            exact div_le_div_of_nonneg_right cast (Nat.cast_nonneg _)
          · exact absurd ((Nat.le_max_right _ _).trans (enough.trans le)) (Nat.not_le.mpr below)
    · have zero := (List.mem_filter.mp mem).2
      have one := (Nat.le_max_left 1 minInvalid).trans enough
      simp only [Bool.not_eq_true', decide_eq_false_iff_not] at zero
      exact absurd one zero

/-- `block_gc_bucket_sort` returns the number of victims, and they are in front of the list. -/
theorem bucket_sort_selects_victims (invalidSec : α → Nat) (geo : Geometry) (list : List α)
    (minInvalid : Nat) (bounded : ∀ blk ∈ list, invalidSec blk ≤ secPerBlk geo) :
    ∃ k left, (blockGcBucketSort invalidSec geo list (secPerBlk geo) minInvalid).2 = (k : Nat) ∧
      k ≤ (blockGcBucketSort invalidSec geo list (secPerBlk geo) minInvalid).1.length ∧
      Victims invalidSec (secPerBlk geo + 1) minInvalid list
        ((blockGcBucketSort invalidSec geo list (secPerBlk geo) minInvalid).1.take k) left := by
  unfold blockGcBucketSort
  rw [fillBuckets_eq invalidSec bounded]
  simp only [List.nil_append, Nat.add_sub_cancel]
  obtain ⟨chosen, left, takes⟩ := @takeBuckets_takes _ invalidSec list (secPerBlk geo + 1)
    minInvalid [] { list := list } (secPerBlk geo)
    (fun ip => if ip = 0 then [] else bucketOf invalidSec list ip)
    (fun bi pos => if_neg (Nat.ne_of_gt pos)) rfl rfl rfl (descending_length_le _ _ _)
  refine ⟨_, left ++ list.filter fun blk => !decide (0 < invalidSec blk), rfl, ?_, ?_⟩
  · rw [takes.count, List.nil_append, takes.length]
    exact (List.Sublist.length_le (takes.split ▸ List.sublist_append_left chosen left)).trans
      (descending_length_le invalidSec list _)
  · rw [takes.placed]
    exact takes.victims bounded

/-- Blocks given by their numbers of invalid sectors, of four sectors. -/
theorem bucket_sort_selects_three :
    ∃ k left, (blockGcBucketSort id .small [0, 4, 1, 3, 2] (secPerBlk .small) 2).2 = (k : Nat) ∧
      k ≤ (blockGcBucketSort id .small [0, 4, 1, 3, 2] (secPerBlk .small) 2).1.length ∧
      Victims id (secPerBlk .small + 1) 2 [0, 4, 1, 3, 2]
        ((blockGcBucketSort id .small [0, 4, 1, 3, 2] (secPerBlk .small) 2).1.take k) left :=
  bucket_sort_selects_victims id .small [0, 4, 1, 3, 2] 2 (by decide)

example : blockGcBucketSort id .small [0, 4, 1, 3, 2] (secPerBlk .small) 2 =
    ([4, 3, 2, 3, 2], 3) := by
  decide +kernel

end OxCtrl.Gc
