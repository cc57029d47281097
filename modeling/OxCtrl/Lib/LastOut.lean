import Mathlib.Data.Finset.Card
import Mathlib.Data.Finset.Range
import Mathlib.Logic.Function.Basic

/-!
# The last one closes

`n` parties are counted when they leave.  The one that brings the counter to `n` closes behind
the others, and it is the only one that ever does.
-/

namespace OxCtrl.Lib

/-- Where a party is: not counted yet, closing behind the others, or gone. -/
inductive Place where
  | waiting
  | closing
  | gone
  deriving DecidableEq, Repr

/-- Parties that have been counted. -/
def counted (n : Nat) (place : Nat → Place) : Nat :=
  ((Finset.range n).filter fun i => place i ≠ .waiting).card

/-- The counter, and who closes. -/
structure LastOut (n : Nat) (place : Nat → Place) (count : Nat) : Prop where
  counts : count = counted n place
  unclosed : count < n → ∀ i < n, place i ≠ .closing
  closed : n ≤ count → ∃ last < n, ∀ i < n, i ≠ last → place i = .gone

/-- Where the party goes that is counted now. -/
def leaving (n count : Nat) : Place :=
  if n ≤ count + 1 then .closing else .gone

theorem leaving_ne_waiting (n count : Nat) : leaving n count ≠ .waiting := by
  rw [leaving]
  split <;> simp

variable {n count i : Nat} {place : Nat → Place}

theorem counted_eq_iff : counted n place = n ↔ ∀ i < n, place i ≠ .waiting := by
  have all := Finset.card_filter_eq_iff (s := Finset.range n) (p := fun i => place i ≠ .waiting)
  rw [Finset.card_range] at all
  rw [counted, all]
  simp only [Finset.mem_range]

theorem counted_update (lt : i < n) (waiting : place i = .waiting) {target : Place}
    (leaves : target ≠ .waiting) :
    counted n (Function.update place i target) = counted n place + 1 := by
  have outside : i ∉ (Finset.range n).filter fun j => place j ≠ .waiting := by
    simp [waiting]
  have more : ((Finset.range n).filter fun j => Function.update place i target j ≠ .waiting) =
      insert i ((Finset.range n).filter fun j => place j ≠ .waiting) := by
    ext j
    by_cases same : j = i
    · subst same
      simp [lt, leaves]
    · simp [same]
  rw [counted, more, Finset.card_insert_of_notMem outside, counted]

namespace LastOut

theorem start (pos : 0 < n) : LastOut n (fun _ => .waiting) 0 where
  counts := by simp [counted]
  unclosed _ := by simp
  closed le := absurd le (Nat.not_le.mpr pos)

theorem count_lt (out : LastOut n place count) (lt : i < n) (waiting : place i = .waiting) :
    count < n := by
  by_contra full
  obtain ⟨last, lastLt, others⟩ := out.closed (Nat.not_lt.mp full)
  have le : counted n place ≤ n := by
    rw [counted]
    exact (Finset.card_filter_le _ _).trans (Finset.card_range n).le
  have eq : counted n place = n := le_antisymm le (out.counts ▸ Nat.not_lt.mp full)
  exact counted_eq_iff.mp eq i lt waiting

/-- The next party is counted. -/
theorem leave (out : LastOut n place count) (lt : i < n) (waiting : place i = .waiting) :
    LastOut n (Function.update place i (leaving n count)) (count + 1) where
  counts := by rw [counted_update lt waiting (leaving_ne_waiting n count), out.counts]
  unclosed below j jLt := by
    by_cases same : j = i
    · subst same
      rw [Function.update_self, leaving, if_neg (Nat.not_le.mpr below)]
      simp
    · rw [Function.update_of_ne same]
      exact out.unclosed (Nat.lt_of_succ_lt below) j jLt
  closed full := by
    have before := out.count_lt lt waiting
    have eq : counted n (Function.update place i (leaving n count)) = n := by
      rw [counted_update lt waiting (leaving_ne_waiting n count), ← out.counts]
      exact le_antisymm before full
    have none := counted_eq_iff.mp eq
    refine ⟨i, lt, fun j jLt differ => ?_⟩
    have notWaiting := none j jLt
    rw [Function.update_of_ne differ] at notWaiting ⊢
    have notClosing := out.unclosed before j jLt
    cases at' : place j with
    | waiting => exact absurd at' notWaiting
    | closing => exact absurd at' notClosing
    | gone => rfl

/-- Before the last count somebody waits. -/
theorem exists_waiting (out : LastOut n place count) (lt : count < n) :
    ∃ i < n, place i = .waiting := by
  by_contra none
  have all : counted n place = n :=
    counted_eq_iff.mpr fun i iLt waiting => none ⟨i, iLt, waiting⟩
  rw [out.counts, all] at lt
  exact Nat.lt_irrefl n lt

/-- Behind the one that closes, the others are gone. -/
theorem others_gone (out : LastOut n place count) (lt : i < n) (closing : place i = .closing) :
    ∀ j < n, j ≠ i → place j = .gone := by
  have full : n ≤ count := by
    by_contra below
    exact out.unclosed (Nat.not_le.mp below) i lt closing
  obtain ⟨last, lastLt, others⟩ := out.closed full
  have same : i = last := by
    by_contra differ
    rw [others i lt differ] at closing
    cases closing
  subst same
  exact others

/-- While a party waits nobody closes. -/
theorem not_closing (out : LastOut n place count) {j : Nat} (lt : i < n)
    (waiting : place i = .waiting) (jLt : j < n) : place j ≠ .closing :=
  out.unclosed (out.count_lt lt waiting) j jLt

/-- A change that leaves every party where it is. -/
theorem congr {place' : Nat → Place} (out : LastOut n place count)
    (same : ∀ i < n, place' i = place i) : LastOut n place' count where
  counts := by
    rw [out.counts, counted, counted]
    refine congrArg Finset.card (Finset.filter_congr fun i mem => ?_)
    rw [same i (Finset.mem_range.mp mem)]
  unclosed below i lt := by
    rw [same i lt]
    exact out.unclosed below i lt
  closed full := by
    obtain ⟨last, lastLt, others⟩ := out.closed full
    refine ⟨last, lastLt, fun i lt differ => ?_⟩
    rw [same i lt]
    exact others i lt differ

/-- The party that closes goes. -/
theorem close (out : LastOut n place count) (lt : i < n) (closing : place i = .closing) :
    LastOut n (Function.update place i .gone) count where
  counts := by
    rw [out.counts, counted, counted]
    refine congrArg Finset.card (Finset.filter_congr fun j _ => ?_)
    by_cases same : j = i
    · subst same
      simp [closing]
    · rw [Function.update_of_ne same]
  unclosed below := absurd closing (out.unclosed below i lt)
  closed _ := by
    refine ⟨i, lt, fun j jLt differ => ?_⟩
    rw [Function.update_of_ne differ]
    exact out.others_gone lt closing j jLt differ

end LastOut

end OxCtrl.Lib
