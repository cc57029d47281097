import Mathlib.Data.List.Basic

/-!
# Loops over ranges and increasing lists

A loop over the rows of a table with a loop over a row inside is one loop over the
positions of the table.  The positions that such a loop selects form an increasing list.
-/

namespace OxCtrl.Lib

universe u

/-- Two nested loops are a loop over the positions. -/
theorem foldl_range_mul {σ : Type u} (f : Nat → σ → Nat → σ) (state : σ) (rows : Nat) {width : Nat}
    (pos : 0 < width) :
    (List.range (rows * width)).foldl (fun state k => f (k / width) state (k % width)) state =
      (List.range rows).foldl (fun state row => (List.range width).foldl (f row) state) state := by
  induction rows with
  | zero => simp
  | succ rows ih =>
      rw [Nat.succ_mul, List.range_add, List.foldl_append, ih, List.range_succ, List.foldl_append,
        List.foldl_map, List.foldl_cons, List.foldl_nil]
      apply List.foldl_ext
      intro current i mem
      have lt : i < width := List.mem_range.mp mem
      have row : (rows * width + i) / width = rows := by
        rw [Nat.mul_comm, Nat.mul_add_div pos, Nat.div_eq_of_lt lt, Nat.add_zero]
      have column : (rows * width + i) % width = i := by
        rw [Nat.mul_comm, Nat.mul_add_mod, Nat.mod_eq_of_lt lt]
      rw [row, column]

/-- A position below a sum is below the first number, or the second number has it. -/
theorem exists_lt_add {first second : Nat} {P : Nat → Prop} :
    (∃ j < first + second, P j) ↔ (∃ j < first, P j) ∨ ∃ i < second, P (first + i) := by
  constructor
  · rintro ⟨j, lt, holds⟩
    by_cases earlier : j < first
    · exact Or.inl ⟨j, earlier, holds⟩
    · refine Or.inr ⟨j - first, by omega, ?_⟩
      rwa [Nat.add_sub_cancel' (by omega)]
  · rintro (⟨j, lt, holds⟩ | ⟨i, lt, holds⟩)
    · exact ⟨j, by omega, holds⟩
    · exact ⟨_, by omega, holds⟩

/-- Elements of an increasing list are as far apart as their places, at least. -/
theorem le_of_increasing {list : List Nat} (increasing : list.Pairwise (· < ·)) {i d x y : Nat}
    (getX : list[i]? = some x) (getY : list[i + d]? = some y) : x + d ≤ y := by
  induction d generalizing y with
  | zero =>
      obtain rfl : x = y := Option.some.inj (getX.symm.trans getY)
      exact Nat.le_refl _
  | succ d ih =>
      obtain ⟨ltY, rfl⟩ := List.getElem?_eq_some_iff.mp getY
      have lt : i + d < list.length := Nat.lt_of_succ_lt ltY
      have before := ih (List.getElem?_eq_getElem lt)
      have step := List.pairwise_iff_getElem.mp increasing (i + d) (i + d + 1) lt ltY
        (Nat.lt_succ_self _)
      exact Nat.lt_of_le_of_lt before step

/-- The elements of an increasing list below a bound stand at its front. -/
theorem getElem?_filter_lt {list : List Nat} (increasing : list.Pairwise (· < ·))
    (i x bound : Nat) :
    (list.filter (· < bound))[i]? = some x ↔ list[i]? = some x ∧ x < bound := by
  induction list generalizing i with
  | nil => simp
  | cons first rest ih =>
      obtain ⟨above, increasing⟩ := List.pairwise_cons.mp increasing
      by_cases lt : first < bound
      · rw [List.filter_cons_of_pos (by simpa using lt)]
        cases i with
        | zero =>
            simp only [List.getElem?_cons_zero, Option.some.injEq]
            exact ⟨fun same => ⟨same, same ▸ lt⟩, And.left⟩
        | succ i => simpa using ih increasing i
      · have none : (first :: rest).filter (· < bound) = [] := by
          refine List.filter_eq_nil_iff.mpr fun y mem => ?_
          rcases List.mem_cons.mp mem with rfl | mem
          · simpa using lt
          · simpa using Nat.le_trans (Nat.not_lt.mp lt) (Nat.le_of_lt (above y mem))
        simp only [none, List.getElem?_nil, reduceCtorEq, false_iff, not_and]
        intro get ltX
        have mem : x ∈ (first :: rest).filter (· < bound) :=
          List.mem_filter.mpr ⟨List.mem_of_getElem? get, by simpa using ltX⟩
        simp [none] at mem

/-- Two increasing lists with the same elements below a bound have them at the same
places. -/
theorem getElem?_of_same_below {first second : List Nat} (increasing : first.Pairwise (· < ·))
    (increasing' : second.Pairwise (· < ·)) {bound : Nat}
    (same : ∀ x < bound, x ∈ first ↔ x ∈ second) {i x : Nat} (get : first[i]? = some x)
    (lt : x < bound) : second[i]? = some x := by
  have equal : first.filter (· < bound) = second.filter (· < bound) := by
    refine List.Perm.eq_of_pairwise (fun a b _ _ ab ba => absurd ab (Nat.lt_asymm ba))
      (increasing.filter _) (increasing'.filter _) ?_
    refine (List.perm_ext_iff_of_nodup ((increasing.filter _).imp Nat.ne_of_lt)
      ((increasing'.filter _).imp Nat.ne_of_lt)).mpr fun a => ?_
    simp only [List.mem_filter, decide_eq_true_eq]
    exact and_congr_left fun ltA => same a ltA
  have below := (getElem?_filter_lt increasing i x bound).mpr ⟨get, lt⟩
  rw [equal] at below
  exact ((getElem?_filter_lt increasing' i x bound).mp below).1

end OxCtrl.Lib
