import Mathlib.Logic.Function.Basic

/-!
# Maps of slots

A word keeps one bit for each slot, which is set while somebody holds the slot.  A release that
toggles the bit is right for the holder only.
-/

namespace OxCtrl.Lib

universe u

/-- The bits that are set are those of the slots that are held, each by one holder. -/
structure Owned {α : Type u} {w : Nat} (map : BitVec w) (held : α → Option Nat) : Prop where
  inside : ∀ x i, held x = some i → i < w
  bits : ∀ i < w, map.getLsbD i = true ↔ ∃ x, held x = some i
  apart : ∀ x y i, held x = some i → held y = some i → x = y

variable {α : Type u} {w : Nat} {map : BitVec w} {held : α → Option Nat} {x : α} {i : Nat}

/-- `map & (1 << i)` -/
theorem and_twoPow_ne_zero (inside : i < w) :
    map &&& BitVec.twoPow w i ≠ 0 ↔ map.getLsbD i = true := by
  rw [BitVec.and_twoPow]
  cases bit : map.getLsbD i with
  | false => simp
  | true =>
      simp only [if_true, iff_true]
      intro zero
      have own := congrArg (fun bits => bits.getLsbD i) zero
      simp [inside] at own

theorem owned_empty : Owned (0 : BitVec w) (fun _ : α => none) where
  inside x i found := by cases found
  bits i lt := by simp
  apart x y i found := by cases found

namespace Owned

variable [DecidableEq α]

/-- A slot whose bit is clear is taken. -/
theorem obtain (owned : Owned map held) (inside : i < w) (free : map.getLsbD i = false)
    (none : held x = none) :
    Owned (map ||| BitVec.twoPow w i) (Function.update held x (some i)) where
  inside y j found := by
    by_cases same : y = x
    · subst same
      rw [Function.update_self] at found
      cases found
      exact inside
    · rw [Function.update_of_ne same] at found
      exact owned.inside y j found
  bits j lt := by
    rw [BitVec.getLsbD_or, BitVec.getLsbD_twoPow]
    by_cases same : i = j
    · subst same
      simp only [inside, decide_true, Bool.and_self, Bool.or_true, true_iff]
      exact ⟨x, Function.update_self _ _ _⟩
    · simp only [same, decide_false, Bool.and_false, Bool.or_false, owned.bits j lt]
      constructor
      · rintro ⟨y, found⟩
        refine ⟨y, ?_⟩
        rw [Function.update_of_ne]
        · exact found
        · rintro rfl
          rw [none] at found
          cases found
      · rintro ⟨y, found⟩
        refine ⟨y, ?_⟩
        by_cases eq : y = x
        · subst eq
          rw [Function.update_self] at found
          exact absurd (Option.some.inj found) same
        · rwa [Function.update_of_ne eq] at found
  apart y z j first second := by
    have fresh : ∀ y, held y ≠ some i := by
      intro y found
      have set := (owned.bits i inside).mpr ⟨y, found⟩
      rw [free] at set
      cases set
    by_cases atY : y = x
    · subst atY
      rw [Function.update_self] at first
      cases first
      by_contra differ
      rw [Function.update_of_ne (Ne.symm differ)] at second
      exact fresh z second
    · rw [Function.update_of_ne atY] at first
      by_cases atZ : z = x
      · subst atZ
        rw [Function.update_self] at second
        cases second
        exact absurd first (fresh y)
      · rw [Function.update_of_ne atZ] at second
        exact owned.apart y z j first second

/-- The holder toggles the bit of its slot. -/
theorem release (owned : Owned map held) (found : held x = some i) :
    Owned (map ^^^ BitVec.twoPow w i) (Function.update held x none) where
  inside y j held := by
    by_cases same : y = x
    · subst same
      rw [Function.update_self] at held
      cases held
    · rw [Function.update_of_ne same] at held
      exact owned.inside y j held
  bits j lt := by
    have inside := owned.inside x i found
    rw [BitVec.getLsbD_xor, BitVec.getLsbD_twoPow]
    by_cases same : i = j
    · subst same
      rw [(owned.bits i lt).mpr ⟨x, found⟩]
      simp only [inside, decide_true, Bool.and_self, bne_self_eq_false,
        Bool.false_eq_true, false_iff]
      rintro ⟨y, again⟩
      by_cases eq : y = x
      · subst eq
        rw [Function.update_self] at again
        cases again
      · rw [Function.update_of_ne eq] at again
        exact eq (owned.apart y x i again found)
    · simp only [same, decide_false, Bool.and_false, Bool.bne_false, owned.bits j lt]
      constructor
      · rintro ⟨y, other⟩
        refine ⟨y, ?_⟩
        rw [Function.update_of_ne]
        · exact other
        · rintro rfl
          rw [found] at other
          exact same (Option.some.inj other)
      · rintro ⟨y, other⟩
        refine ⟨y, ?_⟩
        by_cases eq : y = x
        · subst eq
          rw [Function.update_self] at other
          cases other
        · rwa [Function.update_of_ne eq] at other
  apart y z j first second := by
    have was : ∀ y, Function.update held x none y = some j → held y = some j := by
      intro y held
      by_cases eq : y = x
      · subst eq
        rw [Function.update_self] at held
        cases held
      · rwa [Function.update_of_ne eq] at held
    exact owned.apart y z j (was y first) (was z second)

omit [DecidableEq α] in
/-- A toggle by somebody else leaves a bit that is wrong. -/
theorem not_toggle (owned : Owned map held) (inside : i < w) :
    ¬ Owned (map ^^^ BitVec.twoPow w i) held := by
  intro toggled
  have same := (owned.bits i inside).trans (toggled.bits i inside).symm
  rw [BitVec.getLsbD_xor, BitVec.getLsbD_twoPow] at same
  simp only [inside, decide_true, Bool.and_self] at same
  cases bit : map.getLsbD i with
  | false =>
      rw [bit] at same
      simp at same
  | true =>
      rw [bit] at same
      simp at same

end Owned

end OxCtrl.Lib
