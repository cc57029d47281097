import Mathlib

/-!
# Calls in flight

Calls that run at the same time form a list.  A step of one call replaces it by what is left
of it, which may be nothing.  What the calls hold together is the sum over the list.
-/

namespace OxCtrl.Lib

universe u v

variable {α : Type u}

/-- Replace the element at a place by the elements of a list. -/
def replaceAt (list : List α) (i : Nat) (new : List α) : List α :=
  list.take i ++ new ++ list.drop (i + 1)

theorem mem_replaceAt {list new : List α} {i : Nat} {x : α} (mem : x ∈ replaceAt list i new) :
    x ∈ list ∨ x ∈ new := by
  rcases List.mem_append.mp mem with mem | mem
  · rcases List.mem_append.mp mem with mem | mem
    · exact Or.inl (List.mem_of_mem_take mem)
    · exact Or.inr mem
  · exact Or.inl (List.mem_of_mem_drop mem)

/-- What is left behind a replacement is new, or it stood beside the element that is replaced. -/
theorem perm_of_mem_replaceAt {list new : List α} {i : Nat} {x y : α}
    (get : list[i]? = some y) (mem : x ∈ replaceAt list i new) :
    x ∈ new ∨ ∃ others, list.Perm (y :: x :: others) := by
  obtain ⟨lt, rfl⟩ := List.getElem?_eq_some_iff.mp get
  have whole : list.Perm (list[i] :: (list.take i ++ list.drop (i + 1))) := by
    have middle : (list.take i ++ list[i] :: list.drop (i + 1)).Perm _ := List.perm_middle
    rw [List.cons_getElem_drop_succ, List.take_append_drop] at middle
    exact middle
  have beside : x ∈ list.take i ++ list.drop (i + 1) →
      ∃ others, list.Perm (list[i] :: x :: others) := by
    intro mem
    obtain ⟨first, second, split⟩ := List.append_of_mem mem
    rw [split] at whole
    exact ⟨first ++ second, whole.trans (List.Perm.cons _ List.perm_middle)⟩
  rcases List.mem_append.mp mem with mem | mem
  · rcases List.mem_append.mp mem with mem | mem
    · exact Or.inr (beside (List.mem_append_left _ mem))
    · exact Or.inl mem
  · exact Or.inr (beside (List.mem_append_right _ mem))

/-- What one element adds to a sum, and what another list in its place adds. -/
theorem sum_split {M : Type v} [AddCommMonoid M] (f : α → M) {list : List α} {i : Nat} {x : α}
    (get : list[i]? = some x) :
    ∃ rest, (list.map f).sum = f x + rest ∧
      ∀ new, ((replaceAt list i new).map f).sum = (new.map f).sum + rest := by
  obtain ⟨lt, rfl⟩ := List.getElem?_eq_some_iff.mp get
  have whole : list = list.take i ++ list[i] :: list.drop (i + 1) := by
    rw [List.cons_getElem_drop_succ, List.take_append_drop]
  refine ⟨((list.take i).map f).sum + ((list.drop (i + 1)).map f).sum, ?_, fun new => ?_⟩
  · conv_lhs => rw [whole]
    rw [List.map_append, List.sum_append, List.map_cons, List.sum_cons, add_left_comm]
  · rw [replaceAt, List.map_append, List.map_append, List.sum_append, List.sum_append,
      add_comm (((list.take i).map f).sum), add_assoc]

theorem set_eq_replaceAt {list : List α} {i : Nat} {x : α} (get : list[i]? = some x) (y : α) :
    list.set i y = replaceAt list i [y] := by
  obtain ⟨lt, _⟩ := List.getElem?_eq_some_iff.mp get
  rw [replaceAt, List.set_eq_take_append_cons_drop, if_pos lt, List.append_assoc,
    List.singleton_append]

theorem mem_sum_map {β : Type v} {f : α → Multiset β} {list : List α} {b : β} :
    b ∈ (list.map f).sum ↔ ∃ a ∈ list, b ∈ f a := by
  induction list with
  | nil => simp
  | cons first rest ih =>
      rw [List.map_cons, List.sum_cons, Multiset.mem_add, ih, List.exists_mem_cons_iff]

/-- The sum changes by what is replaced. -/
theorem sum_replaceAt (f : α → Nat) {list : List α} {i : Nat} {x : α} (get : list[i]? = some x)
    (new : List α) :
    ((replaceAt list i new).map f).sum + f x = (list.map f).sum + (new.map f).sum := by
  obtain ⟨rest, total, replaced⟩ := sum_split f get
  rw [total, replaced]
  ac_rfl

theorem le_sum_of_getElem? (f : α → Nat) {list : List α} {i : Nat} {x : α}
    (get : list[i]? = some x) : f x ≤ (list.map f).sum := by
  have total := sum_replaceAt f get []
  exact Nat.le.intro ((Nat.add_comm ..).trans total)

/-- Counting is a sum. -/
theorem countP_eq_sum (p : α → Bool) (list : List α) :
    list.countP p = (list.map fun x => (p x).toNat).sum := by
  induction list with
  | nil => rfl
  | cons first rest ih =>
      rw [List.countP_cons, List.map_cons, List.sum_cons, ih, Nat.add_comm]
      cases p first <;> rfl

/-- Distinct items of a multiset have distinct values when the values of all items are. -/
theorem eq_of_mem_bind {β : Type v} {items : Multiset α} {values : α → Multiset β}
    (nodup : (items.bind values).Nodup) {first second : α} (memFirst : first ∈ items)
    (memSecond : second ∈ items) {value : β} (ofFirst : value ∈ values first)
    (ofSecond : value ∈ values second) : first = second := by
  by_contra ne
  obtain ⟨others, rfl⟩ := Multiset.exists_cons_of_mem memFirst
  have mem := (Multiset.mem_cons.mp memSecond).resolve_left (Ne.symm ne)
  rw [Multiset.cons_bind] at nodup
  exact Multiset.disjoint_left.mp (Multiset.nodup_add.mp nodup).2.2 ofFirst
    (Multiset.mem_bind.mpr ⟨second, mem, ofSecond⟩)

end OxCtrl.Lib
