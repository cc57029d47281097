import Mathlib.Order.Lattice
import Mathlib.Data.List.Basic

/-!
# Search trees behind `tsearch`, `tfind` and `tdelete`

The C library keeps a set of nodes in a binary search tree that is ordered by a
user comparison function.  Balancing is not observable through the interface, so
the tree here is a plain one.  Every operation is described through the in-order
list of bindings, which an ordered tree keeps strictly increasing in the key.
-/

namespace OxCtrl.Lib

universe u v

/-- Binary tree of key/value bindings. -/
inductive SearchTree (κ : Type u) (β : Type v) where
  | leaf
  | node (left : SearchTree κ β) (key : κ) (value : β) (right : SearchTree κ β)

namespace SearchTree

variable {κ : Type u} {β : Type v}

/-- In-order list of bindings. -/
def toList : SearchTree κ β → List (κ × β)
  | leaf => []
  | node left key value right => left.toList ++ (key, value) :: right.toList

variable [LinearOrder κ]

/-- The search order: bindings are strictly increasing in the key. -/
def Ordered (tree : SearchTree κ β) : Prop :=
  tree.toList.Pairwise fun first second => first.1 < second.1

/-- `tfind`: value bound to a key. -/
def tfind : SearchTree κ β → κ → Option β
  | leaf, _ => none
  | node left key value right, wanted =>
      if wanted < key then left.tfind wanted
      else if key < wanted then right.tfind wanted
      else some value

/-- `tsearch`: bind a key unless it is bound already. -/
def tsearch : SearchTree κ β → κ → β → SearchTree κ β
  | leaf, wanted, fresh => node leaf wanted fresh leaf
  | node left key value right, wanted, fresh =>
      if wanted < key then node (left.tsearch wanted fresh) key value right
      else if key < wanted then node left key value (right.tsearch wanted fresh)
      else node left key value right

/-- Write through the node pointer that `tfind` returned. -/
def modify : SearchTree κ β → κ → (β → β) → SearchTree κ β
  | leaf, _, _ => leaf
  | node left key value right, wanted, change =>
      if wanted < key then node (left.modify wanted change) key value right
      else if key < wanted then node left key value (right.modify wanted change)
      else node left key (change value) right

/-- Split off the binding with the smallest key. -/
def popMin : SearchTree κ β → Option ((κ × β) × SearchTree κ β)
  | leaf => none
  | node left key value right =>
      match left.popMin with
      | none => some ((key, value), right)
      | some (least, rest) => some (least, node rest key value right)

/-- `tdelete`: unbind a key.  A node with two children is replaced by its
in-order successor. -/
def tdelete : SearchTree κ β → κ → SearchTree κ β
  | leaf, _ => leaf
  | node left key value right, wanted =>
      if wanted < key then node (left.tdelete wanted) key value right
      else if key < wanted then node left key value (right.tdelete wanted)
      else
        match right.popMin with
        | none => left
        | some (least, rest) => node left least.1 least.2 rest

/-! ## The order of a node -/

theorem ordered_leaf : Ordered (leaf : SearchTree κ β) :=
  List.Pairwise.nil

theorem ordered_node_iff {left right : SearchTree κ β} {key : κ} {value : β} :
    Ordered (node left key value right) ↔
      Ordered left ∧ Ordered right ∧
        (∀ binding ∈ left.toList, binding.1 < key) ∧
        ∀ binding ∈ right.toList, key < binding.1 := by
  simp only [Ordered, toList, List.pairwise_append, List.pairwise_cons, List.mem_cons]
  constructor
  · rintro ⟨leftOrdered, ⟨rightAbove, rightOrdered⟩, between⟩
    exact ⟨leftOrdered, rightOrdered,
      fun binding mem => between binding mem (key, value) (Or.inl rfl), rightAbove⟩
  · rintro ⟨leftOrdered, rightOrdered, leftBelow, rightAbove⟩
    refine ⟨leftOrdered, ⟨rightAbove, rightOrdered⟩, ?_⟩
    rintro below belowMem above (rfl | aboveMem)
    · exact leftBelow below belowMem
    · exact lt_trans (leftBelow below belowMem) (rightAbove above aboveMem)

/-- Lookup in an ordered tree finds exactly its bindings. -/
theorem tfind_eq_some_iff {tree : SearchTree κ β} (ordered : Ordered tree)
    (wanted : κ) (value : β) :
    tree.tfind wanted = some value ↔ (wanted, value) ∈ tree.toList := by
  induction tree with
  | leaf => simp [tfind, toList]
  | node left key stored right leftIh rightIh =>
      obtain ⟨leftOrdered, rightOrdered, leftBelow, rightAbove⟩ := ordered_node_iff.mp ordered
      simp only [tfind, toList, List.mem_append, List.mem_cons, Prod.mk.injEq]
      split
      · rename_i below
        rw [leftIh leftOrdered]
        constructor
        · exact Or.inl
        · rintro (mem | ⟨rfl, -⟩ | mem)
          · exact mem
          · exact absurd below (lt_irrefl _)
          · exact absurd (rightAbove _ mem) (not_lt_of_gt below)
      · rename_i notBelow
        split
        · rename_i above
          rw [rightIh rightOrdered]
          constructor
          · exact fun mem => Or.inr (Or.inr mem)
          · rintro (mem | ⟨rfl, -⟩ | mem)
            · exact absurd (leftBelow _ mem) notBelow
            · exact absurd above (lt_irrefl _)
            · exact mem
        · rename_i notAbove
          have same : wanted = key := le_antisymm (not_lt.mp notAbove) (not_lt.mp notBelow)
          subst same
          constructor
          · intro found
            exact Or.inr (Or.inl ⟨rfl, (Option.some.inj found).symm⟩)
          · rintro (mem | ⟨-, rfl⟩ | mem)
            · exact absurd (leftBelow _ mem) (lt_irrefl _)
            · rfl
            · exact absurd (rightAbove _ mem) (lt_irrefl _)

/-! ## Lookup after each operation -/

/-- Insertion keeps an existing binding and otherwise adds the given one. -/
theorem tfind_tsearch (tree : SearchTree κ β) (wanted query : κ) (fresh : β) :
    (tree.tsearch wanted fresh).tfind query =
      if query = wanted then some ((tree.tfind wanted).getD fresh) else tree.tfind query := by
  induction tree with
  | leaf =>
      by_cases same : query = wanted
      · simp [tsearch, tfind, same]
      · rcases lt_or_gt_of_ne same with below | above
        · simp [tsearch, tfind, same, below]
        · simp [tsearch, tfind, same, above]
  | node left key value right leftIh rightIh =>
      simp only [tsearch, tfind]
      split <;> [skip; split] <;> simp only [tfind, leftIh, rightIh] <;> grind

/-- A write through a node pointer changes that binding only. -/
theorem tfind_modify (tree : SearchTree κ β) (wanted query : κ) (change : β → β) :
    (tree.modify wanted change).tfind query =
      if query = wanted then (tree.tfind wanted).map change else tree.tfind query := by
  induction tree with
  | leaf => simp [modify, tfind]
  | node left key value right leftIh rightIh =>
      simp only [modify, tfind]
      split <;> [skip; split] <;> simp only [tfind, leftIh, rightIh] <;> grind

omit [LinearOrder κ] in
theorem toList_popMin {tree rest : SearchTree κ β} {least : κ × β}
    (popped : tree.popMin = some (least, rest)) :
    tree.toList = least :: rest.toList := by
  induction tree generalizing rest with
  | leaf => simp [popMin] at popped
  | node left key value right leftIh _ =>
      simp only [popMin] at popped
      cases leftPop : left.popMin with
      | none =>
          rw [leftPop] at popped
          cases popped
          cases left with
          | leaf => rfl
          | node innerLeft innerKey innerValue innerRight =>
              simp only [popMin] at leftPop
              split at leftPop <;> cases leftPop
      | some split =>
          rcases split with ⟨leftLeast, leftRest⟩
          rw [leftPop] at popped
          cases popped
          simp [toList, leftIh leftPop]

omit [LinearOrder κ] in
theorem toList_eq_nil_of_popMin {tree : SearchTree κ β} (empty : tree.popMin = none) :
    tree.toList = [] := by
  cases tree with
  | leaf => rfl
  | node left key value right =>
      simp only [popMin] at empty
      split at empty <;> cases empty

/-- Deletion removes exactly the bindings of the deleted key. -/
theorem toList_tdelete {tree : SearchTree κ β} (ordered : Ordered tree) (wanted : κ) :
    (tree.tdelete wanted).toList =
      tree.toList.filter fun binding => decide (binding.1 ≠ wanted) := by
  induction tree with
  | leaf => rfl
  | node left key value right leftIh rightIh =>
      obtain ⟨leftOrdered, rightOrdered, leftBelow, rightAbove⟩ := ordered_node_iff.mp ordered
      have leftKept : ¬ wanted < key → left.toList.filter
          (fun binding => decide (binding.1 ≠ wanted)) = left.toList := by
        intro notBelow
        apply List.filter_eq_self.mpr
        intro binding mem
        have := leftBelow binding mem
        grind
      have rightKept : ¬ key < wanted → right.toList.filter
          (fun binding => decide (binding.1 ≠ wanted)) = right.toList := by
        intro notAbove
        apply List.filter_eq_self.mpr
        intro binding mem
        have := rightAbove binding mem
        grind
      simp only [tdelete, toList, List.filter_append, List.filter_cons]
      split
      · rename_i below
        simp only [toList, leftIh leftOrdered, rightKept (not_lt_of_gt below)]
        rw [if_pos (by simpa using ne_of_gt below)]
      · rename_i notBelow
        split
        · rename_i above
          simp only [toList, rightIh rightOrdered, leftKept notBelow]
          rw [if_pos (by simpa using ne_of_lt above)]
        · rename_i notAbove
          have same : key = wanted := le_antisymm (not_lt.mp notBelow) (not_lt.mp notAbove)
          rw [if_neg (by simpa using same), leftKept notBelow, rightKept notAbove]
          split
          · rename_i empty
            rw [toList_eq_nil_of_popMin empty, List.append_nil]
          · rename_i least rest popped
            rw [toList_popMin popped]
            rfl

/-! ## The order is preserved -/

theorem mem_toList_tsearch {tree : SearchTree κ β} {wanted : κ} {fresh : β}
    {binding : κ × β} (mem : binding ∈ (tree.tsearch wanted fresh).toList) :
    binding ∈ tree.toList ∨ binding.1 = wanted := by
  induction tree with
  | leaf =>
      right
      simpa [tsearch, toList] using congrArg Prod.fst (List.mem_singleton.mp mem)
  | node left key value right leftIh rightIh =>
      simp only [tsearch] at mem
      split at mem <;> [skip; split at mem] <;>
        simp only [toList, List.mem_append, List.mem_cons] at mem ⊢ <;> grind

theorem Ordered.tsearch {tree : SearchTree κ β} (ordered : Ordered tree) (wanted : κ)
    (fresh : β) : Ordered (tree.tsearch wanted fresh) := by
  induction tree with
  | leaf => simp [SearchTree.tsearch, Ordered, toList]
  | node left key value right leftIh rightIh =>
      obtain ⟨leftOrdered, rightOrdered, leftBelow, rightAbove⟩ := ordered_node_iff.mp ordered
      simp only [SearchTree.tsearch]
      split
      · rename_i below
        refine ordered_node_iff.mpr ⟨leftIh leftOrdered, rightOrdered, ?_, rightAbove⟩
        intro binding mem
        rcases mem_toList_tsearch mem with old | new
        · exact leftBelow binding old
        · rwa [new]
      · split
        · rename_i above
          refine ordered_node_iff.mpr ⟨leftOrdered, rightIh rightOrdered, leftBelow, ?_⟩
          intro binding mem
          rcases mem_toList_tsearch mem with old | new
          · exact rightAbove binding old
          · rwa [new]
        · exact ordered

theorem keys_modify (tree : SearchTree κ β) (wanted : κ) (change : β → β) :
    (tree.modify wanted change).toList.map Prod.fst = tree.toList.map Prod.fst := by
  induction tree with
  | leaf => rfl
  | node left key value right leftIh rightIh =>
      simp only [modify]
      split <;> [skip; split] <;> simp [toList, leftIh, rightIh]

theorem ordered_iff_keys (tree : SearchTree κ β) :
    Ordered tree ↔ (tree.toList.map Prod.fst).Pairwise (· < ·) := by
  rw [Ordered, List.pairwise_map]

theorem Ordered.modify {tree : SearchTree κ β} (ordered : Ordered tree) (wanted : κ)
    (change : β → β) : Ordered (tree.modify wanted change) := by
  rw [ordered_iff_keys] at ordered ⊢
  rwa [keys_modify]

theorem Ordered.tdelete {tree : SearchTree κ β} (ordered : Ordered tree) (wanted : κ) :
    Ordered (tree.tdelete wanted) := by
  rw [Ordered, toList_tdelete ordered]
  exact List.Pairwise.filter _ ordered

/-- Deletion unbinds its key and no other. -/
theorem tfind_tdelete {tree : SearchTree κ β} (ordered : Ordered tree) (wanted query : κ) :
    (tree.tdelete wanted).tfind query = if query = wanted then none else tree.tfind query := by
  apply Option.ext
  intro value
  rw [tfind_eq_some_iff (ordered.tdelete wanted), toList_tdelete ordered]
  by_cases same : query = wanted
  · simp [same]
  · simp [same, tfind_eq_some_iff ordered]

end SearchTree

end OxCtrl.Lib
