import Mathlib.Data.List.GetD
import OxCtrl.Lib.Buffer

/-!
# Memory in blocks

Copying a range of a memory is copying its blocks one after another.
-/

namespace OxCtrl.Lib

universe u

variable {α : Type u}

/-- The cells of a range. -/
def load (mem : Nat → α) (addr n : Nat) : List α :=
  (List.range n).map fun i => mem (addr + i)

/-- The memory after cells have been written from an address on. -/
def store (mem : Nat → α) (addr : Nat) (cells : List α) : Nat → α :=
  fun at' => if addr ≤ at' then cells.getD (at' - addr) (mem at') else mem at'

/-- The addresses of consecutive blocks. -/
def blocksAt (size addr n : Nat) : List Nat :=
  (List.range n).map fun i => addr + size * i

/-- The memory after block `i` of the data has been written to address `i` of the list, for
each `i` in turn. -/
def storeBlocks (size : Nat) : (Nat → α) → List Nat → List α → Nat → α
  | mem, [], _ => mem
  | mem, addr :: rest, data => storeBlocks size (store mem addr (data.take size)) rest
      (data.drop size)

theorem length_load (mem : Nat → α) (addr n : Nat) : (load mem addr n).length = n := by
  rw [load, List.length_map, List.length_range]

theorem load_add (mem : Nat → α) (addr n m : Nat) :
    load mem addr (n + m) = load mem addr n ++ load mem (addr + n) m := by
  rw [load, List.range_add, List.map_append, List.map_map]
  simp only [Function.comp_def, ← Nat.add_assoc]
  rfl

theorem store_append (mem : Nat → α) (addr : Nat) (first second : List α) :
    store mem addr (first ++ second) =
      store (store mem addr first) (addr + first.length) second := by
  funext at'
  simp only [store]
  by_cases inside : addr ≤ at'
  · rw [if_pos inside, if_pos inside]
    by_cases behind : addr + first.length ≤ at'
    · have none : first.getD (at' - addr) (mem at') = mem at' :=
        List.getD_eq_default _ _ (by omega)
      rw [if_pos behind, List.getD_append_right _ _ _ _ (by omega), none, Nat.sub_sub]
    · rw [if_neg behind, List.getD_append _ _ _ _ (by omega)]
  · rw [if_neg inside, if_neg inside, if_neg (by omega)]

theorem blocksAt_succ (size addr n : Nat) :
    blocksAt size addr (n + 1) = addr :: blocksAt size (addr + size) n := by
  rw [blocksAt, blocksAt, List.range_succ_eq_map, List.map_cons, List.map_map, Nat.mul_zero,
    Nat.add_zero]
  congr 1
  refine List.map_congr_left fun i _ => ?_
  rw [Function.comp, Nat.succ_eq_add_one, Nat.mul_add, Nat.mul_one]
  omega

theorem length_blocksAt (size addr n : Nat) : (blocksAt size addr n).length = n := by
  rw [blocksAt, List.length_map, List.length_range]

theorem storeBlocks_append (size : Nat) (mem : Nat → α) (first second : List Nat) (data : List α) :
    storeBlocks size mem (first ++ second) data =
      storeBlocks size (storeBlocks size mem first data) second
        (data.drop (size * first.length)) := by
  induction first generalizing mem data with
  | nil => rfl
  | cons addr rest ih =>
      rw [List.cons_append, storeBlocks, ih, storeBlocks, List.drop_drop, List.length_cons,
        Nat.mul_add, Nat.mul_one, Nat.add_comm size]

/-- Only the data of the blocks is read. -/
theorem storeBlocks_take (size : Nat) (mem : Nat → α) (addrs : List Nat) (data : List α) :
    storeBlocks size mem addrs (data.take (size * addrs.length)) =
      storeBlocks size mem addrs data := by
  induction addrs generalizing mem data with
  | nil => rfl
  | cons addr rest ih =>
      have le : size ≤ size * (rest.length + 1) := Nat.le_mul_of_pos_right _ (Nat.succ_pos _)
      rw [storeBlocks, storeBlocks, List.length_cons, List.take_take, Nat.min_eq_left le,
        List.drop_take, Nat.mul_add, Nat.mul_one, Nat.add_sub_cancel, ih]

/-- A range of whole blocks is written block by block. -/
theorem store_eq_storeBlocks {size n : Nat} (mem : Nat → α) (addr : Nat) {data : List α}
    (enough : size * n ≤ data.length) :
    store mem addr (data.take (size * n)) = storeBlocks size mem (blocksAt size addr n) data := by
  induction n generalizing mem addr data with
  | zero =>
      rw [Nat.mul_zero, List.take_zero]
      funext at'
      by_cases inside : addr ≤ at' <;> simp [store, blocksAt, storeBlocks]
  | succ n ih =>
      rw [Nat.mul_add, Nat.mul_one] at enough ⊢
      rw [Nat.add_comm, List.take_add, store_append, List.length_take,
        Nat.min_eq_left (by omega), ih _ _ (by rw [List.length_drop]; omega), blocksAt_succ,
        storeBlocks]

/-- A range of whole blocks is read block by block. -/
theorem load_eq_flatMap (mem : Nat → α) (size addr n : Nat) :
    load mem addr (size * n) = (blocksAt size addr n).flatMap fun block => load mem block size := by
  induction n generalizing addr with
  | zero => rfl
  | succ n ih =>
      rw [Nat.mul_add, Nat.mul_one, Nat.add_comm, load_add, ih, blocksAt_succ, List.flatMap_cons]

end OxCtrl.Lib
