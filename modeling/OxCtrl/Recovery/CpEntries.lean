import Mathlib.Logic.Function.Basic
import OxCtrl.Lib.Buffer
import OxCtrl.Lib.System
import OxCtrl.Recovery.CpImage

/-!
# Buffers of the checkpoint entries

`oxb_recovery_set` copies the data of an entry to a buffer that was allocated by the first set of
the type.  The size of the entry is overwritten before it is compared with the new size, so that the
buffer never grows.
-/

namespace OxCtrl.Recovery.Buffers

open OxCtrl.Lib

/-! ## Get and set -/

/-- `struct app_rec_entry` in `cp_list`; `data` is the allocated buffer. -/
structure RecEntry where
  type : UInt32
  size : Nat
  data : List UInt8
  deriving DecidableEq, Repr

/-- What the allocator does in a set: whether there is memory for an entry and for its data, what
new memory holds, and what stands behind the old pointer after `ox_realloc`. -/
structure SetEnv where
  entry : Bool := true
  data : Bool := true
  fresh : Nat → UInt8 := fun _ => 0
  stale : List UInt8 → List UInt8 := id

/-- `oxb_recovery_get` -/
def oxbRecoveryGet (list : List RecEntry) (type : UInt32) : Option RecEntry :=
  list.find? fun entry => entry.type = type

/-- The branch of `oxb_recovery_set` for a stored type.  There is no result when the copy leaves
the buffer. -/
def updateEntry (entry : RecEntry) (user : CpEntry) (env : SetEnv) : Option RecEntry :=
  let entry := { entry with size := user.data.length }
  let entry :=
    if user.data.length > entry.size then
      -- the new pointer is dropped
      { entry with data := env.stale entry.data }
    else entry
  (memcpy entry.data 0 user.data 0 user.data.length).map fun data => { entry with data := data }

/-- The first entry of the type is updated. -/
def updateFirst (user : CpEntry) (env : SetEnv) : List RecEntry → Option (List RecEntry)
  | [] => some []
  | entry :: rest =>
      if entry.type = user.type then (updateEntry entry user env).map fun entry => entry :: rest
      else (updateFirst user env rest).map fun rest => entry :: rest

/-- The branch of `oxb_recovery_set` for a new type. -/
def newEntry (user : CpEntry) (env : SetEnv) : Option RecEntry :=
  (memcpy ((List.range user.data.length).map env.fresh) 0 user.data 0 user.data.length).map
    fun data => { type := user.type, size := user.data.length, data := data }

/-- `oxb_recovery_set`: the list and the return value. -/
def oxbRecoverySet (list : List RecEntry) (user : CpEntry) (env : SetEnv) :
    Option (List RecEntry × Int) :=
  if (oxbRecoveryGet list user.type).isSome then
    (updateFirst user env list).map fun list => (list, 0)
  else if ! env.entry then some (list, -1)
  else if ! env.data then some (list, -1)
  else (newEntry user env).map fun entry => (entry :: list, 0)

/-! ## Runs -/

/-- A call of `oxb_recovery_set`. -/
structure SetOp where
  user : CpEntry
  env : SetEnv := {}

/-- `cp_list`, which is gone when a copy has left its buffer; and for each type the data of the last
set that returned zero, and the size of the first one. -/
structure StoreState where
  list : Option (List RecEntry) := some []
  last : UInt32 → Option (List UInt8) := fun _ => none
  first : UInt32 → Option Nat := fun _ => none

/-- Runs of sets. -/
def setSystem : System StoreState SetOp Unit where
  step state op :=
    match state.list with
    | none => (state, ())
    | some list =>
        match oxbRecoverySet list op.user op.env with
        | none => ({ state with list := none }, ())
        | some (list, ret) =>
            if ret = 0 then
              ({ list := some list
                 last := Function.update state.last op.user.type (some op.user.data)
                 first := Function.update state.first op.user.type
                   (some ((state.first op.user.type).getD op.user.data.length)) }, ())
            else ({ state with list := some list }, ())

/-- The entry of a type. -/
def StoreState.lookup (state : StoreState) (type : UInt32) : Option (Option RecEntry) :=
  state.list.map fun list => oxbRecoveryGet list type

/-- All copies have fitted, and every get returns the data and the size of the last set. -/
def Stored (state : StoreState) : Prop :=
  ∃ list, state.list = some list ∧ ∀ type,
    (oxbRecoveryGet list type).map (fun entry => (entry.size, entry.data.take entry.size)) =
      (state.last type).map fun data => (data.length, data)

/-- The data is not larger than that of the first set of the type. -/
def Fits (state : StoreState) (op : SetOp) : Prop :=
  ∀ size ∈ state.first op.user.type, op.user.data.length ≤ size

/-! ## One set -/

variable {list : List RecEntry} {user : CpEntry} {env : SetEnv} {entry : RecEntry}

theorem updateEntry_of_fits (env : SetEnv) (fits : user.data.length ≤ entry.data.length) :
    updateEntry entry user env =
      some { entry with
        size := user.data.length
        data := user.data ++ entry.data.drop user.data.length } := by
  have copy : memcpy entry.data 0 user.data 0 user.data.length =
      some (user.data ++ entry.data.drop user.data.length) := by
    rw [memcpy, if_pos ⟨by rwa [Nat.zero_add], by rw [Nat.zero_add]⟩, slice_zero, List.take_length,
      List.take_zero, List.nil_append, Nat.zero_add]
  simp only [updateEntry, gt_iff_lt, Nat.lt_irrefl, if_false, copy, Option.map_some]

theorem updateEntry_of_not_fits (env : SetEnv) (large : entry.data.length < user.data.length) :
    updateEntry entry user env = none := by
  have copy : memcpy entry.data 0 user.data 0 user.data.length = none := by
    rw [memcpy, if_neg]
    rintro ⟨fits, -⟩
    rw [Nat.zero_add] at fits
    exact absurd fits (Nat.not_le.mpr large)
  simp only [updateEntry, gt_iff_lt, Nat.lt_irrefl, if_false, copy, Option.map_none]

theorem newEntry_eq (user : CpEntry) (env : SetEnv) :
    newEntry user env = some ⟨user.type, user.data.length, user.data⟩ := by
  have length : ((List.range user.data.length).map env.fresh).length = user.data.length := by
    rw [List.length_map, List.length_range]
  have copy : memcpy ((List.range user.data.length).map env.fresh) 0 user.data 0 user.data.length =
      some user.data := by
    rw [memcpy, if_pos ⟨by rw [length, Nat.zero_add], by rw [Nat.zero_add]⟩, slice_zero,
      List.take_length, List.take_zero, List.nil_append, Nat.zero_add,
      List.drop_eq_nil_of_le (Nat.le_of_eq length), List.append_nil]
  rw [newEntry, copy, Option.map_some]

theorem oxbRecoveryGet_cons (entry : RecEntry) (list : List RecEntry) (type : UInt32) :
    oxbRecoveryGet (entry :: list) type =
      if entry.type = type then some entry else oxbRecoveryGet list type := by
  rw [oxbRecoveryGet, List.find?_cons]
  split
  · rename_i same
    rw [if_pos (of_decide_eq_true same)]
  · rename_i other
    rw [if_neg (of_decide_eq_false other), oxbRecoveryGet]

/-- The update of a stored type is seen by a get of the type, and by no other. -/
theorem updateFirst_spec {changed : RecEntry} (found : oxbRecoveryGet list user.type = some entry)
    (updated : updateEntry entry user env = some changed) (same : changed.type = entry.type) :
    ∃ after, updateFirst user env list = some after ∧ ∀ type,
      oxbRecoveryGet after type =
        if user.type = type then some changed else oxbRecoveryGet list type := by
  induction list with
  | nil => cases found
  | cons head rest ih =>
      rw [oxbRecoveryGet_cons] at found
      by_cases here : head.type = user.type
      · rw [if_pos here] at found
        obtain rfl := Option.some.inj found
        refine ⟨changed :: rest, ?_, fun type => ?_⟩
        · rw [updateFirst, if_pos here, updated, Option.map_some]
        · rw [oxbRecoveryGet_cons, oxbRecoveryGet_cons, same, here]
          by_cases own : user.type = type
          · rw [if_pos own, if_pos own]
          · rw [if_neg own, if_neg own, if_neg own]
      · rw [if_neg here] at found
        obtain ⟨after, eq, get⟩ := ih found
        refine ⟨head :: after, ?_, fun type => ?_⟩
        · rw [updateFirst, if_neg here, eq, Option.map_some]
        · rw [oxbRecoveryGet_cons, oxbRecoveryGet_cons, get]
          by_cases own : user.type = type
          · rw [if_neg fun headType => here (headType.trans own.symm), if_pos own, if_pos own]
          · rw [if_neg own, if_neg own]

theorem updateFirst_none (found : oxbRecoveryGet list user.type = some entry)
    (overrun : updateEntry entry user env = none) : updateFirst user env list = none := by
  induction list with
  | nil => cases found
  | cons head rest ih =>
      rw [oxbRecoveryGet_cons] at found
      by_cases here : head.type = user.type
      · rw [if_pos here] at found
        obtain rfl := Option.some.inj found
        rw [updateFirst, if_pos here, overrun, Option.map_none]
      · rw [if_neg here] at found
        rw [updateFirst, if_neg here, ih found, Option.map_none]

/-! ## All runs -/

/-- What an entry has, beside the last and the first set of its type. -/
structure EntryOk (entry : RecEntry) (data : List UInt8) (first : Nat) : Prop where
  size : entry.size = data.length
  data : entry.data.take entry.size = data
  capacity : entry.data.length = first

/-- The entries hold what was set, in buffers of the first size. -/
structure StoreInv (state : StoreState) (list : List RecEntry) : Prop where
  isList : state.list = some list
  found : ∀ type entry, oxbRecoveryGet list type = some entry →
    ∃ data first, state.last type = some data ∧ state.first type = some first ∧
      EntryOk entry data first
  absent : ∀ type, oxbRecoveryGet list type = none →
    state.last type = none ∧ state.first type = none

theorem StoreInv.stored {state : StoreState} (inv : StoreInv state list) : Stored state := by
  refine ⟨list, inv.isList, fun type => ?_⟩
  cases get : oxbRecoveryGet list type with
  | none =>
      rw [(inv.absent type get).1]
      rfl
  | some entry =>
      obtain ⟨data, first, last, _, ok⟩ := inv.found type entry get
      rw [last, Option.map_some, Option.map_some, ok.data, ok.size]

theorem StoreInv.fits_iff {state : StoreState} (inv : StoreInv state list) {op : SetOp}
    (get : oxbRecoveryGet list op.user.type = some entry) :
    Fits state op ↔ op.user.data.length ≤ entry.data.length := by
  obtain ⟨data, first, _, isFirst, ok⟩ := inv.found _ entry get
  rw [Fits, isFirst, ok.capacity]
  constructor
  · exact fun fits => fits first rfl
  · intro le size eq
    rw [← Option.some.inj eq]
    exact le

variable {state : StoreState} {op : SetOp}

/-- What a set leaves that returned zero. -/
def setState (state : StoreState) (op : SetOp) (list : List RecEntry) : StoreState where
  list := some list
  last := Function.update state.last op.user.type (some op.user.data)
  first := Function.update state.first op.user.type
    (some ((state.first op.user.type).getD op.user.data.length))

/-- A get sees the entry that was set, and the others as they were. -/
theorem StoreInv.set (inv : StoreInv state list) {after : List RecEntry} {changed : RecEntry}
    (get : ∀ type, oxbRecoveryGet after type =
      if op.user.type = type then some changed else oxbRecoveryGet list type)
    (ok : EntryOk changed op.user.data ((state.first op.user.type).getD op.user.data.length)) :
    StoreInv (setState state op after) after where
  isList := rfl
  found type entry found := by
    rw [get] at found
    by_cases own : op.user.type = type
    · rw [if_pos own] at found
      obtain rfl := Option.some.inj found
      subst own
      exact ⟨_, _, Function.update_self .., Function.update_self .., ok⟩
    · rw [if_neg own] at found
      obtain ⟨data, first, last, isFirst, ok⟩ := inv.found type entry found
      refine ⟨data, first, ?_, ?_, ok⟩
      · exact (Function.update_of_ne (Ne.symm own) ..).trans last
      · exact (Function.update_of_ne (Ne.symm own) ..).trans isFirst
  absent type none' := by
    rw [get] at none'
    by_cases own : op.user.type = type
    · rw [if_pos own] at none'
      cases none'
    · rw [if_neg own] at none'
      obtain ⟨last, first⟩ := inv.absent type none'
      refine ⟨?_, ?_⟩
      · exact (Function.update_of_ne (Ne.symm own) ..).trans last
      · exact (Function.update_of_ne (Ne.symm own) ..).trans first

/-- One set that fits. -/
theorem StoreInv.step (inv : StoreInv state list) (fits : Fits state op) :
    ∃ after, StoreInv (setSystem.step state op).1 after ∧ ∀ type, op.user.type ≠ type →
      oxbRecoveryGet after type = oxbRecoveryGet list type := by
  cases get : oxbRecoveryGet list op.user.type with
  | some entry =>
      have le := (inv.fits_iff get).mp fits
      obtain ⟨data, first, _, isFirst, ok⟩ := inv.found _ entry get
      obtain ⟨after, eq, seen⟩ := updateFirst_spec get (updateEntry_of_fits op.env le) rfl
      have stepped : (setSystem.step state op).1 = setState state op after := by
        simp only [setSystem, inv.isList, oxbRecoverySet, get, Option.isSome_some, if_true, eq,
          Option.map_some]
        rfl
      refine ⟨after, ?_, fun type other => by rw [seen, if_neg other]⟩
      rw [stepped]
      refine inv.set seen ⟨rfl, ?_, ?_⟩
      · exact List.take_left
      · rw [isFirst, Option.getD_some, ← ok.capacity, List.length_append, List.length_drop]
        exact Nat.add_sub_cancel' le
  | none =>
      have absent := inv.absent _ get
      by_cases allocates : op.env.entry = true ∧ op.env.data = true
      · obtain ⟨entry, data⟩ := allocates
        have stepped : (setSystem.step state op).1 =
            setState state op (⟨op.user.type, op.user.data.length, op.user.data⟩ :: list) := by
          simp only [setSystem, inv.isList, oxbRecoverySet, get, entry, data, newEntry_eq,
            Option.map_some]
          rfl
        refine ⟨⟨op.user.type, op.user.data.length, op.user.data⟩ :: list, ?_, fun type other => ?_⟩
        · rw [stepped]
          refine inv.set (oxbRecoveryGet_cons _ _) ⟨rfl, List.take_length, ?_⟩
          rw [absent.2, Option.getD_none]
        · rw [oxbRecoveryGet_cons, if_neg other]
      · have same : ({ state with list := some list } : StoreState) = state := by
          rw [← inv.isList]
        have stepped : (setSystem.step state op).1 = state := by
          cases entry : op.env.entry with
          | false => simpa [setSystem, inv.isList, oxbRecoverySet, get, entry] using same
          | true =>
              have data : op.env.data = false :=
                Bool.eq_false_iff.mpr fun data => allocates ⟨entry, data⟩
              simpa [setSystem, inv.isList, oxbRecoverySet, get, entry, data] using same
        refine ⟨list, ?_, fun _ _ => rfl⟩
        rw [stepped]
        exact inv

/-- One set that does not fit. -/
theorem StoreInv.overrun (inv : StoreInv state list) (large : ¬ Fits state op) :
    ¬ Stored (setSystem.step state op).1 := by
  cases get : oxbRecoveryGet list op.user.type with
  | none =>
      refine absurd (fun size mem => ?_) large
      rw [(inv.absent _ get).2] at mem
      cases mem
  | some entry =>
      rw [inv.fits_iff get] at large
      have overrun := updateFirst_none get
        (updateEntry_of_not_fits op.env (Nat.not_le.mp large))
      rintro ⟨after, eq, _⟩
      simp only [setSystem, inv.isList, oxbRecoverySet, get, Option.isSome_some, if_true, overrun,
        Option.map_none] at eq
      cases eq

theorem StoreInv.initial : StoreInv {} [] where
  isList := rfl
  found _ _ found := by cases found
  absent _ _ := ⟨rfl, rfl⟩

/-- A set that fits, or fails for lack of memory, leaves the entries of other types. -/
theorem StoreInv.others (inv : StoreInv state list) (fits : Fits state op) {type : UInt32}
    (other : op.user.type ≠ type) :
    (setSystem.step state op).1.lookup type = state.lookup type := by
  obtain ⟨after, invAfter, same⟩ := inv.step fits
  rw [StoreState.lookup, StoreState.lookup, invAfter.isList, inv.isList, Option.map_some,
    Option.map_some, same type other]

/-- All copies fit, a get returns the last set of its type and a set leaves the other types, in a
whole run, exactly when no set is larger than the first one of its type. -/
theorem sets_stored_iff (ops : List SetOp) :
    ((∀ before, before <+: ops → Stored (setSystem.run {} before)) ∧
        ∀ before op, before ++ [op] <+: ops → ∀ type, op.user.type ≠ type →
          (setSystem.run {} (before ++ [op])).lookup type =
            (setSystem.run {} before).lookup type) ↔
      setSystem.Allowed Fits {} ops := by
  have preserved : ∀ state op, Fits state op → (∃ list, StoreInv state list) →
      ∃ list, StoreInv (setSystem.step state op).1 list := by
    rintro state op fits ⟨list, inv⟩
    obtain ⟨after, invAfter, _⟩ := inv.step fits
    exact ⟨after, invAfter⟩
  have initial : ∃ list, StoreInv {} list := ⟨[], StoreInv.initial⟩
  have stored := setSystem.forall_prefix_iff_allowed Fits (fun state => ∃ list, StoreInv state list)
    Stored preserved (fun _ ⟨_, inv⟩ => inv.stored) (fun _ _ large ⟨_, inv⟩ => inv.overrun large)
    initial ops
  refine ⟨fun always => stored.mp always.1, fun allowed => ⟨stored.mpr allowed, ?_⟩⟩
  rintro before op ⟨later, rfl⟩ type other
  obtain ⟨allowedBefore, fits, _⟩ :=
    (setSystem.allowed_append Fits {} before [op]).mp
      ((setSystem.allowed_append Fits {} (before ++ [op]) later).mp allowed).1
  obtain ⟨list, inv⟩ := setSystem.run_invariant Fits _ preserved initial allowedBefore
  rw [setSystem.run_append]
  exact inv.others fits other

/-- The second set of a type has one byte more than the first. -/
theorem grown_set_overruns :
    ¬ Stored (setSystem.run {} [⟨⟨1, [7]⟩, {}⟩, ⟨⟨1, [8, 9]⟩, {}⟩]) := by
  have gone : (setSystem.run {} [⟨⟨1, [7]⟩, {}⟩, ⟨⟨1, [8, 9]⟩, {}⟩]).list = none := by decide
  rintro ⟨list, isList, _⟩
  rw [gone] at isList
  cases isList

/-! ## The checkpoint image -/

/-- What `oxb_recovery_flush_cp` writes of the entries. -/
def view (list : List RecEntry) : List CpEntry :=
  list.map fun entry => ⟨entry.type, entry.data.take entry.size⟩

@[simp]
theorem view_cons (entry : RecEntry) (list : List RecEntry) :
    view (entry :: list) = ⟨entry.type, entry.data.take entry.size⟩ :: view list :=
  rfl

theorem get_view (list : List RecEntry) (type : UInt32) :
    Recovery.oxbRecoveryGet (view list) type =
      (oxbRecoveryGet list type).map fun entry => entry.data.take entry.size := by
  rw [Recovery.oxbRecoveryGet, view, List.find?_map, Option.map_map]
  rfl

theorem updateEntry_type {changed : RecEntry}
    (updated : updateEntry entry user env = some changed) :
    changed.type = entry.type := by
  obtain ⟨data, _, rfl⟩ := Option.map_eq_some_iff.mp updated
  split <;> rfl

/-- A set keeps the types of the list apart. -/
theorem types_updateFirst {after : List RecEntry}
    (updated : updateFirst user env list = some after) :
    after.map RecEntry.type = list.map RecEntry.type := by
  induction list generalizing after with
  | nil => rw [← Option.some.inj updated]
  | cons head rest ih =>
      rw [updateFirst] at updated
      split at updated
      · obtain ⟨changed, ofHead, rfl⟩ := Option.map_eq_some_iff.mp updated
        rw [List.map_cons, List.map_cons, updateEntry_type ofHead]
      · obtain ⟨afterRest, ofRest, rfl⟩ := Option.map_eq_some_iff.mp updated
        rw [List.map_cons, List.map_cons, ih ofRest]

theorem view_updateFirst (env : SetEnv) (distinct : (list.map RecEntry.type).Nodup)
    (found : oxbRecoveryGet list user.type = some entry)
    (fits : user.data.length ≤ entry.data.length) :
    ∃ after, updateFirst user env list = some after ∧
      view after = (view list).map fun entry =>
        if entry.type = user.type then { entry with data := user.data } else entry := by
  induction list with
  | nil => cases found
  | cons head rest ih =>
      obtain ⟨fresh, distinct⟩ := List.nodup_cons.mp distinct
      rw [oxbRecoveryGet_cons] at found
      by_cases here : head.type = user.type
      · rw [if_pos here] at found
        obtain rfl := Option.some.inj found
        refine ⟨_, by rw [updateFirst, if_pos here, updateEntry_of_fits env fits, Option.map_some],
          ?_⟩
        have others : (view rest).map (fun entry =>
            if entry.type = user.type then { entry with data := user.data } else entry) =
              view rest := by
          refine (List.map_congr_left fun kept mem => if_neg fun same => ?_).trans (List.map_id _)
          obtain ⟨stored, memRest, rfl⟩ := List.mem_map.mp mem
          exact fresh (List.mem_map.mpr ⟨stored, memRest, same.trans here.symm⟩)
        rw [view_cons, view_cons, List.map_cons, others, if_pos here]
        exact congrArg (fun data => (⟨head.type, data⟩ : CpEntry) :: view rest) List.take_left
      · rw [if_neg here] at found
        obtain ⟨after, eq, same⟩ := ih distinct found
        refine ⟨head :: after, by rw [updateFirst, if_neg here, eq, Option.map_some], ?_⟩
        rw [view_cons, view_cons, List.map_cons, same, if_neg here]

/-- A set that fits, with memory for a new entry, is the set of the checkpoint list. -/
theorem view_oxbRecoverySet (user : CpEntry) (env : SetEnv)
    (distinct : (list.map RecEntry.type).Nodup)
    (fits : ∀ entry, oxbRecoveryGet list user.type = some entry →
      user.data.length ≤ entry.data.length)
    (memory : env.entry = true ∧ env.data = true) :
    ∃ after, oxbRecoverySet list user env = some (after, 0) ∧
      view after = Recovery.oxbRecoverySet (view list) user ∧
      (after.map RecEntry.type).Nodup := by
  have any : ((view list).any fun entry => entry.type = user.type) =
      (oxbRecoveryGet list user.type).isSome := by
    rw [oxbRecoveryGet, List.isSome_find?, view, List.any_map]
    rfl
  cases get : oxbRecoveryGet list user.type with
  | some entry =>
      obtain ⟨after, eq, same⟩ := view_updateFirst env distinct get (fits entry get)
      refine ⟨after, ?_, ?_, ?_⟩
      · rw [oxbRecoverySet, get, eq]
        rfl
      · rw [Recovery.oxbRecoverySet, any, get, if_pos Option.isSome_some, same]
      · rw [types_updateFirst eq]
        exact distinct
  | none =>
      refine ⟨⟨user.type, user.data.length, user.data⟩ :: list, ?_, ?_, ?_⟩
      · rw [oxbRecoverySet, get, memory.1, memory.2, newEntry_eq]
        rfl
      · rw [Recovery.oxbRecoverySet, any, get, view_cons, List.take_length]
        rfl
      · refine List.nodup_cons.mpr ⟨fun mem => ?_, distinct⟩
        obtain ⟨stored, memList, same⟩ := List.mem_map.mp mem
        have none := List.find?_eq_none.mp get stored memList
        exact none (decide_eq_true same)

/-- The checkpoint list as the writer of an image sees it. -/
def listSystem : System (List CpEntry) SetOp Unit where
  step list op := (Recovery.oxbRecoverySet list op.user, ())

/-- Sets that fit and find memory do to the buffers what they do to the checkpoint list. -/
theorem simulates_list :
    setSystem.Simulates listSystem
      (fun state op => Fits state op ∧ op.env.entry = true ∧ op.env.data = true)
      (fun state image => ∃ list, StoreInv state list ∧ (list.map RecEntry.type).Nodup ∧
        view list = image) where
  state := by
    rintro state image op ⟨fits, memory⟩ ⟨list, inv, distinct, rfl⟩
    obtain ⟨after, eq, same, distinctAfter⟩ := view_oxbRecoverySet op.user op.env distinct
      (fun entry get => (inv.fits_iff get).mp fits) memory
    obtain ⟨listAfter, invAfter, _⟩ := inv.step fits
    have isAfter : (setSystem.step state op).1.list = some after := by
      simp only [setSystem, inv.isList, eq, if_true]
    obtain rfl := Option.some.inj (invAfter.isList.symm.trans isAfter)
    exact ⟨listAfter, invAfter, distinctAfter, same⟩
  result _ _ _ _ _ := rfl

end OxCtrl.Recovery.Buffers
