import OxCtrl.Lib.System
import OxCtrl.GlMap.Flush
import Mathlib.Data.List.Nodup
import Mathlib.Data.List.Perm.Subperm

/-!
# The mapping is a map

The global mapping, with its small tables, caches and mapping pages, receives upserts,
reads and flushes like a plain map from LBAs to PPAs.
-/

namespace OxCtrl.GlMap

open Lib

variable {env : Env} {conf : Conf} {state state' : State} {ch off idx slot lba : Nat}

/-! ## Operations -/

/-- Operations on the mapping. -/
inductive MapOp where
  | upsert (lba ppa oldCaller : Nat)
  | read (lba : Nat)
  | flush
  deriving DecidableEq, Repr

/-- What an operation returns. -/
inductive MapResult where
  | upsert (ret : Int) (old : Option Nat)
  | read (ppa : Nat)
  | flush
  deriving DecidableEq, Repr

/-- The mapping as a system. -/
def mapSystem (env : Env) : System State MapOp MapResult where
  step
    | state, .upsert lba ppa oldCaller =>
        let (state, ret, old) := mapUpsert env state lba ppa oldCaller
        (state, .upsert ret old)
    | state, .read lba =>
        let (state, ppa) := mapRead env state lba
        (state, .read ppa)
    | state, .flush => (mapFlushAllCaches env state, .flush)

/-- A plain map from LBAs to PPAs. -/
def plainSystem : System (Nat → Nat) MapOp MapResult where
  step
    | map, .upsert lba ppa oldCaller =>
        if oldCaller ≠ 0 ∧ map lba ≠ oldCaller then (map, .upsert 1 (some (map lba)))
        else (Function.update map lba ppa, .upsert 0 (some (map lba)))
    | map, .read lba => (map, .read (map lba))
    | map, .flush => (map, .flush)

/-- The LBA of the operation is covered by the table. -/
def MapOp.Covered (conf : Conf) : MapOp → Prop
  | .upsert lba _ _ => GlMap.Covered conf lba
  | .read lba => GlMap.Covered conf lba
  | .flush => True

instance (conf : Conf) (op : MapOp) : Decidable (op.Covered conf) := by
  cases op <;> unfold MapOp.Covered <;> infer_instance

/-- The state represents the map. -/
structure Represents (conf : Conf) (state : State) (map : Nat → Nat) : Prop where
  inv : Inv conf state
  view : ∀ ch < conf.nch, ∀ off < conf.entries, ∀ idx < conf.entPerPg,
    view state ch off idx = map (firstLba conf ch off + idx)

theorem Represents.silent {map : Nat → Nat} (represents : Represents conf state map)
    (silent : Silent conf state state') : Represents conf state' map :=
  ⟨silent.inv, fun ch chLt off offLt idx idxLt =>
    (silent.view ch chLt off offLt idx idxLt).trans (represents.view ch chLt off offLt idx idxLt)⟩

/-! ## The entry of an LBA -/

/-- An LBA has one place in the mapping. -/
theorem firstLba_add_eq_iff (chLt : ch < conf.nch) (idxLt : idx < conf.entPerPg)
    (covered : Covered conf lba) :
    firstLba conf ch off + idx = lba ↔
      ch = chMap conf lba ∧ off = pgOff conf lba ∧ idx = entOff conf lba := by
  constructor
  · rintro rfl
    have page : (firstLba conf ch off + idx) / conf.entPerPg = off * conf.nch + ch := by
      rw [firstLba, Nat.add_comm, Nat.add_mul_div_right _ _ conf.entPerPg_pos,
        Nat.div_eq_of_lt idxLt, Nat.zero_add]
    refine ⟨?_, ?_, ?_⟩
    · rw [chMap, page, Nat.mul_add_mod', Nat.mod_eq_of_lt chLt]
    · rw [covered.pgOff_eq, page, Nat.add_comm, Nat.add_mul_div_right _ _ conf.nch_pos,
        Nat.div_eq_of_lt chLt, Nat.zero_add]
    · rw [entOff, firstLba, Nat.mul_add_mod', Nat.mod_eq_of_lt idxLt]
  · rintro ⟨rfl, rfl, rfl⟩
    exact covered.lba_eq

/-- The entry that a lookup finds. -/
theorem Represents.buf_eq {map : Nat → Nat} (represents : Represents conf state map)
    (covered : Covered conf lba)
    (holds : Holds conf state (chMap conf lba) (pgOff conf lba) slot) :
    (state.slot (chMap conf lba) slot).buf (entOff conf lba) = ⟨lba, map lba⟩ := by
  have slotOk := represents.inv.pages.slotOk holds
  have idxLt := entOff_lt conf lba
  have lbaEq := slotOk.lba _ idxLt
  have ppaEq := represents.view _ holds.ch_lt _ holds.off_lt _ idxLt
  rw [covered.lba_eq] at lbaEq ppaEq
  rw [GlMap.view, holds.ppa, addrFlag_add, if_pos rfl, slotOk.addrPtr_eq] at ppaEq
  rw [← ppaEq]
  exact congrArg (fun first => MapEntry.mk first _) lbaEq

/-- The update of a cached entry by `map_upsert`. -/
def updateEntry (state : State) (ch slot idx lba ppa : Nat) : State :=
  state.setSlot ch slot fun entry =>
    { entry with buf := Function.update entry.buf idx ⟨lba, ppa⟩, dirty := true }

theorem slot_updateEntry (other otherSlot ppa : Nat) :
    (updateEntry state ch slot idx lba ppa).slot other otherSlot =
      if other = ch ∧ otherSlot = slot then
        { state.slot ch slot with
          buf := Function.update (state.slot ch slot).buf idx ⟨lba, ppa⟩, dirty := true }
      else state.slot other otherSlot := by
  rw [updateEntry, State.slot_setSlot]

theorem slotOk_updateEntry {ppa : Nat} (slotOk : SlotOk conf state ch off slot)
    (lbaEq : lba = firstLba conf ch off + idx) :
    SlotOk conf (updateEntry state ch slot idx lba ppa) ch off slot := by
  refine ⟨slotOk.below, ?_, ?_, ?_, ?_⟩ <;> rw [slot_updateEntry, if_pos ⟨rfl, rfl⟩]
  · exact slotOk.mdEntry
  · intro otherIdx otherIdxLt
    by_cases sameIdx : otherIdx = idx
    · simp [sameIdx, lbaEq]
    · simpa [Function.update_of_ne sameIdx] using slotOk.lba otherIdx otherIdxLt
  · exact slotOk.ppa_lt
  · simp

theorem inv_updateEntry {ppa : Nat} (inv : Inv conf state) (holds : Holds conf state ch off slot)
    (lbaEq : lba = firstLba conf ch off + idx) :
    Inv conf (updateEntry state ch slot idx lba ppa) :=
  inv_setSlot inv holds (slotOk_updateEntry (inv.pages.slotOk holds) lbaEq)

theorem view_updateEntry {ppa : Nat} (pages : PagesOk conf state)
    (holds : Holds conf state ch off slot) {other otherOff otherIdx : Nat}
    (otherLt : other < conf.nch) (otherOffLt : otherOff < conf.entries) :
    view (updateEntry state ch slot idx lba ppa) other otherOff otherIdx =
      if other = ch ∧ otherOff = off ∧ otherIdx = idx then ppa
      else view state other otherOff otherIdx := by
  rw [updateEntry, view_setSlot pages holds otherLt otherOffLt]
  by_cases same : other = ch ∧ otherOff = off
  · obtain ⟨rfl, rfl⟩ := same
    by_cases sameIdx : otherIdx = idx
    · simp [sameIdx]
    · have old : view state other otherOff otherIdx =
          ((state.slot other slot).buf otherIdx).ppa := by
        rw [view, holds.ppa, addrFlag_add, if_pos rfl, (pages.slotOk holds).addrPtr_eq]
      simp [sameIdx, old]
  · rw [if_neg same, if_neg fun all => same ⟨all.1, all.2.1⟩]

theorem Represents.updateEntry {map : Nat → Nat} (represents : Represents conf state map)
    (covered : Covered conf lba)
    (holds : Holds conf state (chMap conf lba) (pgOff conf lba) slot) (ppa : Nat) :
    Represents conf (updateEntry state (chMap conf lba) slot (entOff conf lba) lba ppa)
      (Function.update map lba ppa) := by
  refine ⟨inv_updateEntry represents.inv holds covered.lba_eq.symm, ?_⟩
  intro ch chLt off offLt idx idxLt
  rw [view_updateEntry represents.inv.pages holds chLt offLt, Function.update_apply]
  simp only [firstLba_add_eq_iff chLt idxLt covered]
  split
  · rfl
  · exact represents.view ch chLt off offLt idx idxLt

/-! ## Refinement -/

theorem mapUpsert_spec {map : Nat → Nat} (media : Media env)
    (represents : Represents env.conf state map) (covered : Covered env.conf lba)
    (ppa oldCaller : Nat) :
    (mapUpsert env state lba ppa oldCaller).2 =
        (if oldCaller ≠ 0 ∧ map lba ≠ oldCaller then 1 else 0, some (map lba)) ∧
      Represents env.conf (mapUpsert env state lba ppa oldCaller).1
        (if oldCaller ≠ 0 ∧ map lba ≠ oldCaller then map else Function.update map lba ppa) := by
  obtain ⟨found, slot, eq, silent, holds⟩ := mapGetCacheEntry_spec media represents.inv covered
  have foundRepresents := represents.silent silent
  have buf := foundRepresents.buf_eq covered holds
  simp only [mapUpsert, eq, buf]
  split
  · rename_i differ
    exact absurd rfl differ
  · split
    · exact ⟨rfl, foundRepresents⟩
    · exact ⟨rfl, foundRepresents.updateEntry covered holds ppa⟩

theorem mapRead_spec {map : Nat → Nat} (media : Media env)
    (represents : Represents env.conf state map) (covered : Covered env.conf lba) :
    (mapRead env state lba).2 = map lba ∧ Represents env.conf (mapRead env state lba).1 map := by
  obtain ⟨found, slot, eq, silent, holds⟩ := mapGetCacheEntry_spec media represents.inv covered
  have foundRepresents := represents.silent silent
  simp only [mapRead, eq, foundRepresents.buf_eq covered holds]
  simpa using foundRepresents

/-- The mapping and the plain map stay in lockstep. -/
theorem mapSystem_simulates (media : Media env) :
    (mapSystem env).Simulates plainSystem (fun _ op => op.Covered env.conf)
      (Represents env.conf) := by
  constructor
  · intro state map op covered represents
    cases op with
    | upsert lba ppa oldCaller =>
        have spec := (mapUpsert_spec media represents covered ppa oldCaller).2
        simp only [mapSystem, plainSystem]
        split at spec <;> rename_i stale <;> simpa [stale] using spec
    | read lba => exact (mapRead_spec media represents covered).2
    | flush => exact represents.silent (mapFlushAllCaches_silent media represents.inv)
  · intro state map op covered represents
    cases op with
    | upsert lba ppa oldCaller =>
        have spec := (mapUpsert_spec media represents covered ppa oldCaller).1
        simp only [mapSystem, plainSystem, spec]
        split <;> simp
    | read lba => simp [mapSystem, plainSystem, (mapRead_spec media represents covered).1]
    | flush => rfl

/-- A new mapping represents the empty map. -/
theorem mapInit_represents (env : Env) : Represents env.conf (mapInit env) fun _ => 0 := by
  refine ⟨⟨?_, ?_⟩, ?_⟩
  · intro ch _ off _
    refine ⟨rfl, ?_, ?_⟩
    · intro flag
      simp [mapInit, State.entry, oxbChMapCreate, addrFlag, mapAddrFlag] at flag
    · intro _ stored
      exact absurd rfl stored
  · intro ch _
    refine ⟨?_, ?_, ?_, rfl, ?_, fun _ _ => ⟨rfl, rfl, rfl⟩, ?_, ?_⟩
    · simpa [mapInit, State.lists] using List.nodup_range
    · simp [mapInit, State.lists]
    · simp [mapInit, State.lists]
    · simp [mapInit, State.lists]
    · simp [mapInit, State.lists]
    · intro off _ slot eq
      simp [mapInit, State.entry, oxbChMapCreate, mapAddrFlag] at eq
      omega
  · intro ch _ off _ idx _
    simp [view, mapInit, State.entry, oxbChMapCreate, addrFlag, mapAddrFlag]

/-! ## A provisioning -/

/-- Addresses in use. -/
def livePages (conf : Conf) (state : State) : List Nat :=
  (List.range conf.nch).flatMap fun ch =>
    (List.range conf.entries).map (current state ch) ++
      (List.range conf.tinyEntries).map (state.chans ch).md.tinyTbl

theorem mem_livePages {addr : Nat} : addr ∈ livePages conf state ↔ Live conf state addr := by
  simp [livePages, Live]

/-- Provisioning that hands out the first address that is not in use. -/
def firstFit (conf : Conf) (state : State) : Option Nat :=
  (List.range' 1 ((livePages conf state).length + 1)).find? (· ∉ livePages conf state)

theorem Conf.tinyEntries_le (conf : Conf) : conf.tinyEntries ≤ conf.entries := by
  have mod := Nat.div_add_mod conf.entries conf.mdEntPerPg
  have pos := conf.mdEntPerPg_pos
  have le : conf.entries / conf.mdEntPerPg ≤ conf.mdEntPerPg * (conf.entries / conf.mdEntPerPg) :=
    Nat.le_mul_of_pos_left _ pos
  unfold Conf.tinyEntries
  split <;> omega

theorem length_livePages (conf : Conf) (state : State) :
    (livePages conf state).length = conf.nch * (conf.entries + conf.tinyEntries) := by
  simp [livePages, List.length_flatMap]

/-- Among enough addresses one is not taken. -/
theorem exists_fit {taken : List Nat} (bound : taken.length < 2 ^ 62) :
    ∃ addr, (List.range' 1 (taken.length + 1)).find? (· ∉ taken) = some addr ∧ addr ≠ 0 ∧
      addr < mapAddrFlag ∧ addr ∉ taken := by
  have found : ((List.range' 1 (taken.length + 1)).find? (· ∉ taken)).isSome := by
    by_contra missing
    have all : List.range' 1 (taken.length + 1) ⊆ taken := by
      intro addr mem
      simp only [Option.not_isSome_iff_eq_none, List.find?_eq_none] at missing
      simpa using missing addr mem
    have distinct : (List.range' 1 (taken.length + 1)).Nodup := List.nodup_range' 1
    have le := (distinct.subperm all).length_le
    rw [List.length_range'] at le
    omega
  obtain ⟨addr, eq⟩ := Option.isSome_iff_exists.mp found
  have mem := List.mem_of_find?_eq_some eq
  have unused := List.find?_some eq
  rw [List.mem_range'_1] at mem
  refine ⟨addr, eq, by omega, ?_, by simpa using unused⟩
  unfold mapAddrFlag
  omega

theorem length_livePages_lt (conf : Conf) (state : State) :
    (livePages conf state).length < 2 ^ 61 := by
  rw [length_livePages]
  calc conf.nch * (conf.entries + conf.tinyEntries)
      ≤ 2 ^ 16 * (2 ^ 32 + 2 ^ 32) :=
        Nat.mul_le_mul conf.nch_lt.le (Nat.add_le_add conf.entries_lt.le
          (conf.tinyEntries_le.trans conf.entries_lt.le))
    _ < 2 ^ 61 := by decide

theorem media_firstFit (conf : Conf) (rounds : Nat) :
    Media ⟨conf, firstFit conf, fun _ => true, rounds⟩ := by
  refine ⟨fun state _ => ?_, fun _ => rfl⟩
  have bound := length_livePages_lt conf state
  obtain ⟨addr, eq, addrPos, addrLt, unused⟩ := @exists_fit (livePages conf state) (by omega)
  exact ⟨addr, eq, addrPos, addrLt, fun live => unused (mem_livePages.mpr live)⟩

/-! ## All runs -/

/-- The operation leaves the LBA alone. -/
def MapOp.Spares (lba : Nat) : MapOp → Prop
  | .upsert other _ _ => other ≠ lba
  | .read _ => True
  | .flush => True

theorem plainSystem_spares (map : Nat → Nat) {op : MapOp} (spares : op.Spares lba) :
    (plainSystem.step map op).1 lba = map lba := by
  cases op with
  | upsert other ppa oldCaller =>
      simp only [plainSystem]
      split
      · rfl
      · exact Function.update_of_ne (Ne.symm spares) _ _
  | read _ => rfl
  | flush => rfl

/-- In every run on covered LBAs, each operation returns what the plain map returns,
and afterwards a read of any covered LBA returns what the plain map holds; an
operation does not change the value of another LBA. -/
theorem mapping_refines_plain_map (env : Env) (media : Media env) (ops : List MapOp)
    (covered : ∀ op ∈ ops, op.Covered env.conf) :
    (mapSystem env).results (mapInit env) ops = plainSystem.results (fun _ => 0) ops ∧
      ∀ lba, Covered env.conf lba →
        (mapRead env ((mapSystem env).run (mapInit env) ops) lba).2 =
          plainSystem.run (fun _ => 0) ops lba ∧
        ∀ op, op.Covered env.conf → op.Spares lba →
          (mapRead env ((mapSystem env).run (mapInit env) (ops ++ [op])) lba).2 =
            (mapRead env ((mapSystem env).run (mapInit env) ops) lba).2 := by
  have simulates := mapSystem_simulates media
  have initial := mapInit_represents env
  have allowed := (mapSystem env).allowed_of_forall_mem covered (mapInit env)
  have final := simulates.run initial allowed
  refine ⟨simulates.results initial allowed, fun lba lbaCovered => ?_⟩
  have value := (mapRead_spec media final lbaCovered).1
  refine ⟨value, fun op opCovered spares => ?_⟩
  have next := simulates.state _ _ op opCovered final
  rw [value, System.run_append, ← plainSystem_spares (plainSystem.run _ ops) spares]
  exact (mapRead_spec media next lbaCovered).1

theorem one_lt_cap : 1 < 2 ^ 63 := by
  decide

/-- One channel, two mapping pages of two entries, one cache entry. -/
def Conf.small : Conf where
  nch := 1
  entPerPg := 2
  entries := 2
  mdEntPerPg := 1
  cap := 1
  nch_pos := Nat.one_pos
  nch_lt := by decide
  entPerPg_pos := Nat.two_pos
  entPerPg_lt := by decide
  entries_lt := by decide
  mdEntPerPg_pos := Nat.one_pos
  cap_pos := Nat.one_pos
  cap_lt := one_lt_cap

/-- The two pages take turns in the only cache entry. -/
theorem mapping_refines_plain_map_small :
    (mapSystem ⟨.small, firstFit .small, fun _ => true, 1⟩).results
        (mapInit ⟨.small, firstFit .small, fun _ => true, 1⟩)
        [.upsert 1 7 0, .upsert 2 8 0, .read 1, .flush, .upsert 1 9 7, .upsert 2 5 6, .read 2] =
      [.upsert 0 (some 0), .upsert 0 (some 0), .read 7, .flush, .upsert 0 (some 7),
        .upsert 1 (some 8), .read 8] :=
  (mapping_refines_plain_map ⟨.small, firstFit .small, fun _ => true, 1⟩
    (media_firstFit .small 1) _ (by decide)).1.trans (by decide)

end OxCtrl.GlMap
