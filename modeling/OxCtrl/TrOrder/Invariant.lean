import Mathlib.Data.List.Nodup
import OxCtrl.TrOrder.Core

/-!
# Transactions commit in the order of their creation

The invariant of the threads of `OxCtrl.TrOrder.Core`, one lemma for each kind of step, and
the order of the commits in every run.
-/

namespace OxCtrl.TrOrder

open OxCtrl.Lib OxCtrl.Log OxCtrl.Transaction

/-! ## The invariant -/

/-- The type and the blocks of a transaction. -/
def trMade (tr : Tr) : TrType × List Nat :=
  (tr.type, tr.entries.map TrLog.lba)

/-- The part of the invariant about the log. -/
structure LogOk (state : TrSlots) : Prop where
  calls : state.env = state.history.flatMap Hist.render
  order : (commitIds state.history).Pairwise (· < ·)
  asked : ∀ id tr, .commit id tr ∈ state.history → id ∈ state.marked ∧ trMade tr = state.made id
  writes : ∀ records, .alloc records ∈ state.history → ∀ entry ∈ records, entry.type ≠ .commit
  committed : ∀ id ∈ commitIds state.history, id < state.next
  aborted : ∀ id ∈ state.aborted, id < state.next ∧ id ∉ commitIds state.history

/-- The part of the invariant about the lists and the slots. -/
structure ListOk (state : TrSlots) : Prop where
  nodup : (state.free ++ state.used).Nodup
  increasing : (state.used.map state.ids).Pairwise (· < ·)
  bound : ∀ slot ∈ state.used, state.ids slot < state.next
  older : ∀ slot ∈ state.used, ∀ id ∈ commitIds state.history, id < state.ids slot
  alive : ∀ slot ∈ state.used, state.ids slot ∉ state.aborted
  window : ∀ slot ∈ state.window, slot ∈ state.used ∧ (state.slots slot).committed = false
  ready : ∀ slot ∈ state.used, slot ∉ state.window →
    trMade (state.slots slot) = state.made (state.ids slot)
  flag : ∀ slot ∈ state.used, (state.slots slot).committed → state.ids slot ∈ state.marked

/-- The part of the invariant about the threads. -/
structure ThreadOk (state : TrSlots) : Prop where
  init : ∀ thread slot lbas type, state.pc thread = .newInit slot lbas type →
    slot ∈ state.window ∧ state.made (state.ids slot) = (type, lbas.map Prod.fst)
  single : ∀ thread other slot lbas type lbas' type', state.pc thread = .newInit slot lbas type →
    state.pc other = .newInit slot lbas' type' → thread = other
  records : ∀ thread records, state.pc thread = .alloc records →
    ∀ entry ∈ records, entry.type ≠ .commit

/-- No request to commit is forgotten. -/
def Kept (state : TrSlots) : Prop :=
  ∀ id ∈ state.marked, id ∈ commitIds state.history ∨ id ∈ state.aborted ∨
    ∃ slot ∈ state.used, state.ids slot = id ∧ (state.slots slot).committed

/-- The head of the list is not marked, unless a thread is about to drain. -/
def Drained (state : TrSlots) : Prop :=
  (∃ thread, state.pc thread = .drain) ∨
    ∀ slot ∈ state.used.head?, (state.slots slot).committed = false

structure Inv (state : TrSlots) : Prop where
  log : LogOk state
  list : ListOk state
  threads : ThreadOk state
  kept : Kept state

theorem Inv.ordered {state : TrSlots} (inv : Inv state) (drained : Drained state) :
    Ordered state where
  calls := inv.log.calls
  order := inv.log.order
  asked := inv.log.asked
  writes := inv.log.writes
  aborted id mem := (inv.log.aborted id mem).2
  kept := inv.kept
  drained := drained

theorem inv_init (slots : Nat → Tr) (count : Nat) : Inv (appTransactionInit slots count) where
  log := by constructor <;> simp [appTransactionInit, commitIds]
  list := by constructor <;> simp [appTransactionInit, List.nodup_range]
  threads := by constructor <;> simp [appTransactionInit]
  kept := by simp [Kept, appTransactionInit]

/-! ## Threads that move -/

/-- A thread moves to a place where it initialises nothing. -/
theorem ThreadOk.setPc {state : TrSlots} (ok : ThreadOk state) (thread : Nat) {pc : Pc}
    (notInit : ∀ slot lbas type, pc ≠ .newInit slot lbas type)
    (records : ∀ records, pc = .alloc records → ∀ entry ∈ records, entry.type ≠ .commit) :
    ThreadOk (state.setPc thread pc) := by
  have old : ∀ other slot lbas type, (state.setPc thread pc).pc other = .newInit slot lbas type →
      state.pc other = .newInit slot lbas type := by
    intro other slot lbas type at'
    by_cases same : other = thread
    · rw [same, TrSlots.setPc_self] at at'
      exact absurd at' (notInit slot lbas type)
    · rwa [TrSlots.setPc_of_ne state same] at at'
  constructor
  · intro other slot lbas type at'
    exact ok.init other slot lbas type (old other slot lbas type at')
  · intro first second slot lbas type lbas' type' atFirst atSecond
    exact ok.single first second slot lbas type lbas' type' (old _ _ _ _ atFirst)
      (old _ _ _ _ atSecond)
  · intro other list at'
    by_cases same : other = thread
    · rw [same, TrSlots.setPc_self] at at'
      exact records list at'
    · rw [TrSlots.setPc_of_ne state same] at at'
      exact ok.records other list at'

theorem Inv.setPc {state : TrSlots} (inv : Inv state) (thread : Nat) {pc : Pc}
    (notInit : ∀ slot lbas type, pc ≠ .newInit slot lbas type)
    (records : ∀ records, pc = .alloc records → ∀ entry ∈ records, entry.type ≠ .commit) :
    Inv (state.setPc thread pc) where
  log := ⟨inv.log.calls, inv.log.order, inv.log.asked, inv.log.writes, inv.log.committed,
    inv.log.aborted⟩
  list := ⟨inv.list.nodup, inv.list.increasing, inv.list.bound, inv.list.older, inv.list.alive,
    inv.list.window, inv.list.ready, inv.list.flag⟩
  threads := inv.threads.setPc thread notInit records
  kept := inv.kept

/-! ## Creation -/

/-- A slot that is not in the list is taken. -/
theorem ListOk.takeSlot {state : TrSlots} (ok : ListOk state) (log : LogOk state) {slot : Nat}
    {rest : List Nat} (first : state.free = slot :: rest)
    (clear : (state.slots slot).committed = false) (clock : Nat) (lbas : List (Nat × Nat))
    (type : TrType) : ListOk (state.takeSlot slot clock lbas type) := by
  have nodup := ok.nodup
  rw [first, List.cons_append, List.nodup_cons, List.mem_append, not_or] at nodup
  have ne : ∀ other ∈ state.used, other ≠ slot := by
    intro other mem same
    exact nodup.1.2 (same ▸ mem)
  have ids : ∀ other ∈ state.used,
      (state.takeSlot slot clock lbas type).ids other = state.ids other :=
    fun other mem => Function.update_of_ne (ne other mem) ..
  have idSlot : (state.takeSlot slot clock lbas type).ids slot = state.next :=
    Function.update_self ..
  have slots : ∀ other ∈ state.used,
      (state.takeSlot slot clock lbas type).slots other = state.slots other :=
    fun other mem => Function.update_of_ne (ne other mem) ..
  have flagSlot : ((state.takeSlot slot clock lbas type).slots slot).committed = false := by
    simpa [TrSlots.takeSlot] using clear
  have split : ∀ {P : Nat → Prop}, (∀ other ∈ state.used, P other) → P slot →
      ∀ other ∈ (state.takeSlot slot clock lbas type).used, P other := by
    intro P old new other mem
    rcases List.mem_append.mp mem with mem | mem
    · exact old other mem
    · rw [List.mem_singleton.mp mem]
      exact new
  constructor
  · have moved : (state.free.tail ++ (state.used ++ [slot])).Perm (state.free ++ state.used) := by
      rw [first, ← List.append_assoc]
      exact List.perm_append_singleton slot (rest ++ state.used)
    exact moved.nodup_iff.mpr ok.nodup
  · change ((state.used ++ [slot]).map (state.takeSlot slot clock lbas type).ids).Pairwise (· < ·)
    rw [List.map_append, List.map_congr_left ids, List.map_singleton, idSlot,
      List.pairwise_append]
    apply And.intro ok.increasing
    apply And.intro (List.pairwise_singleton _ _)
    intro id mem next isNext
    obtain ⟨other, otherMem, rfl⟩ := List.mem_map.mp mem
    rw [List.mem_singleton.mp isNext]
    exact ok.bound other otherMem
  · apply split
    · intro other mem
      rw [ids other mem]
      exact Nat.lt_succ_of_lt (ok.bound other mem)
    · rw [idSlot]
      exact Nat.lt_succ_self _
  · apply split
    · intro other mem
      rw [ids other mem]
      exact ok.older other mem
    · rw [idSlot]
      exact log.committed
  · apply split
    · intro other mem
      rw [ids other mem]
      exact ok.alive other mem
    · rw [idSlot]
      intro mem
      exact absurd (log.aborted _ mem).1 (Nat.lt_irrefl _)
  · intro other mem
    rcases List.mem_cons.mp mem with rfl | mem
    · exact ⟨List.mem_append_right _ (List.mem_singleton_self _), flagSlot⟩
    · have old := ok.window other mem
      rw [slots other old.1]
      exact ⟨List.mem_append_left _ old.1, old.2⟩
  · apply split
    · intro other mem notWindow
      have made := ok.ready other mem fun old => notWindow (List.mem_cons_of_mem _ old)
      rw [slots other mem, ids other mem, made]
      exact (Function.update_of_ne (Nat.ne_of_lt (ok.bound other mem)) ..).symm
    · intro notWindow
      exact absurd List.mem_cons_self notWindow
  · apply split
    · intro other mem
      rw [slots other mem, ids other mem]
      exact ok.flag other mem
    · rw [flagSlot]
      intro isTrue
      cases isTrue

theorem LogOk.takeSlot {state : TrSlots} (ok : LogOk state) (slot clock : Nat)
    (lbas : List (Nat × Nat)) (type : TrType) : LogOk (state.takeSlot slot clock lbas type) where
  calls := ok.calls
  order := ok.order
  asked := by
    intro id tr mem
    have old : id < state.next := by
      apply ok.committed id
      exact List.mem_filterMap.mpr ⟨_, mem, rfl⟩
    apply And.intro (ok.asked id tr mem).1
    rw [(ok.asked id tr mem).2]
    exact (Function.update_of_ne (Nat.ne_of_lt old) ..).symm
  writes := ok.writes
  committed id mem := Nat.lt_succ_of_lt (ok.committed id mem)
  aborted id mem := ⟨Nat.lt_succ_of_lt (ok.aborted id mem).1, (ok.aborted id mem).2⟩

/-- The thread that takes a slot is the only one to initialise it. -/
theorem ThreadOk.takeSlot {state : TrSlots} (ok : ThreadOk state) (list : ListOk state)
    {slot : Nat} (notUsed : slot ∉ state.used) (thread clock : Nat) (lbas : List (Nat × Nat))
    (type : TrType) :
    ThreadOk ((state.takeSlot slot clock lbas type).setPc thread (.newInit slot lbas type)) := by
  have here : ∀ other slot' lbas' type',
      ((state.takeSlot slot clock lbas type).setPc thread (.newInit slot lbas type)).pc other =
        .newInit slot' lbas' type' →
      other = thread ∧ slot' = slot ∧ lbas' = lbas ∧ type' = type ∨
        other ≠ thread ∧ slot' ≠ slot ∧ state.pc other = .newInit slot' lbas' type' := by
    intro other slot' lbas' type' at'
    by_cases same : other = thread
    · rw [same, TrSlots.setPc_self] at at'
      cases at'
      exact Or.inl ⟨same, rfl, rfl, rfl⟩
    · rw [TrSlots.setPc_of_ne _ same] at at'
      apply Or.inr
      apply And.intro same
      apply And.intro _ at'
      rintro rfl
      exact notUsed (list.window _ (ok.init other _ lbas' type' at').1).1
  constructor
  · intro other slot' lbas' type' at'
    rcases here other slot' lbas' type' at' with ⟨_, rfl, rfl, rfl⟩ | ⟨_, ne, old⟩
    · apply And.intro List.mem_cons_self
      simp [TrSlots.setPc, TrSlots.takeSlot]
    · have inWindow := ok.init other slot' lbas' type' old
      apply And.intro (List.mem_cons_of_mem _ inWindow.1)
      have older := list.bound slot' (list.window slot' inWindow.1).1
      simpa [TrSlots.setPc, TrSlots.takeSlot, ne, Nat.ne_of_lt older] using inWindow.2
  · intro one other slot' lbas₁ type₁ lbas₂ type₂ atOne atOther
    rcases here _ _ _ _ atOne with ⟨isOne, isSlot, _⟩ | ⟨_, ne, oldOne⟩
    · rcases here _ _ _ _ atOther with ⟨isOther, _⟩ | ⟨_, ne, _⟩
      · rw [isOne, isOther]
      · exact absurd isSlot ne
    · rcases here _ _ _ _ atOther with ⟨_, isSlot, _⟩ | ⟨_, _, oldOther⟩
      · exact absurd isSlot ne
      · exact ok.single one other slot' _ _ _ _ oldOne oldOther
  · intro other records at'
    by_cases same : other = thread
    · rw [same, TrSlots.setPc_self] at at'
      cases at'
    · rw [TrSlots.setPc_of_ne _ same] at at'
      exact ok.records other records at'

theorem Inv.new {state : TrSlots} (inv : Inv state) {slot : Nat} {rest : List Nat}
    (first : state.free = slot :: rest) (clear : (state.slots slot).committed = false)
    (thread clock : Nat) (lbas : List (Nat × Nat)) (type : TrType) :
    Inv ((state.takeSlot slot clock lbas type).setPc thread (.newInit slot lbas type)) := by
  have notUsed : slot ∉ state.used := by
    have nodup := inv.list.nodup
    rw [first, List.cons_append, List.nodup_cons, List.mem_append, not_or] at nodup
    exact nodup.1.2
  have list := inv.list.takeSlot inv.log first clear clock lbas type
  have log := inv.log.takeSlot slot clock lbas type
  constructor
  · exact ⟨log.calls, log.order, log.asked, log.writes, log.committed, log.aborted⟩
  · exact ⟨list.nodup, list.increasing, list.bound, list.older, list.alive, list.window,
      list.ready, list.flag⟩
  · exact inv.threads.takeSlot inv.list notUsed thread clock lbas type
  · intro id mem
    rcases inv.kept id mem with done | done | ⟨other, used, isId, marked⟩
    · exact Or.inl done
    · exact Or.inr (Or.inl done)
    · have ne : other ≠ slot := fun same => notUsed (same ▸ used)
      apply Or.inr
      apply Or.inr
      exact ⟨other, List.mem_append_left _ used,
        by simp [TrSlots.setPc, TrSlots.takeSlot, ne, isId],
        by simpa [TrSlots.setPc, TrSlots.takeSlot, ne] using marked⟩

/-- The rest of `app_transaction_new`. -/
theorem Inv.init {state : TrSlots} (inv : Inv state) {thread slot : Nat}
    {lbas : List (Nat × Nat)} {type : TrType} (at' : state.pc thread = .newInit slot lbas type) :
    Inv { (state.setSlot slot (initTr lbas type)).setPc thread .idle with
      window := state.window.erase slot } := by
  have inWindow := inv.threads.init thread slot lbas type at'
  have notMarked := (inv.list.window slot inWindow.1).2
  have threads : ThreadOk (state.setPc thread .idle) :=
    inv.threads.setPc thread (by simp) (by simp)
  constructor
  · exact ⟨inv.log.calls, inv.log.order, inv.log.asked, inv.log.writes, inv.log.committed,
      inv.log.aborted⟩
  · constructor
    · exact inv.list.nodup
    · exact inv.list.increasing
    · exact inv.list.bound
    · exact inv.list.older
    · exact inv.list.alive
    · intro other mem
      have old := inv.list.window other (List.mem_of_mem_erase mem)
      apply And.intro old.1
      by_cases same : other = slot
      · rw [same]
        simp [TrSlots.setPc, TrSlots.setSlot, initTr]
      · simpa [TrSlots.setPc, TrSlots.setSlot, same] using old.2
    · intro other mem notWindow
      by_cases same : other = slot
      · rw [same]
        simp [TrSlots.setPc, TrSlots.setSlot, initTr, trMade, inWindow.2, Function.comp_def]
      · have made := inv.list.ready other mem
          fun old => notWindow ((List.mem_erase_of_ne same).mpr old)
        simpa [TrSlots.setPc, TrSlots.setSlot, same] using made
    · intro other mem
      by_cases same : other = slot
      · rw [same]
        simp [TrSlots.setPc, TrSlots.setSlot, initTr]
      · simpa [TrSlots.setPc, TrSlots.setSlot, same] using inv.list.flag other mem
  · constructor
    · intro other slot' lbas' type' atOther
      have ne : slot' ≠ slot := by
        rintro rfl
        by_cases same : other = thread
        · rw [same] at atOther
          simp [TrSlots.setPc] at atOther
        · have old := atOther
          simp only [TrSlots.setPc, Function.update_of_ne same] at old
          exact same (inv.threads.single other thread _ _ _ _ _ old at')
      have old := threads.init other slot' lbas' type' atOther
      exact ⟨(List.mem_erase_of_ne ne).mpr old.1, old.2⟩
    · exact threads.single
    · exact threads.records
  · intro id mem
    rcases inv.kept id mem with done | done | ⟨other, used, isId, marked⟩
    · exact Or.inl done
    · exact Or.inr (Or.inl done)
    · have ne : other ≠ slot := by
        rintro rfl
        rw [notMarked] at marked
        cases marked
      apply Or.inr
      apply Or.inr
      exact ⟨other, used, isId, by simpa [TrSlots.setPc, TrSlots.setSlot, ne] using marked⟩

/-! ## Allocation -/

/-- A store that keeps what the transaction stands for. -/
theorem Inv.setSlot {state : TrSlots} (inv : Inv state) (slot : Nat) {tr : Tr}
    (flag : tr.committed = (state.slots slot).committed)
    (made : trMade tr = trMade (state.slots slot)) : Inv (state.setSlot slot tr) := by
  have flags : ∀ other, ((state.setSlot slot tr).slots other).committed =
      (state.slots other).committed := by
    intro other
    by_cases same : other = slot
    · rw [same, TrSlots.setSlot_self, flag]
    · rw [TrSlots.setSlot_of_ne state same]
  have mades : ∀ other, trMade ((state.setSlot slot tr).slots other) =
      trMade (state.slots other) := by
    intro other
    by_cases same : other = slot
    · rw [same, TrSlots.setSlot_self, made]
    · rw [TrSlots.setSlot_of_ne state same]
  constructor
  · exact ⟨inv.log.calls, inv.log.order, inv.log.asked, inv.log.writes, inv.log.committed,
      inv.log.aborted⟩
  · constructor
    · exact inv.list.nodup
    · exact inv.list.increasing
    · exact inv.list.bound
    · exact inv.list.older
    · exact inv.list.alive
    · intro other mem
      rw [flags]
      exact inv.list.window other mem
    · intro other mem
      rw [mades]
      exact inv.list.ready other mem
    · intro other mem
      rw [flags]
      exact inv.list.flag other mem
  · exact ⟨inv.threads.init, inv.threads.single, inv.threads.records⟩
  · intro id mem
    rcases inv.kept id mem with done | done | ⟨other, used, isId, marked⟩
    · exact Or.inl done
    · exact Or.inr (Or.inl done)
    · apply Or.inr
      apply Or.inr
      refine ⟨other, used, isId, ?_⟩
      rw [flags]
      exact marked

theorem trMade_allocate (tr : Tr) (idx : Nat) (ppa : Ppa) :
    trMade (tr.allocate idx ppa) = trMade tr := by
  have lbas : (tr.allocate idx ppa).entries.map TrLog.lba = tr.entries.map TrLog.lba := by
    apply List.ext_getElem?
    intro i
    rw [List.getElem?_map, List.getElem?_map, Tr.allocate, List.getElem?_modify]
    cases tr.entries[i]? with
    | none => rfl
    | some entry => by_cases same : idx = i <;> simp [same]
  rw [trMade, lbas]
  rfl

/-- Records of an allocation. -/
theorem logType_ne_commit (type : TrType) (ts tid lba : Nat) (ppa old : Ppa) :
    (LogEntry.ofWrite type.logType ts tid lba ppa old).type ≠ .commit := by
  cases type <;> simp [LogEntry.ofWrite, TrType.logType]

theorem commitIds_append (first second : List Hist) :
    commitIds (first ++ second) = commitIds first ++ commitIds second :=
  List.filterMap_append ..

/-- The append of `app_transaction_alloc_list`. -/
theorem Inv.append {state : TrSlots} (inv : Inv state) {records : List LogEntry}
    (writes : ∀ entry ∈ records, entry.type ≠ .commit) :
    Inv { state with
      env := state.env ++ records.map .record
      history := state.history ++ [.alloc records] } := by
  have ids : commitIds (state.history ++ [.alloc records]) = commitIds state.history := by
    rw [commitIds_append]
    exact List.append_nil _
  constructor
  · constructor
    · simp [List.flatMap_append, ← inv.log.calls, Hist.render]
    · change (commitIds (state.history ++ [.alloc records])).Pairwise (· < ·)
      rw [ids]
      exact inv.log.order
    · intro id tr mem
      apply inv.log.asked id tr
      simpa using mem
    · intro list mem
      rcases List.mem_append.mp mem with mem | mem
      · exact inv.log.writes list mem
      · cases List.mem_singleton.mp mem
        exact writes
    · intro id mem
      exact inv.log.committed id (ids ▸ mem)
    · intro id mem
      apply And.intro (inv.log.aborted id mem).1
      intro committed
      exact (inv.log.aborted id mem).2 (ids ▸ committed)
  · constructor
    · exact inv.list.nodup
    · exact inv.list.increasing
    · exact inv.list.bound
    · intro slot mem id committed
      exact inv.list.older slot mem id (ids ▸ committed)
    · exact inv.list.alive
    · exact inv.list.window
    · exact inv.list.ready
    · exact inv.list.flag
  · exact ⟨inv.threads.init, inv.threads.single, inv.threads.records⟩
  · intro id mem
    rcases inv.kept id mem with done | done
    · exact Or.inl (ids.symm ▸ done)
    · exact Or.inr done

/-! ## Commit and abort -/

/-- A live transaction is marked. -/
theorem Inv.mark {state : TrSlots} (inv : Inv state) {slot id : Nat} (live : Live state slot id)
    (flush : Bool) :
    Inv { state.setSlot slot { state.slots slot with committed := true, flushCommit := flush } with
      marked := id :: state.marked } := by
  rcases live with ⟨used, rfl, notWindow⟩
  constructor
  · constructor
    · exact inv.log.calls
    · exact inv.log.order
    · intro id tr mem
      exact ⟨List.mem_cons_of_mem _ (inv.log.asked id tr mem).1, (inv.log.asked id tr mem).2⟩
    · exact inv.log.writes
    · exact inv.log.committed
    · exact inv.log.aborted
  · constructor
    · exact inv.list.nodup
    · exact inv.list.increasing
    · exact inv.list.bound
    · exact inv.list.older
    · exact inv.list.alive
    · intro other mem
      have ne : other ≠ slot := fun same => notWindow (same ▸ mem)
      simpa [TrSlots.setSlot, ne] using inv.list.window other mem
    · intro other mem window
      have made := inv.list.ready other mem window
      by_cases same : other = slot
      · rw [same] at made ⊢
        simpa [TrSlots.setSlot, trMade] using made
      · simpa [TrSlots.setSlot, same] using made
    · intro other mem marked
      by_cases same : other = slot
      · rw [same]
        exact List.mem_cons_self
      · apply List.mem_cons_of_mem
        apply inv.list.flag other mem
        simpa [TrSlots.setSlot, same] using marked
  · exact ⟨inv.threads.init, inv.threads.single, inv.threads.records⟩
  · intro id mem
    rcases List.mem_cons.mp mem with rfl | mem
    · apply Or.inr
      apply Or.inr
      exact ⟨slot, used, rfl, by simp [TrSlots.setSlot]⟩
    · rcases inv.kept id mem with done | done | ⟨other, otherUsed, isId, marked⟩
      · exact Or.inl done
      · exact Or.inr (Or.inl done)
      · apply Or.inr
        apply Or.inr
        refine ⟨other, otherUsed, isId, ?_⟩
        by_cases same : other = slot
        · rw [same]
          simp [TrSlots.setSlot]
        · simpa [TrSlots.setSlot, same] using marked

/-- A transaction leaves the list, committed or aborted. -/
theorem ListOk.recycle {state : TrSlots} (ok : ListOk state) {slot : Nat} (used : slot ∈ state.used)
    (notWindow : slot ∉ state.window) {env : List TrEvent} {history : List Hist}
    {aborted : List Nat}
    (older : ∀ other ∈ state.used.erase slot, ∀ id ∈ commitIds history, id < state.ids other)
    (alive : ∀ other ∈ state.used.erase slot, state.ids other ∉ aborted) :
    ListOk { state.recycleSlot slot with env := env, history := history, aborted := aborted } := by
  have nodup : state.used.Nodup := (List.nodup_append.mp ok.nodup).2.1
  have old : ∀ other ∈ state.used.erase slot, other ∈ state.used ∧ other ≠ slot := by
    intro other mem
    exact (nodup.mem_erase_iff.mp mem).symm
  constructor
  · have moved : ((state.free ++ [slot]) ++ state.used.erase slot).Perm
        (state.free ++ state.used) := by
      rw [List.append_assoc]
      exact (List.perm_cons_erase used).symm.append_left state.free
    exact moved.nodup_iff.mpr ok.nodup
  · exact ok.increasing.sublist ((List.erase_sublist (l := state.used)).map state.ids)
  · intro other mem
    exact ok.bound other (old other mem).1
  · exact older
  · exact alive
  · intro other mem
    have ne : other ≠ slot := fun same => notWindow (same ▸ mem)
    have before := ok.window other mem
    exact ⟨(List.mem_erase_of_ne ne).mpr before.1,
      by simpa [TrSlots.recycleSlot, ne] using before.2⟩
  · intro other mem window
    have before := ok.ready other (old other mem).1 window
    simpa [TrSlots.recycleSlot, (old other mem).2] using before
  · intro other mem marked
    apply ok.flag other (old other mem).1
    simpa [TrSlots.recycleSlot, (old other mem).2] using marked

/-- A live transaction is aborted. -/
theorem Inv.recycle {state : TrSlots} (inv : Inv state) {slot id : Nat}
    (live : Live state slot id) :
    Inv { state.recycleSlot slot with aborted := id :: state.aborted } := by
  rcases live with ⟨used, rfl, notWindow⟩
  have nodup : state.used.Nodup := (List.nodup_append.mp inv.list.nodup).2.1
  have distinct : ∀ other ∈ state.used.erase slot, state.ids other ≠ state.ids slot := by
    intro other mem same
    have injective := List.inj_on_of_nodup_map (inv.list.increasing.imp Nat.ne_of_lt)
    have rest := nodup.mem_erase_iff.mp mem
    exact rest.1 (injective rest.2 used same)
  constructor
  · constructor
    · exact inv.log.calls
    · exact inv.log.order
    · exact inv.log.asked
    · exact inv.log.writes
    · exact inv.log.committed
    · intro id mem
      rcases List.mem_cons.mp mem with rfl | mem
      · apply And.intro (inv.list.bound slot used)
        intro committed
        exact absurd (inv.list.older slot used _ committed) (Nat.lt_irrefl _)
      · exact inv.log.aborted id mem
  · apply inv.list.recycle used notWindow
    · intro other mem
      exact inv.list.older other (List.mem_of_mem_erase mem)
    · intro other mem aborted
      rcases List.mem_cons.mp aborted with same | aborted
      · exact distinct other mem same
      · exact inv.list.alive other (List.mem_of_mem_erase mem) aborted
  · exact ⟨inv.threads.init, inv.threads.single, inv.threads.records⟩
  · intro id mem
    rcases inv.kept id mem with done | done | ⟨other, otherUsed, isId, marked⟩
    · exact Or.inl done
    · exact Or.inr (Or.inl (List.mem_cons_of_mem _ done))
    · by_cases same : other = slot
      · rw [← isId, same]
        exact Or.inr (Or.inl List.mem_cons_self)
      · apply Or.inr
        apply Or.inr
        exact ⟨other, (List.mem_erase_of_ne same).mpr otherUsed, isId,
          by simpa [TrSlots.recycleSlot, same] using marked⟩

/-! ## The ordered commit -/

variable (geo : Geometry) (old : List TrEvent → Nat → Ppa)

theorem upsertEntries_recorder (env : List TrEvent) (entries : List TrLog) :
    ∃ oldPpas, upsertEntries (recorder geo old) env entries =
      (env ++ entries.map (fun entry => .upsert entry.lba entry.ppa), oldPpas, true) := by
  induction entries generalizing env with
  | nil => exact ⟨[], by simp [upsertEntries]⟩
  | cons entry entries ih =>
      obtain ⟨oldPpas, eq⟩ := ih (env ++ [.upsert entry.lba entry.ppa])
      have first : (recorder geo old).upsertFn env entry.lba entry.ppa 0 =
          (env ++ [.upsert entry.lba entry.ppa], old env entry.lba, 0) := rfl
      exact ⟨old env entry.lba :: oldPpas, by simp [upsertEntries, first, eq]⟩

theorem invalidateOld_recorder (env : List TrEvent) (oldPpas : List Ppa) :
    invalidateOld (recorder geo old) env oldPpas = env := by
  simp [invalidateOld, recorder]

/-- The updates, then the commit record. -/
theorem commitTr_recorder (env : List TrEvent) (tr : Tr) :
    commitTr (recorder geo old) env tr =
      (env ++ (trUpdates tr ++ [.record tr.commitEntry]), true) := by
  have flushes : ∀ env : List TrEvent,
      (if tr.flushCommit then (recorder geo old).flushFn env else (env, 0)) = (env, 0) := by
    intro env
    by_cases flush : tr.flushCommit
    · rw [if_pos flush]
      rfl
    · rw [if_neg flush]
  have records : ∀ env : List TrEvent, (recorder geo old).appendFn env [tr.commitEntry] =
      (env ++ [.record tr.commitEntry], 0) := fun _ => rfl
  obtain ⟨oldPpas, eq⟩ := upsertEntries_recorder geo old env tr.entries
  by_cases user : tr.type = .lbaNs
  · simp [commitTr, user, eq, flushes, records, invalidateOld_recorder, trUpdates]
  · simp [commitTr, user, flushes, records, invalidateOld_recorder, trUpdates]

/-- The state behind the commit of the head of the list. -/
def afterCommit (state : TrSlots) (slot : Nat) : TrSlots :=
  ({ state with
      env := state.env ++ Hist.render (.commit (state.ids slot) (state.slots slot))
      history := state.history ++ [.commit (state.ids slot) (state.slots slot)] } :
    TrSlots).recycleSlot slot

/-- One round of the loop: the oldest transaction of the list is committed. -/
theorem Inv.commitHead {state : TrSlots} (inv : Inv state) {slot : Nat} {rest : List Nat}
    (first : state.used = slot :: rest) (marked : (state.slots slot).committed) :
    Inv (afterCommit state slot) := by
  have used : slot ∈ state.used := by
    rw [first]
    exact List.mem_cons_self
  have notWindow : slot ∉ state.window := by
    intro mem
    rw [(inv.list.window slot mem).2] at marked
    cases marked
  have later : ∀ other ∈ state.used.erase slot, state.ids slot < state.ids other := by
    intro other mem
    have increasing := inv.list.increasing
    rw [first, List.map_cons, List.pairwise_cons] at increasing
    rw [first, List.erase_cons_head] at mem
    exact increasing.1 _ (List.mem_map_of_mem mem)
  have ids : commitIds (state.history ++ [.commit (state.ids slot) (state.slots slot)]) =
      commitIds state.history ++ [state.ids slot] := commitIds_append ..
  constructor
  · constructor
    · simp [afterCommit, TrSlots.recycleSlot, List.flatMap_append, inv.log.calls]
    · change (commitIds (state.history ++ [.commit (state.ids slot) (state.slots slot)])).Pairwise
        (· < ·)
      rw [ids, List.pairwise_append]
      apply And.intro inv.log.order
      apply And.intro (List.pairwise_singleton _ _)
      intro id mem last isLast
      rw [List.mem_singleton.mp isLast]
      exact inv.list.older slot used id mem
    · intro id tr mem
      rcases List.mem_append.mp mem with mem | mem
      · exact inv.log.asked id tr mem
      · cases List.mem_singleton.mp mem
        exact ⟨inv.list.flag slot used marked, inv.list.ready slot used notWindow⟩
    · intro records mem
      apply inv.log.writes records
      simpa [afterCommit, TrSlots.recycleSlot] using mem
    · intro id mem
      rcases List.mem_append.mp (ids ▸ mem) with mem | mem
      · exact inv.log.committed id mem
      · rw [List.mem_singleton.mp mem]
        exact inv.list.bound slot used
    · intro id mem
      apply And.intro (inv.log.aborted id mem).1
      intro committed
      rcases List.mem_append.mp (ids ▸ committed) with committed | committed
      · exact (inv.log.aborted id mem).2 committed
      · rw [List.mem_singleton.mp committed] at mem
        exact inv.list.alive slot used mem
  · apply inv.list.recycle used notWindow
    · intro other mem id committed
      rcases List.mem_append.mp (ids ▸ committed) with committed | committed
      · exact inv.list.older other (List.mem_of_mem_erase mem) id committed
      · rw [List.mem_singleton.mp committed]
        exact later other mem
    · intro other mem
      exact inv.list.alive other (List.mem_of_mem_erase mem)
  · exact ⟨inv.threads.init, inv.threads.single, inv.threads.records⟩
  · intro id mem
    change id ∈ commitIds (state.history ++ [.commit (state.ids slot) (state.slots slot)]) ∨ _
    rw [ids]
    rcases inv.kept id mem with done | done | ⟨other, otherUsed, isId, otherMarked⟩
    · exact Or.inl (List.mem_append_left _ done)
    · exact Or.inr (Or.inl done)
    · by_cases same : other = slot
      · rw [← isId, same]
        exact Or.inl (List.mem_append_right _ (List.mem_singleton_self _))
      · apply Or.inr
        apply Or.inr
        exact ⟨other, (List.mem_erase_of_ne same).mpr otherUsed, isId,
          by simpa [afterCommit, TrSlots.recycleSlot, same] using otherMarked⟩

theorem drainLoop_cons {state : TrSlots} {slot : Nat} {rest : List Nat}
    (first : state.used = slot :: rest) (rounds : Nat) :
    drainLoop (recorder geo old) (rounds + 1) state =
      if (state.slots slot).committed then
        drainLoop (recorder geo old) rounds (afterCommit state slot)
      else state := by
  rw [drainLoop, afterCommit]
  simp only [commitTr_recorder, first]
  rfl

/-- The loop keeps the invariant and the threads; with a round for every transaction it ends
at one that is not marked. -/
theorem Inv.drainLoop {state : TrSlots} (inv : Inv state) (rounds : Nat) :
    Inv (drainLoop (recorder geo old) rounds state) ∧
      (state.used.length ≤ rounds →
        ∀ slot ∈ (drainLoop (recorder geo old) rounds state).used.head?,
          ((drainLoop (recorder geo old) rounds state).slots slot).committed = false) := by
  induction rounds generalizing state with
  | zero =>
      apply And.intro inv
      intro none slot mem
      have empty : state.used = [] := List.length_eq_zero_iff.mp (Nat.le_zero.mp none)
      rw [TrOrder.drainLoop, empty] at mem
      cases mem
  | succ rounds ih =>
      cases first : state.used with
      | nil =>
          have stop : TrOrder.drainLoop (recorder geo old) (rounds + 1) state = state := by
            rw [TrOrder.drainLoop, first]
          rw [stop, first]
          exact ⟨inv, by simp⟩
      | cons slot rest =>
          rw [drainLoop_cons geo old first]
          by_cases marked : (state.slots slot).committed
          · rw [if_pos marked]
            have next := ih (inv.commitHead first marked)
            apply And.intro next.1
            intro enough
            apply next.2
            change (state.used.erase slot).length ≤ rounds
            rw [first, List.erase_cons_head]
            exact Nat.le_of_succ_le_succ enough
          · rw [if_neg marked, first]
            apply And.intro inv
            intro _ other isFirst
            cases isFirst
            simpa using marked

/-! ## Runs -/

/-- A thread that is not about to drain moves, and no flag at the head is set. -/
theorem Drained.mono {state next : TrSlots} (drained : Drained state) (thread : Nat)
    (notDrain : state.pc thread ≠ .drain)
    (others : ∀ other, other ≠ thread → next.pc other = state.pc other)
    (head : ∀ slot ∈ next.used.head?, (next.slots slot).committed →
      slot ∈ state.used.head? ∧ (state.slots slot).committed) : Drained next := by
  rcases drained with ⟨other, atDrain⟩ | clear
  · have ne : other ≠ thread := by
      rintro rfl
      exact notDrain atDrain
    exact Or.inl ⟨other, (others other ne).trans atDrain⟩
  · apply Or.inr
    intro slot isFirst
    apply Bool.eq_false_iff.mpr
    intro marked
    rcases head slot isFirst marked with ⟨wasFirst, wasMarked⟩
    rw [clear slot wasFirst] at wasMarked
    cases wasMarked

/-- The invariant and the promise of the drain. -/
def Safe (state : TrSlots) : Prop :=
  Inv state ∧ Drained state

theorem Safe.setPc {state : TrSlots} (safe : Safe state) {thread : Nat} {pc : Pc}
    (notDrain : state.pc thread ≠ .drain) (notInit : ∀ slot lbas type, pc ≠ .newInit slot lbas type)
    (records : ∀ records, pc = .alloc records → ∀ entry ∈ records, entry.type ≠ .commit) :
    Safe (state.setPc thread pc) := by
  apply And.intro (safe.1.setPc thread notInit records)
  apply safe.2.mono thread notDrain
  · intro other ne
    exact TrSlots.setPc_of_ne state ne pc
  · intro slot isFirst marked
    exact ⟨isFirst, marked⟩

theorem Safe.new {state : TrSlots} (safe : Safe state) {slot : Nat} {rest : List Nat}
    (first : state.free = slot :: rest) (clear : (state.slots slot).committed = false)
    {thread : Nat} (idle : state.pc thread = .idle) (clock : Nat) (lbas : List (Nat × Nat))
    (type : TrType) :
    Safe ((state.takeSlot slot clock lbas type).setPc thread (.newInit slot lbas type)) := by
  apply And.intro (safe.1.new first clear thread clock lbas type)
  apply safe.2.mono thread (by simp [idle])
  · intro other ne
    exact TrSlots.setPc_of_ne _ ne _
  · intro other isFirst marked
    have ne : other ≠ slot := by
      rintro rfl
      simp [TrSlots.setPc, TrSlots.takeSlot, clear] at marked
    have wasMarked : (state.slots other).committed := by
      simpa [TrSlots.setPc, TrSlots.takeSlot, ne] using marked
    apply And.intro _ wasMarked
    cases before : state.used with
    | nil =>
        have only : slot = other := by
          simpa [TrSlots.setPc, TrSlots.takeSlot, before] using isFirst
        exact absurd only.symm ne
    | cons head tail => simpa [TrSlots.setPc, TrSlots.takeSlot, before] using isFirst

theorem Safe.init {state : TrSlots} (safe : Safe state) {thread slot : Nat}
    {lbas : List (Nat × Nat)} {type : TrType} (at' : state.pc thread = .newInit slot lbas type) :
    Safe { (state.setSlot slot (initTr lbas type)).setPc thread .idle with
      window := state.window.erase slot } := by
  apply And.intro (safe.1.init at')
  apply safe.2.mono thread (by simp [at'])
  · intro other ne
    exact TrSlots.setPc_of_ne _ ne _
  · intro other isFirst marked
    apply And.intro isFirst
    by_cases same : other = slot
    · rw [same] at marked
      simp [TrSlots.setPc, TrSlots.setSlot, initTr] at marked
    · simpa [TrSlots.setPc, TrSlots.setSlot, same] using marked

/-- A sector is given to an entry. -/
theorem Safe.allocate {state : TrSlots} (safe : Safe state) {thread : Nat}
    (notDrain : state.pc thread ≠ .drain) (slot idx : Nat) (ppa : Ppa) {records : List LogEntry}
    (writes : ∀ entry ∈ records, entry.type ≠ .commit) :
    Safe ((state.setSlot slot ((state.slots slot).allocate idx ppa)).setPc thread
      (.alloc records)) := by
  have stored : Safe (state.setSlot slot ((state.slots slot).allocate idx ppa)) := by
    have made := trMade_allocate (state.slots slot) idx ppa
    have inv : Inv (state.setSlot slot ((state.slots slot).allocate idx ppa)) :=
      safe.1.setSlot slot rfl made
    apply And.intro inv
    apply safe.2.mono thread notDrain
    · intro other _
      rfl
    · intro other isFirst marked
      apply And.intro isFirst
      by_cases same : other = slot
      · rw [same, TrSlots.setSlot_self] at marked
        rw [same]
        exact marked
      · rwa [TrSlots.setSlot_of_ne state same] at marked
  apply stored.setPc notDrain
  · simp
  · intro list isList
    cases isList
    exact writes

/-- Every step keeps the invariant. -/
theorem safe_step (state : TrSlots) (op : TrOp) (ok : AbortLive state op ∧ FlagClear state op)
    (safe : Safe state) : Safe (trStep (recorder geo old) state op) := by
  cases op with
  | new thread clock lbas type =>
      rw [trStep]
      by_cases starts : state.pc thread = .idle ∧ lbas.length ≤ appTransactionLogCount
      · rw [if_pos starts]
        cases first : state.free with
        | nil => exact safe
        | cons slot rest =>
            have clear : (state.slots slot).committed = false := by
              apply ok.2 slot
              rw [first]
              exact rfl
            exact safe.new first clear starts.1 clock lbas type
      · rw [if_neg starts]
        exact safe
  | init thread =>
      cases at' : state.pc thread with
      | newInit slot lbas type =>
          simp only [trStep, at']
          exact safe.init at'
      | _ =>
          simp only [trStep, at']
          exact safe
  | allocEntry thread slot idx ppa type =>
      cases get : (state.slots slot).entries[idx]? with
      | none =>
          simp only [trStep, get]
          cases state.pc thread <;> exact safe
      | some entry =>
          cases at' : state.pc thread with
          | idle =>
              simp only [trStep, get, at']
              apply safe.allocate (by simp [at'])
              intro record mem
              rw [List.mem_singleton.mp mem]
              exact logType_ne_commit _ _ _ _ _ _
          | alloc records =>
              simp only [trStep, get, at']
              apply safe.allocate (by simp [at'])
              intro record mem
              rcases List.mem_append.mp mem with mem | mem
              · exact safe.1.threads.records thread records at' record mem
              · rw [List.mem_singleton.mp mem]
                exact logType_ne_commit _ _ _ _ _ _
          | _ =>
              simp only [trStep, get, at']
              exact safe
  | allocAppend thread =>
      cases at' : state.pc thread with
      | alloc records =>
          simp only [trStep, at']
          have appended : Safe { state with
              env := state.env ++ records.map .record
              history := state.history ++ [.alloc records] } :=
            ⟨safe.1.append (safe.1.threads.records thread records at'), safe.2⟩
          exact appended.setPc (by simp [at']) (by simp) (by simp)
      | _ =>
          simp only [trStep, at']
          exact safe
  | commit thread slot id flush =>
      rw [trStep]
      split
      · next starts => exact safe.setPc (by simp [starts.1]) (by simp) (by simp)
      · exact safe
  | mark thread =>
      cases at' : state.pc thread with
      | commitMark slot id flush =>
          have live : Live state slot id := ok.2 (slot, id) (by rw [at', Pc.marks]; rfl)
          simp only [trStep, at']
          exact ⟨(safe.1.mark live flush).setPc thread (by simp) (by simp),
            Or.inl ⟨thread, TrSlots.setPc_self ..⟩⟩
      | _ =>
          simp only [trStep, at']
          exact safe
  | abort thread slot id =>
      rw [trStep]
      split
      · next idle => exact safe.setPc (by simp [idle]) (by simp) (by simp)
      · exact safe
  | recycle thread =>
      cases at' : state.pc thread with
      | abortRecycle slot id =>
          have live : Live state slot id := ok.1 (slot, id) (by rw [at', Pc.aborts]; rfl)
          simp only [trStep, at']
          exact ⟨(safe.1.recycle live).setPc thread (by simp) (by simp),
            Or.inl ⟨thread, TrSlots.setPc_self ..⟩⟩
      | _ =>
          simp only [trStep, at']
          exact safe
  | drain thread =>
      rw [trStep]
      split
      · have drained := safe.1.drainLoop geo old state.used.length
        exact ⟨drained.1.setPc thread (by simp) (by simp), Or.inr (drained.2 (Nat.le_refl _))⟩
      · exact safe

/-- Transactions commit in the order of their creation, each at most once and directly
behind its own updates, in every run whose commits and aborts find their transaction and
whose new transactions get a slot with a clear flag. -/
theorem transactions_ordered (slots : Nat → Tr) (count : Nat) (ops : List TrOp)
    (aborts : (trSystem (recorder geo old)).Allowed AbortLive (appTransactionInit slots count) ops)
    (clear : (trSystem (recorder geo old)).Allowed FlagClear (appTransactionInit slots count) ops) :
    Ordered ((trSystem (recorder geo old)).run (appTransactionInit slots count) ops) := by
  have start : Safe (appTransactionInit slots count) :=
    ⟨inv_init slots count, Or.inr (by simp [appTransactionInit])⟩
  have safe := (trSystem (recorder geo old)).run_invariant _ Safe
    (fun state op => safe_step geo old state op) start (aborts.and clear)
  exact safe.1.ordered safe.2

/-- The younger of two transactions is the first to ask for its commit. -/
def crossedCommits : List TrOp :=
  [.new 0 10 [(5, 11)] .lbaNs, .new 1 20 [(6, 21)] .lbaNs, .init 1, .init 0,
    .allocEntry 1 1 0 (Ppa.sector 0 0 2 0 0 0) .lbaNs, .allocAppend 1, .commit 1 1 1 false,
    .mark 1, .drain 1, .allocEntry 0 0 0 (Ppa.sector 0 0 1 0 0 0) .lbaNs, .allocAppend 0,
    .commit 0 0 0 false, .mark 0, .drain 0]

/-- A slot whose memory is clear. -/
def clearSlot : Tr :=
  { ts := 0, type := .lbaNs, entries := [] }

theorem transactions_ordered_crossed :
    Ordered ((trSystem (recorder Geometry.small fun _ _ => 0)).run
        (appTransactionInit (fun _ => clearSlot) 2) crossedCommits) ∧
      commitIds ((trSystem (recorder Geometry.small fun _ _ => 0)).run
        (appTransactionInit (fun _ => clearSlot) 2) crossedCommits).history = [0, 1] :=
  ⟨transactions_ordered Geometry.small (fun _ _ => 0) (fun _ => clearSlot) 2 crossedCommits
    (by decide) (by decide), by decide⟩

/-- A slot whose memory happens to hold the flag and a count of one. -/
def staleSlot : Tr :=
  { ts := 0, type := .lbaNs, entries := [{ ts := 0, lba := 0 }], committed := true }

/-- A thread aborts a transaction; before it drains the list, another thread takes a slot
and has not initialised it. -/
def abortDuringNew : List TrOp :=
  [.new 0 10 [(5, 11)] .lbaNs, .init 0, .abort 0 0 0, .recycle 0, .new 1 20 [(6, 21)] .lbaNs,
    .drain 0]

/-- The slot is committed in the window: an update of block 0 that nobody asked for. -/
theorem transactions_unasked_commit :
    (trSystem (recorder Geometry.small fun _ _ => 0)).Allowed AbortLive
        (appTransactionInit (fun _ => staleSlot) 2) abortDuringNew ∧
      ((trSystem (recorder Geometry.small fun _ _ => 0)).run
        (appTransactionInit (fun _ => staleSlot) 2) abortDuringNew).env =
          [.upsert 0 0, .record (LogEntry.ofCommit 20)] ∧
      ¬ Ordered ((trSystem (recorder Geometry.small fun _ _ => 0)).run
        (appTransactionInit (fun _ => staleSlot) 2) abortDuringNew) := by
  apply And.intro (by decide)
  apply And.intro (by decide)
  intro ordered
  have asked := ordered.asked 1 { staleSlot with ts := 20 } (by decide)
  exact absurd asked.1 (by decide)

end OxCtrl.TrOrder
