import OxCtrl.GlMap.CpRuns

/-!
# Links of a channel

The steps of lookups, updates, jobs and of the flush as operations on the links of a channel.
-/

namespace OxCtrl.GlMap

variable {env : Env} {conf : Conf} {state : State} {ch off slot : Nat} {rest : List Nat}
  {locks : Nat → Option Access}

/-! ## Operations on the state -/

/-- The cache entry that a load has taken. -/
def Access.taken? : Access → Option Nat
  | .load slot => some slot
  | .touch _ => none

/-- The links of a channel. -/
def State.links (state : State) (locks : Nat → Option Access) (ch : Nat) : Links where
  free := (state.lists ch).mbfHead
  used := (state.lists ch).mbuHead
  nused := (state.lists ch).nused
  loading off := (locks off).bind Access.taken?
  entry off := (state.entry ch off).ppa
  immut off := ((state.chans ch).md.immut off).ppa
  mdEntry slot := (state.slot ch slot).mdEntry
  ppa slot := (state.slot ch slot).ppa
  dirty slot := (state.slot ch slot).dirty

section

variable (state : State) (locks : Nat → Option Access) (ch off slot : Nat)

theorem links_setLists (change : CacheLists → CacheLists) :
    (state.setLists ch change).links locks ch =
      { state.links locks ch with
        free := (change (state.lists ch)).mbfHead
        used := (change (state.lists ch)).mbuHead
        nused := (change (state.lists ch)).nused } := by
  simp only [State.links, State.lists_setLists, if_true, State.entry_setLists, State.slot_setLists,
    State.md_setLists]

theorem links_setSlot (change : CacheEntry → CacheEntry) :
    (state.setSlot ch slot change).links locks ch =
      { state.links locks ch with
        mdEntry := Function.update (state.links locks ch).mdEntry slot
          (change (state.slot ch slot)).mdEntry
        ppa := Function.update (state.links locks ch).ppa slot (change (state.slot ch slot)).ppa
        dirty := Function.update (state.links locks ch).dirty slot
          (change (state.slot ch slot)).dirty } := by
  apply Links.ext <;>
    simp only [State.links, State.lists_setSlot, State.entry_setSlot, State.md_setSlot]
  all_goals
    funext other
    simp only [State.slot_setSlot, true_and, Function.update_apply]
    split <;> rfl

theorem links_setPpa (ppa : Nat) :
    (state.setPpa ch off ppa).links locks ch = (state.links locks ch).writeBack off ppa := by
  apply Links.ext <;>
    simp only [State.links, Links.writeBack, State.lists_setPpa, State.slot_setPpa,
      State.immut_setPpa]
  funext other
  simp only [State.entry_setPpa, true_and, Function.update_apply]
  split <;> rfl

theorem links_setImmut (ppa : Nat) :
    (state.setImmut ch off ppa).links locks ch = (state.links locks ch).setImmut off ppa := by
  apply Links.ext <;>
    simp only [State.links, Links.setImmut, State.lists_setImmut, State.slot_setImmut,
      State.entry_setImmut]
  funext other
  simp only [State.immut_setImmut, true_and, Function.update_apply]
  split <;> rfl

theorem links_copyEntry : (copyEntry ch state off).links locks ch =
    (state.links locks ch).copy off := by
  apply Links.ext <;>
    simp only [State.links, Links.copy, copyEntry, State.lists, State.entry, State.slot,
      State.setChan, Function.update_self]
  funext other
  simp only [Function.update_apply]
  split <;> rfl

/-- A flag of the small table is not a link. -/
theorem links_oxbChMapMark (index old : Nat) :
    ((oxbChMapMark state ch index).invalidate old).links locks ch = state.links locks ch := by
  apply Links.ext <;>
    simp only [State.links, State.lists_invalidate, State.entry_invalidate, State.slot_invalidate,
      State.md_invalidate, lists_oxbChMapMark, entry_oxbChMapMark, slot_oxbChMapMark,
      immut_oxbChMapMark]

/-- A mutex of a page that no load holds is not a link. -/
theorem links_update {access : Option Access} (free : (locks off).bind Access.taken? = none)
    (taken : access.bind Access.taken? = none) :
    state.links (Function.update locks off access) ch = state.links locks ch := by
  apply Links.ext <;> simp only [State.links]
  funext other
  simp only [Function.update_apply]
  split
  · rename_i same
    rw [same, free, taken]
  · rfl

/-- A load takes or releases the mutex of a page. -/
theorem links_lock (access : Option Access) :
    state.links (Function.update locks off access) ch =
      { state.links locks ch with
        loading := Function.update (state.links locks ch).loading off
          (access.bind Access.taken?) } := by
  apply Links.ext <;> simp only [State.links]
  funext other
  simp only [Function.update_apply]
  split <;> rfl

end

/-- A load links its entry, or gives it back. -/
theorem links_loadTaken (firstLba : Nat) (blank : (state.links locks ch).Blank slot) :
    (loadTaken env ch state off slot firstLba).1.links (Function.update locks off none) ch =
        (state.links locks ch).link off slot ∨
      (loadTaken env ch state off slot firstLba).1.links (Function.update locks off none) ch =
        (state.links locks ch).fail off slot := by
  obtain ⟨ppa, mdEntry⟩ := blank
  have entry : (state.links locks ch).entry off = (state.entry ch off).ppa := rfl
  have slotPpa : (state.slot ch slot).ppa = 0 := ppa
  have dirty : (state.links locks ch).dirty slot = (state.slot ch slot).dirty := rfl
  by_cases untouched : (state.entry ch off).ppa = 0
  · left
    simp only [loadTaken, State.entry_setSlot, untouched, if_true]
    rw [links_lock, links_setLists, links_setPpa, links_setSlot, links_setSlot]
    simp only [Links.link, Links.writeBack, Function.update_idem, State.slot_setSlot, and_self,
      if_true, State.lists_setPpa, State.lists_setSlot, entry, slotPpa, untouched, decide_true,
      Bool.true_or]
    rfl
  · have reads (change : CacheEntry → CacheEntry) :
        (state.setSlot ch slot change).reads = state.reads := rfl
    have counted (state : State) : state.countRead.links locks ch = state.links locks ch := rfl
    cases read : env.readOk state.reads with
    | true =>
        left
        simp only [loadTaken, State.entry_setSlot, untouched, if_false, reads, read, if_true]
        rw [links_lock, links_setLists, links_setPpa, links_setSlot, counted, links_setSlot]
        simp only [Links.link, Links.writeBack, Function.update_idem, State.slot_setSlot,
          State.slot_countRead, and_self, if_true, State.lists_setPpa, State.lists_setSlot,
          State.lists_countRead, entry, untouched, dirty, decide_false, Bool.false_or]
        rfl
    | false =>
        right
        simp only [loadTaken, State.entry_setSlot, untouched, if_false, reads, read,
          Bool.false_eq_true]
        rw [links_lock, links_setLists, links_setSlot, counted, links_setSlot]
        simp only [Links.fail, Function.update_idem, State.slot_setSlot, State.slot_countRead,
          and_self, if_true, State.lists_setSlot, State.lists_countRead]
        have ppaSame : Function.update (state.links locks ch).ppa slot 0 =
            (state.links locks ch).ppa := by
          rw [← ppa, Function.update_eq_self]
        have mdSame : Function.update (state.links locks ch).mdEntry slot none =
            (state.links locks ch).mdEntry := by
          rw [← mdEntry, Function.update_eq_self]
        rw [ppaSame, mdSame, ← dirty, Function.update_eq_self]
        rfl

theorem links_popFree : (popFree ch state rest).links
      (Function.update locks off (some (.load slot))) ch =
    (state.links locks ch).take off slot rest := by
  rw [popFree, links_lock, links_setLists]
  rfl

theorem links_touched : (touched state ch slot).links locks ch =
    (state.links locks ch).touch slot := by
  rw [touched, links_setLists]
  rfl

theorem links_taken : (taken state ch rest).links locks ch =
    (state.links locks ch).unlink rest := by
  rw [taken, links_setLists]
  rfl

/-- An update sets the dirty flag of a cache entry, or does nothing. -/
theorem links_updateStep (call : UpsertCall) (slot : Nat) :
    (updateStep conf state call slot).1.links locks ch = state.links locks ch ∨
      (updateStep conf state call slot).1.links locks ch = (state.links locks ch).soil slot := by
  simp only [updateStep]
  split
  · exact Or.inl rfl
  · by_cases same : chMap conf call.lba = ch
    · right
      subst same
      rw [links_setSlot]
      have mdEntry : (state.slot (chMap conf call.lba) slot).mdEntry =
          (state.links locks (chMap conf call.lba)).mdEntry slot := rfl
      have ppa : (state.slot (chMap conf call.lba) slot).ppa =
          (state.links locks (chMap conf call.lba)).ppa slot := rfl
      simp only [mdEntry, ppa, Function.update_eq_self]
      rfl
    · left
      have apart (other : Nat) : ¬ (ch = chMap conf call.lba ∧ other = slot) :=
        fun both => same both.1.symm
      simp only [State.links, State.lists_setSlot, State.entry_setSlot, State.md_setSlot,
        State.slot_setSlot, if_neg (apart _)]

/-! ## Jobs -/

/-- Every page write succeeds, at a non-zero address with bit 63 clear. -/
def Writes (env : Env) : Prop :=
  ∀ state, ∃ addr, env.newFn state = some addr ∧ addr ≠ 0 ∧ addr < mapAddrFlag

/-- What a step of a job does to the links of its channel. -/
theorem jobStep_moves (writes : Writes env) (state : State) (locks : Nat → Option Access) (ch : Nat)
    (job : Job) :
    Links.JobMove (state.links locks ch) job
      ((jobStep env state ch job).1.links locks ch) (jobStep env state ch job).2 := by
  have mdEntry : (state.slot ch job.slot).mdEntry = (state.links locks ch).mdEntry job.slot := rfl
  have ppa : (state.slot ch job.slot).ppa = (state.links locks ch).ppa job.slot := rfl
  have dirty : (state.slot ch job.slot).dirty = (state.links locks ch).dirty job.slot := rfl
  unfold jobStep
  cases pc : job.pc with
  | test =>
      cases flag : (state.slot ch job.slot).dirty with
      | true => exact .copy ⟨rfl, rfl, rfl, rfl⟩ (by simp only [flag, if_true]; rfl) (Or.inl pc)
      | false => exact .unsoiled ⟨rfl, rfl, rfl, rfl⟩ (by simp [flag]) pc flag
  | copy retry next =>
      simp only
      split
      · exact .copy ⟨rfl, rfl, rfl, rfl⟩ rfl (Or.inr ⟨retry, next, pc⟩)
      · obtain ⟨addr, new, stored, addrLt⟩ := writes state
        simp only [new]
        have written (page : Nat → MapEntry) (log : MapLog) :
            (state.writePage addr page log).links locks ch = state.links locks ch := rfl
        rw [links_setSlot, written]
        simp only [State.slot_writePage, mdEntry, dirty, Function.update_eq_self]
        exact .write ⟨rfl, rfl, rfl, rfl⟩ rfl pc stored addrLt
  | clear =>
      simp only
      rw [links_setSlot]
      simp only [mdEntry, ppa, Function.update_eq_self]
      exact .clear ⟨rfl, rfl, rfl, rfl⟩ rfl pc
  | finish wrote =>
      simp only
      have marked (index : Nat) :
          (if wrote = true then (oxbChMapMark state ch index).invalidate job.old else state).links
            locks ch = state.links locks ch := by
        split
        · exact links_oxbChMapMark ..
        · rfl
      rw [apply_ite (fun state => State.links state locks ch), links_setImmut, marked]
      cases evicts : job.evicts with
      | true => exact .finish ⟨rfl, rfl, evicts.symm, rfl⟩ rfl pc evicts
      | false => exact .persisted pc evicts
  | writeBack =>
      simp only
      rw [links_setPpa]
      exact .writeBack ⟨rfl, rfl, rfl, rfl⟩ rfl pc
  | release =>
      simp only
      rw [links_setSlot]
      simp only [dirty, Function.update_eq_self]
      exact .release ⟨rfl, rfl, rfl, rfl⟩ rfl pc
  | insert =>
      simp only
      rw [links_setLists]
      exact .insert pc

end OxCtrl.GlMap
