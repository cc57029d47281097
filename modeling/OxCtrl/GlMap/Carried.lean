import OxCtrl.GlMap.SmallTable

/-!
# Pages through a cache flush

A flush of the caches moves the dirty pages and no others, and marks an index for every
page that it moves.  Pages that are clean in the cache stay where they are, without a
mark.
-/

namespace OxCtrl.GlMap

variable {env : Env} {conf : Conf} {state state' state'' : State} {ch off slot : Nat}
  {rest : List Nat}

/-! ## Dirty pages -/

/-- A mapping page is in the cache with changes that are not on NVM. -/
def DirtyPage (state : State) (ch off : Nat) : Prop :=
  addrFlag (state.entry ch off).ppa = true ∧
    (state.slot ch (addrPtr (state.entry ch off).ppa)).dirty = true

instance (state : State) (ch off : Nat) : Decidable (DirtyPage state ch off) :=
  inferInstanceAs (Decidable (_ ∧ _))

theorem Holds.dirtyPage_iff (holds : Holds conf state ch off slot) (pages : PagesOk conf state) :
    DirtyPage state ch off ↔ (state.slot ch slot).dirty = true := by
  rw [DirtyPage, holds.ppa, addrFlag_add, (pages.slotOk holds).addrPtr_eq]
  exact and_iff_right rfl

theorem Holds.current_eq (holds : Holds conf state ch off slot) (pages : PagesOk conf state) :
    current state ch off = (state.slot ch slot).ppa := by
  rw [current, holds.ppa, addrFlag_add, if_pos rfl, (pages.slotOk holds).addrPtr_eq]

theorem PagesOk.holds_of_dirtyPage (pages : PagesOk conf state) (chLt : ch < conf.nch)
    (offLt : off < conf.entries) (dirty : DirtyPage state ch off) :
    ∃ slot, Holds conf state ch off slot := by
  obtain ⟨slot, eq, -⟩ := (pages ch chLt off offLt).cached dirty.1
  exact ⟨slot, chLt, offLt, eq⟩

/-- A page is neither changed nor moved if its entries stay the same. -/
theorem page_congr {other otherOff : Nat} (pages : PagesOk conf state)
    (otherLt : other < conf.nch) (otherOffLt : otherOff < conf.entries)
    (entry : state'.entry other otherOff = state.entry other otherOff)
    (slots : ∀ found, Holds conf state other otherOff found →
      state'.slot other found = state.slot other found) :
    (DirtyPage state' other otherOff ↔ DirtyPage state other otherOff) ∧
      current state' other otherOff = current state other otherOff := by
  simp only [DirtyPage, current, entry]
  cases flag : addrFlag (state.entry other otherOff).ppa with
  | false => simp
  | true =>
      obtain ⟨found, eq, foundOk⟩ := (pages other otherLt otherOff otherOffLt).cached flag
      rw [eq, foundOk.addrPtr_eq, slots found ⟨otherLt, otherOffLt, eq⟩]
      exact ⟨Iff.rfl, rfl⟩

/-! ## What a flush of the caches does to the pages -/

/-- Clean pages stay where they are.  A dirty page stays, or it is written where
provisioning says and an index is marked for it.  Only dirty pages get marks. -/
structure Carried (env : Env) (state state' : State) : Prop where
  tracked : Tracked env.conf state state'
  clean : ∀ ch < env.conf.nch, ∀ off < env.conf.entries, ¬ DirtyPage state ch off →
    ¬ DirtyPage state' ch off ∧ current state' ch off = current state ch off
  dirty : ∀ ch < env.conf.nch, ∀ off < env.conf.entries, DirtyPage state ch off →
    (DirtyPage state' ch off ∧ current state' ch off = current state ch off) ∨
      ¬ DirtyPage state' ch off ∧
        (∃ earlier, env.newFn earlier = some (current state' ch off)) ∧
        (state'.chans ch).md.tinyDirty (markIndex env.conf (off * env.conf.nch + ch)) = true
  marks : ∀ ch < env.conf.nch, ∀ page, (state'.chans ch).md.tinyDirty page = true →
    (state.chans ch).md.tinyDirty page = true ∨
      ∃ off < env.conf.entries, DirtyPage state ch off ∧
        markIndex env.conf (off * env.conf.nch + ch) = page

namespace Carried

/-- A step that leaves the pages and the marks alone. -/
theorem of_same (tracked : Tracked env.conf state state')
    (pages : ∀ ch < env.conf.nch, ∀ off < env.conf.entries,
      (DirtyPage state' ch off ↔ DirtyPage state ch off) ∧
        current state' ch off = current state ch off)
    (marks : ∀ ch page, (state'.chans ch).md.tinyDirty page = true →
      (state.chans ch).md.tinyDirty page = true) : Carried env state state' where
  tracked := tracked
  clean ch chLt off offLt clean := by
    rw [(pages ch chLt off offLt).1]
    exact ⟨clean, (pages ch chLt off offLt).2⟩
  dirty ch chLt off offLt dirty := by
    rw [(pages ch chLt off offLt).1]
    exact Or.inl ⟨dirty, (pages ch chLt off offLt).2⟩
  marks ch _ page marked := Or.inl (marks ch page marked)

theorem refl (env : Env) (state : State) : Carried env state state :=
  of_same (Tracked.refl state) (fun _ _ _ _ => ⟨Iff.rfl, rfl⟩) fun _ _ marked => marked

theorem trans (first : Carried env state state') (second : Carried env state' state'') :
    Carried env state state'' where
  tracked := first.tracked.trans second.tracked
  clean ch chLt off offLt clean := by
    obtain ⟨still, same⟩ := first.clean ch chLt off offLt clean
    obtain ⟨after, later⟩ := second.clean ch chLt off offLt still
    exact ⟨after, later.trans same⟩
  dirty ch chLt off offLt dirty := by
    rcases first.dirty ch chLt off offLt dirty with ⟨still, same⟩ | ⟨clean, handed, marked⟩
    · rcases second.dirty ch chLt off offLt still with ⟨after, later⟩ | written
      · exact Or.inl ⟨after, later.trans same⟩
      · exact Or.inr written
    · obtain ⟨after, later⟩ := second.clean ch chLt off offLt clean
      rw [← later] at handed
      exact Or.inr ⟨after, handed, second.tracked.marked ch _ marked⟩
  marks ch chLt page marked := by
    rcases second.marks ch chLt page marked with before | ⟨off, offLt, dirty, index⟩
    · exact first.marks ch chLt page before
    · refine Or.inr ⟨off, offLt, ?_, index⟩
      by_contra clean
      exact (first.clean ch chLt off offLt clean).1 dirty

end Carried

theorem carried_taken (pages : PagesOk env.conf state) :
    Carried env state (taken state ch rest) := by
  apply Carried.of_same
  · exact Tracked.congr (by simp [taken]) (by simp [taken]) (by simp [taken]) (by simp [taken])
      (by simp [taken])
  · intro other otherLt otherOff otherOffLt
    exact page_congr pages otherLt otherOffLt (by simp [taken]) (by simp [taken])
  · simp [taken]

theorem carried_copyImmut (pages : PagesOk env.conf state) :
    Carried env state (copyImmut env.conf state ch) := by
  apply Carried.of_same
  · exact Tracked.congr (by simp) (by simp) rfl (by simp) (by simp)
  · intro other otherLt otherOff otherOffLt
    exact page_congr pages otherLt otherOffLt (by simp) (by simp)
  · simp

theorem carried_unmapped (pages : PagesOk env.conf state) (holds : Holds env.conf state ch off slot)
    (clean : (state.slot ch slot).dirty = false) :
    Carried env state (unmapped state ch off slot) := by
  have slotOk := pages.slotOk holds
  apply Carried.of_same (tracked_unmapped pages holds)
  · intro other otherLt otherOff otherOffLt
    by_cases same : other = ch ∧ otherOff = off
    · obtain ⟨rfl, rfl⟩ := same
      refine ⟨?_, current_unmapped pages holds otherLt otherOffLt⟩
      rw [holds.dirtyPage_iff pages, DirtyPage, entry_unmapped, if_pos ⟨rfl, rfl⟩]
      simp [addrFlag_eq_false.mpr slotOk.ppa_lt, clean]
    · apply page_congr pages otherLt otherOffLt
      · rw [entry_unmapped, if_neg same]
      · intro found foundHolds
        rw [slot_unmapped, if_neg]
        rintro ⟨rfl, rfl⟩
        exact same ⟨rfl, pages.off_unique foundHolds holds⟩
  · simp [unmapped]

/-! ## Persisting a page -/

/-- A page other than the one that is persisted keeps its state. -/
theorem Persisted.page_congr {setImmut : Bool} {other otherOff : Nat}
    (persisted : Persisted env state state' ch off slot setImmut)
    (pages : PagesOk env.conf state) (holds : Holds env.conf state ch off slot)
    (otherLt : other < env.conf.nch) (otherOffLt : otherOff < env.conf.entries)
    (differ : ¬ (other = ch ∧ otherOff = off)) :
    (DirtyPage state' other otherOff ↔ DirtyPage state other otherOff) ∧
      current state' other otherOff = current state other otherOff := by
  apply GlMap.page_congr pages otherLt otherOffLt (persisted.entry other otherOff)
  intro found foundHolds
  apply persisted.others
  intro same
  obtain ⟨rfl, rfl⟩ := Prod.mk.inj same
  exact differ ⟨rfl, pages.off_unique foundHolds holds⟩

theorem Persisted.holds {setImmut : Bool}
    (persisted : Persisted env state state' ch off slot setImmut)
    (holds : Holds env.conf state ch off slot) : Holds env.conf state' ch off slot :=
  ⟨holds.ch_lt, holds.off_lt, by rw [persisted.entry]; exact holds.ppa⟩

theorem Persisted.pagesOk {setImmut : Bool}
    (persisted : Persisted env state state' ch off slot setImmut)
    (pages : PagesOk env.conf state) (holds : Holds env.conf state ch off slot) :
    PagesOk env.conf state' := fun _ otherLt _ otherOffLt =>
  persisted.pageOk pages holds otherLt otherOffLt

/-- The page that is persisted is clean. -/
theorem Persisted.not_dirtyPage {setImmut : Bool}
    (persisted : Persisted env state state' ch off slot setImmut)
    (pages : PagesOk env.conf state) (holds : Holds env.conf state ch off slot) :
    ¬ DirtyPage state' ch off := by
  rw [(persisted.holds holds).dirtyPage_iff (persisted.pagesOk pages holds), persisted.dirty]
  exact Bool.false_ne_true

/-- `map_evict_process` allocates and marks for a dirty page only. -/
theorem mapEvictProcess_marks {setImmut : Bool} (media : Media env)
    (pages : PagesOk env.conf state) (holds : Holds env.conf state ch off slot)
    (processed : mapEvictProcess env state ch slot setImmut = (state', 0)) :
    ((state.slot ch slot).dirty = false ∧
        (state'.slot ch slot).ppa = (state.slot ch slot).ppa ∧
        ∀ other page, (state'.chans other).md.tinyDirty page =
          (state.chans other).md.tinyDirty page) ∨
      (state.slot ch slot).dirty = true ∧ env.newFn state = some (state'.slot ch slot).ppa ∧
        ∀ other page, (state'.chans other).md.tinyDirty page =
          (decide (other = ch ∧ page = markIndex env.conf (off * env.conf.nch + ch)) ||
            (state.chans other).md.tinyDirty page) := by
  obtain ⟨done, eq, cases⟩ := mapEvictProcess_allocated media pages holds setImmut
  obtain rfl : (if setImmut then done.setImmut ch off (done.slot ch slot).ppa else done) = state' :=
    congrArg Prod.fst (eq.symm.trans processed)
  have slotEq : (if setImmut then done.setImmut ch off (done.slot ch slot).ppa
      else done).slot ch slot = done.slot ch slot := by
    split <;> simp
  have tinyDirty (other : Nat) : ((if setImmut then done.setImmut ch off (done.slot ch slot).ppa
      else done).chans other).md.tinyDirty = (done.chans other).md.tinyDirty := by
    split <;> simp
  simp only [slotEq, tinyDirty]
  rcases cases with ⟨clean, rfl⟩ | ⟨dirty, addr, new, -, -, -, rfl⟩
  · exact Or.inl ⟨clean, rfl, fun _ _ => rfl⟩
  · refine Or.inr ⟨dirty, by simpa [slot_written] using new, ?_⟩
    intro other page
    simp [written, tinyDirty_oxbChMapMark]

theorem Persisted.carried {setImmut : Bool} (media : Media env) (pages : PagesOk env.conf state)
    (holds : Holds env.conf state ch off slot)
    (processed : mapEvictProcess env state ch slot setImmut = (state', 0))
    (persisted : Persisted env state state' ch off slot setImmut) : Carried env state state' := by
  have after := persisted.not_dirtyPage pages holds
  have dirtyIff := holds.dirtyPage_iff pages
  have before := holds.current_eq pages
  have current := (persisted.holds holds).current_eq (persisted.pagesOk pages holds)
  have cases := mapEvictProcess_marks media pages holds processed
  refine ⟨persisted.tracked pages holds, ?_, ?_, ?_⟩
  · intro other otherLt otherOff otherOffLt clean
    by_cases same : other = ch ∧ otherOff = off
    · obtain ⟨rfl, rfl⟩ := same
      refine ⟨after, ?_⟩
      rcases cases with ⟨-, ppa, -⟩ | ⟨dirty, -⟩
      · rw [current, before, ppa]
      · exact absurd (dirtyIff.mpr dirty) clean
    · have kept := persisted.page_congr pages holds otherLt otherOffLt same
      rw [kept.1]
      exact ⟨clean, kept.2⟩
  · intro other otherLt otherOff otherOffLt dirty
    by_cases same : other = ch ∧ otherOff = off
    · obtain ⟨rfl, rfl⟩ := same
      rcases cases with ⟨clean, -⟩ | ⟨-, new, marks⟩
      · rw [dirtyIff, clean] at dirty
        contradiction
      · rw [← current] at new
        exact Or.inr ⟨after, ⟨state, new⟩, by simp [marks]⟩
    · have kept := persisted.page_congr pages holds otherLt otherOffLt same
      rw [kept.1]
      exact Or.inl ⟨dirty, kept.2⟩
  · intro other otherLt page marked
    rcases cases with ⟨-, -, marks⟩ | ⟨dirty, -, marks⟩
    · rw [marks] at marked
      exact Or.inl marked
    · rw [marks, Bool.or_eq_true, decide_eq_true_eq] at marked
      rcases marked with ⟨rfl, rfl⟩ | before
      · exact Or.inr ⟨off, holds.off_lt, dirtyIff.mpr dirty, rfl⟩
      · exact Or.inl before

/-! ## The loops -/

/-- The dirty pages of a channel are in the cache entries still to be persisted. -/
def Cleaned (conf : Conf) (state : State) (ch : Nat) (todo : List Nat) : Prop :=
  ∀ off < conf.entries, DirtyPage state ch off → ∃ slot ∈ todo, Holds conf state ch off slot

theorem cleaned_used (inv : Inv conf state) (chLt : ch < conf.nch) :
    Cleaned conf state ch (state.lists ch).mbuHead := by
  intro off offLt dirty
  obtain ⟨slot, holds⟩ := inv.pages.holds_of_dirtyPage chLt offLt dirty
  exact ⟨slot, (inv.lists ch chLt).listed off offLt slot holds.ppa, holds⟩

theorem Cleaned.persisted {setImmut : Bool} {todo : List Nat}
    (cleaned : Cleaned env.conf state ch (slot :: todo)) (pages : PagesOk env.conf state)
    (holds : Holds env.conf state ch off slot)
    (persisted : Persisted env state state' ch off slot setImmut) :
    Cleaned env.conf state' ch todo := by
  intro other otherLt dirty
  have differ : other ≠ off := by
    rintro rfl
    exact persisted.not_dirtyPage pages holds dirty
  have kept := persisted.page_congr pages holds holds.ch_lt otherLt (by simp [differ])
  obtain ⟨found, mem, foundHolds⟩ := cleaned other otherLt (kept.1.mp dirty)
  rcases List.mem_cons.mp mem with rfl | mem
  · exact absurd (pages.off_unique foundHolds holds) differ
  · exact ⟨found, mem, holds.ch_lt, otherLt, by rw [persisted.entry]; exact foundHolds.ppa⟩

/-- A step that dirties no page and keeps the cached ones in their entries. -/
theorem Cleaned.of_dirty {todo : List Nat} (cleaned : Cleaned conf state ch todo)
    (dirty : ∀ off < conf.entries, DirtyPage state' ch off →
      DirtyPage state ch off ∧ state'.entry ch off = state.entry ch off) :
    Cleaned conf state' ch todo := by
  intro off offLt isDirty
  obtain ⟨before, entry⟩ := dirty off offLt isDirty
  obtain ⟨slot, mem, holds⟩ := cleaned off offLt before
  exact ⟨slot, mem, holds.ch_lt, offLt, by rw [entry]; exact holds.ppa⟩

theorem Cleaned.taken {todo : List Nat} (cleaned : Cleaned conf state ch todo) :
    Cleaned conf (taken state ch rest) ch todo := by
  apply cleaned.of_dirty
  intro off offLt dirty
  simpa [DirtyPage, GlMap.taken] using dirty

theorem Cleaned.unmapped {todo : List Nat} (cleaned : Cleaned conf state ch todo)
    (pages : PagesOk conf state) (holds : Holds conf state ch off slot) :
    Cleaned conf (unmapped state ch off slot) ch todo := by
  apply cleaned.of_dirty
  intro other otherLt dirty
  have differ : ¬ (ch = ch ∧ other = off) := by
    rintro ⟨-, rfl⟩
    rw [DirtyPage, entry_unmapped, if_pos ⟨rfl, rfl⟩,
      addrFlag_eq_false.mpr (pages.slotOk holds).ppa_lt] at dirty
    exact Bool.false_ne_true dirty.1
  have entry : (GlMap.unmapped state ch off slot).entry ch other = state.entry ch other := by
    rw [entry_unmapped, if_neg differ]
  have kept := @page_congr _ _ _ ch other pages holds.ch_lt otherLt entry (by
    intro found foundHolds
    rw [slot_unmapped, if_neg]
    rintro ⟨-, rfl⟩
    exact differ ⟨rfl, pages.off_unique foundHolds holds⟩)
  exact ⟨kept.1.mp dirty, entry⟩

theorem mapFlushChCache_carried (media : Media env) (chLt : ch < env.conf.nch)
    (rounds : env.conf.cap ≤ env.rounds) (inv : Inv env.conf state) :
    Carried env state (mapFlushChCache env ch false state) ∧
      Cleaned env.conf (mapFlushChCache env ch false state) ch [] := by
  have silent : Silent env.conf state (copyImmut env.conf state ch) := silent_copyImmut inv
  have listsOk := silent.inv.lists ch chLt
  have length := listsOk.length
  have enough : ((copyImmut env.conf state ch).lists ch).mbuHead.length ≤ env.rounds := by omega
  simp only [mapFlushChCache, listsOk.nused, Bool.false_eq_true, if_false]
  apply @flushLoop_rule env _ ch media chLt
    (fun reached todo => Carried env state reached ∧ Cleaned env.conf reached ch todo)
    _ _ env.rounds [] _ enough silent.inv rfl (fun _ => rfl)
  · exact ⟨carried_copyImmut inv.pages, cleaned_used silent.inv chLt⟩
  · intro start done slot off rest inv used _ holds processed persisted carried
    have pages : PagesOk env.conf (GlMap.taken start ch rest) := pagesOk_taken inv.pages
    have doneHolds := persisted.holds holds.taken
    have donePages := persisted.pagesOk pages holds.taken
    constructor
    · apply ((carried.1.trans (carried_taken inv.pages)).trans
        (persisted.carried media pages holds.taken processed)).trans
      exact carried_unmapped donePages doneHolds persisted.dirty
    · exact (carried.2.taken.persisted pages holds.taken persisted).unmapped donePages doneHolds
  · intro start reached slot off todo inv holds processed persisted carried
    exact ⟨carried.1.trans (persisted.carried media inv.pages holds processed),
      carried.2.persisted inv.pages holds persisted⟩

/-- No page of the channel is dirty. -/
def CleanChan (conf : Conf) (state : State) (ch : Nat) : Prop :=
  ∀ off < conf.entries, ¬ DirtyPage state ch off

theorem Carried.cleanChan (carried : Carried env state state') (chLt : ch < env.conf.nch)
    (clean : CleanChan env.conf state ch) : CleanChan env.conf state' ch :=
  fun off offLt => (carried.clean ch chLt off offLt (clean off offLt)).1

theorem flushCaches_carried (media : Media env) (rounds : env.conf.cap ≤ env.rounds) {n : Nat}
    (le : n ≤ env.conf.nch) (inv : Inv env.conf state) :
    Carried env state (flushCaches env n state) ∧
      ∀ ch < n, CleanChan env.conf (flushCaches env n state) ch := by
  induction n generalizing state with
  | zero => exact ⟨Carried.refl env state, fun ch chLt => absurd chLt (Nat.not_lt_zero ch)⟩
  | succ n ih =>
      obtain ⟨carried, cleaned⟩ := mapFlushChCache_carried media le rounds inv
      have flushed := mapFlushChCache_flushed media le false inv
      obtain ⟨later, clean⟩ := ih (by omega) flushed.silent.inv
      refine ⟨carried.trans later, ?_⟩
      intro ch chLt
      rcases Nat.lt_succ_iff_lt_or_eq.mp chLt with below | rfl
      · exact clean ch below
      · apply later.cleanChan le
        intro off offLt dirty
        obtain ⟨slot, mem, -⟩ := cleaned off offLt dirty
        exact List.not_mem_nil mem

/-- `map_flush_all_caches` writes every dirty page. -/
theorem mapFlushAllCaches_carried (media : Media env) (rounds : env.conf.cap ≤ env.rounds)
    (inv : Inv env.conf state) :
    Carried env state (mapFlushAllCaches env state) ∧
      ∀ ch < env.conf.nch, CleanChan env.conf (mapFlushAllCaches env state) ch :=
  flushCaches_carried media rounds le_rfl inv

end OxCtrl.GlMap
