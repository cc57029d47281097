import OxCtrl.GlMap.Refinement

/-!
# Small tables on NVM

A page of the small table that is not marked in the tiny table must agree with its
NVM copy, or a flush leaves the copy behind.  The index that is marked when a mapping
page moves is computed from the index of the page among all channels; it is the index
of the small-table page that holds the entry on some geometries only.
-/

namespace OxCtrl.GlMap

open Lib

variable {env : Env} {conf : Conf} {state state' : State} {ch off idx page : Nat}

/-! ## Pages of the small table -/

theorem entLeft_le (conf : Conf) (page : Nat) : entLeft conf page ≤ conf.mdEntPerPg := by
  have mod := Nat.mod_lt conf.entries conf.mdEntPerPg_pos
  unfold entLeft
  split
  · exact le_rfl
  · split
    · exact le_rfl
    · omega

/-- A page of the small table holds entries of the table only. -/
theorem smallOff_lt (pageLt : page < conf.tinyEntries) (idxLt : idx < entLeft conf page) :
    page * conf.mdEntPerPg + idx < conf.entries := by
  have pos := conf.mdEntPerPg_pos
  have mod := Nat.div_add_mod conf.entries conf.mdEntPerPg
  have full : page + 1 ≤ conf.entries / conf.mdEntPerPg → idx < conf.mdEntPerPg →
      page * conf.mdEntPerPg + idx < conf.entries := by
    intro le idxLt
    have := Nat.mul_le_mul_left conf.mdEntPerPg le
    rw [Nat.mul_add, Nat.mul_one, Nat.mul_comm] at this
    omega
  unfold Conf.tinyEntries at pageLt
  unfold entLeft Conf.tinyEntries at idxLt
  by_cases exact : conf.entries % conf.mdEntPerPg = 0
  · simp only [exact, ne_eq, not_true_eq_false, if_false, Nat.add_zero, if_true, ite_self]
      at pageLt idxLt
    exact full pageLt idxLt
  · simp only [exact, ne_eq, not_false_eq_true, if_true, if_false, Nat.add_sub_cancel]
      at pageLt idxLt
    split at idxLt
    · exact full (by omega) idxLt
    · have last : page = conf.entries / conf.mdEntPerPg := by omega
      rw [last, Nat.mul_comm]
      omega

theorem smallOff_div (idxLt : idx < entLeft conf page) :
    (page * conf.mdEntPerPg + idx) / conf.mdEntPerPg = page := by
  have lt := idxLt.trans_le (entLeft_le conf page)
  rw [Nat.add_comm, Nat.add_mul_div_right _ _ conf.mdEntPerPg_pos, Nat.div_eq_of_lt lt,
    Nat.zero_add]

/-! ## Marks -/

/-- Changing the address of a page marks the small-table page that holds its entry. -/
def Aligned (conf : Conf) : Prop :=
  ∀ ch < conf.nch, ∀ off < conf.entries,
    markIndex conf ((oxbChMapCreate conf ch).tbl off).lba = off / conf.mdEntPerPg

/-- The index is right if there is one channel, or one page. -/
theorem aligned_iff (conf : Conf) :
    Aligned conf ↔ conf.nch = 1 ∨ conf.entries ≤ conf.mdEntPerPg := by
  constructor
  · intro aligned
    by_contra other
    obtain ⟨many, big⟩ := not_or.mp other
    have nchPos := conf.nch_pos
    have pos := conf.mdEntPerPg_pos
    have two : 2 ≤ conf.nch := by omega
    -- the page whose index among all channels is the number of entries of a page
    have offLt : conf.mdEntPerPg / conf.nch < conf.mdEntPerPg := Nat.div_lt_self pos two
    have wrong := aligned (conf.mdEntPerPg % conf.nch) (Nat.mod_lt _ nchPos)
      (conf.mdEntPerPg / conf.nch) (by omega)
    simp only [markIndex, oxbChMapCreate] at wrong
    rw [Nat.div_add_mod', Nat.mod_eq_of_lt (by omega), Nat.div_self pos,
      Nat.div_eq_of_lt offLt] at wrong
    omega
  · rintro (one | few) ch chLt off offLt
    · have first : ch = 0 := by omega
      simp [markIndex, oxbChMapCreate, one, first, Nat.mod_eq_of_lt offLt]
    · have mod : (off * conf.nch + ch) % conf.entries < conf.mdEntPerPg :=
        (Nat.mod_lt _ (by omega)).trans_le few
      rw [markIndex, oxbChMapCreate, Nat.div_eq_of_lt mod, Nat.div_eq_of_lt (by omega)]

/-- Small-table pages that are not marked agree with their NVM copies. -/
def SmallOk (conf : Conf) (state : State) : Prop :=
  ∀ ch < conf.nch, ∀ page < conf.tinyEntries,
    (state.chans ch).md.tinyDirty page = false → ∀ idx < entLeft conf page,
      state.nvm ((state.chans ch).md.tinyTbl page) idx =
        ⟨(page * conf.mdEntPerPg + idx) * conf.nch + ch,
          current state ch (page * conf.mdEntPerPg + idx)⟩

theorem Tracked.smallOk (tracked : Tracked conf state state') (aligned : Aligned conf)
    (ok : SmallOk conf state) : SmallOk conf state' := by
  intro ch chLt page pageLt clean idx idxLt
  have wasClean : (state.chans ch).md.tinyDirty page = false := by
    by_contra dirty
    rw [tracked.marked ch page (by simpa using dirty)] at clean
    contradiction
  have offLt := smallOff_lt pageLt idxLt
  rw [tracked.tinyTbl, tracked.small ch chLt page pageLt, ok ch chLt page pageLt wasClean idx idxLt]
  by_contra differ
  have moved : current state' ch (page * conf.mdEntPerPg + idx) ≠
      current state ch (page * conf.mdEntPerPg + idx) := by
    intro same
    exact differ (by rw [same])
  have marked := tracked.changed ch chLt _ offLt moved
  have index := aligned ch chLt _ offLt
  simp only [oxbChMapCreate] at index
  rw [index, smallOff_div idxLt, clean] at marked
  contradiction

/-! ## Flush of a small table -/

/-- What writing a page of a small table does. -/
structure SmallWritten (conf : Conf) (state state' : State) (ch page : Nat) : Prop where
  entry : ∀ other off, state'.entry other off = state.entry other off
  slot : ∀ other idx, state'.slot other idx = state.slot other idx
  lists : ∀ other, state'.lists other = state.lists other
  immut : ∀ other, (state'.chans other).md.immut = (state.chans other).md.immut
  nvm : ∀ addr, Live conf state addr → state'.nvm addr = state.nvm addr
  tinyTbl : ∀ other otherPage, (other, otherPage) ≠ (ch, page) →
    (state'.chans other).md.tinyTbl otherPage = (state.chans other).md.tinyTbl otherPage
  tinyDirty : ∀ other otherPage, (state'.chans other).md.tinyDirty otherPage =
    if (other, otherPage) = (ch, page) then false
    else (state.chans other).md.tinyDirty otherPage
  stored : state'.nvm ((state'.chans ch).md.tinyTbl page) =
    smallPage conf (state.chans ch).md page

/-- The tiny table gets the address of a page that was written. -/
def smallDone (state : State) (ch page addr : Nat) : State :=
  (state.invalidate ((state.chans ch).md.tinyTbl page)).setChan ch fun chan =>
    { chan with md := { chan.md with
        tinyTbl := Function.update chan.md.tinyTbl page addr
        tinyDirty := Function.update chan.md.tinyDirty page false } }

section

variable (state ch page) (other otherOff otherPage addr : Nat)

theorem entry_smallDone : (smallDone state ch page addr).entry other otherOff =
    state.entry other otherOff := by
  unfold smallDone State.invalidate
  split <;> by_cases same : other = ch <;> simp [State.entry, State.setChan, same]

theorem slot_smallDone : (smallDone state ch page addr).slot other idx = state.slot other idx := by
  unfold smallDone State.invalidate
  split <;> by_cases same : other = ch <;> simp [State.slot, State.setChan, same]

theorem lists_smallDone : (smallDone state ch page addr).lists other = state.lists other := by
  unfold smallDone State.invalidate
  split <;> by_cases same : other = ch <;> simp [State.lists, State.setChan, same]

theorem nvm_smallDone : (smallDone state ch page addr).nvm = state.nvm := by
  unfold smallDone State.invalidate
  split <;> rfl

theorem immut_smallDone : ((smallDone state ch page addr).chans other).md.immut =
    (state.chans other).md.immut := by
  unfold smallDone State.invalidate
  split <;> by_cases same : other = ch <;> simp [State.setChan, same]

theorem tinyTbl_smallDone : ((smallDone state ch page addr).chans other).md.tinyTbl otherPage =
    if (other, otherPage) = (ch, page) then addr else (state.chans other).md.tinyTbl otherPage := by
  unfold smallDone State.invalidate
  split <;> by_cases same : other = ch <;>
    simp [State.setChan, same, Function.update_apply]

theorem tinyDirty_smallDone : ((smallDone state ch page addr).chans other).md.tinyDirty otherPage =
    if (other, otherPage) = (ch, page) then false
    else (state.chans other).md.tinyDirty otherPage := by
  unfold smallDone State.invalidate
  split <;> by_cases same : other = ch <;>
    simp [State.setChan, same, Function.update_apply]

end

/-- A marked page is written at the first attempt, and the tiny table gets its address. -/
theorem flushSmall_stored (media : Media env) (pages : PagesOk env.conf state)
    (dirty : (state.chans ch).md.tinyDirty page = true) (left retry : Nat) :
    ∃ state', flushSmall env ch (left + 1) page (retry + 1) state =
        flushSmall env ch left (page + 1) (retry + 1) state' ∧
      SmallWritten env.conf state state' ch page ∧ (state'.chans ch).md.tinyTbl page ≠ 0 := by
  obtain ⟨addr, new, addrPos, -, fresh⟩ := media.fresh state pages
  refine ⟨smallDone (state.writePage addr (smallPage env.conf (state.chans ch).md page)
    ⟨.mapMd, env.conf.tinyEntries * ch + page, addr, (state.chans ch).md.tinyTbl page⟩) ch page
    addr, ?_, ?_, ?_⟩
  · simp [flushSmall, dirty, writeSmall, oxbChMapNvmWrite, new, smallDone]
  · refine ⟨?_, ?_, ?_, ?_, ?_, ?_, ?_, ?_⟩
    · simp [entry_smallDone]
    · simp [slot_smallDone]
    · simp [lists_smallDone]
    · simp [immut_smallDone]
    · intro live isLive
      rw [nvm_smallDone, State.nvm_writePage, if_neg]
      rintro rfl
      exact fresh isLive
    · intro other otherPage differ
      rw [tinyTbl_smallDone, if_neg differ, State.md_writePage]
    · intro other otherPage
      rw [tinyDirty_smallDone, State.md_writePage]
    · rw [tinyTbl_smallDone, if_pos rfl, nvm_smallDone, State.nvm_writePage, if_pos rfl]
  · rw [tinyTbl_smallDone, if_pos rfl]
    exact addrPos

namespace SmallWritten

variable (written : SmallWritten conf state state' ch page)
include written

theorem current_eq (other otherOff : Nat) :
    current state' other otherOff = current state other otherOff := by
  simp only [current, written.entry, written.slot]

theorem inv (inv : Inv conf state) : Inv conf state' := by
  refine ⟨inv.pages.congr written.entry written.slot written.nvm, ?_⟩
  intro other otherLt
  exact (inv.lists other otherLt).congr (written.lists other)
    (fun otherOff => by rw [written.entry]) (fun idx _ => written.slot other idx)

theorem snapshot {other : Nat} (snapshot : Snapshot conf state other) :
    Snapshot conf state' other := by
  intro off offLt
  rw [written.immut, written.current_eq]
  exact snapshot off offLt

theorem smallOk (snapshot : Snapshot conf state ch) (ok : SmallOk conf state) :
    SmallOk conf state' := by
  intro other otherLt otherPage pageLt clean idx idxLt
  rw [written.current_eq]
  by_cases same : (other, otherPage) = (ch, page)
  · obtain ⟨rfl, rfl⟩ := Prod.mk.inj same
    rw [written.stored, smallPage, if_pos idxLt]
    exact snapshot _ (smallOff_lt pageLt idxLt)
  · rw [written.tinyDirty, if_neg same] at clean
    rw [written.tinyTbl _ _ same, written.nvm _ ⟨other, otherLt, Or.inr ⟨otherPage, pageLt, rfl⟩⟩]
    exact ok other otherLt otherPage pageLt clean idx idxLt

end SmallWritten

/-- What flushing small tables keeps. -/
structure SmallFlushed (conf : Conf) (state state' : State) : Prop where
  inv : Inv conf state'
  smallOk : SmallOk conf state'
  immut : ∀ ch, (state'.chans ch).md.immut = (state.chans ch).md.immut
  snapshot : ∀ ch, Snapshot conf state ch → Snapshot conf state' ch
  clean : ∀ ch page, (state.chans ch).md.tinyDirty page = false →
    (state'.chans ch).md.tinyDirty page = false

namespace SmallFlushed

theorem refl (inv : Inv conf state) (ok : SmallOk conf state) : SmallFlushed conf state state :=
  ⟨inv, ok, fun _ => rfl, fun _ snapshot => snapshot, fun _ _ clean => clean⟩

theorem trans {state'' : State} (first : SmallFlushed conf state state')
    (second : SmallFlushed conf state' state'') : SmallFlushed conf state state'' :=
  ⟨second.inv, second.smallOk, fun ch => (second.immut ch).trans (first.immut ch),
    fun ch snapshot => second.snapshot ch (first.snapshot ch snapshot),
    fun ch page clean => second.clean ch page (first.clean ch page clean)⟩

end SmallFlushed

theorem SmallWritten.flushed (written : SmallWritten conf state state' ch page)
    (inv : Inv conf state) (snapshot : Snapshot conf state ch) (ok : SmallOk conf state) :
    SmallFlushed conf state state' where
  inv := written.inv inv
  smallOk := written.smallOk snapshot ok
  immut := written.immut
  snapshot _ := written.snapshot
  clean other otherPage clean := by
    rw [written.tinyDirty]
    split
    · rfl
    · exact clean

/-- The loop of `oxb_ch_map_flush` writes every marked page, and no other. -/
theorem flushSmall_rule (media : Media env) {P : State → Prop}
    (pages : ∀ {state : State}, P state → PagesOk env.conf state)
    (write : ∀ {state state' : State} {page : Nat}, P state →
      (state.chans ch).md.tinyDirty page = true → SmallWritten env.conf state state' ch page →
      (state'.chans ch).md.tinyTbl page ≠ 0 → P state')
    (before : P state) (left retry : Nat) :
    ∃ state', flushSmall env ch left page (retry + 1) state = (state', 0) ∧ P state' ∧
      (∀ other, (state.chans ch).md.tinyDirty other = false →
        (state'.chans ch).md.tinyDirty other = false) ∧
      ∀ other, page ≤ other → other < page + left →
        (state'.chans ch).md.tinyDirty other = false := by
  induction left generalizing page state with
  | zero => exact ⟨state, rfl, before, fun _ clean => clean, fun other => by omega⟩
  | succ left ih =>
      obtain ⟨next, eq, holds, keeps, first⟩ : ∃ next,
          flushSmall env ch (left + 1) page (retry + 1) state =
            flushSmall env ch left (page + 1) (retry + 1) next ∧ P next ∧
          (∀ other, (state.chans ch).md.tinyDirty other = false →
            (next.chans ch).md.tinyDirty other = false) ∧
          (next.chans ch).md.tinyDirty page = false := by
        cases dirty : (state.chans ch).md.tinyDirty page with
        | false => exact ⟨state, by simp [flushSmall, dirty], before, fun _ clean => clean, dirty⟩
        | true =>
            obtain ⟨next, eq, written, stored⟩ := flushSmall_stored media (pages before) dirty
              left retry
            refine ⟨next, eq, write before dirty written stored, ?_, by simp [written.tinyDirty]⟩
            intro other clean
            rw [written.tinyDirty, clean, ite_self]
      obtain ⟨state', rest, restHolds, restKeeps, clean⟩ := @ih next (page + 1) holds
      refine ⟨state', eq.trans rest, restHolds, fun other was => restKeeps other (keeps other was),
        fun other ge lt => ?_⟩
      by_cases same : other = page
      · subst same
        exact restKeeps other first
      · exact clean other (by omega) (by omega)

/-- `oxb_ch_map_flush` leaves no page marked. -/
theorem oxbChMapFlush_spec (media : Media env) (inv : Inv env.conf state)
    (snapshot : Snapshot env.conf state ch) (ok : SmallOk env.conf state) :
    ∃ state', oxbChMapFlush env state ch = (state', 0) ∧ SmallFlushed env.conf state state' ∧
      ∀ page < env.conf.tinyEntries, (state'.chans ch).md.tinyDirty page = false := by
  obtain ⟨state', eq, flushed, -, clean⟩ := @flushSmall_rule env state ch 0 media
    (SmallFlushed env.conf state) (fun flushed => flushed.inv.pages) (by
      intro reached next page flushed _ written _
      exact flushed.trans (written.flushed flushed.inv (flushed.snapshot ch snapshot)
        flushed.smallOk)) (SmallFlushed.refl inv ok) env.conf.tinyEntries 255
  exact ⟨state', eq, flushed, fun page pageLt => clean page (Nat.zero_le _) (by omega)⟩

theorem flushMd_flushed (media : Media env) (inv : Inv env.conf state)
    (snapshot : Snapshot env.conf state ch) (ok : SmallOk env.conf state) :
    SmallFlushed env.conf state (flushMd env ch appFlushRetry state) := by
  obtain ⟨state', eq, flushed, -⟩ := oxbChMapFlush_spec media inv snapshot ok
  simpa [flushMd, appFlushRetry, eq] using flushed

theorem flushMds_flushed (media : Media env) {left : Nat} (inv : Inv env.conf state)
    (snapshot : ∀ other, ch ≤ other → other < ch + left → Snapshot env.conf state other)
    (ok : SmallOk env.conf state) : SmallFlushed env.conf state (flushMds env left ch state) := by
  induction left generalizing ch state with
  | zero => exact SmallFlushed.refl inv ok
  | succ left ih =>
      have flushed := flushMd_flushed media inv (snapshot ch le_rfl (by omega)) ok
      exact flushed.trans (ih flushed.inv (fun other ge lt =>
        flushed.snapshot other (snapshot other (by omega) (by omega))) flushed.smallOk)

/-! ## Runs -/

/-- Operations on the mapping, with the relocation of mapping pages and checkpoints. -/
inductive MdOp where
  | map (op : MapOp)
  | upsertMd (index newPpa oldPpa : Nat)
  | checkpoint
  deriving DecidableEq, Repr

/-- The mapping with its small tables as a system. -/
def mdSystem (env : Env) : System State MdOp Unit where
  step
    | state, .map op => (((mapSystem env).step state op).1, ())
    | state, .upsertMd index newPpa oldPpa => ((mapUpsertMd env state index newPpa oldPpa).1, ())
    | state, .checkpoint => (checkpointMap env state, ())

/-- The page at an address is the mapping page with an index. -/
def IsMapPage (conf : Conf) (state : State) (index addr : Nat) : Prop :=
  addr < mapAddrFlag ∧
    ∀ idx < conf.entPerPg, (state.nvm addr idx).lba = index * conf.entPerPg + idx

/-- Covered LBAs; a relocated mapping page is not cached, and its copy is at the new
address. -/
def MdOp.Admissible (conf : Conf) (state : State) : MdOp → Prop
  | .map op => op.Covered conf
  | .upsertMd index newPpa _ => IsMapPage conf state index newPpa ∧
      addrFlag (state.entry (index % conf.nch) (index / conf.nch % 2 ^ 32)).ppa = false
  | .checkpoint => True

/-- Invariant of the mapping with its small tables. -/
structure MdInv (conf : Conf) (state : State) : Prop where
  inv : Inv conf state
  smallOk : SmallOk conf state

theorem Silent.mdInv (silent : Silent conf state state') (aligned : Aligned conf)
    (mdInv : MdInv conf state) : MdInv conf state' :=
  ⟨silent.inv, silent.tracked.smallOk aligned mdInv.smallOk⟩

theorem tracked_updateEntry {slot lba ppa : Nat} :
    Tracked conf state (updateEntry state ch slot idx lba ppa) := by
  refine Tracked.congr ?_ ?_ ?_ ?_ ?_
  · simp [updateEntry]
  · intro other otherSlot
    rw [slot_updateEntry]
    split
    · rename_i same
      obtain ⟨rfl, rfl⟩ := same
      rfl
    · rfl
  · simp [updateEntry]
  · simp [updateEntry]
  · simp [updateEntry]

theorem mapUpsert_tracked {lba ppa oldCaller : Nat} (media : Media env)
    (covered : Covered env.conf lba) (inv : Inv env.conf state) :
    Inv env.conf (mapUpsert env state lba ppa oldCaller).1 ∧
      Tracked env.conf state (mapUpsert env state lba ppa oldCaller).1 := by
  obtain ⟨found, slot, eq, silent, holds⟩ := mapGetCacheEntry_spec media inv covered
  simp only [mapUpsert, eq]
  split
  · exact ⟨silent.inv, silent.tracked⟩
  · rename_i same
    have lbaEq : ((found.slot (chMap env.conf lba) slot).buf (entOff env.conf lba)).lba =
        firstLba env.conf (chMap env.conf lba) (pgOff env.conf lba) + entOff env.conf lba :=
      (silent.inv.pages.slotOk holds).lba _ (entOff_lt env.conf lba)
    split
    · exact ⟨silent.inv, silent.tracked⟩
    · exact ⟨inv_updateEntry silent.inv holds lbaEq, silent.tracked.trans tracked_updateEntry⟩

theorem mapRead_silent {lba : Nat} (media : Media env) (covered : Covered env.conf lba)
    (inv : Inv env.conf state) : Silent env.conf state (mapRead env state lba).1 := by
  obtain ⟨found, slot, eq, silent, holds⟩ := mapGetCacheEntry_spec media inv covered
  simp only [mapRead, eq]
  split <;> exact silent

/-- Every operation on the mapping marks the pages that it moves. -/
theorem mapSystem_tracked (media : Media env) {op : MapOp} (covered : op.Covered env.conf)
    (inv : Inv env.conf state) : Inv env.conf ((mapSystem env).step state op).1 ∧
      Tracked env.conf state ((mapSystem env).step state op).1 := by
  cases op with
  | upsert lba ppa oldCaller => exact mapUpsert_tracked media covered inv
  | read lba =>
      have silent := mapRead_silent media covered inv
      exact ⟨silent.inv, silent.tracked⟩
  | flush =>
      have silent := mapFlushAllCaches_silent media inv
      exact ⟨silent.inv, silent.tracked⟩

theorem silent_invalidate (inv : Inv conf state) (old : Nat) :
    Silent conf state (state.invalidate old) := by
  refine ⟨⟨inv.pages.congr (by simp) (by simp) (by simp), ?_⟩, ?_, ?_⟩
  · intro other otherLt
    exact (inv.lists other otherLt).congr (by simp) (by simp) (by simp)
  · intro other otherLt otherOff otherOffLt idx _
    have same : view (state.invalidate old) other otherOff = view state other otherOff :=
      view_congr otherLt otherOffLt (by simp) (by simp) (by simp)
    rw [same]
  · exact Tracked.congr (by simp) (by simp) (by simp) (by simp) (by simp)

/-- The uncached branch of `map_upsert_md`. -/
def relocated (conf : Conf) (state : State) (ch off newPpa : Nat) : State :=
  (oxbChMapMark state ch (markIndex conf (off * conf.nch + ch))).setPpa ch off newPpa

theorem entry_relocated (other otherOff newPpa : Nat) :
    (relocated conf state ch off newPpa).entry other otherOff =
      if other = ch ∧ otherOff = off then { state.entry ch off with ppa := newPpa }
      else state.entry other otherOff := by
  simp [relocated, State.entry_setPpa]

theorem inv_relocated {newPpa : Nat} (inv : Inv conf state)
    (uncached : addrFlag (state.entry ch off).ppa = false)
    (isPage : IsMapPage conf state (off * conf.nch + ch) newPpa) :
    Inv conf (relocated conf state ch off newPpa) := by
  refine ⟨?_, ?_⟩
  · intro other otherLt otherOff otherOffLt
    have page := inv.pages other otherLt otherOff otherOffLt
    by_cases same : other = ch ∧ otherOff = off
    · obtain ⟨rfl, rfl⟩ := same
      refine ⟨?_, ?_, ?_⟩ <;> rw [entry_relocated, if_pos ⟨rfl, rfl⟩]
      · exact page.lba
      · intro flag
        rw [addrFlag_eq_false.mpr isPage.1] at flag
        contradiction
      · intro _ _
        exact isPage.2
    · refine ⟨?_, ?_, ?_⟩ <;> rw [entry_relocated, if_neg same]
      · exact page.lba
      · intro flag
        obtain ⟨found, eq, foundOk⟩ := page.cached flag
        refine ⟨found, eq, foundOk.below, ?_, ?_, ?_, ?_⟩ <;>
          simp only [relocated, State.slot_setPpa, slot_oxbChMapMark, State.nvm_setPpa,
            nvm_oxbChMapMark]
        · exact foundOk.mdEntry
        · exact foundOk.lba
        · exact foundOk.ppa_lt
        · exact foundOk.clean
      · exact page.stored
  · intro other otherLt
    have ok := inv.lists other otherLt
    have lists : (relocated conf state ch off newPpa).lists other = state.lists other := by
      simp [relocated]
    refine ⟨?_, ?_, ?_, ?_, ?_, ?_, ?_, ?_⟩ <;> rw [lists]
    · exact ok.nodup
    · exact ok.length
    · exact ok.nfree
    · exact ok.nused
    · exact ok.below
    · simpa [relocated] using ok.free
    · intro slot used
      obtain ⟨found, foundLt, eq⟩ := ok.used slot used
      refine ⟨found, foundLt, ?_⟩
      rw [entry_relocated, if_neg, eq]
      rintro ⟨rfl, rfl⟩
      rw [eq, addrFlag_add] at uncached
      contradiction
    · intro otherOff otherOffLt slot eq
      rw [entry_relocated] at eq
      split at eq
      · have below := isPage.1
        simp only at eq
        omega
      · exact ok.listed otherOff otherOffLt slot eq

theorem tracked_relocated {newPpa : Nat} :
    Tracked conf state (relocated conf state ch off newPpa) where
  tinyTbl := by simp [relocated]
  marked other page dirty := by simp [relocated, tinyDirty_oxbChMapMark, dirty]
  changed other _ otherOff _ differ := by
    have same : other = ch ∧ otherOff = off := by
      by_contra same
      refine differ ?_
      simp only [current, entry_relocated, if_neg same]
      simp [relocated]
    obtain ⟨rfl, rfl⟩ := same
    simp [relocated, tinyDirty_oxbChMapMark]
  small _ _ _ _ := by simp [relocated]

theorem mapUpsertMd_mdInv {index newPpa oldPpa : Nat} (aligned : Aligned env.conf)
    (isPage : IsMapPage env.conf state index newPpa)
    (uncached : addrFlag
      (state.entry (index % env.conf.nch) (index / env.conf.nch % 2 ^ 32)).ppa = false)
    (mdInv : MdInv env.conf state) :
    MdInv env.conf (mapUpsertMd env state index newPpa oldPpa).1 := by
  simp only [mapUpsertMd]
  split
  · exact mdInv
  · rename_i inTable
    split
    · exact mdInv
    · rename_i sameLba
      have page := mdInv.inv.pages (index % env.conf.nch) (Nat.mod_lt _ env.conf.nch_pos)
        (index / env.conf.nch % 2 ^ 32) (Nat.lt_of_not_ge inTable)
      have indexEq : index = index / env.conf.nch % 2 ^ 32 * env.conf.nch + index % env.conf.nch :=
        (not_not.mp sameLba).symm.trans page.lba
      simp only [uncached, Bool.false_eq_true, not_false_eq_true, if_true]
      split
      · exact (silent_invalidate mdInv.inv oldPpa).mdInv aligned mdInv
      · have moved : MdInv env.conf (relocated env.conf state (index % env.conf.nch)
            (index / env.conf.nch % 2 ^ 32) newPpa) :=
          ⟨inv_relocated mdInv.inv uncached (by rw [← indexEq]; exact isPage),
            tracked_relocated.smallOk aligned mdInv.smallOk⟩
        rw [relocated, ← indexEq] at moved
        exact (silent_invalidate moved.inv oldPpa).mdInv aligned moved

theorem checkpointMap_mdInv (media : Media env) (rounds : env.conf.cap ≤ env.rounds)
    (aligned : Aligned env.conf) (mdInv : MdInv env.conf state) :
    MdInv env.conf (checkpointMap env state) := by
  have silent := mapFlushAllCaches_silent media mdInv.inv
  have snapshot : ∀ ch, 0 ≤ ch → ch < 0 + env.conf.nch →
      Snapshot env.conf (mapFlushAllCaches env state) ch := fun ch _ chLt =>
    mapFlushAllCaches_snapshot media rounds mdInv.inv (by omega)
  have flushed := flushMds_flushed media silent.inv snapshot
    (silent.mdInv aligned mdInv).smallOk
  exact ⟨flushed.inv, flushed.smallOk⟩

theorem mdSystem_mdInv (media : Media env) (rounds : env.conf.cap ≤ env.rounds)
    (aligned : Aligned env.conf) (state : State) (op : MdOp)
    (admissible : op.Admissible env.conf state) (mdInv : MdInv env.conf state) :
    MdInv env.conf ((mdSystem env).step state op).1 := by
  cases op with
  | map op =>
      obtain ⟨inv, tracked⟩ := mapSystem_tracked media admissible mdInv.inv
      exact ⟨inv, tracked.smallOk aligned mdInv.smallOk⟩
  | upsertMd index newPpa oldPpa => exact mapUpsertMd_mdInv aligned admissible.1 admissible.2 mdInv
  | checkpoint => exact checkpointMap_mdInv media rounds aligned mdInv

theorem mapInit_mdInv (env : Env) : MdInv env.conf (mapInit env) :=
  ⟨(mapInit_represents env).inv, fun _ _ _ _ clean => by simp [mapInit, oxbChMapCreate] at clean⟩

/-- After every run, a checkpoint flush leaves no small-table page behind that differs
from its NVM copy. -/
def FlushComplete (env : Env) : Prop :=
  ∀ ops, (mdSystem env).Allowed (MdOp.Admissible env.conf) (mapInit env) ops →
    ∀ ch < env.conf.nch, ∀ page < env.conf.tinyEntries, ∀ idx < entLeft env.conf page,
      let copied := mapFlushAllCaches env ((mdSystem env).run (mapInit env) ops)
      let flushed := (oxbChMapFlush env copied ch).1
      flushed.nvm ((flushed.chans ch).md.tinyTbl page) idx =
        smallPage env.conf (copied.chans ch).md page idx

theorem flushComplete_of_aligned (media : Media env) (rounds : env.conf.cap ≤ env.rounds)
    (aligned : Aligned env.conf) : FlushComplete env := by
  intro ops allowed ch chLt page pageLt idx idxLt
  have mdInv := (mdSystem env).run_invariant (MdOp.Admissible env.conf) (MdInv env.conf)
    (mdSystem_mdInv media rounds aligned) (mapInit_mdInv env) allowed
  have silent := mapFlushAllCaches_silent media mdInv.inv
  have snapshot := mapFlushAllCaches_snapshot media rounds mdInv.inv chLt
  obtain ⟨state', eq, flushed, clean⟩ :=
    oxbChMapFlush_spec media silent.inv snapshot (silent.mdInv aligned mdInv).smallOk
  have offLt := smallOff_lt pageLt idxLt
  simp only [eq]
  rw [flushed.smallOk ch chLt page pageLt (clean page pageLt) idx idxLt, smallPage, if_pos idxLt,
    ← flushed.immut ch]
  exact (flushed.snapshot ch snapshot _ offLt).symm

/-- The index that is marked when the address of a mapping page changes is that of the
small-table page with its entry, and every flush is complete, exactly if there is one
channel or the small tables have one page. -/
theorem marks_own_page_iff (env : Env) (media : Media env) (rounds : env.conf.cap ≤ env.rounds) :
    Aligned env.conf ∧ FlushComplete env ↔
      env.conf.nch = 1 ∨ env.conf.entries ≤ env.conf.mdEntPerPg := by
  rw [← aligned_iff]
  exact ⟨And.left, fun aligned => ⟨aligned, flushComplete_of_aligned media rounds aligned⟩⟩

/-- One channel with two small-table pages. -/
theorem marks_own_page_small :
    Aligned Conf.small ∧ FlushComplete ⟨.small, firstFit .small, fun _ => true, 1⟩ :=
  (marks_own_page_iff ⟨.small, firstFit .small, fun _ => true, 1⟩ (media_firstFit .small 1)
    (by decide)).mpr (by decide)

/-- Two channels, four mapping pages of one entry and two small-table pages each, one
cache entry. -/
def Conf.twoChannels : Conf where
  nch := 2
  entPerPg := 1
  entries := 4
  mdEntPerPg := 2
  cap := 1
  nch_pos := Nat.two_pos
  nch_lt := by decide
  entPerPg_pos := Nat.one_pos
  entPerPg_lt := by decide
  entries_lt := by decide
  mdEntPerPg_pos := Nat.two_pos
  cap_pos := Nat.one_pos
  cap_lt := one_lt_cap

/-- Page 1 of channel 0 has index 2, and index 1 is marked for it instead of 0.  After
a checkpoint and an upsert of LBA 2, which is on that page, a flush leaves the
small-table page 0 of the channel as it was. -/
theorem marks_other_page :
    markIndex Conf.twoChannels ((oxbChMapCreate Conf.twoChannels 0).tbl 1).lba ≠
        1 / Conf.twoChannels.mdEntPerPg ∧
      ¬ FlushComplete ⟨.twoChannels, firstFit .twoChannels, fun _ => true, 1⟩ := by
  refine ⟨by decide, fun complete => ?_⟩
  have stale := complete [.checkpoint, .map (.upsert 2 7 0)]
    ⟨trivial, show Covered Conf.twoChannels 2 by decide, trivial⟩ 0 (by decide)
      0 (by decide) 1 (by decide)
  revert stale
  decide

end OxCtrl.GlMap
