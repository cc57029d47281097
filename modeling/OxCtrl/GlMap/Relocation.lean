import OxCtrl.GlMap.Carried
import OxCtrl.GlMap.CacheRuns

/-!
# Relocated mapping pages

Garbage collection copies a mapping page and stores the new address with
`map_upsert_md`.  After a checkpoint and a restart the small table is read from NVM.  It
leads to a page only if the small-table page with its entry was marked, or agreed
already: a cached page that is clean gets no mark when it moves.
-/

namespace OxCtrl.GlMap

open Lib

variable {env : Env} {conf : Conf} {state state' state'' : State} {ch off slot page newPpa : Nat}

/-! ## A restart -/

/-- Address of a mapping page in the small table on NVM. -/
def storedPpa (conf : Conf) (state : State) (ch off : Nat) : Nat :=
  (state.nvm ((state.chans ch).md.tinyTbl (off / conf.mdEntPerPg)) (off % conf.mdEntPerPg)).ppa

/-- The small table of `app_init_map`: `oxb_ch_map_load` reads its pages, but a zero
address in the tiny table makes it a new one. -/
def appInitMap (conf : Conf) (state : State) (ch : Nat) : Nat → MapEntry :=
  let md := (state.chans ch).md
  if ∃ page < conf.tinyEntries, md.tinyTbl page = 0 then (oxbChMapCreate conf ch).tbl
  else fun off => state.nvm (md.tinyTbl (off / conf.mdEntPerPg)) (off % conf.mdEntPerPg)

theorem appInitMap_eq (filled : ∀ page < conf.tinyEntries, (state.chans ch).md.tinyTbl page ≠ 0) :
    (appInitMap conf state ch off).ppa = storedPpa conf state ch off := by
  have none : ¬ ∃ page < conf.tinyEntries, (state.chans ch).md.tinyTbl page = 0 := by
    rintro ⟨page, pageLt, zero⟩
    exact filled page pageLt zero
  rw [appInitMap, if_neg none, storedPpa]

/-- Pages of the small table that are not marked are on NVM. -/
def Filled (conf : Conf) (state : State) : Prop :=
  ∀ ch < conf.nch, ∀ page < conf.tinyEntries, (state.chans ch).md.tinyDirty page = false →
    (state.chans ch).md.tinyTbl page ≠ 0

theorem Filled.mono (filled : Filled conf state)
    (tinyTbl : ∀ ch, (state'.chans ch).md.tinyTbl = (state.chans ch).md.tinyTbl)
    (marked : ∀ ch page, (state.chans ch).md.tinyDirty page = true →
      (state'.chans ch).md.tinyDirty page = true) : Filled conf state' := by
  intro ch chLt page pageLt clean
  rw [tinyTbl]
  apply filled ch chLt page pageLt
  by_contra dirty
  rw [marked ch page (by simpa using dirty)] at clean
  contradiction

theorem div_lt_tinyEntries (offLt : off < conf.entries) :
    off / conf.mdEntPerPg < conf.tinyEntries := by
  have pos := conf.mdEntPerPg_pos
  have offMod := Nat.div_add_mod off conf.mdEntPerPg
  have mod := Nat.div_add_mod conf.entries conf.mdEntPerPg
  have le : off / conf.mdEntPerPg ≤ conf.entries / conf.mdEntPerPg := Nat.div_le_div_right offLt.le
  unfold Conf.tinyEntries
  by_cases exact : conf.entries % conf.mdEntPerPg = 0
  · rw [if_neg (not_not.mpr exact), Nat.add_zero]
    by_contra notLt
    have same : off / conf.mdEntPerPg = conf.entries / conf.mdEntPerPg := by omega
    rw [same] at offMod
    omega
  · rw [if_pos exact]
    omega

theorem mod_lt_entLeft (offLt : off < conf.entries) :
    off % conf.mdEntPerPg < entLeft conf (off / conf.mdEntPerPg) := by
  have pos := conf.mdEntPerPg_pos
  have modLt := Nat.mod_lt off pos
  have pageLt := div_lt_tinyEntries offLt
  unfold entLeft
  split
  · exact modLt
  · rename_i last
    split
    · exact modLt
    · rename_i uneven
      have full : conf.tinyEntries = conf.entries / conf.mdEntPerPg + 1 := by
        rw [Conf.tinyEntries, if_pos uneven]
      have same : off / conf.mdEntPerPg = conf.entries / conf.mdEntPerPg := by omega
      have offMod := Nat.div_add_mod off conf.mdEntPerPg
      have mod := Nat.div_add_mod conf.entries conf.mdEntPerPg
      rw [same] at offMod
      omega

/-! ## Flush of the small tables -/

/-- What a flush of small tables does: a page is left alone, or it was marked and its
immutable copy is on NVM. -/
structure MdWritten (conf : Conf) (state state' : State) : Prop where
  inv : Inv conf state'
  immut : ∀ ch, (state'.chans ch).md.immut = (state.chans ch).md.immut
  current : ∀ ch off, current state' ch off = current state ch off
  page : ∀ ch < conf.nch, ∀ page < conf.tinyEntries,
    ((state'.chans ch).md.tinyDirty page = (state.chans ch).md.tinyDirty page ∧
      (state'.chans ch).md.tinyTbl page = (state.chans ch).md.tinyTbl page ∧
      state'.nvm ((state.chans ch).md.tinyTbl page) =
        state.nvm ((state.chans ch).md.tinyTbl page)) ∨
    (state.chans ch).md.tinyDirty page = true ∧ (state'.chans ch).md.tinyDirty page = false ∧
      (state'.chans ch).md.tinyTbl page ≠ 0 ∧
      state'.nvm ((state'.chans ch).md.tinyTbl page) = smallPage conf (state.chans ch).md page

namespace MdWritten

theorem refl (inv : Inv conf state) : MdWritten conf state state :=
  ⟨inv, fun _ => rfl, fun _ _ => rfl, fun _ _ _ _ => Or.inl ⟨rfl, rfl, rfl⟩⟩

theorem trans (first : MdWritten conf state state') (second : MdWritten conf state' state'') :
    MdWritten conf state state'' where
  inv := second.inv
  immut ch := (second.immut ch).trans (first.immut ch)
  current ch off := (second.current ch off).trans (first.current ch off)
  page ch chLt page pageLt := by
    have copy :
        smallPage conf (state'.chans ch).md page = smallPage conf (state.chans ch).md page := by
      unfold smallPage
      rw [first.immut ch]
    rcases first.page ch chLt page pageLt with ⟨dirty, tbl, nvm⟩ | ⟨dirty, clean, stored, written⟩
    · rcases second.page ch chLt page pageLt with ⟨later, laterTbl, laterNvm⟩ | ⟨was, laterPage⟩
      · refine Or.inl ⟨later.trans dirty, laterTbl.trans tbl, ?_⟩
        rw [← tbl, laterNvm, tbl, nvm]
      · rw [copy] at laterPage
        exact Or.inr ⟨dirty.symm.trans was, laterPage⟩
    · rcases second.page ch chLt page pageLt with ⟨later, laterTbl, laterNvm⟩ | ⟨was, -⟩
      · refine Or.inr ⟨dirty, later.trans clean, ?_, ?_⟩
        · rw [laterTbl]
          exact stored
        · rw [laterTbl, laterNvm, written]
      · rw [clean] at was
        contradiction

theorem clean (written : MdWritten conf state state') (chLt : ch < conf.nch)
    (pageLt : page < conf.tinyEntries) (clean : (state.chans ch).md.tinyDirty page = false) :
    (state'.chans ch).md.tinyDirty page = false := by
  rcases written.page ch chLt page pageLt with ⟨same, -⟩ | ⟨-, after, -⟩
  · exact same.trans clean
  · exact after

end MdWritten

theorem SmallWritten.mdWritten (written : SmallWritten conf state state' ch page)
    (inv : Inv conf state) (dirty : (state.chans ch).md.tinyDirty page = true)
    (stored : (state'.chans ch).md.tinyTbl page ≠ 0) : MdWritten conf state state' where
  inv := written.inv inv
  immut := written.immut
  current := written.current_eq
  page other otherLt otherPage pageLt := by
    by_cases same : (other, otherPage) = (ch, page)
    · obtain ⟨rfl, rfl⟩ := Prod.mk.inj same
      exact Or.inr ⟨dirty, by simp [written.tinyDirty], stored, written.stored⟩
    · refine Or.inl ⟨?_, written.tinyTbl _ _ same, ?_⟩
      · rw [written.tinyDirty, if_neg same]
      · exact written.nvm _ ⟨other, otherLt, Or.inr ⟨otherPage, pageLt, rfl⟩⟩

theorem flushMd_written (media : Media env) (inv : Inv env.conf state) (ch : Nat) :
    MdWritten env.conf state (flushMd env ch appFlushRetry state) ∧
      ∀ page < env.conf.tinyEntries,
        ((flushMd env ch appFlushRetry state).chans ch).md.tinyDirty page = false := by
  obtain ⟨state', eq, written, -, clean⟩ := @flushSmall_rule env state ch 0 media
    (MdWritten env.conf state) (fun written => written.inv.pages) (by
      intro reached next page before dirty written stored
      exact before.trans (written.mdWritten before.inv dirty stored))
    (MdWritten.refl inv) env.conf.tinyEntries 255
  have flushed : oxbChMapFlush env state ch = (state', 0) := eq
  simp only [flushMd, appFlushRetry, flushed]
  exact ⟨written, fun page pageLt => clean page (Nat.zero_le _) (by omega)⟩

theorem flushMds_written (media : Media env) {left : Nat} (inv : Inv env.conf state)
    (le : ch + left ≤ env.conf.nch) :
    MdWritten env.conf state (flushMds env left ch state) ∧
      ∀ other, ch ≤ other → other < ch + left → ∀ page < env.conf.tinyEntries,
        ((flushMds env left ch state).chans other).md.tinyDirty page = false := by
  induction left generalizing ch state with
  | zero => exact ⟨MdWritten.refl inv, fun other ge lt => by omega⟩
  | succ left ih =>
      obtain ⟨first, clean⟩ := flushMd_written media inv ch
      obtain ⟨rest, later⟩ := @ih _ (ch + 1) first.inv (by omega)
      refine ⟨first.trans rest, fun other ge lt page pageLt => ?_⟩
      by_cases same : other = ch
      · subst same
        exact rest.clean (by omega) pageLt (clean page pageLt)
      · exact later other (by omega) (by omega) page pageLt

/-- What a checkpoint does to the small tables. -/
theorem checkpointMap_written (media : Media env) (inv : Inv env.conf state) :
    MdWritten env.conf (mapFlushAllCaches env state) (checkpointMap env state) ∧
      ∀ ch < env.conf.nch, ∀ page < env.conf.tinyEntries,
        ((checkpointMap env state).chans ch).md.tinyDirty page = false := by
  have silent := mapFlushAllCaches_silent media inv
  obtain ⟨written, clean⟩ := @flushMds_written _ _ 0 media env.conf.nch silent.inv (by omega)
  exact ⟨written, fun ch chLt => clean ch (Nat.zero_le ch) (by omega)⟩

theorem filled_checkpointMap (media : Media env) (inv : Inv env.conf state)
    (filled : Filled env.conf state) (chLt : ch < env.conf.nch) :
    ∀ page < env.conf.tinyEntries,
      ((checkpointMap env state).chans ch).md.tinyTbl page ≠ 0 := by
  intro page pageLt
  have silent := mapFlushAllCaches_silent media inv
  obtain ⟨written, clean⟩ := checkpointMap_written media inv
  rcases written.page ch chLt page pageLt with ⟨same, tbl, -⟩ | ⟨-, -, stored, -⟩
  · rw [tbl]
    apply filled.mono silent.tracked.tinyTbl silent.tracked.marked ch chLt page pageLt
    rw [← same]
    exact clean ch chLt page pageLt
  · exact stored

/-- A checkpoint stores the addresses of the pages whose small-table page is marked by
then, and no others. -/
theorem storedPpa_checkpointMap (media : Media env) (rounds : env.conf.cap ≤ env.rounds)
    (inv : Inv env.conf state) (chLt : ch < env.conf.nch) (offLt : off < env.conf.entries) :
    storedPpa env.conf (checkpointMap env state) ch off =
      if ((mapFlushAllCaches env state).chans ch).md.tinyDirty (off / env.conf.mdEntPerPg) then
        current (checkpointMap env state) ch off
      else storedPpa env.conf state ch off := by
  have silent := mapFlushAllCaches_silent media inv
  have snapshot := mapFlushAllCaches_snapshot media rounds inv chLt
  have pageLt := div_lt_tinyEntries offLt
  obtain ⟨written, clean⟩ := checkpointMap_written media inv
  have after := clean ch chLt _ pageLt
  rcases written.page ch chLt _ pageLt with ⟨same, tbl, nvm⟩ | ⟨dirty, -, -, stored⟩
  · rw [← same, after, if_neg Bool.false_ne_true, storedPpa, tbl, nvm, silent.tracked.tinyTbl,
      silent.tracked.small ch chLt _ pageLt, storedPpa]
  · rw [dirty, if_pos rfl, storedPpa, stored, smallPage, if_pos (mod_lt_entLeft offLt),
      Nat.div_add_mod', snapshot off offLt, written.current]

/-! ## A checkpoint and a restart -/

/-- A page of the channel is dirty, and its index marks the small-table page. -/
def MarkedLater (conf : Conf) (state : State) (ch page : Nat) : Prop :=
  ∃ off < conf.entries, DirtyPage state ch off ∧ markIndex conf (off * conf.nch + ch) = page

instance (conf : Conf) (state : State) (ch page : Nat) :
    Decidable (MarkedLater conf state ch page) :=
  inferInstanceAs (Decidable (∃ off, off < _ ∧ _ ∧ _))

/-- The small-table pages that are marked when the caches have been flushed. -/
theorem mapFlushAllCaches_marked (media : Media env) (rounds : env.conf.cap ≤ env.rounds)
    (inv : Inv env.conf state) (chLt : ch < env.conf.nch) :
    ((mapFlushAllCaches env state).chans ch).md.tinyDirty page = true ↔
      (state.chans ch).md.tinyDirty page = true ∨ MarkedLater env.conf state ch page := by
  obtain ⟨carried, clean⟩ := mapFlushAllCaches_carried media rounds inv
  constructor
  · exact carried.marks ch chLt page
  · rintro (before | ⟨off, offLt, dirty, rfl⟩)
    · exact carried.tracked.marked ch page before
    · rcases carried.dirty ch chLt off offLt dirty with ⟨still, -⟩ | ⟨-, -, marked⟩
      · exact absurd still (clean ch chLt off offLt)
      · exact marked

/-- A checkpoint leaves the clean pages where they are, and writes the dirty ones. -/
theorem current_checkpointMap (media : Media env) (rounds : env.conf.cap ≤ env.rounds)
    (inv : Inv env.conf state) (chLt : ch < env.conf.nch) (offLt : off < env.conf.entries) :
    (¬ DirtyPage state ch off ∧ current (checkpointMap env state) ch off = current state ch off) ∨
      DirtyPage state ch off ∧
        ∃ earlier, env.newFn earlier = some (current (checkpointMap env state) ch off) := by
  obtain ⟨carried, clean⟩ := mapFlushAllCaches_carried media rounds inv
  rw [(checkpointMap_written media inv).1.current]
  by_cases dirty : DirtyPage state ch off
  · rcases carried.dirty ch chLt off offLt dirty with ⟨still, -⟩ | ⟨-, handed, -⟩
    · exact absurd still (clean ch chLt off offLt)
    · exact Or.inr ⟨dirty, handed⟩
  · exact Or.inl ⟨dirty, (carried.clean ch chLt off offLt dirty).2⟩

/-- After a checkpoint, with any provisioning, and a restart the small table leads to the
page, which is where it was or, if it was dirty, where provisioning had it written. -/
def Reloaded (env : Env) (state : State) (ch off : Nat) : Prop :=
  ∀ newFn, Media { env with newFn := newFn } →
    let after := checkpointMap { env with newFn := newFn } state
    (appInitMap env.conf after ch off).ppa = current after ch off ∧
      (current after ch off = current state ch off ∨
        DirtyPage state ch off ∧ ∃ earlier, newFn earlier = some (current after ch off))

/-- The small-table page of a mapping page is marked, or it will be for a dirty page, or
it leads to the page already. -/
def Reaches (conf : Conf) (state : State) (ch off : Nat) : Prop :=
  (state.chans ch).md.tinyDirty (off / conf.mdEntPerPg) = true ∨
    MarkedLater conf state ch (off / conf.mdEntPerPg) ∨
    ¬ DirtyPage state ch off ∧ storedPpa conf state ch off = current state ch off

theorem reloaded_of_reaches (rounds : env.conf.cap ≤ env.rounds) (inv : Inv env.conf state)
    (filled : Filled env.conf state) (chLt : ch < env.conf.nch) (offLt : off < env.conf.entries)
    (reaches : Reaches env.conf state ch off) : Reloaded env state ch off := by
  intro newFn media
  have moved := @current_checkpointMap { env with newFn := newFn } _ _ _ media rounds inv chLt offLt
  have stored :=
    @storedPpa_checkpointMap { env with newFn := newFn } _ _ _ media rounds inv chLt offLt
  have marked := @mapFlushAllCaches_marked { env with newFn := newFn } _ _
    (off / env.conf.mdEntPerPg) media rounds inv chLt
  refine ⟨?_, moved.imp And.right id⟩
  rw [appInitMap_eq (filled_checkpointMap media inv filled chLt)]
  refine stored.trans ?_
  split
  · rfl
  · rename_i unmarked
    rcases reaches with before | later | ⟨clean, same⟩
    · exact absurd (marked.mpr (Or.inl before)) unmarked
    · exact absurd (marked.mpr (Or.inr later)) unmarked
    · rcases moved with ⟨-, stays⟩ | ⟨dirty, -⟩
      · exact same.trans stays.symm
      · exact absurd dirty clean

/-- Provisioning that hands out the first address that is neither in use nor `avoided`. -/
def fitAvoiding (conf : Conf) (avoided : Nat) (state : State) : Option Nat :=
  (List.range' 1 ((avoided :: livePages conf state).length + 1)).find?
    (· ∉ avoided :: livePages conf state)

theorem fitAvoiding_ne {avoided addr : Nat} (handed : fitAvoiding conf avoided state = some addr) :
    addr ≠ avoided := by
  have unused := List.find?_some handed
  simp only [List.mem_cons, not_or, decide_eq_true_eq] at unused
  exact unused.1

theorem media_fitAvoiding (media : Media env) (avoided : Nat) :
    Media { env with newFn := fitAvoiding env.conf avoided } := by
  refine ⟨fun state _ => ?_, media.reads⟩
  have bound := length_livePages_lt env.conf state
  obtain ⟨addr, eq, addrPos, addrLt, unused⟩ :=
    @exists_fit (avoided :: livePages env.conf state) (by rw [List.length_cons]; omega)
  refine ⟨addr, eq, addrPos, addrLt, fun live => unused ?_⟩
  exact List.mem_cons_of_mem _ (mem_livePages.mpr live)

theorem reaches_of_reloaded (media : Media env) (rounds : env.conf.cap ≤ env.rounds)
    (inv : Inv env.conf state) (filled : Filled env.conf state) (chLt : ch < env.conf.nch)
    (offLt : off < env.conf.entries) (reloaded : Reloaded env state ch off) :
    Reaches env.conf state ch off := by
  by_contra stuck
  obtain ⟨unmarked, never, differs⟩ : (¬ (state.chans ch).md.tinyDirty
      (off / env.conf.mdEntPerPg) = true) ∧
      (¬ MarkedLater env.conf state ch (off / env.conf.mdEntPerPg)) ∧
      ¬ (¬ DirtyPage state ch off ∧ storedPpa env.conf state ch off = current state ch off) := by
    simpa only [Reaches, not_or] using stuck
  -- the address that stays behind is not handed out
  have avoiding := media_fitAvoiding media (storedPpa env.conf state ch off)
  have leads := (reloaded _ avoiding).1
  rw [appInitMap_eq (filled_checkpointMap avoiding inv filled chLt)] at leads
  have stays := storedPpa_checkpointMap avoiding rounds inv chLt offLt
  have marked := @mapFlushAllCaches_marked _ _ _ (off / env.conf.mdEntPerPg) avoiding rounds inv
    chLt
  rw [if_neg fun now => (marked.mp now).elim unmarked never] at stays
  rw [stays] at leads
  rcases current_checkpointMap avoiding rounds inv chLt offLt with ⟨clean, same⟩ | ⟨-, _, handed⟩
  · exact differs ⟨clean, leads.trans same⟩
  · exact fitAvoiding_ne handed leads.symm

/-- A checkpoint and a restart lead to a page exactly if its small-table page is marked,
or will be, or leads to it already. -/
theorem reloaded_iff (media : Media env) (rounds : env.conf.cap ≤ env.rounds)
    (inv : Inv env.conf state) (filled : Filled env.conf state) (chLt : ch < env.conf.nch)
    (offLt : off < env.conf.entries) :
    Reloaded env state ch off ↔ Reaches env.conf state ch off :=
  ⟨reaches_of_reloaded media rounds inv filled chLt offLt,
    reloaded_of_reaches rounds inv filled chLt offLt⟩

/-! ## Moving a page -/

/-- Garbage collection writes the copy of a mapping page. -/
def copyPage (state : State) (newPpa oldPpa : Nat) : State :=
  { state with
    nvm := Function.update state.nvm newPpa (state.nvm oldPpa)
    writes := state.writes + 1 }

/-- `block_gc_proc_mapping_pg` with the page that provisioning has handed out: a copy
that `map_upsert_md` refuses is invalidated. -/
def blockGcProcMappingPg (env : Env) (state : State) (lba newPpa oldPpa : Nat) : State × Int :=
  match mapUpsertMd env (copyPage state newPpa oldPpa) lba newPpa oldPpa with
  | (state, ret) => if 0 < ret then (state.invalidate newPpa, 0) else (state, ret)

/-- Channel of a mapping page in `map_upsert_md`. -/
def mdCh (conf : Conf) (index : Nat) : Nat :=
  index % conf.nch

/-- Offset of a mapping page in `map_upsert_md`. -/
def mdOff (conf : Conf) (index : Nat) : Nat :=
  index / conf.nch % 2 ^ 32

theorem mdCh_lt (conf : Conf) (index : Nat) : mdCh conf index < conf.nch :=
  Nat.mod_lt _ conf.nch_pos

/-- The update of a cached page in `map_upsert_md`. -/
def movedSlot (state : State) (ch slot newPpa : Nat) : State :=
  state.setSlot ch slot fun entry => { entry with ppa := newPpa }

/-- What `map_upsert_md` does and returns: it refuses, or it stores the new address in the
table, or in the cache entry. -/
inductive MdUpserted (conf : Conf) (state : State) (index newPpa oldPpa : Nat) :
    State × Int → Prop
  | refused {ret : Int} (failed : ret ≠ 0) : MdUpserted conf state index newPpa oldPpa (state, ret)
  | stale {ret : Int} (failed : ret ≠ 0) :
      MdUpserted conf state index newPpa oldPpa (state.invalidate oldPpa, ret)
  | table (offLt : mdOff conf index < conf.entries)
      (indexEq : index = mdOff conf index * conf.nch + mdCh conf index)
      (same : current state (mdCh conf index) (mdOff conf index) = oldPpa)
      (uncached : addrFlag (state.entry (mdCh conf index) (mdOff conf index)).ppa = false) :
      MdUpserted conf state index newPpa oldPpa
        ((relocated conf state (mdCh conf index) (mdOff conf index) newPpa).invalidate oldPpa, 0)
  | cached (slot : Nat) (holds : Holds conf state (mdCh conf index) (mdOff conf index) slot)
      (indexEq : index = mdOff conf index * conf.nch + mdCh conf index)
      (same : current state (mdCh conf index) (mdOff conf index) = oldPpa) :
      MdUpserted conf state index newPpa oldPpa
        ((movedSlot state (mdCh conf index) slot newPpa).invalidate oldPpa, 0)

/-- `map_upsert_md`, branch by branch. -/
theorem mapUpsertMd_eq (env : Env) (state : State) (index newPpa oldPpa : Nat) :
    mapUpsertMd env state index newPpa oldPpa =
      let ch := mdCh env.conf index
      let off := mdOff env.conf index
      let slot := addrPtr (state.entry ch off).ppa
      if env.conf.entries ≤ off then (state, -1)
      else if (state.entry ch off).lba ≠ index then (state, -1)
      else if addrFlag (state.entry ch off).ppa = true then
        if (state.slot ch slot).ppa ≠ oldPpa then (state.invalidate oldPpa, 2)
        else ((movedSlot state ch slot newPpa).invalidate oldPpa, 0)
      else if (state.entry ch off).ppa ≠ oldPpa then (state.invalidate oldPpa, 1)
      else (((oxbChMapMark state ch (markIndex env.conf index)).setPpa ch off newPpa).invalidate
        oldPpa, 0) := by
  unfold mapUpsertMd mdCh mdOff movedSlot
  dsimp only
  congr 2
  split <;> rename_i flag
  · split <;> rfl
  · rw [if_pos (not_not.mp flag)]
    split <;> rfl

theorem mapUpsertMd_upserted (env : Env) (inv : Inv env.conf state) (index newPpa oldPpa : Nat) :
    MdUpserted env.conf state index newPpa oldPpa
      (mapUpsertMd env state index newPpa oldPpa) := by
  have chLt := mdCh_lt env.conf index
  rw [mapUpsertMd_eq]
  dsimp only
  split
  · exact .refused (by decide)
  · rename_i inTable
    have offLt : mdOff env.conf index < env.conf.entries := Nat.lt_of_not_ge inTable
    have page := inv.pages _ chLt _ offLt
    split
    · exact .refused (by decide)
    · rename_i sameLba
      have indexEq := (not_not.mp sameLba).symm.trans page.lba
      split
      · rename_i flag
        obtain ⟨slot, eq, slotOk⟩ := page.cached flag
        have holds : Holds env.conf state _ _ slot := ⟨chLt, offLt, eq⟩
        rw [eq, slotOk.addrPtr_eq]
        split
        · exact .stale (by decide)
        · rename_i same
          apply MdUpserted.cached slot holds indexEq
          rw [holds.current_eq inv.pages]
          exact not_not.mp same
      · rename_i flag
        split
        · exact .stale (by decide)
        · rename_i same
          have uncached := Bool.not_eq_true _ ▸ flag
          have moved := @MdUpserted.table env.conf state index newPpa oldPpa offLt indexEq
            (by simpa [current, uncached] using same) uncached
          rw [relocated, ← indexEq] at moved
          exact moved

/-- What a move that succeeds does. -/
structure Moved (conf : Conf) (state state' : State) (ch off newPpa : Nat) : Prop where
  inv : Inv conf state'
  nvm : state'.nvm = state.nvm
  tinyTbl : ∀ other, (state'.chans other).md.tinyTbl = (state.chans other).md.tinyTbl
  tinyDirty : ∀ other page, (state'.chans other).md.tinyDirty page =
    (decide (other = ch ∧ page = markIndex conf (off * conf.nch + ch) ∧
      addrFlag (state.entry ch off).ppa = false) || (state.chans other).md.tinyDirty page)
  dirtyPage : ∀ other < conf.nch, ∀ otherOff < conf.entries,
    DirtyPage state' other otherOff ↔ DirtyPage state other otherOff
  current : current state' ch off = newPpa

theorem moved_relocated (inv : Inv conf state) (chLt : ch < conf.nch) (offLt : off < conf.entries)
    (uncached : addrFlag (state.entry ch off).ppa = false) (newLt : newPpa < mapAddrFlag)
    (stored : (state.entry ch off).ppa ≠ 0)
    (copied : state.nvm newPpa = state.nvm (state.entry ch off).ppa) :
    Moved conf state (relocated conf state ch off newPpa) ch off newPpa := by
  have isPage : IsMapPage conf state (off * conf.nch + ch) newPpa := by
    refine ⟨newLt, fun idx idxLt => ?_⟩
    rw [copied]
    exact (inv.pages ch chLt off offLt).stored uncached stored idx idxLt
  refine ⟨inv_relocated inv uncached isPage, by simp [relocated], by simp [relocated], ?_, ?_, ?_⟩
  · intro other page
    simp [relocated, tinyDirty_oxbChMapMark, uncached]
  · intro other otherLt otherOff otherOffLt
    by_cases same : other = ch ∧ otherOff = off
    · obtain ⟨rfl, rfl⟩ := same
      simp [DirtyPage, entry_relocated, addrFlag_eq_false.mpr newLt, uncached]
    · apply (page_congr inv.pages otherLt otherOffLt _ _).1
      · rw [entry_relocated, if_neg same]
      · simp [relocated]
  · simp [current, entry_relocated, addrFlag_eq_false.mpr newLt]

theorem moved_movedSlot (inv : Inv conf state) (holds : Holds conf state ch off slot)
    (newPos : newPpa ≠ 0) (newLt : newPpa < mapAddrFlag)
    (copied : state.nvm newPpa = state.nvm (state.slot ch slot).ppa) :
    Moved conf state (movedSlot state ch slot newPpa) ch off newPpa := by
  have slotOk := inv.pages.slotOk holds
  have slotEq : (movedSlot state ch slot newPpa).slot ch slot =
      { state.slot ch slot with ppa := newPpa } := by
    rw [movedSlot, State.slot_setSlot, if_pos ⟨rfl, rfl⟩]
  have moved : SlotOk conf (movedSlot state ch slot newPpa) ch off slot := by
    refine ⟨slotOk.below, ?_, ?_, ?_, ?_⟩ <;> rw [slotEq]
    · exact slotOk.mdEntry
    · exact slotOk.lba
    · exact newLt
    · intro clean
      refine ⟨newPos, ?_⟩
      simp only [movedSlot, State.nvm_setSlot, copied]
      exact (slotOk.clean clean).2
  have movedInv : Inv conf (movedSlot state ch slot newPpa) := inv_setSlot inv holds moved
  have movedHolds : Holds conf (movedSlot state ch slot newPpa) ch off slot :=
    ⟨holds.ch_lt, holds.off_lt, by simpa [movedSlot] using holds.ppa⟩
  refine ⟨movedInv, by simp [movedSlot], by simp [movedSlot], ?_, ?_, ?_⟩
  · intro other page
    simp [movedSlot, holds.ppa, addrFlag_add]
  · intro other otherLt otherOff otherOffLt
    by_cases same : other = ch ∧ otherOff = off
    · obtain ⟨rfl, rfl⟩ := same
      rw [movedHolds.dirtyPage_iff movedInv.pages, holds.dirtyPage_iff inv.pages, slotEq]
    · apply (page_congr inv.pages otherLt otherOffLt _ _).1
      · simp [movedSlot]
      · intro found foundHolds
        rw [movedSlot, State.slot_setSlot, if_neg]
        rintro ⟨rfl, rfl⟩
        exact same ⟨rfl, inv.pages.off_unique foundHolds holds⟩
  · rw [movedHolds.current_eq movedInv.pages, slotEq]

theorem Moved.invalidate (moved : Moved conf state state' ch off newPpa) (old : Nat) :
    Moved conf state (state'.invalidate old) ch off newPpa where
  inv := (silent_invalidate moved.inv old).inv
  nvm := by rw [State.nvm_invalidate, moved.nvm]
  tinyTbl other := by rw [State.md_invalidate, moved.tinyTbl]
  tinyDirty other page := by rw [State.md_invalidate, moved.tinyDirty]
  dirtyPage other otherLt otherOff otherOffLt := by
    simp only [DirtyPage, State.entry_invalidate, State.slot_invalidate]
    exact moved.dirtyPage other otherLt otherOff otherOffLt
  current := by
    rw [← moved.current]
    simp only [GlMap.current, State.entry_invalidate, State.slot_invalidate]

/-- The copy of a mapping page is at the new address. -/
structure CopyAt (state : State) (newPpa oldPpa : Nat) : Prop where
  newPos : newPpa ≠ 0
  newLt : newPpa < mapAddrFlag
  oldPos : oldPpa ≠ 0
  nvm : state.nvm newPpa = state.nvm oldPpa

theorem MdUpserted.moved {index oldPpa : Nat} {result : State}
    (upserted : MdUpserted conf state index newPpa oldPpa (result, 0)) (inv : Inv conf state)
    (copied : CopyAt state newPpa oldPpa) :
    Moved conf state result (mdCh conf index) (mdOff conf index) newPpa := by
  generalize eq : (result, (0 : Int)) = returned at upserted
  cases upserted with
  | refused failed => exact absurd (congrArg Prod.snd eq).symm failed
  | stale failed => exact absurd (congrArg Prod.snd eq).symm failed
  | table offLt indexEq same uncached =>
      obtain rfl := congrArg Prod.fst eq
      have entry : (state.entry (mdCh conf index) (mdOff conf index)).ppa = oldPpa := by
        simpa [current, uncached] using same
      apply Moved.invalidate
      apply moved_relocated inv (mdCh_lt conf index) offLt uncached copied.newLt
      · rw [entry]
        exact copied.oldPos
      · rw [entry]
        exact copied.nvm
  | cached slot holds indexEq same =>
      obtain rfl := congrArg Prod.fst eq
      rw [holds.current_eq inv.pages] at same
      apply Moved.invalidate
      apply moved_movedSlot inv holds copied.newPos copied.newLt
      rw [same]
      exact copied.nvm

/-! ## Runs -/

/-- Operations on the mapping, moves of mapping pages and checkpoints. -/
inductive MoveOp where
  | map (op : MapOp)
  | move (index newPpa oldPpa : Nat)
  | checkpoint
  deriving DecidableEq, Repr

/-- The mapping with garbage collection as a system. -/
def moveSystem (env : Env) : System State MoveOp Unit where
  step
    | state, .map op => (((mapSystem env).step state op).1, ())
    | state, .move index newPpa oldPpa =>
        ((blockGcProcMappingPg env state index newPpa oldPpa).1, ())
    | state, .checkpoint => (checkpointMap env state, ())

instance (conf : Conf) (state : State) (addr : Nat) : Decidable (Live conf state addr) :=
  decidable_of_iff _ mem_livePages

/-- Provisioning has handed out a page that is not in use, and there is a page to move. -/
def FreshPage (conf : Conf) (state : State) (newPpa oldPpa : Nat) : Prop :=
  newPpa ≠ 0 ∧ newPpa < mapAddrFlag ∧ ¬ Live conf state newPpa ∧ oldPpa ≠ 0

instance (conf : Conf) (state : State) (newPpa oldPpa : Nat) :
    Decidable (FreshPage conf state newPpa oldPpa) :=
  inferInstanceAs (Decidable (_ ∧ _))

/-- Covered LBAs, and a fresh page for every move. -/
def MoveOp.Admissible (conf : Conf) (state : State) : MoveOp → Prop
  | .map op => op.Covered conf
  | .move _ newPpa oldPpa => FreshPage conf state newPpa oldPpa
  | .checkpoint => True

instance (conf : Conf) (state : State) (op : MoveOp) : Decidable (op.Admissible conf state) := by
  cases op <;> unfold MoveOp.Admissible <;> infer_instance

namespace FreshPage

variable {oldPpa : Nat} (fresh : FreshPage conf state newPpa oldPpa)
include fresh

theorem nvm_copyPage {addr : Nat} (live : Live conf state addr) :
    (copyPage state newPpa oldPpa).nvm addr = state.nvm addr := by
  apply Function.update_of_ne
  rintro rfl
  exact fresh.2.2.1 live

theorem inv_copyPage (inv : Inv conf state) : Inv conf (copyPage state newPpa oldPpa) := by
  constructor
  · exact inv.pages.congr (fun _ _ => rfl) (fun _ _ => rfl) fun _ live => fresh.nvm_copyPage live
  · intro ch chLt
    exact (inv.lists ch chLt).congr rfl (fun _ => rfl) fun _ _ => rfl

theorem copyAt : CopyAt (copyPage state newPpa oldPpa) newPpa oldPpa := by
  refine ⟨fresh.1, fresh.2.1, fresh.2.2.2, ?_⟩
  by_cases same : oldPpa = newPpa
  · rw [same]
  · simp [copyPage, Function.update_of_ne same]

theorem storedPpa_copyPage (chLt : ch < conf.nch) (offLt : off < conf.entries) :
    storedPpa conf (copyPage state newPpa oldPpa) ch off = storedPpa conf state ch off := by
  have live : Live conf state ((state.chans ch).md.tinyTbl (off / conf.mdEntPerPg)) :=
    ⟨ch, chLt, Or.inr ⟨_, div_lt_tinyEntries offLt, rfl⟩⟩
  exact congrArg (fun page => (page (off % conf.mdEntPerPg)).ppa) (fresh.nvm_copyPage live)

end FreshPage

/-- Invariant of the mapping and of its small tables. -/
structure TableInv (conf : Conf) (state : State) : Prop where
  inv : Inv conf state
  filled : Filled conf state

theorem TableInv.invalidate (tableInv : TableInv conf state) (old : Nat) :
    TableInv conf (state.invalidate old) where
  inv := (silent_invalidate tableInv.inv old).inv
  filled := tableInv.filled.mono (by simp) (by simp)

theorem Moved.tableInv (moved : Moved conf state state' ch off newPpa)
    (filled : Filled conf state) : TableInv conf state' :=
  ⟨moved.inv, filled.mono moved.tinyTbl fun other page dirty => by simp [moved.tinyDirty, dirty]⟩

theorem MdUpserted.tableInv {index oldPpa : Nat} {returned : State × Int}
    (upserted : MdUpserted conf state index newPpa oldPpa returned)
    (tableInv : TableInv conf state) (copied : CopyAt state newPpa oldPpa) :
    TableInv conf returned.1 := by
  cases upserted with
  | refused failed => exact tableInv
  | stale failed => exact tableInv.invalidate oldPpa
  | table offLt indexEq same uncached =>
      have moved := (MdUpserted.table offLt indexEq same uncached).moved tableInv.inv copied
      exact moved.tableInv tableInv.filled
  | cached slot holds indexEq same =>
      have moved := (MdUpserted.cached slot holds indexEq same).moved tableInv.inv copied
      exact moved.tableInv tableInv.filled

theorem blockGcProcMappingPg_tableInv {index oldPpa : Nat} (tableInv : TableInv env.conf state)
    (fresh : FreshPage env.conf state newPpa oldPpa) :
    TableInv env.conf (blockGcProcMappingPg env state index newPpa oldPpa).1 := by
  have copied : TableInv env.conf (copyPage state newPpa oldPpa) :=
    ⟨fresh.inv_copyPage tableInv.inv, tableInv.filled⟩
  have upserted := (mapUpsertMd_upserted env copied.inv index newPpa oldPpa).tableInv copied
    fresh.copyAt
  simp only [blockGcProcMappingPg]
  split
  · exact upserted.invalidate newPpa
  · exact upserted

theorem checkpointMap_tableInv (media : Media env) (tableInv : TableInv env.conf state) :
    TableInv env.conf (checkpointMap env state) where
  inv := (checkpointMap_written media tableInv.inv).1.inv
  filled _ chLt page pageLt _ :=
    filled_checkpointMap media tableInv.inv tableInv.filled chLt page pageLt

theorem moveSystem_tableInv (media : Media env) (state : State) (op : MoveOp)
    (admissible : op.Admissible env.conf state) (tableInv : TableInv env.conf state) :
    TableInv env.conf ((moveSystem env).step state op).1 := by
  cases op with
  | map op =>
      obtain ⟨inv, tracked⟩ := mapSystem_tracked media admissible tableInv.inv
      exact ⟨inv, tableInv.filled.mono tracked.tinyTbl tracked.marked⟩
  | move index newPpa oldPpa => exact blockGcProcMappingPg_tableInv tableInv admissible
  | checkpoint => exact checkpointMap_tableInv media tableInv

theorem mapInit_tableInv (env : Env) : TableInv env.conf (mapInit env) where
  inv := (mapInit_represents env).inv
  filled _ _ _ _ clean := by simp [mapInit, oxbChMapCreate] at clean

/-! ## Moves that succeed -/

theorem MdUpserted.inTable {index oldPpa : Nat} {result : State}
    (upserted : MdUpserted conf state index newPpa oldPpa (result, 0)) :
    mdOff conf index < conf.entries ∧
      index = mdOff conf index * conf.nch + mdCh conf index := by
  generalize eq : (result, (0 : Int)) = returned at upserted
  cases upserted with
  | refused failed => exact absurd (congrArg Prod.snd eq).symm failed
  | stale failed => exact absurd (congrArg Prod.snd eq).symm failed
  | table offLt indexEq same uncached => exact ⟨offLt, indexEq⟩
  | cached slot holds indexEq same => exact ⟨holds.off_lt, indexEq⟩

/-- `map_upsert_md` accepts the copy. -/
def MoveSucceeds (env : Env) (state : State) (index newPpa oldPpa : Nat) : Prop :=
  (mapUpsertMd env (copyPage state newPpa oldPpa) index newPpa oldPpa).2 = 0

instance (env : Env) (state : State) (index newPpa oldPpa : Nat) :
    Decidable (MoveSucceeds env state index newPpa oldPpa) :=
  inferInstanceAs (Decidable (_ = _))

theorem blockGcProcMappingPg_moved {index oldPpa : Nat} (inv : Inv env.conf state)
    (fresh : FreshPage env.conf state newPpa oldPpa)
    (succeeds : MoveSucceeds env state index newPpa oldPpa) :
    (mdOff env.conf index < env.conf.entries ∧
        index = mdOff env.conf index * env.conf.nch + mdCh env.conf index) ∧
      Moved env.conf (copyPage state newPpa oldPpa)
        (blockGcProcMappingPg env state index newPpa oldPpa).1 (mdCh env.conf index)
        (mdOff env.conf index) newPpa := by
  have copied := fresh.inv_copyPage inv
  have upserted := mapUpsertMd_upserted env copied index newPpa oldPpa
  obtain ⟨result, eq⟩ : ∃ result,
      mapUpsertMd env (copyPage state newPpa oldPpa) index newPpa oldPpa = (result, 0) :=
    ⟨_, Prod.ext rfl succeeds⟩
  rw [eq] at upserted
  have moved := upserted.moved copied fresh.copyAt
  simp only [blockGcProcMappingPg, eq, lt_self_iff_false, if_false]
  exact ⟨upserted.inTable, moved⟩

/-- Before a move: the small-table page of the mapping page is marked, or the move marks
it, or a dirty page will, or it leads to the new address already and the page is not
dirty. -/
def MoveReaches (conf : Conf) (state : State) (index newPpa : Nat) : Prop :=
  let ch := mdCh conf index
  let off := mdOff conf index
  let page := off / conf.mdEntPerPg
  (state.chans ch).md.tinyDirty page = true ∨
    (addrFlag (state.entry ch off).ppa = false ∧ markIndex conf index = page) ∨
    MarkedLater conf state ch page ∨
    ¬ DirtyPage state ch off ∧ storedPpa conf state ch off = newPpa

instance (conf : Conf) (state : State) (index newPpa : Nat) :
    Decidable (MoveReaches conf state index newPpa) :=
  inferInstanceAs (Decidable (_ ∨ _ ∨ _ ∨ _))

theorem reaches_moved_iff {index oldPpa : Nat} (inv : Inv env.conf state)
    (fresh : FreshPage env.conf state newPpa oldPpa)
    (succeeds : MoveSucceeds env state index newPpa oldPpa) :
    Reaches env.conf (blockGcProcMappingPg env state index newPpa oldPpa).1
        (mdCh env.conf index) (mdOff env.conf index) ↔
      MoveReaches env.conf state index newPpa := by
  obtain ⟨⟨offLt, indexEq⟩, moved⟩ := blockGcProcMappingPg_moved inv fresh succeeds
  have chLt := mdCh_lt env.conf index
  have later (page : Nat) : MarkedLater env.conf
      (blockGcProcMappingPg env state index newPpa oldPpa).1 (mdCh env.conf index) page ↔
        MarkedLater env.conf state (mdCh env.conf index) page := by
    apply exists_congr
    intro other
    apply and_congr_right
    intro otherLt
    rw [moved.dirtyPage _ chLt other otherLt]
    rfl
  have stored : storedPpa env.conf (blockGcProcMappingPg env state index newPpa oldPpa).1
      (mdCh env.conf index) (mdOff env.conf index) =
        storedPpa env.conf state (mdCh env.conf index) (mdOff env.conf index) := by
    rw [← fresh.storedPpa_copyPage chLt offLt, storedPpa, moved.tinyTbl, moved.nvm, storedPpa]
  have dirty : DirtyPage (blockGcProcMappingPg env state index newPpa oldPpa).1
      (mdCh env.conf index) (mdOff env.conf index) ↔
        DirtyPage state (mdCh env.conf index) (mdOff env.conf index) :=
    moved.dirtyPage _ chLt _ offLt
  rw [Reaches, MoveReaches, later, stored, moved.current, moved.tinyDirty, ← indexEq, dirty]
  simp only [Bool.or_eq_true, decide_eq_true_eq, true_and]
  constructor
  · rintro ((⟨mark, uncached⟩ | before) | rest)
    · exact Or.inr (Or.inl ⟨uncached, mark.symm⟩)
    · exact Or.inl before
    · exact Or.inr (Or.inr rest)
  · rintro (before | ⟨uncached, mark⟩ | rest)
    · exact Or.inl (Or.inr before)
    · exact Or.inl (Or.inl ⟨mark.symm, uncached⟩)
    · exact Or.inr rest

/-- In every run, a move that succeeds stores the new address, and a checkpoint and a
restart lead to it, or to where the checkpoint wrote the page, exactly if the move
reaches the small table.  If other operations follow the move, they do exactly if the
state before the checkpoint reaches it. -/
theorem move_reloaded_iff (env : Env) (media : Media env) (rounds : env.conf.cap ≤ env.rounds)
    (before : List MoveOp) (index newPpa oldPpa : Nat)
    (allowed : (moveSystem env).Allowed (MoveOp.Admissible env.conf) (mapInit env) before)
    (fresh : FreshPage env.conf ((moveSystem env).run (mapInit env) before) newPpa oldPpa)
    (succeeds :
      MoveSucceeds env ((moveSystem env).run (mapInit env) before) index newPpa oldPpa) :
    let state := (moveSystem env).run (mapInit env) before
    let moved := (blockGcProcMappingPg env state index newPpa oldPpa).1
    let ch := mdCh env.conf index
    let off := mdOff env.conf index
    current moved ch off = newPpa ∧
      (Reloaded env moved ch off ↔ MoveReaches env.conf state index newPpa) ∧
      ∀ after, (moveSystem env).Allowed (MoveOp.Admissible env.conf) moved after →
        (Reloaded env ((moveSystem env).run moved after) ch off ↔
          Reaches env.conf ((moveSystem env).run moved after) ch off) := by
  intro state moved ch off
  have tableInv : TableInv env.conf state := (moveSystem env).run_invariant
    (MoveOp.Admissible env.conf) (TableInv env.conf) (moveSystem_tableInv media)
    (mapInit_tableInv env) allowed
  have movedInv : TableInv env.conf moved := blockGcProcMappingPg_tableInv tableInv fresh
  obtain ⟨⟨offLt, -⟩, step⟩ := blockGcProcMappingPg_moved tableInv.inv fresh succeeds
  have chLt := mdCh_lt env.conf index
  refine ⟨step.current, ?_, fun after afterAllowed => ?_⟩
  · rw [reloaded_iff media rounds movedInv.inv movedInv.filled chLt offLt]
    exact reaches_moved_iff tableInv.inv fresh succeeds
  · have afterInv := (moveSystem env).run_invariant (MoveOp.Admissible env.conf)
      (TableInv env.conf) (moveSystem_tableInv media) movedInv afterAllowed
    exact reloaded_iff media rounds afterInv.inv afterInv.filled chLt offLt

/-- One channel with two cache entries and the first free address for every page. -/
def oneChannel : Env :=
  ⟨.twoEntries, firstFit .twoEntries, fun _ => true, 2⟩

/-- A page that is dirty when it moves. -/
theorem move_reloaded_dirty :
    Reloaded oneChannel (blockGcProcMappingPg oneChannel ((moveSystem oneChannel).run
      (mapInit oneChannel) [.map (.upsert 0 7 0), .checkpoint, .map (.upsert 1 8 0)]) 0 9 1).1
      0 0 :=
  (move_reloaded_iff oneChannel (media_firstFit .twoEntries 2) (by decide)
    [.map (.upsert 0 7 0), .checkpoint, .map (.upsert 1 8 0)] 0 9 1 (by decide) (by decide)
    (by decide)).2.1.mpr (by decide)

/-- A page that a checkpoint has left in the cache is clean when it moves from address 1
to 9.  The next checkpoint writes nothing, and after a restart the small table leads to
address 1. -/
theorem clean_page_stays_behind :
    let state := (moveSystem oneChannel).run (mapInit oneChannel)
      [.map (.upsert 0 7 0), .checkpoint]
    let moved := (blockGcProcMappingPg oneChannel state 0 9 1).1
    let after := checkpointMap oneChannel moved
    (moveSystem oneChannel).Allowed (MoveOp.Admissible oneChannel.conf) (mapInit oneChannel)
        [.map (.upsert 0 7 0), .checkpoint, .move 0 9 1] ∧
      MoveSucceeds oneChannel state 0 9 1 ∧ current after 0 0 = 9 ∧
      (appInitMap oneChannel.conf after 0 0).ppa = 1 ∧ ¬ Reloaded oneChannel moved 0 0 := by
  refine ⟨by decide, by decide, by decide, by decide, fun reloaded => ?_⟩
  have leads := (reloaded oneChannel.newFn (media_firstFit .twoEntries 2)).1
  revert leads
  decide

end OxCtrl.GlMap
