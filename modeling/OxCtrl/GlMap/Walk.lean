import OxCtrl.GlMap.Links
import OxCtrl.GlMap.Threads

/-!
# Walk of a checkpoint

A checkpoint goes through the used list of a cache while other threads load pages: loads append to
the list, and no other thread takes an entry off it.  The pages whose pointers are still in the
immutable table are ahead of the walk, or the job of the walk is working on them.
-/

namespace OxCtrl.GlMap.Links

variable {conf : Conf} {links links' : Links} {out hole : Option Nat} {off slot addr limit n : Nat}
  {rest todo : List Nat} {job next : Job} {after : Option Job}

/-! ## The immutable table -/

/-- The pages whose pointers are still in the immutable table are in `todo`. -/
def Pending (conf : Conf) (links : Links) (todo : List Nat) : Prop :=
  ∀ off < conf.entries, addrFlag (links.immut off) = true →
    ∃ slot ∈ todo, links.entry off = mapAddrFlag + slot

/-- The addresses in the immutable table are the addresses of the pages, apart from `hole`. -/
def Agrees (conf : Conf) (links : Links) (hole : Option Nat) : Prop :=
  ∀ off < conf.entries, hole ≠ some off →
    addrFlag (links.immut off) = true ∨ links.immut off = links.current off

/-- The entries below `limit` are copied. -/
def Copied (conf : Conf) (links : Links) (limit : Nat) : Prop :=
  ∀ off < conf.entries, off < limit →
    (addrFlag (links.immut off) = true ∧ links.immut off = links.entry off) ∨
      (addrFlag (links.immut off) = false ∧ links.immut off = links.current off)

theorem Copied.zero (conf : Conf) (links : Links) : Copied conf links 0 :=
  fun _ _ before => absurd before (Nat.not_lt_zero _)

theorem Copied.copy (copied : Copied conf links limit) :
    Copied conf (links.copy limit) (limit + 1) := by
  intro off offLt before
  by_cases last : off = limit
  · subst last
    have now : (links.copy off).immut off = links.entry off := Function.update_self _ _ _
    cases flag : addrFlag (links.entry off) with
    | true => exact Or.inl ⟨by rw [now, flag], now⟩
    | false =>
        have same : (links.copy off).current off = links.entry off :=
          Ok.current_of_unflagged flag
        exact Or.inr ⟨by rw [now, flag], now.trans same.symm⟩
  · have still : (links.copy limit).immut off = links.immut off := Function.update_of_ne last _ _
    rw [still]
    exact copied off offLt (by omega)

/-- When the small table is copied, the pages whose pointers are in the copy are in use. -/
theorem Copied.pending (copied : Copied conf links conf.entries) (ok : Ok conf links none) :
    Pending conf links links.used := by
  intro off offLt flag
  rcases copied off offLt offLt with ⟨_, eq⟩ | ⟨unflagged, -⟩
  · rw [eq] at flag
    obtain ⟨slot, busy, held⟩ := ok.flagged off offLt flag
    exact ⟨slot, busy.resolve_right (by simp), held.entry⟩
  · rw [flag] at unflagged
    contradiction

theorem Copied.agrees (copied : Copied conf links conf.entries) : Agrees conf links none := by
  intro off offLt _
  exact (copied off offLt offLt).imp And.left And.right

/-! ## Other threads -/

/-- A step of another thread while no thread moves or evicts an entry. -/
inductive Quiet (conf : Conf) (links : Links) : Links → Prop where
  | refl : Quiet conf links links
  | take (off slot : Nat) (rest : List Nat) (free : links.free = slot :: rest)
      (none : links.loading off = none) (offLt : off < conf.entries)
      (uncached : addrFlag (links.entry off) = false) : Quiet conf links (links.take off slot rest)
  | link (off slot : Nat) (loading : links.loading off = some slot) :
      Quiet conf links (links.link off slot)
  | fail (off slot : Nat) (loading : links.loading off = some slot) :
      Quiet conf links (links.fail off slot)
  | soil (slot : Nat) : Quiet conf links (links.soil slot)

namespace Quiet

variable (quiet : Quiet conf links links') (ok : Ok conf links out)
include quiet ok

theorem links_ok : Ok conf links' out := by
  cases quiet with
  | refl => exact ok
  | take off slot rest free none offLt uncached => exact ok.take free none offLt uncached
  | link off slot loading => exact ok.link loading
  | fail off slot loading => exact ok.fail loading
  | soil slot => exact ok.soil slot

theorem current (offLt : off < conf.entries) : links'.current off = links.current off := by
  cases quiet with
  | link place found loading => exact ok.current_link loading offLt
  | _ => rfl

omit ok in
theorem immut : links'.immut = links.immut := by
  cases quiet <;> rfl

omit ok in
/-- Loads append to the used list. -/
theorem used : ∃ more, links'.used = links.used ++ more := by
  cases quiet with
  | link place found loading => exact ⟨[found], rfl⟩
  | _ => exact ⟨[], (List.append_nil _).symm⟩

/-- A pointer in the small table stays. -/
theorem entry (flag : addrFlag (links.entry off) = true) : links'.entry off = links.entry off := by
  cases quiet with
  | link place found loading =>
      apply Function.update_of_ne
      rintro rfl
      have uncached := (ok.loads off found loading).uncached
      rw [flag] at uncached
      contradiction
  | _ => rfl

theorem ppa (busy : Busy links out slot) : links'.ppa slot = links.ppa slot := by
  cases quiet with
  | link place found loading => exact Function.update_of_ne (ok.differ_of_busy loading busy) _ _
  | _ => rfl

theorem mdEntry (busy : Busy links out slot) : links'.mdEntry slot = links.mdEntry slot := by
  cases quiet with
  | link place found loading => exact Function.update_of_ne (ok.differ_of_busy loading busy) _ _
  | _ => rfl

theorem dirty (busy : Busy links out slot) (dirty : links.dirty slot = true) :
    links'.dirty slot = true := by
  cases quiet with
  | link place found loading =>
      exact (Function.update_of_ne (ok.differ_of_busy loading busy) _ _).trans dirty
  | soil found =>
      simp only [Links.soil, Function.update_apply]
      split
      · rfl
      · exact dirty
  | _ => exact dirty

theorem held (busy : Busy links out slot) (held : Held conf links off slot) :
    Held conf links' off slot :=
  held.congr (quiet.mdEntry ok busy) (quiet.entry ok (by rw [held.entry, addrFlag_add]))

theorem unused (busy : Busy links out slot) (unused : Unused conf links slot) :
    Unused conf links' slot := by
  cases quiet with
  | link place found loading =>
      intro off offLt entry
      simp only [Links.link, Function.update_apply] at entry
      split at entry
      · exact ok.differ_of_busy loading busy (by omega)
      · exact unused off offLt entry
  | _ => exact unused

theorem pending (pending : Pending conf links todo) : Pending conf links' todo := by
  intro off offLt flag
  rw [quiet.immut] at flag
  obtain ⟨slot, mem, entry⟩ := pending off offLt flag
  exact ⟨slot, mem, (quiet.entry ok (by rw [entry, addrFlag_add])).trans entry⟩

theorem agrees (agrees : Agrees conf links hole) : Agrees conf links' hole := by
  intro off offLt outside
  rw [quiet.immut, quiet.current ok offLt]
  exact agrees off offLt outside

theorem copied (copied : Copied conf links limit) : Copied conf links' limit := by
  intro off offLt before
  rw [quiet.immut, quiet.current ok offLt]
  rcases copied off offLt before with ⟨flag, eq⟩ | stored
  · exact Or.inl ⟨flag, eq.trans (quiet.entry ok (by rw [← eq, flag])).symm⟩
  · exact Or.inr stored

end Quiet

/-! ## Steps of the walk -/

/-- A page gets a new address, which is not in the immutable table yet. -/
theorem Agrees.move (agrees : Agrees conf links (some off)) (ok : Ok conf links out)
    (held : Held conf links off slot) (addr : Nat) :
    Agrees conf (links.move slot addr) (some off) := by
  intro other otherLt outside
  have differ : other ≠ off := by
    rintro rfl
    exact outside rfl
  have same : (links.move slot addr).current other = links.current other := by
    refine ok.current_congr otherLt rfl fun found foundHeld => Function.update_of_ne ?_ _ _
    rintro rfl
    exact differ (ok.off_unique held otherLt foundHeld.entry)
  rw [same]
  exact agrees other otherLt outside

/-- The address of a page goes to the immutable table. -/
theorem Agrees.setImmut (agrees : Agrees conf links (some off)) (ok : Ok conf links out)
    (busy : Busy links out slot) (held : Held conf links off slot) :
    Agrees conf (links.setImmut off (links.ppa slot)) none := by
  intro other otherLt _
  by_cases same : other = off
  · subst same
    right
    have now : (links.setImmut other (links.ppa slot)).immut other = links.ppa slot :=
      Function.update_self _ _ _
    rw [now]
    exact (ok.current_of_held busy held).symm
  · have still : (links.setImmut off (links.ppa slot)).immut other = links.immut other :=
      Function.update_of_ne same _ _
    rw [still]
    exact agrees other otherLt fun eq => same (Option.some.inj eq).symm

theorem Pending.setImmut (pending : Pending conf links (slot :: todo)) (ok : Ok conf links out)
    (held : Held conf links off slot) (addrLt : addr < mapAddrFlag) :
    Pending conf (links.setImmut off addr) todo := by
  intro other otherLt flag
  by_cases same : other = off
  · subst same
    simp only [Links.setImmut, Function.update_self, addrFlag_eq_false.mpr addrLt,
      Bool.false_eq_true] at flag
  · simp only [Links.setImmut, Function.update_of_ne same] at flag
    obtain ⟨found, mem, entry⟩ := pending other otherLt flag
    rcases List.mem_cons.mp mem with rfl | mem
    · exact absurd (ok.off_unique held otherLt entry) same
    · exact ⟨found, mem, entry⟩

/-- The page of the entry that leaves the cache is not pending. -/
theorem Pending.writeBack (pending : Pending conf links todo) (ok : Ok conf links (some slot))
    (held : Held conf links off slot) (inUse : ∀ found ∈ todo, found ∈ links.used) (addr : Nat) :
    Pending conf (links.writeBack off addr) todo := by
  intro other otherLt flag
  obtain ⟨found, mem, entry⟩ := pending other otherLt flag
  refine ⟨found, mem, ?_⟩
  have differ : other ≠ off := by
    rintro rfl
    rw [held.entry] at entry
    obtain rfl : slot = found := by omega
    exact ok.out_fresh slot rfl (inUse slot mem)
  exact (Function.update_of_ne differ _ _).trans entry

theorem Agrees.writeBack (agrees : Agrees conf links none) (ok : Ok conf links (some slot))
    (held : Held conf links off slot) :
    Agrees conf (links.writeBack off (links.ppa slot)) none := by
  intro other otherLt outside
  refine (agrees other otherLt outside).imp id fun eq => eq.trans ?_
  by_cases same : other = off
  · subst same
    have below := ok.ppa_lt slot (ok.below slot (Or.inr (Or.inr rfl)))
    have now : (links.writeBack other (links.ppa slot)).entry other = links.ppa slot :=
      Function.update_self _ _ _
    rw [ok.current_of_held (Or.inr rfl) held,
      Ok.current_of_unflagged (by rw [now]; exact addrFlag_eq_false.mpr below), now]
  · simp only [current, Links.writeBack, Function.update_of_ne same]

theorem Agrees.release (agrees : Agrees conf links none) (ok : Ok conf links (some slot))
    (unused : Unused conf links slot) : Agrees conf (links.release slot) none := by
  intro other otherLt outside
  have same : (links.release slot).current other = links.current other := by
    refine ok.current_congr otherLt rfl fun found held => Function.update_of_ne ?_ _ _
    rintro rfl
    exact unused other otherLt held.entry
  rw [same]
  exact agrees other otherLt outside

/-! ## Jobs -/

/-- The job that follows works on the same page. -/
structure Carries (job next : Job) : Prop where
  slot : next.slot = job.slot
  off : next.off = job.off
  evicts : next.evicts = job.evicts
  setImmut : next.setImmut = job.setImmut

/-- What a step of a job does to the links, if writes succeed. -/
inductive JobMove (links : Links) (job : Job) : Links → Option Job → Prop where
  | copy {next : Job} {retry copied : Nat} (carries : Carries job next)
      (pc : next.pc = .copy retry copied)
      (was : job.pc = .test ∨ ∃ retry copied, job.pc = .copy retry copied) :
      JobMove links job links (some next)
  | unsoiled {next : Job} (carries : Carries job next) (pc : next.pc = .finish false)
      (was : job.pc = .test) (clean : links.dirty job.slot = false) :
      JobMove links job links (some next)
  | write {next : Job} {addr retry copied : Nat} (carries : Carries job next)
      (pc : next.pc = .clear) (was : job.pc = .copy retry copied) (stored : addr ≠ 0)
      (addrLt : addr < mapAddrFlag) :
      JobMove links job (links.move job.slot addr) (some next)
  | clear {next : Job} (carries : Carries job next) (pc : next.pc = .finish true)
      (was : job.pc = .clear) : JobMove links job (links.clean job.slot) (some next)
  | finish {next : Job} {wrote : Bool} (carries : Carries job next) (pc : next.pc = .writeBack)
      (was : job.pc = .finish wrote) (evicts : job.evicts = true) :
      JobMove links job
        (if job.setImmut then links.setImmut job.off (links.ppa job.slot) else links) (some next)
  | persisted {wrote : Bool} (was : job.pc = .finish wrote) (evicts : job.evicts = false) :
      JobMove links job
        (if job.setImmut then links.setImmut job.off (links.ppa job.slot) else links) none
  | writeBack {next : Job} (carries : Carries job next) (pc : next.pc = .release)
      (was : job.pc = .writeBack) :
      JobMove links job (links.writeBack job.off (links.ppa job.slot)) (some next)
  | release {next : Job} (carries : Carries job next) (pc : next.pc = .insert)
      (was : job.pc = .release) : JobMove links job (links.release job.slot) (some next)
  | insert (was : job.pc = .insert) : JobMove links job (links.insert job.slot) none

/-- What holds of the cache entry of a job. -/
def Stage (conf : Conf) (links : Links) (job : Job) : Prop :=
  match job.pc with
  | .test => Held conf links job.off job.slot ∧
      (links.ppa job.slot = 0 → links.dirty job.slot = true)
  | .copy _ _ => Held conf links job.off job.slot
  | .clear => Held conf links job.off job.slot ∧ links.ppa job.slot ≠ 0
  | .finish _ => Held conf links job.off job.slot ∧ links.ppa job.slot ≠ 0
  | .writeBack => job.evicts = true ∧ Held conf links job.off job.slot
  | .release => job.evicts = true ∧ Unused conf links job.slot
  | .insert => job.evicts = true ∧ Unused conf links job.slot ∧ Blank links job.slot

/-- The entry that a job has taken off the used list. -/
def outOf : Option Job → Option Nat
  | none => none
  | some job => if job.evicts then some job.slot else none

/-- The links and the job of a channel. -/
structure JobsOk (conf : Conf) (links : Links) (running : Option Job) : Prop where
  ok : Ok conf links (outOf running)
  busy : ∀ job, running = some job → Busy links (outOf running) job.slot
  stage : ∀ job, running = some job → Stage conf links job

/-- The step keeps the small table and the cache entries. -/
theorem Stage.congr (stage : Stage conf links job) (entry : links'.entry = links.entry)
    (mdEntry : links'.mdEntry = links.mdEntry) (ppa : links'.ppa = links.ppa)
    (dirty : links'.dirty = links.dirty) : Stage conf links' job := by
  have held (held : Held conf links job.off job.slot) : Held conf links' job.off job.slot :=
    held.congr (by rw [mdEntry]) (by rw [entry])
  cases pc : job.pc <;> simp only [Stage, pc, Unused, Blank, entry, mdEntry, ppa, dirty] at stage ⊢
  case test => exact ⟨held stage.1, stage.2⟩
  case copy => exact held stage
  case clear => exact ⟨held stage.1, stage.2⟩
  case finish => exact ⟨held stage.1, stage.2⟩
  case writeBack => exact ⟨stage.1, held stage.2⟩
  case release => exact stage
  case insert => exact stage

theorem JobsOk.touch {running : Option Job} (jobs : JobsOk conf links running)
    (mem : slot ∈ links.used) : JobsOk conf (links.touch slot) running := by
  have perm : (links.used.erase slot ++ [slot]).Perm links.used :=
    ((List.perm_cons_erase mem).trans (List.perm_append_singleton slot _).symm).symm
  refine ⟨jobs.ok.touch mem, fun job eq => ?_, fun job eq => ?_⟩
  · exact (jobs.busy job eq).imp perm.mem_iff.mpr id
  · exact (jobs.stage job eq).congr rfl rfl rfl rfl

section

variable (jobs : JobsOk conf links none) (mdEntry : links.mdEntry slot = some off)
include jobs mdEntry

theorem JobsOk.starts (mem : slot ∈ links.used) (evicts setImmut : Bool) :
    Stage conf links { slot := slot, off := off, evicts := evicts, setImmut := setImmut } := by
  obtain ⟨found, held⟩ := jobs.ok.held slot mem
  obtain rfl : found = off := Option.some.inj (held.mdEntry.symm.trans mdEntry)
  exact ⟨held, jobs.ok.unsaved slot mem⟩

theorem JobsOk.evict (used : links.used = slot :: rest) (setImmut : Bool) :
    JobsOk conf (links.unlink rest)
      (some { slot := slot, off := off, evicts := true, setImmut := setImmut }) := by
  have mem : slot ∈ links.used := by
    rw [used]
    exact List.mem_cons_self
  refine ⟨jobs.ok.unlink used, ?_, ?_⟩
  · rintro job eq
    obtain rfl := Option.some.inj eq
    exact Or.inr rfl
  · rintro job eq
    obtain rfl := Option.some.inj eq
    exact (jobs.starts mdEntry mem true setImmut).congr rfl rfl rfl rfl

theorem JobsOk.persist (mem : slot ∈ links.used) (setImmut : Bool) :
    JobsOk conf links
      (some { slot := slot, off := off, evicts := false, setImmut := setImmut }) := by
  refine ⟨jobs.ok, ?_, ?_⟩
  · rintro job eq
    obtain rfl := Option.some.inj eq
    exact Or.inl mem
  · rintro job eq
    obtain rfl := Option.some.inj eq
    exact jobs.starts mdEntry mem false setImmut

end

theorem outOf_carries (carries : Carries job next) : outOf (some next) = outOf (some job) := by
  rw [outOf, outOf, carries.evicts, carries.slot]

theorem outOf_of_evicts (evicts : job.evicts = true) : outOf (some job) = some job.slot := by
  rw [outOf, if_pos evicts]

/-- The job goes on. -/
theorem JobsOk.carry (ok : Ok conf links (outOf (some job))) (carries : Carries job next)
    (busy : Busy links (outOf (some job)) job.slot) (stage : Stage conf links next) :
    JobsOk conf links (some next) := by
  refine ⟨by rw [outOf_carries carries]; exact ok, ?_, ?_⟩
  · rintro found eq
    obtain rfl := Option.some.inj eq
    rw [outOf_carries carries, carries.slot]
    exact busy
  · rintro found eq
    obtain rfl := Option.some.inj eq
    exact stage

/-- A job keeps the links. -/
theorem JobMove.jobsOk (move : JobMove links job links' after)
    (jobs : JobsOk conf links (some job)) : JobsOk conf links' after := by
  have ok := jobs.ok
  have busy := jobs.busy job rfl
  have stage := jobs.stage job rfl
  cases move with
  | copy carries pc was =>
      refine JobsOk.carry ok carries busy ?_
      simp only [Stage, pc, carries.slot, carries.off]
      rcases was with was | ⟨retry, copied, was⟩ <;> simp only [Stage, was] at stage
      · exact stage.1
      · exact stage
  | unsoiled carries pc was clean =>
      refine JobsOk.carry ok carries busy ?_
      simp only [Stage, was] at stage
      simp only [Stage, pc, carries.slot, carries.off]
      refine ⟨stage.1, fun zero => ?_⟩
      have soiled := stage.2 zero
      rw [clean] at soiled
      contradiction
  | write carries pc was stored addrLt =>
      simp only [Stage, was] at stage
      refine JobsOk.carry (ok.move busy addrLt stored) carries busy ?_
      simp only [Stage, pc, carries.slot, carries.off]
      exact ⟨stage.congr rfl rfl, by simpa only [Links.move, Function.update_self] using stored⟩
  | clear carries pc was =>
      simp only [Stage, was] at stage
      refine JobsOk.carry (ok.clean stage.2) carries busy ?_
      simp only [Stage, pc, carries.slot, carries.off]
      exact ⟨stage.1.congr rfl rfl, stage.2⟩
  | finish carries pc was evicts =>
      simp only [Stage, was] at stage
      split
      · refine JobsOk.carry (ok.setImmut _ _) carries busy ?_
        simp only [Stage, pc, carries.slot, carries.off, carries.evicts]
        exact ⟨evicts, stage.1.congr rfl rfl⟩
      · refine JobsOk.carry ok carries busy ?_
        simp only [Stage, pc, carries.slot, carries.off, carries.evicts]
        exact ⟨evicts, stage.1⟩
  | persisted was evicts =>
      rw [outOf, if_neg (by rw [evicts]; exact Bool.false_ne_true)] at ok
      refine ⟨?_, by simp, by simp⟩
      split
      · exact ok.setImmut _ _
      · exact ok
  | writeBack carries pc was =>
      simp only [Stage, was] at stage
      rw [outOf_of_evicts stage.1] at ok
      have below := ok.ppa_lt job.slot (ok.below job.slot (Or.inr (Or.inr rfl)))
      obtain ⟨later, unused⟩ := ok.writeBack stage.2 below
      rw [← outOf_of_evicts stage.1] at later
      refine JobsOk.carry later carries busy ?_
      simp only [Stage, pc, carries.slot, carries.evicts]
      exact ⟨stage.1, unused⟩
  | release carries pc was =>
      simp only [Stage, was] at stage
      rw [outOf_of_evicts stage.1] at ok
      have later := ok.release stage.2
      rw [← outOf_of_evicts stage.1] at later
      refine JobsOk.carry later carries busy ?_
      simp only [Stage, pc, carries.slot, carries.evicts]
      exact ⟨stage.1, stage.2, Function.update_self _ _ _, Function.update_self _ _ _⟩
  | insert was =>
      simp only [Stage, was] at stage
      rw [outOf_of_evicts stage.1] at ok
      exact ⟨ok.insert stage.2.1 stage.2.2, by simp, by simp⟩

theorem JobMove.carries (move : JobMove links job links' (some next)) : Carries job next := by
  cases move <;> assumption

/-- A job leaves the used list alone. -/
theorem JobMove.used (move : JobMove links job links' after) : links'.used = links.used := by
  cases move with
  | finish => split <;> rfl
  | persisted => split <;> rfl
  | _ => rfl

/-- A job that is not of a checkpoint leaves the immutable table alone. -/
theorem JobMove.immut (move : JobMove links job links' after) (apart : job.setImmut = false) :
    links'.immut = links.immut := by
  cases move with
  | finish => rw [apart, if_neg Bool.false_ne_true]
  | persisted => rw [apart, if_neg Bool.false_ne_true]
  | _ => rfl

/-- The address that a job stores in the immutable table is not zero. -/
theorem JobMove.immut_ne_zero (move : JobMove links job links' after)
    (jobs : JobsOk conf links (some job)) (stored : links.immut off ≠ 0) :
    links'.immut off ≠ 0 := by
  have finish {wrote : Bool} (was : job.pc = .finish wrote) :
      (if job.setImmut then links.setImmut job.off (links.ppa job.slot) else links).immut off ≠
        0 := by
    have stage := jobs.stage job rfl
    simp only [Stage, was] at stage
    split
    · simp only [Links.setImmut, Function.update_apply]
      split
      · exact stage.2
      · exact stored
    · exact stored
  cases move with
  | finish carries pc was => exact finish was
  | persisted was => exact finish was
  | _ => exact stored

/-- Another thread keeps the links and the job. -/
theorem Quiet.jobsOk {running : Option Job} (quiet : Quiet conf links links')
    (jobs : JobsOk conf links running) : JobsOk conf links' running := by
  have ok := jobs.ok
  refine ⟨quiet.links_ok ok, fun job eq => ?_, fun job eq => ?_⟩
  · obtain ⟨more, used⟩ := quiet.used
    rw [Busy, used, List.mem_append]
    exact (jobs.busy job eq).imp Or.inl id
  · have busy := jobs.busy job eq
    have stage := jobs.stage job eq
    have ppa := quiet.ppa ok busy
    cases pc : job.pc <;> simp only [Stage, pc, Blank, ppa] at stage ⊢
    case test => exact ⟨quiet.held ok busy stage.1, fun zero => quiet.dirty ok busy (stage.2 zero)⟩
    case copy => exact quiet.held ok busy stage
    case clear => exact ⟨quiet.held ok busy stage.1, stage.2⟩
    case finish => exact ⟨quiet.held ok busy stage.1, stage.2⟩
    case writeBack => exact ⟨stage.1, quiet.held ok busy stage.2⟩
    case release => exact ⟨stage.1, quiet.unused ok busy stage.2⟩
    case insert =>
      exact ⟨stage.1, quiet.unused ok busy stage.2.1, stage.2.2.1,
        (quiet.mdEntry ok busy).trans stage.2.2.2⟩

/-! ## Progress -/

/-- Where the walk is while its job is running: the pages in `todo` are left. -/
def Progress (conf : Conf) (links : Links) (job : Job) (todo : List Nat) : Prop :=
  match job.pc with
  | .writeBack => Pending conf links todo ∧ Agrees conf links none
  | .release => Pending conf links todo ∧ Agrees conf links none
  | .insert => Pending conf links todo ∧ Agrees conf links none
  | _ => Pending conf links (job.slot :: todo) ∧ Agrees conf links (some job.off)

theorem Quiet.progress (quiet : Quiet conf links links') {out : Option Nat}
    (ok : Ok conf links out) (progress : Progress conf links job todo) :
    Progress conf links' job todo := by
  cases pc : job.pc <;> simp only [Progress, pc] at progress ⊢ <;>
    exact ⟨quiet.pending ok progress.1, quiet.agrees ok progress.2⟩

section

variable (jobs : JobsOk conf links (some job)) (inImmut : job.setImmut = true)
  (inUse : ∀ slot ∈ todo, slot ∈ links.used)
include jobs


theorem setImmut_progress {wrote : Bool} (was : job.pc = .finish wrote)
    (progress : Progress conf links job todo) :
    Pending conf (links.setImmut job.off (links.ppa job.slot)) todo ∧
      Agrees conf (links.setImmut job.off (links.ppa job.slot)) none := by
  have busy := jobs.busy job rfl
  have stage := jobs.stage job rfl
  simp only [Stage, was] at stage
  simp only [Progress, was] at progress
  have below := jobs.ok.ppa_lt job.slot (jobs.ok.below job.slot (Or.inr busy))
  exact ⟨progress.1.setImmut jobs.ok stage.1 below, progress.2.setImmut jobs.ok busy stage.1⟩

include inImmut inUse

theorem JobMove.progress (move : JobMove links job links' (some next))
    (progress : Progress conf links job todo) : Progress conf links' next todo := by
  have ok := jobs.ok
  have stage := jobs.stage job rfl
  cases move with
  | copy carries pc was =>
      simp only [Progress, pc, carries.slot, carries.off]
      rcases was with was | ⟨retry, copied, was⟩ <;> simpa only [Progress, was] using progress
  | unsoiled carries pc was clean =>
      simpa only [Progress, pc, was, carries.slot, carries.off] using progress
  | write carries pc was stored addrLt =>
      simp only [Stage, was] at stage
      simp only [Progress, was] at progress
      simp only [Progress, pc, carries.slot, carries.off]
      exact ⟨progress.1, progress.2.move ok stage _⟩
  | clear carries pc was =>
      simp only [Progress, was] at progress
      simp only [Progress, pc, carries.slot, carries.off]
      exact progress
  | finish carries pc was evicts =>
      simp only [inImmut, if_true, Progress, pc]
      exact setImmut_progress jobs was progress
  | writeBack carries pc was =>
      simp only [Stage, was] at stage
      rw [outOf_of_evicts stage.1] at ok
      simp only [Progress, was] at progress
      simp only [Progress, pc]
      exact ⟨progress.1.writeBack ok stage.2 inUse _, progress.2.writeBack ok stage.2⟩
  | release carries pc was =>
      simp only [Stage, was] at stage
      rw [outOf_of_evicts stage.1] at ok
      simp only [Progress, was] at progress
      simp only [Progress, pc]
      exact ⟨progress.1, progress.2.release ok stage.2⟩

omit inUse in
/-- When the job is over, its page is not left. -/
theorem JobMove.ended (move : JobMove links job links' none)
    (progress : Progress conf links job todo) :
    Pending conf links' todo ∧ Agrees conf links' none := by
  cases move with
  | persisted was evicts =>
      simp only [inImmut, if_true]
      exact setImmut_progress jobs was progress
  | insert was =>
      simp only [Progress, was] at progress
      exact progress

end

/-- `n` pages are left after the entry at which the walk is. -/
def Walk (conf : Conf) (links : Links) (n : Nat) (ent : Option Nat) : Prop :=
  ∃ visited todo later, links.used = visited ++ todo ++ later ∧ todo.length = n ∧
    visited.getLast? = ent ∧ Pending conf links todo ∧ Agrees conf links none

theorem Quiet.walk (quiet : Quiet conf links links') {out ent : Option Nat}
    (ok : Ok conf links out) (walk : Walk conf links n ent) : Walk conf links' n ent := by
  obtain ⟨visited, todo, later, used, length, last, pending, agrees⟩ := walk
  obtain ⟨more, eq⟩ := quiet.used
  refine ⟨visited, todo, later ++ more, ?_, length, last, quiet.pending ok pending,
    quiet.agrees ok agrees⟩
  rw [eq, used, List.append_assoc _ later]

/-- The walk is at an entry that a job of it evicts or persists; `n` pages are left, with the page
of this entry. -/
structure Working (conf : Conf) (links : Links) (job : Job) (visited : List Nat) (n : Nat) :
    Prop where
  inImmut : job.setImmut = true
  place : ∃ todo later, links.used = visited ++ todo ++ later ∧ todo.length + 1 = n ∧
    Progress conf links job todo

theorem Quiet.working (quiet : Quiet conf links links') {out : Option Nat} {visited : List Nat}
    (ok : Ok conf links out) (working : Working conf links job visited n) :
    Working conf links' job visited n := by
  obtain ⟨inImmut, todo, later, used, length, progress⟩ := working
  obtain ⟨more, eq⟩ := quiet.used
  refine ⟨inImmut, todo, later ++ more, ?_, length, quiet.progress ok progress⟩
  rw [eq, used, List.append_assoc _ later]

section

variable {visited : List Nat} (jobs : JobsOk conf links (some job))
  (walking : Working conf links job visited n)
include jobs walking

theorem JobMove.working (move : JobMove links job links' (some next)) :
    Working conf links' next visited n := by
  obtain ⟨inImmut, todo, later, used, length, progress⟩ := walking
  refine ⟨move.carries.setImmut.trans inImmut, todo, later, move.used.trans used, length,
    move.progress jobs inImmut ?_ progress⟩
  intro slot mem
  rw [used]
  exact List.mem_append_left _ (List.mem_append_right _ mem)

theorem JobMove.walk (move : JobMove links job links' none) :
    Walk conf links' (n - 1) visited.getLast? := by
  obtain ⟨inImmut, todo, later, used, length, progress⟩ := walking
  obtain ⟨pending, agrees⟩ := move.ended jobs inImmut progress
  exact ⟨visited, todo, later, move.used.trans used, by omega, rfl, pending, agrees⟩

end

/-- The walk evicts the first entry. -/
theorem Walk.evict (walk : Walk conf links n none) (off : Nat) (left : n ≠ 0)
    (used : links.used = slot :: rest) :
    Working conf (links.unlink rest)
      { slot := slot, off := off, evicts := true, setImmut := true } [] n := by
  obtain ⟨visited, todo, later, eq, length, last, pending, agrees⟩ := walk
  obtain rfl := List.getLast?_eq_none_iff.mp last
  cases todo with
  | nil => exact absurd length.symm left
  | cons first todo =>
      rw [eq] at used
      obtain ⟨rfl, rfl⟩ := List.cons.inj used
      refine ⟨rfl, todo, later, rfl, length, pending, fun other otherLt _ => ?_⟩
      exact agrees other otherLt (by simp)

/-- The walk goes on to the next entry. -/
theorem Walk.forward {ent : Option Nat} (walk : Walk conf links n ent) (left : n ≠ 0)
    (nodup : links.used.Nodup) :
    ∃ slot ∈ links.used, nextUsed links.used ent = some slot ∧ ∀ off, ∃ visited,
      Working conf links { slot := slot, off := off, evicts := false, setImmut := true }
        (visited ++ [slot]) n := by
  obtain ⟨visited, todo, later, eq, length, last, pending, agrees⟩ := walk
  cases todo with
  | nil => exact absurd length.symm left
  | cons slot todo =>
      refine ⟨slot, by simp [eq], ?_, fun off => ⟨visited, rfl, todo, later, by simp [eq], length,
        pending, fun other otherLt _ => agrees other otherLt (by simp)⟩⟩
      rw [eq, List.append_assoc] at nodup ⊢
      rw [← last, nextUsed_append nodup]
      rfl

/-- When no page is left, the immutable table holds the addresses of the pages. -/
theorem Walk.all_visited {ent : Option Nat} (walk : Walk conf links 0 ent)
    (offLt : off < conf.entries) :
    addrFlag (links.immut off) = false ∧ links.immut off = links.current off := by
  obtain ⟨visited, todo, later, -, length, -, pending, agrees⟩ := walk
  obtain rfl := List.length_eq_zero_iff.mp length
  have unflagged : addrFlag (links.immut off) = false := by
    cases flag : addrFlag (links.immut off) with
    | true =>
        obtain ⟨slot, mem, -⟩ := pending off offLt flag
        exact absurd mem List.not_mem_nil
    | false => rfl
  refine ⟨unflagged, (agrees off offLt (by simp)).resolve_left ?_⟩
  rw [unflagged]
  exact Bool.false_ne_true

/-- When the table is copied, all used entries are left. -/
theorem Copied.walk (copied : Copied conf links conf.entries) (ok : Ok conf links none) :
    Walk conf links links.nused none :=
  ⟨[], links.used, [], by simp, ok.nused.symm, rfl, copied.pending ok, copied.agrees⟩

end OxCtrl.GlMap.Links
