import OxCtrl.ChProv.Lun

/-!
# Core invariant of a channel

`CoreOk` joins the invariants of all LUNs with the condition that the trace hands
out the pages of each block in order.  Every function of `oxb-ch-prov.c` preserves it.
This file shows so for `ch_prov_blk_get`.
-/

namespace OxCtrl.ChProv

/-! ## Pages of the trace -/

/-- Effect of an event on the page that is next in each block. -/
def stepPage (next : Vblk → NextPage) : Event → Vblk → NextPage
  | .erase vblk => Function.update next vblk .ofErase
  | .page vblk _ => Function.update next vblk (next vblk).succ
  | .unerased _ => next

/-- The page that is next in each block after a trace. -/
def nextPage (start : Vblk → NextPage) (trace : List Event) : Vblk → NextPage :=
  trace.foldl stepPage start

@[simp]
theorem nextPage_nil (start : Vblk → NextPage) : nextPage start [] = start :=
  rfl

theorem nextPage_append (start : Vblk → NextPage) (before segment : List Event) :
    nextPage start (before ++ segment) = nextPage (nextPage start before) segment :=
  List.foldl_append

@[simp]
theorem nextPage_append_singleton (start : Vblk → NextPage) (trace : List Event) (event : Event) :
    nextPage start (trace ++ [event]) = stepPage (nextPage start trace) event := by
  simp [nextPage]

/-- An open block has a page left until the trace begins, or gets one by an erase. -/
theorem inside_nextPage {start : Vblk → NextPage} {vblk : Vblk} (inside : (start vblk).inside)
    (trace : List Event) : (nextPage start trace vblk).inside := by
  induction trace using List.reverseRecOn with
  | nil => exact inside
  | append_singleton trace event ih =>
      rw [nextPage_append_singleton]
      cases event with
      | erase other =>
          by_cases same : vblk = other
          · simp [stepPage, same, NextPage.ofErase]
          · simpa [stepPage, same] using ih
      | page other pg =>
          by_cases same : vblk = other
          · subst same
            simpa [stepPage, NextPage.succ] using ih
          · simpa [stepPage, same] using ih
      | unerased other => exact ih

/-- Row of one LUN after the value of one of its blocks has changed. -/
theorem row_update {α : Type*} (value : Vblk → α) (vblk : Vblk) (new : α) :
    (fun blk => Function.update value vblk new ⟨vblk.lun, blk⟩) =
      Function.update (fun blk => value ⟨vblk.lun, blk⟩) vblk.blk new := by
  funext blk
  by_cases same : blk = vblk.blk
  · subst same
    simp
  · have differ : (⟨vblk.lun, blk⟩ : Vblk) ≠ vblk := fun eq => same (congrArg Vblk.blk eq)
    rw [Function.update_of_ne differ, Function.update_of_ne same]

theorem stepPage_of_lun_ne {next : Vblk → NextPage} {event : Event} {vblk other : Vblk}
    (named : event = .erase vblk ∨ ∃ pg, event = .page vblk pg) (differ : other.lun ≠ vblk.lun) :
    stepPage next event other = next other := by
  have otherNe : other ≠ vblk := by
    rintro rfl
    exact differ rfl
  rcases named with rfl | ⟨pg, rfl⟩ <;> simp [stepPage, otherNe]

/-- Every page event names the page that is next in its block, which lies in the block if
the block had a page left, unless the block was opened without an erase; such a block is
not erased later. -/
inductive Sequential (pgPerBlk : Nat) (start : Vblk → NextPage) : List Event → Prop
  | nil : Sequential pgPerBlk start []
  | erase {trace : List Event} (vblk : Vblk) (erased : .unerased vblk ∉ trace) :
      Sequential pgPerBlk start trace → Sequential pgPerBlk start (trace ++ [.erase vblk])
  | page {trace : List Event} (vblk : Vblk) (pg : Nat)
      (next : .unerased vblk ∉ trace → pg = (nextPage start trace vblk).page ∧
        ((nextPage start trace vblk).inside → pg < pgPerBlk)) :
      Sequential pgPerBlk start trace → Sequential pgPerBlk start (trace ++ [.page vblk pg])
  | unerased {trace : List Event} (vblk : Vblk) :
      Sequential pgPerBlk start trace → Sequential pgPerBlk start (trace ++ [.unerased vblk])

/-- The last event of a sequential trace. -/
theorem Sequential.of_append_singleton {pgPerBlk : Nat} {start : Vblk → NextPage}
    {trace : List Event}
    {event : Event} (sequential : Sequential pgPerBlk start (trace ++ [event])) :
    Sequential pgPerBlk start trace ∧
      (∀ vblk, event = .erase vblk → .unerased vblk ∉ trace) ∧
      ∀ vblk pg, event = .page vblk pg → .unerased vblk ∉ trace →
        pg = (nextPage start trace vblk).page ∧
          ((nextPage start trace vblk).inside → pg < pgPerBlk) := by
  generalize whole : trace ++ [event] = events at sequential
  cases sequential with
  | nil => simp at whole
  | erase vblk erased rest =>
      obtain ⟨rfl, same⟩ := List.append_inj' whole rfl
      obtain rfl : event = .erase vblk := by simpa using same
      refine ⟨rest, ?_, by simp⟩
      rintro other named
      cases named
      exact erased
  | page vblk pg next rest =>
      obtain ⟨rfl, same⟩ := List.append_inj' whole rfl
      obtain rfl : event = .page vblk pg := by simpa using same
      refine ⟨rest, by simp, ?_⟩
      rintro other pg named
      cases named
      exact next
  | unerased vblk rest =>
      obtain ⟨rfl, same⟩ := List.append_inj' whole rfl
      obtain rfl : event = .unerased vblk := by simpa using same
      exact ⟨rest, by simp, by simp⟩

/-! ## Core invariant -/

/-- The lists of the LUN must account for the block. -/
def Good (env : Env) (grownBad : List Vblk) (lun blk : Nat) : Prop :=
  blk < env.geo.blkPerLun ∧ env.bad lun blk = false ∧ ⟨lun, blk⟩ ∉ grownBad

/-- The block was opened without an erase. -/
def Raw (trace : List Event) (lun blk : Nat) : Prop :=
  .unerased ⟨lun, blk⟩ ∈ trace

/-- Invariant of the lists, the metadata and the trace.  `start` gives the write
pointers that the channel was started with, and the open blocks that had a page left. -/
structure CoreOk (env : Env) (start : Vblk → NextPage) (chan : Chan) : Prop where
  luns : ∀ lun < env.geo.lunPerCh, LunOk env.geo.pgPerBlk (Good env chan.grownBad lun)
    (Raw chan.trace lun) (chan.md lun) (fun blk => nextPage start chan.trace ⟨lun, blk⟩)
    (chan.luns lun)
  lost : ∀ lun < env.geo.lunPerCh, ∀ blk < env.geo.blkPerLun,
    ¬ Good env chan.grownBad lun blk → (chan.md lun blk).flags.used = false
  trace : Sequential env.geo.pgPerBlk start chan.trace
  memory : ∀ vblk, .unerased vblk ∈ chan.trace → ∃ n, env.erase n = .noMem

variable {env : Env} {start : Vblk → NextPage} {chan chan' : Chan} {type kind : LineType}
  {vblk : Vblk}

namespace CoreOk

/-- The invariant reads the lists, the metadata, the lost blocks and the trace. -/
theorem congr (ok : CoreOk env start chan) (luns : chan'.luns = chan.luns)
    (md : chan'.md = chan.md) (grownBad : chan'.grownBad = chan.grownBad)
    (trace : chan'.trace = chan.trace) : CoreOk env start chan' := by
  constructor
  · simpa only [luns, md, grownBad, trace] using ok.luns
  · simpa only [md, grownBad] using ok.lost
  · simpa only [trace] using ok.trace
  · simpa only [trace] using ok.memory

/-- A step that touches one LUN and the metadata of one of its blocks preserves the
invariant when it preserves the invariant of that LUN. -/
theorem update (lun : Lun) {entry : BlkMdEntry} (ok : CoreOk env start chan)
    (luns : chan'.luns = Function.update chan.luns vblk.lun lun)
    (md : chan'.md = Function.update chan.md vblk.lun
      (Function.update (chan.md vblk.lun) vblk.blk entry))
    (grownBad : ∀ other, other.lun ≠ vblk.lun →
      (other ∈ chan'.grownBad ↔ other ∈ chan.grownBad))
    (next : ∀ other, other.lun ≠ vblk.lun →
      nextPage start chan'.trace other = nextPage start chan.trace other)
    (raw : ∀ other, .unerased other ∈ chan'.trace ↔ .unerased other ∈ chan.trace)
    (lunOk : vblk.lun < env.geo.lunPerCh → LunOk env.geo.pgPerBlk
      (Good env chan'.grownBad vblk.lun) (Raw chan.trace vblk.lun)
      (Function.update (chan.md vblk.lun) vblk.blk entry)
      (fun blk => nextPage start chan'.trace ⟨vblk.lun, blk⟩) lun)
    (lost : vblk.lun < env.geo.lunPerCh → ∀ blk < env.geo.blkPerLun,
      ¬ Good env chan'.grownBad vblk.lun blk →
        (Function.update (chan.md vblk.lun) vblk.blk entry blk).flags.used = false)
    (trace : Sequential env.geo.pgPerBlk start chan'.trace) : CoreOk env start chan' := by
  have good : ∀ other, other ≠ vblk.lun →
      Good env chan'.grownBad other = Good env chan.grownBad other := by
    intro other differ
    funext blk
    simp only [Good, grownBad ⟨other, blk⟩ differ]
  have rawEq : Raw chan'.trace = Raw chan.trace := by
    funext other blk
    exact propext (raw ⟨other, blk⟩)
  constructor
  · intro other inRange
    rw [rawEq]
    by_cases same : other = vblk.lun
    · subst same
      simpa [luns, md] using lunOk inRange
    · have nextEq : (fun blk => nextPage start chan'.trace ⟨other, blk⟩) =
          fun blk => nextPage start chan.trace ⟨other, blk⟩ :=
        funext fun blk => next ⟨other, blk⟩ same
      simpa [luns, md, same, good other same, nextEq] using ok.luns other inRange
  · intro other inRange blk blkInRange notGood
    by_cases same : other = vblk.lun
    · subst same
      simpa [md] using lost inRange blk blkInRange notGood
    · rw [good other same] at notGood
      simpa [md, same] using ok.lost other inRange blk blkInRange notGood
  · exact trace
  · intro other unerased
    exact ok.memory other ((raw other).mp unerased)

/-- The used flag of a good block only: a block whose metadata changes is good, and
the other lost blocks keep their flags. -/
theorem lost_update (ok : CoreOk env start chan) {entry : BlkMdEntry}
    (isGood : Good env chan.grownBad vblk.lun vblk.blk)
    (inRange : vblk.lun < env.geo.lunPerCh) : ∀ blk < env.geo.blkPerLun,
      ¬ Good env chan.grownBad vblk.lun blk →
        (Function.update (chan.md vblk.lun) vblk.blk entry blk).flags.used = false := by
  intro blk blkInRange notGood
  have differ : blk ≠ vblk.blk := by
    rintro rfl
    exact notGood isGood
  simpa [differ] using ok.lost vblk.lun inRange blk blkInRange notGood

end CoreOk

/-! ## Open blocks -/

/-- The block is in the open list of the type. -/
def IsOpen (env : Env) (chan : Chan) (type : LineType) (vblk : Vblk) : Prop :=
  vblk.lun < env.geo.lunPerCh ∧ vblk.blk ∈ (chan.luns vblk.lun).openBlks type

theorem CoreOk.good_of_isOpen (ok : CoreOk env start chan) (isOpen : IsOpen env chan type vblk) :
    Good env chan.grownBad vblk.lun vblk.blk := by
  have lunOk := ok.luns vblk.lun isOpen.1
  exact (lunOk.mem_iff vblk.blk).mp (Or.inr (lunOk.open_used type vblk.blk isOpen.2))

/-- The block is used and in no open list. -/
def IsClosed (env : Env) (chan : Chan) (vblk : Vblk) : Prop :=
  vblk.lun < env.geo.lunPerCh ∧ vblk.blk ∈ (chan.luns vblk.lun).usedBlks ∧
    ∀ type, vblk.blk ∉ (chan.luns vblk.lun).openBlks type

/-- Opening blocks for a line: the write lines stay, open and closed blocks stay what
they are, and the blocks marked as line blocks stay marked. -/
structure Grows (env : Env) (chan chan' : Chan) : Prop where
  line : chan'.line = chan.line
  isOpen : ∀ type vblk, IsOpen env chan type vblk → IsOpen env chan' type vblk
  isClosed : ∀ vblk, IsClosed env chan vblk → IsClosed env chan' vblk
  marked : ∀ type vblk, IsOpen env chan type vblk → (chan.mdOf vblk).flags.line = true →
    (chan'.mdOf vblk).flags.line = true

namespace Grows

theorem refl (chan : Chan) : Grows env chan chan :=
  ⟨rfl, fun _ _ isOpen => isOpen, fun _ isClosed => isClosed, fun _ _ _ marked => marked⟩

theorem trans {chan'' : Chan} (first : Grows env chan chan') (second : Grows env chan' chan'') :
    Grows env chan chan'' where
  line := second.line.trans first.line
  isOpen type vblk isOpen := second.isOpen type vblk (first.isOpen type vblk isOpen)
  isClosed vblk isClosed := second.isClosed vblk (first.isClosed vblk isClosed)
  marked type vblk isOpen marked :=
    second.marked type vblk (first.isOpen type vblk isOpen) (first.marked type vblk isOpen marked)

end Grows

/-! ## Getting a block -/

section BlkGet

variable {lun blk : Nat} {rest : List Nat}

/-- Channel after the first free block of a LUN has been erased and opened. -/
def openedChan (env : Env) (type : LineType) (vblk : Vblk) (chan : Chan) : Chan :=
  let chan := chan.setLun vblk.lun fun old => openFirst type old vblk.blk
  ((mark env chan.countErase vblk).setMd vblk fun entry =>
    openedMd { entry with eraseCount := entry.eraseCount + 1 }).log (.erase vblk)

/-- Channel after the erase of the first free block of a LUN has failed. -/
def lostChan (env : Env) (type : LineType) (vblk : Vblk) (chan : Chan) : Chan :=
  let chan := chan.setLun vblk.lun fun old => openFirst type old vblk.blk
  let chan := (mark env chan.countErase vblk).setMd vblk fun entry =>
    { entry with eraseCount := entry.eraseCount + 1 }
  (chan.setBad vblk).setLun vblk.lun fun old => dropBad type old vblk.blk

theorem CoreOk.openedChan (ok : CoreOk env start chan) (inRange : vblk.lun < env.geo.lunPerCh)
    (free : vblk.blk ∈ (chan.luns vblk.lun).freeBlks) :
    CoreOk env start (ChProv.openedChan env type vblk chan) := by
  have lunOk := ok.luns vblk.lun inRange
  have isGood := (lunOk.mem_iff vblk.blk).mp (Or.inl free)
  have nextEq : nextPage start (ChProv.openedChan env type vblk chan).trace =
      stepPage (nextPage start chan.trace) (.erase vblk) :=
    nextPage_append_singleton start chan.trace (.erase vblk)
  refine ok.update _ rfl rfl (fun _ _ => Iff.rfl) ?_ ?_ ?_
    (fun h => ok.lost_update isGood h) ?_
  · intro other differ
    rw [nextEq, stepPage_of_lun_ne (Or.inl rfl) differ]
  · simp [ChProv.openedChan, Chan.log, Chan.setMd, mark, Chan.countErase, Chan.setLun]
  · intro _
    rw [nextEq]
    simp only [stepPage]
    rw [row_update]
    exact lunOk.openFirst type env.geo.pg_pos free ⟨rfl, rfl, rfl⟩
  · refine .erase vblk ?_ ok.trace
    intro isRaw
    exact lunOk.disjoint vblk.blk free (lunOk.raw_used vblk.blk isRaw).1

theorem CoreOk.lostChan (ok : CoreOk env start chan) (inRange : vblk.lun < env.geo.lunPerCh)
    (free : vblk.blk ∈ (chan.luns vblk.lun).freeBlks) :
    CoreOk env start (ChProv.lostChan env type vblk chan) := by
  have lunOk := ok.luns vblk.lun inRange
  have grownEq : (ChProv.lostChan env type vblk chan).grownBad = vblk :: chan.grownBad := rfl
  have goodEq : Good env (vblk :: chan.grownBad) vblk.lun =
      fun blk => Good env chan.grownBad vblk.lun blk ∧ blk ≠ vblk.blk := by
    funext blk
    have same : (⟨vblk.lun, blk⟩ : Vblk) = vblk ↔ blk = vblk.blk :=
      ⟨fun eq => by rw [← eq], fun eq => by rw [eq]⟩
    simp only [Good, List.mem_cons, same, eq_iff_iff]
    tauto
  refine ok.update (dropBad type (openFirst type (chan.luns vblk.lun) vblk.blk) vblk.blk)
    ?_ rfl ?_ (fun _ _ => rfl) (fun _ => Iff.rfl) ?_ ?_ ok.trace
  · simp [ChProv.lostChan, Chan.setBad, Chan.setMd, mark, Chan.countErase, Chan.setLun]
  · intro other differ
    have otherNe : other ≠ vblk := by
      rintro rfl
      exact differ rfl
    simp [grownEq, otherNe]
  · intro _
    rw [grownEq, goodEq]
    exact lunOk.lose type free rfl
  · intro _ blk blkInRange notGood
    rw [grownEq, goodEq] at notGood
    by_cases same : blk = vblk.blk
    · rw [same, Function.update_self]
      exact lunOk.unused_of_free free
    · have : ¬ Good env chan.grownBad vblk.lun blk := fun isGood => notGood ⟨isGood, same⟩
      simpa [same] using ok.lost vblk.lun inRange blk blkInRange this

/-- Channel after the first free block of a LUN has been opened without an erase. -/
def rawChan (type : LineType) (vblk : Vblk) (chan : Chan) : Chan :=
  (chan.setLun vblk.lun fun old => openFirst type old vblk.blk).countErase.log (.unerased vblk)

theorem CoreOk.rawChan (ok : CoreOk env start chan)
    (free : vblk.blk ∈ (chan.luns vblk.lun).freeBlks) (noMem : env.erase chan.erases = .noMem) :
    CoreOk env start (ChProv.rawChan type vblk chan) := by
  have traceEq : (ChProv.rawChan type vblk chan).trace = chan.trace ++ [.unerased vblk] := rfl
  refine ⟨?_, ok.lost, .unerased vblk ok.trace, ?_⟩
  · intro lun lunInRange
    have lunOk := ok.luns lun lunInRange
    rw [traceEq, nextPage_append_singleton]
    by_cases same : lun = vblk.lun
    · subst same
      have rawEq : Raw (chan.trace ++ [.unerased vblk]) vblk.lun =
          fun blk => Raw chan.trace vblk.lun blk ∨ blk = vblk.blk := by
        funext blk
        have isVblk : (⟨vblk.lun, blk⟩ : Vblk) = vblk ↔ blk = vblk.blk :=
          ⟨fun eq => by rw [← eq], fun eq => by rw [eq]⟩
        simp [Raw, isVblk]
      rw [rawEq]
      simpa [ChProv.rawChan, Chan.log, Chan.countErase, Chan.setLun, stepPage] using
        lunOk.openRaw type free
    · have rawEq : Raw (chan.trace ++ [.unerased vblk]) lun = Raw chan.trace lun := by
        funext blk
        have differ : (⟨lun, blk⟩ : Vblk) ≠ vblk := fun eq => same (congrArg Vblk.lun eq)
        simp [Raw, differ]
      rw [rawEq]
      simpa [ChProv.rawChan, Chan.log, Chan.countErase, Chan.setLun, same, stepPage] using lunOk
  · intro other _
    exact ⟨chan.erases, noMem⟩

/-- A free block is in no open list. -/
theorem CoreOk.ne_of_isOpen (ok : CoreOk env start chan) {other : Vblk}
    (free : vblk.blk ∈ (chan.luns vblk.lun).freeBlks) (isOpen : IsOpen env chan kind other) :
    other ≠ vblk := by
  rintro rfl
  have lunOk := ok.luns other.lun isOpen.1
  exact lunOk.disjoint other.blk free (lunOk.open_used kind other.blk isOpen.2)

/-- Opening the first free block of a LUN keeps the open and the closed blocks. -/
theorem CoreOk.grows_openFirst (ok : CoreOk env start chan)
    (inRange : vblk.lun < env.geo.lunPerCh) (free : vblk.blk ∈ (chan.luns vblk.lun).freeBlks)
    (line : chan'.line = chan.line)
    (luns : chan'.luns = Function.update chan.luns vblk.lun
      (openFirst type (chan.luns vblk.lun) vblk.blk))
    (md : ∀ other, other ≠ vblk → chan'.mdOf other = chan.mdOf other) :
    Grows env chan chan' := by
  have notUsed := (ok.luns vblk.lun inRange).disjoint vblk.blk free
  refine ⟨line, ?_, ?_, ?_⟩
  · intro kind other isOpen
    refine ⟨isOpen.1, ?_⟩
    have listed := isOpen.2
    rw [luns]
    grind [Function.update_apply]
  · intro other isClosed
    obtain ⟨otherInRange, used, notOpen⟩ := isClosed
    refine ⟨otherInRange, ?_, ?_⟩
    · rw [luns]
      grind [Function.update_apply, openFirst, linkOpen]
    · intro kind
      rw [luns]
      grind [Function.update_apply]
  · intro kind other isOpen marked
    rwa [md other (ok.ne_of_isOpen free isOpen)]

theorem CoreOk.grows_lostChan (ok : CoreOk env start chan)
    (inRange : vblk.lun < env.geo.lunPerCh) (free : vblk.blk ∈ (chan.luns vblk.lun).freeBlks) :
    Grows env chan (ChProv.lostChan env type vblk chan) := by
  have notUsed := (ok.luns vblk.lun inRange).disjoint vblk.blk free
  have openEq : ∀ lun, ((ChProv.lostChan env type vblk chan).luns lun).openBlks =
      (chan.luns lun).openBlks := by
    intro lun
    by_cases same : lun = vblk.lun
    · simp [ChProv.lostChan, Chan.setBad, Chan.setMd, mark, Chan.countErase, Chan.setLun, same,
        dropBad_openFirst notUsed]
    · simp [ChProv.lostChan, Chan.setBad, Chan.setMd, mark, Chan.countErase, Chan.setLun, same]
  have usedEq : ∀ lun, ((ChProv.lostChan env type vblk chan).luns lun).usedBlks =
      (chan.luns lun).usedBlks := by
    intro lun
    by_cases same : lun = vblk.lun
    · simp [ChProv.lostChan, Chan.setBad, Chan.setMd, mark, Chan.countErase, Chan.setLun, same,
        dropBad_openFirst notUsed]
    · simp [ChProv.lostChan, Chan.setBad, Chan.setMd, mark, Chan.countErase, Chan.setLun, same]
  refine ⟨rfl, ?_, ?_, ?_⟩
  · intro kind other isOpen
    exact ⟨isOpen.1, by simpa [openEq] using isOpen.2⟩
  · intro other isClosed
    exact ⟨isClosed.1, by simpa [usedEq] using isClosed.2.1, by simpa [openEq] using isClosed.2.2⟩
  · intro kind other isOpen marked
    have differ := ok.ne_of_isOpen free isOpen
    rwa [ChProv.lostChan, Chan.mdOf_setLun, Chan.mdOf_setBad, Chan.mdOf_setMd_of_ne differ]

/-- A round of the loop of `ch_prov_blk_get` with a free block. -/
theorem blkGetLoop_cons {nfree : Nat} (freeEq : (chan.luns lun).freeBlks = blk :: rest) :
    blkGetLoop env lun type (nfree + 1) chan =
      match env.erase chan.erases with
      | .noMem => (ChProv.rawChan type ⟨lun, blk⟩ chan, none)
      | .failed => blkGetLoop env lun type nfree (ChProv.lostChan env type ⟨lun, blk⟩ chan)
      | .ok => (ChProv.openedChan env type ⟨lun, blk⟩ chan, some ⟨lun, blk⟩) := by
  simp only [blkGetLoop, freeEq]
  cases env.erase chan.erases <;> rfl

/-- `ch_prov_blk_get` keeps the invariant; the block it returns is the first open
block of its LUN and is not a line block. -/
theorem blkGetLoop_spec (type : LineType) {lun : Nat} (inRange : lun < env.geo.lunPerCh)
    (nfree : Nat) (ok : CoreOk env start chan) :
    CoreOk env start (blkGetLoop env lun type nfree chan).1 ∧
      Grows env chan (blkGetLoop env lun type nfree chan).1 ∧
      ∀ vblk, (blkGetLoop env lun type nfree chan).2 = some vblk → vblk.lun = lun ∧
        ∃ rest, ((blkGetLoop env lun type nfree chan).1.luns lun).openBlks type = vblk.blk :: rest ∧
          ((blkGetLoop env lun type nfree chan).1.mdOf vblk).flags.line = false := by
  induction nfree generalizing chan with
  | zero => exact ⟨ok, .refl chan, by simp [blkGetLoop]⟩
  | succ nfree ih =>
      cases freeEq : (chan.luns lun).freeBlks with
      | nil =>
          simp only [blkGetLoop, freeEq]
          exact ⟨ok, .refl chan, by simp⟩
      | cons blk rest =>
          have free : blk ∈ (chan.luns lun).freeBlks := by simp [freeEq]
          rw [blkGetLoop_cons freeEq]
          cases outcome : env.erase chan.erases with
          | noMem =>
              refine ⟨ok.rawChan free outcome, ?_, by simp⟩
              exact ok.grows_openFirst inRange free rfl rfl fun _ _ => rfl
          | failed =>
              have lostOk : CoreOk env start (ChProv.lostChan env type ⟨lun, blk⟩ chan) :=
                ok.lostChan inRange free
              obtain ⟨restOk, grows, found⟩ := ih lostOk
              exact ⟨restOk, (ok.grows_lostChan inRange free).trans grows, found⟩
          | ok =>
              refine ⟨ok.openedChan inRange free, ?_, ?_⟩
              · refine ok.grows_openFirst inRange free rfl rfl fun other differ => ?_
                rw [ChProv.openedChan, Chan.mdOf_log, Chan.mdOf_setMd_of_ne differ]
                rfl
              · rintro vblk same
                obtain rfl : ⟨lun, blk⟩ = vblk := Option.some.inj same
                refine ⟨rfl, (chan.luns lun).openBlks type, ?_, ?_⟩
                · simp [ChProv.openedChan, Chan.log, Chan.setMd, mark, Chan.countErase,
                    Chan.setLun, openFirst_openBlks]
                · simp [ChProv.openedChan, openedMd]

end BlkGet

end OxCtrl.ChProv
