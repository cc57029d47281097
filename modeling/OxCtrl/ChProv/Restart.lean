import OxCtrl.ChProv.Core
import OxCtrl.Log.Entry
import Mathlib.Algebra.BigOperators.Group.Finset.Piecewise
import Mathlib.Algebra.Order.BigOperators.Group.Finset
import Mathlib.Data.List.Nodup

/-!
# Start-up before the log is replayed

`channels_init` starts provisioning on the block metadata of the checkpoint, which is
older than the log.  A line that does not find enough open blocks there is filled with
free blocks, which are erased.  The log may name their pages.
-/

namespace OxCtrl.ChProv

open OxCtrl.Log

/-! ## Model -/

variable (env : Env)

/-- The lines are filled in turn; start-up ends with a line without blocks. -/
def startLines : List LineType → Chan → Chan
  | [], chan => chan
  | type :: types, chan =>
      match chProvRenewLine env type chan with
      | (chan, 0) => startLines types chan
      | (chan, _) => chan

/-- The channel when `ch_prov_init` ends, whether it succeeds or not. -/
def startUp (md : Nat → Nat → BlkMdEntry) : Chan :=
  startLines env [.user, .cold, .metadata] (chProvInitLuns env md)

theorem startLines_of_initLines {types : List LineType} {chan chan' : Chan}
    (starts : initLines env types chan = some chan') : startLines env types chan = chan' := by
  induction types generalizing chan with
  | nil => exact Option.some.inj starts
  | cons type types ih =>
      rw [initLines] at starts
      rw [startLines]
      revert starts
      rcases chProvRenewLine env type chan with ⟨next, code⟩
      intro starts
      rcases code with (_ | _) | _
      · exact ih starts
      · cases starts
      · cases starts

theorem startUp_of_chProvInit {md : Nat → Nat → BlkMdEntry} {chan : Chan}
    (starts : chProvInit env md = some chan) : startUp env md = chan :=
  startLines_of_initLines env starts

/-- An erase command was sent to the block; where it failed the block is marked as bad. -/
def SentErase (chan : Chan) (vblk : Vblk) : Prop :=
  .erase vblk ∈ chan.trace ∨ vblk ∈ chan.grownBad

/-- A record of the log names a page of the block as `new_ppa`. -/
def NamesBlk (ch : Nat) (log : List LogEntry) (vblk : Vblk) : Prop :=
  ∃ entry ∈ log, (entry.newPpa.ch : Nat) = ch ∧ (entry.newPpa.lun : Nat) = vblk.lun ∧
    (entry.newPpa.blk : Nat) = vblk.blk

/-- Start-up erases no block that the log names. -/
def SparesLog (ch : Nat) (md : Nat → Nat → BlkMdEntry) (log : List LogEntry) : Prop :=
  ∀ vblk, NamesBlk ch log vblk → ¬ SentErase (startUp env md) vblk

/-! ## What the image shows -/

/-- A good block of the image that is free. -/
def freeIn (md : Nat → Nat → BlkMdEntry) (lun blk : Nat) : Bool :=
  !env.bad lun blk && !(md lun blk).flags.used

/-- A good block of the image that is open for a line. -/
def openIn (md : Nat → Nat → BlkMdEntry) (type : LineType) (lun blk : Nat) : Bool :=
  !env.bad lun blk && (md lun blk).flags.used && (md lun blk).flags.isOpen &&
    decide (lineOfFlags (md lun blk).flags = type)

/-- Free blocks of a LUN. -/
def imageFree (md : Nat → Nat → BlkMdEntry) (lun : Nat) : List Nat :=
  (List.range env.geo.blkPerLun).filter (freeIn env md lun)

/-- Open blocks of a LUN for a line. -/
def imageOpen (md : Nat → Nat → BlkMdEntry) (type : LineType) (lun : Nat) : List Nat :=
  (List.range env.geo.blkPerLun).filter (openIn env md type lun)

/-- Open blocks that the round-robin over the LUNs collects before it comes to a LUN
whose own open blocks are used up. -/
def filledBefore (md : Nat → Nat → BlkMdEntry) (type : LineType) (lun : Nat) : Nat :=
  ∑ other ∈ Finset.range env.geo.lunPerCh,
    min (imageOpen env md type other).length
      ((imageOpen env md type lun).length + if other < lun then 1 else 0)

/-- Every line is full before a LUN with free blocks has to open one. -/
def LinesFilled (md : Nat → Nat → BlkMdEntry) : Prop :=
  ∀ type, ∀ lun < env.geo.lunPerCh, imageFree env md lun ≠ [] →
    appProvLineSz ≤ filledBefore env md type lun

/-! ## The lists after `ch_prov_init_luns` -/

variable {env} {md : Nat → Nat → BlkMdEntry} {chan chan' : Chan} {type kind : LineType}
  {vblk : Vblk}

/-- Nothing was erased. -/
structure Quiet (chan chan' : Chan) : Prop where
  erases : chan'.erases = chan.erases
  grownBad : chan'.grownBad = chan.grownBad
  trace : chan'.trace = chan.trace

theorem Quiet.refl (chan : Chan) : Quiet chan chan :=
  ⟨rfl, rfl, rfl⟩

theorem Quiet.trans {chan'' : Chan} (first : Quiet chan chan') (second : Quiet chan' chan'') :
    Quiet chan chan'' where
  erases := second.erases.trans first.erases
  grownBad := second.grownBad.trans first.grownBad
  trace := second.trace.trans first.trace

theorem setAvlb_quiet (avlb : Bool) :
    Quiet chan (setAvlb env vblk avlb chan) ∧ (setAvlb env vblk avlb chan).luns = chan.luns ∧
      (∀ other, other ≠ vblk → (setAvlb env vblk avlb chan).mdOf other = chan.mdOf other) ∧
      ((setAvlb env vblk avlb chan).mdOf vblk).flags =
        { (chan.mdOf vblk).flags with avlb := avlb } := by
  rw [setAvlb]
  split
  case isTrue same =>
    refine ⟨Quiet.refl chan, rfl, fun _ _ => rfl, ?_⟩
    rw [← same]
  case isFalse =>
    refine ⟨⟨rfl, rfl, rfl⟩, rfl, fun other ne => ?_, ?_⟩
    · rw [Chan.mdOf_setMd_of_ne ne, mdOf_mark]
    · rw [Chan.mdOf_setMd, mdOf_mark]

theorem chProvBlkAlloc_frame :
    Quiet chan (chProvBlkAlloc env vblk chan) ∧
      (∀ lun, lun ≠ vblk.lun → (chProvBlkAlloc env vblk chan).luns lun = chan.luns lun) ∧
      ∀ other, other ≠ vblk → (chProvBlkAlloc env vblk chan).mdOf other = chan.mdOf other := by
  rw [chProvBlkAlloc]
  split
  · obtain ⟨quiet, luns, others, -⟩ := @setAvlb_quiet env chan vblk false
    exact ⟨quiet, fun lun _ => by rw [luns], others⟩
  · obtain ⟨quiet, luns, others, -⟩ := @setAvlb_quiet env chan vblk true
    refine ⟨⟨quiet.erases, quiet.grownBad, quiet.trace⟩, fun lun ne => ?_, others⟩
    rw [← luns]
    exact Function.update_of_ne ne _ _

/-- Lists of the LUN of a block that is added. -/
theorem chProvBlkAlloc_lun :
    (chProvBlkAlloc env vblk chan).luns vblk.lun =
      if env.bad vblk.lun vblk.blk then chan.luns vblk.lun
      else allocLun (chan.mdOf vblk).flags (env.rand vblk.lun vblk.blk) (chan.luns vblk.lun)
        vblk.blk := by
  rw [chProvBlkAlloc]
  split
  · obtain ⟨-, luns, -⟩ := @setAvlb_quiet env chan vblk false
    rw [luns]
  · obtain ⟨-, luns, -, flags⟩ := @setAvlb_quiet env chan vblk true
    have lists := congrArg (fun luns => luns vblk.lun) luns
    simp only [Chan.setLun, Function.update_self, flags, lists]
    rfl

/-- The first `count` blocks of a LUN are in its lists. -/
structure RowOk (env : Env) (md : Nat → Nat → BlkMdEntry) (lun count : Nat) (chan : Chan) :
    Prop where
  isOpen : ∀ type, (chan.luns lun).openBlks type =
    ((List.range count).filter (openIn env md type lun)).reverse
  free : (chan.luns lun).freeBlks.Perm ((List.range count).filter (freeIn env md lun))
  nfree : (chan.luns lun).nfreeBlks = (chan.luns lun).freeBlks.length
  rest : ∀ blk, count ≤ blk → chan.md lun blk = md lun blk

theorem filter_range_succ (p : Nat → Bool) (count : Nat) :
    (List.range (count + 1)).filter p =
      (List.range count).filter p ++ if p count then [count] else [] := by
  rw [List.range_succ, List.filter_append, List.filter_singleton, Bool.cond_eq_ite]

theorem allocLun_openBlks (flags : BlkFlags) (rand : Nat × Nat) (lun : Lun) (blk : Nat) :
    (allocLun flags rand lun blk).openBlks type =
      if flags.used ∧ flags.isOpen ∧ lineOfFlags flags = type then blk :: lun.openBlks type
      else lun.openBlks type := by
  rw [allocLun]
  by_cases used : flags.used = true
  · rw [if_pos used]
    by_cases isOpen : flags.isOpen = true
    · rw [if_pos isOpen]
      by_cases same : lineOfFlags flags = type
      · rw [if_pos ⟨used, isOpen, same⟩, ← same]
        exact Function.update_self ..
      · rw [if_neg fun all => same all.2.2]
        exact Function.update_of_ne (Ne.symm same) _ _
    · rw [if_neg isOpen, if_neg fun all => isOpen all.2.1]
  · have closed : ¬ (flags.used = true ∧ flags.isOpen = true ∧ lineOfFlags flags = type) :=
      fun all => used all.1
    rw [if_neg used, if_neg closed]

theorem allocLun_freeBlks (flags : BlkFlags) (rand : Nat × Nat) {lun : Lun} (blk : Nat)
    (nfree : lun.nfreeBlks = lun.freeBlks.length) :
    (allocLun flags rand lun blk).freeBlks.Perm
        (if flags.used then lun.freeBlks else blk :: lun.freeBlks) ∧
      (allocLun flags rand lun blk).nfreeBlks = (allocLun flags rand lun blk).freeBlks.length := by
  rw [allocLun]
  by_cases used : flags.used = true
  · rw [if_pos used, if_pos used]
    split
    · exact ⟨List.Perm.refl _, nfree⟩
    · exact ⟨List.Perm.refl _, nfree⟩
  · rw [if_neg used, if_neg used]
    have position : (if lun.nfreeBlks = 0 then 0
        else rand.1 % lun.nfreeBlks + if rand.2 % 2 = 1 then 0 else 1) ≤ lun.freeBlks.length := by
      rw [← nfree]
      split
      · exact Nat.zero_le _
      next some =>
        have lt := Nat.mod_lt rand.1 (Nat.pos_of_ne_zero some)
        split <;> omega
    have perm := List.perm_insertIdx blk lun.freeBlks position
    refine ⟨perm, ?_⟩
    have length := perm.length_eq
    rw [List.length_cons] at length
    rw [length, nfree]

/-- One more block of a LUN. -/
theorem RowOk.alloc {lun count : Nat} (row : RowOk env md lun count chan) :
    RowOk env md lun (count + 1) (chProvBlkAlloc env ⟨lun, count⟩ chan) := by
  have lists := @chProvBlkAlloc_lun env chan ⟨lun, count⟩
  have entry : chan.mdOf ⟨lun, count⟩ = md lun count := row.rest count (Nat.le_refl count)
  rw [entry] at lists
  obtain ⟨-, -, others⟩ := @chProvBlkAlloc_frame env chan ⟨lun, count⟩
  have rest : ∀ blk, count + 1 ≤ blk →
      (chProvBlkAlloc env ⟨lun, count⟩ chan).md lun blk = md lun blk := by
    intro blk le
    have ne : (⟨lun, blk⟩ : Vblk) ≠ ⟨lun, count⟩ := by
      intro same
      have blkEq := congrArg Vblk.blk same
      change blk = count at blkEq
      omega
    exact (others _ ne).trans (row.rest blk (by omega))
  by_cases bad : env.bad lun count = true
  · rw [if_pos bad] at lists
    have notOpen : ∀ type, openIn env md type lun count = false := by
      intro type
      simp [openIn, bad]
    have notFree : freeIn env md lun count = false := by simp [freeIn, bad]
    constructor
    · intro type
      rw [lists, row.isOpen, filter_range_succ, notOpen]
      simp
    · rw [lists, filter_range_succ, notFree]
      simpa using row.free
    · rw [lists]
      exact row.nfree
    · exact rest
  · rw [if_neg bad] at lists
    have good : env.bad lun count = false := Bool.eq_false_iff.mpr bad
    obtain ⟨perm, nfree⟩ := allocLun_freeBlks (md lun count).flags (env.rand lun count) count
      row.nfree
    constructor
    · intro type
      rw [lists, allocLun_openBlks, row.isOpen, filter_range_succ]
      simp only [openIn, good, Bool.not_false, Bool.true_and, Bool.and_eq_true, decide_eq_true_eq,
        and_assoc]
      split
      · simp
      · simp
    · rw [lists, filter_range_succ]
      apply perm.trans
      simp only [freeIn, good, Bool.not_false, Bool.true_and, Bool.not_eq_true']
      by_cases used : (md lun count).flags.used = true
      · simpa [used] using row.free
      · simp only [used]
        simpa using (row.free.cons count).trans (List.perm_append_singleton count _).symm
    · rw [lists]
      exact nfree
    · exact rest

theorem rowOk_foldl {lun : Nat} (empty : chan.luns lun = {}) (same : chan.md lun = md lun)
    (count : Nat) :
    RowOk env md lun count (((List.range count).map fun blk => (⟨lun, blk⟩ : Vblk)).foldl
      (fun chan vblk => chProvBlkAlloc env vblk chan) chan) := by
  induction count with
  | zero =>
      constructor
      · intro type
        rw [List.range_zero, List.map_nil, List.foldl_nil, empty]
        rfl
      · rw [List.range_zero, List.map_nil, List.foldl_nil, empty]
        exact List.Perm.refl []
      · rw [List.range_zero, List.map_nil, List.foldl_nil, empty]
        rfl
      · intro blk _
        exact congrFun same blk
  | succ count ih =>
      rw [List.range_succ, List.map_append, List.foldl_append]
      exact ih.alloc

/-- Adding blocks of one LUN leaves the other LUNs alone. -/
theorem foldl_alloc_frame (lun : Nat) (blks : List Nat) (chan : Chan) :
    Quiet chan ((blks.map fun blk => (⟨lun, blk⟩ : Vblk)).foldl
        (fun chan vblk => chProvBlkAlloc env vblk chan) chan) ∧
      ∀ other, other ≠ lun →
        ((blks.map fun blk => (⟨lun, blk⟩ : Vblk)).foldl
          (fun chan vblk => chProvBlkAlloc env vblk chan) chan).luns other = chan.luns other ∧
        ((blks.map fun blk => (⟨lun, blk⟩ : Vblk)).foldl
          (fun chan vblk => chProvBlkAlloc env vblk chan) chan).md other = chan.md other := by
  induction blks generalizing chan with
  | nil => exact ⟨Quiet.refl chan, fun _ _ => ⟨rfl, rfl⟩⟩
  | cons blk blks ih =>
      obtain ⟨quiet, luns, entries⟩ := @chProvBlkAlloc_frame env chan ⟨lun, blk⟩
      obtain ⟨later, others⟩ := ih (chProvBlkAlloc env ⟨lun, blk⟩ chan)
      refine ⟨quiet.trans later, fun other ne => ⟨?_, ?_⟩⟩
      · exact (others other ne).1.trans (luns other ne)
      · apply (others other ne).2.trans
        funext number
        apply entries ⟨other, number⟩
        intro same
        exact ne (congrArg Vblk.lun same)

theorem foldl_luns (count : Nat) :
    let chan := ((List.range count).flatMap fun lun =>
        (List.range env.geo.blkPerLun).map fun blk => (⟨lun, blk⟩ : Vblk)).foldl
      (fun chan vblk => chProvBlkAlloc env vblk chan) { md := md }
    Quiet { md := md } chan ∧
      (∀ lun < count, RowOk env md lun env.geo.blkPerLun chan) ∧
      ∀ lun, count ≤ lun → chan.luns lun = {} ∧ chan.md lun = md lun := by
  induction count with
  | zero =>
      refine ⟨Quiet.refl _, fun lun lt => absurd lt (Nat.not_lt_zero lun), fun _ _ => ⟨rfl, rfl⟩⟩
  | succ count ih =>
      rw [List.range_succ, List.flatMap_append, List.foldl_append, List.flatMap_singleton]
      obtain ⟨quiet, rows, rest⟩ := ih
      generalize ((List.range count).flatMap fun lun =>
          (List.range env.geo.blkPerLun).map fun blk => (⟨lun, blk⟩ : Vblk)).foldl
        (fun chan vblk => chProvBlkAlloc env vblk chan) { md := md } = chan at quiet rows rest ⊢
      obtain ⟨later, others⟩ := @foldl_alloc_frame env count
        (List.range env.geo.blkPerLun) chan
      have empty := rest count (Nat.le_refl count)
      refine ⟨quiet.trans later, fun lun lt => ?_, fun lun le => ?_⟩
      · rcases Nat.lt_succ_iff_lt_or_eq.mp lt with before | rfl
        · obtain ⟨luns, entries⟩ := others lun before.ne
          have row := rows lun before
          constructor
          · intro type
            rw [luns]
            exact row.isOpen type
          · rw [luns]
            exact row.free
          · rw [luns]
            exact row.nfree
          · intro blk le
            rw [entries]
            exact row.rest blk le
        · exact rowOk_foldl empty.1 empty.2 env.geo.blkPerLun
      · have ne : lun ≠ count := by omega
        have before := rest lun (by omega)
        exact ⟨(others lun ne).1.trans before.1, (others lun ne).2.trans before.2⟩

/-! ## Erase commands are not taken back -/

theorem SentErase.blkGetLoop {lun : Nat} (sent : SentErase chan vblk) (nfree : Nat) :
    SentErase (blkGetLoop env lun type nfree chan).1 vblk := by
  induction nfree generalizing chan with
  | zero => exact sent
  | succ nfree ih =>
      rw [ChProv.blkGetLoop]
      split
      · exact sent
      · cases env.erase chan.erases with
        | noMem => exact sent.imp (List.mem_append_left _) id
        | failed =>
            apply ih
            exact sent.imp id (List.mem_cons_of_mem _)
        | ok => exact sent.imp (List.mem_append_left _) id

theorem SentErase.visitLun {renew : RenewState} (sent : SentErase renew.chan vblk) :
    SentErase (visitLun env type renew).chan vblk := by
  have getBlk : SentErase (chProvBlkGet env renew.lun type renew.chan).1 vblk :=
    sent.blkGetLoop _
  rw [ChProv.visitLun]
  split
  · exact sent
  · split
    · exact sent
    · split
      next found =>
        rw [found] at getBlk
        exact getBlk
      next found =>
        rw [found] at getBlk
        split
        · exact getBlk
        · exact getBlk

theorem SentErase.renewLoop {renew : RenewState} (sent : SentErase renew.chan vblk) (fuel : Nat) :
    SentErase (renewLoop env type fuel renew).chan vblk := by
  induction fuel generalizing renew with
  | zero => exact sent
  | succ fuel ih =>
      rw [ChProv.renewLoop]
      split
      · exact sent
      · exact ih sent.visitLun

theorem SentErase.startLines {types : List LineType} (sent : SentErase chan vblk) :
    SentErase (startLines env types chan) vblk := by
  induction types generalizing chan with
  | nil => exact sent
  | cons type types ih =>
      have renewed : SentErase (chProvRenewLine env type chan).1 vblk := by
        have loop := @SentErase.renewLoop env type vblk
          { chan := chan, lun := 0, lflag := allLuns env, picked := [] } sent (renewFuel env)
        rw [chProvRenewLine, installLine]
        split
        · exact loop
        · exact loop
      rw [ChProv.startLines]
      split
      next found =>
        rw [found] at renewed
        exact ih renewed
      next found =>
        rw [found] at renewed
        exact renewed

/-- A LUN with free blocks sends an erase command to the first of them. -/
theorem sentErase_blkGet {lun blk : Nat} {blks : List Nat}
    (memory : ∀ n, env.erase n ≠ .noMem) (free : (chan.luns lun).freeBlks = blk :: blks)
    (nfree : (chan.luns lun).nfreeBlks = (chan.luns lun).freeBlks.length) :
    SentErase (chProvBlkGet env lun type chan).1 ⟨lun, blk⟩ := by
  rw [chProvBlkGet, nfree, free, List.length_cons, blkGetLoop]
  simp only [free]
  cases outcome : env.erase chan.erases with
  | noMem => exact absurd outcome (memory _)
  | failed =>
      apply SentErase.blkGetLoop
      exact Or.inr List.mem_cons_self
  | ok => exact Or.inl (List.mem_append_right _ (List.mem_singleton.mpr rfl))

/-! ## Turns of the LUNs -/

/-- Visits of a LUN among the first `turn` ones. -/
def visits (luns turn lun : Nat) : Nat :=
  turn / luns + if lun < turn % luns then 1 else 0

theorem visits_self (luns turn : Nat) : visits luns turn (turn % luns) = turn / luns := by
  rw [visits, if_neg (Nat.lt_irrefl _), Nat.add_zero]

theorem visits_succ {luns lun : Nat} (turn : Nat) (lt : lun < luns) :
    visits luns (turn + 1) lun = visits luns turn lun + if lun = turn % luns then 1 else 0 := by
  have pos : 0 < luns := Nat.zero_lt_of_lt lt
  have less := Nat.mod_lt turn pos
  have split := Nat.div_add_mod turn luns
  generalize turn / luns = rounds at split
  generalize turn % luns = here at split less
  have next : turn + 1 = luns * rounds + (here + 1) := by omega
  have this : turn = luns * rounds + here := by omega
  rw [visits, visits, next, this, Nat.mul_add_div pos, Nat.mul_add_mod, Nat.mul_add_div pos,
    Nat.mul_add_mod, Nat.div_eq_of_lt less, Nat.mod_eq_of_lt less]
  by_cases last : here + 1 = luns
  · rw [last, Nat.div_self pos, Nat.mod_self, if_neg (Nat.not_lt_zero lun)]
    by_cases before : lun < here
    · rw [if_pos before, if_neg before.ne]
    · have same : lun = here := by omega
      rw [if_neg before, if_pos same]
  · have inRange : here + 1 < luns := by omega
    rw [Nat.div_eq_of_lt inRange, Nat.mod_eq_of_lt inRange]
    split <;> split <;> split <;> omega

theorem visits_mono {luns turn later : Nat} (le : turn ≤ later) {lun : Nat} (lt : lun < luns) :
    visits luns turn lun ≤ visits luns later lun := by
  induction later, le using Nat.le_induction with
  | base => exact Nat.le_refl _
  | succ later _ ih =>
      rw [visits_succ later lt]
      omega

/-- The first block of a list that was not taken yet. -/
theorem find?_take {α : Type*} {list : List α} (nodup : list.Nodup) {taken : Nat} {p : α → Bool}
    (left : ∀ a ∈ list, p a = true ↔ a ∉ list.take taken) : list.find? p = list[taken]? := by
  have before : (list.take taken).find? p = none := by
    rw [List.find?_eq_none]
    intro a mem picked
    exact (left a (List.mem_of_mem_take mem)).mp picked mem
  have split : list.find? p = (list.drop taken).find? p := by
    conv_lhs => rw [← List.take_append_drop taken list]
    rw [List.find?_append, before, Option.none_or]
  rw [split, ← List.head?_drop]
  cases rest : list.drop taken with
  | nil => rfl
  | cons a tail =>
      have mem : a ∈ list.drop taken := by
        rw [rest]
        exact List.mem_cons_self
      have later : a ∉ list.take taken := by
        intro early
        rw [← List.take_append_drop taken list, List.nodup_append] at nodup
        exact nodup.2.2 a early a mem rfl
      rw [List.find?_cons_of_pos ((left a (List.mem_of_mem_drop mem)).mpr later), List.head?_cons]

/-- Lists that `ch_prov_renew_line` can work on. -/
structure ListsOk (env : Env) (type : LineType) (chan : Chan) : Prop where
  nodup : ∀ lun < env.geo.lunPerCh, ((chan.luns lun).openBlks type).Nodup
  nfree : ∀ lun < env.geo.lunPerCh, (chan.luns lun).nfreeBlks = (chan.luns lun).freeBlks.length
  bits : env.geo.lunPerCh ≤ 32

/-- Open blocks of a LUN. -/
def openLen (chan : Chan) (type : LineType) (lun : Nat) : Nat :=
  ((chan.luns lun).openBlks type).length

/-- The loop that began with `first` is before its visit number `turn`, and every block that
it has collected was open. -/
structure Turn (env : Env) (type : LineType) (first : Chan) (turn : Nat) (renew : RenewState) :
    Prop where
  quiet : Quiet first renew.chan
  luns : renew.chan.luns = first.luns
  lun : renew.lun = turn % env.geo.lunPerCh
  marked : ∀ vblk ∈ renew.picked, (renew.chan.mdOf vblk).flags.line = true
  picked : ∀ vblk, vblk ∈ renew.picked ↔ vblk.lun < env.geo.lunPerCh ∧
    vblk.blk ∈ ((first.luns vblk.lun).openBlks type).take
      (visits env.geo.lunPerCh turn vblk.lun)
  count : renew.picked.length = ∑ lun ∈ Finset.range env.geo.lunPerCh,
    min (openLen first type lun) (visits env.geo.lunPerCh turn lun)
  lflag : ∀ lun < env.geo.lunPerCh, lun ∈ renew.lflag ↔
    ¬ ((first.luns lun).freeBlks = [] ∧ openLen first type lun < visits env.geo.lunPerCh turn lun)
  unopened : ∀ lun < env.geo.lunPerCh, (first.luns lun).freeBlks ≠ [] →
    visits env.geo.lunPerCh turn lun ≤ openLen first type lun

variable {first : Chan} {turn : Nat} {renew : RenewState}

theorem turn_zero (lists : ListsOk env type first) :
    Turn env type first 0
      { chan := first, lun := 0, lflag := allLuns env, picked := [] } := by
  have none : ∀ lun, visits env.geo.lunPerCh 0 lun = 0 := by
    intro lun
    rw [visits, Nat.zero_div, Nat.zero_mod, if_neg (Nat.not_lt_zero lun)]
  refine ⟨Quiet.refl first, rfl, (Nat.zero_mod _).symm, ?_, ?_, ?_, ?_, ?_⟩
  · intro vblk mem
    exact absurd mem List.not_mem_nil
  · intro vblk
    simp [none]
  · simp [none]
  · intro lun lt
    have bit : lunBit lun = lun := Nat.mod_eq_of_lt (lt_of_lt_of_le lt lists.bits)
    rw [none]
    constructor
    · intro _ both
      exact Nat.not_lt_zero _ both.2
    · intro _
      exact Finset.mem_image.mpr ⟨lun, Finset.mem_range.mpr lt, bit⟩
  · intro lun _ _
    rw [none]
    exact Nat.zero_le _

theorem Turn.lun_lt (turns : Turn env type first turn renew) : renew.lun < env.geo.lunPerCh := by
  rw [turns.lun]
  exact Nat.mod_lt _ env.geo.lun_pos

theorem Turn.visits_here (turns : Turn env type first turn renew) :
    visits env.geo.lunPerCh turn renew.lun = turn / env.geo.lunPerCh := by
  rw [turns.lun, visits_self]

theorem Turn.visits_own (turns : Turn env type first turn renew) :
    visits env.geo.lunPerCh (turn + 1) renew.lun = turn / env.geo.lunPerCh + 1 := by
  rw [visits_succ turn turns.lun_lt, turns.visits_here, if_pos turns.lun]

theorem Turn.visits_other (turns : Turn env type first turn renew) (lun : Nat)
    (lt : lun < env.geo.lunPerCh) (ne : lun ≠ renew.lun) :
    visits env.geo.lunPerCh (turn + 1) lun = visits env.geo.lunPerCh turn lun := by
  rw [visits_succ turn lt, if_neg (by rw [← turns.lun]; exact ne), Nat.add_zero]

theorem Turn.bit_mem (turns : Turn env type first turn renew) (lists : ListsOk env type first) :
    lunBit renew.lun ∈ renew.lflag ↔
      ¬ ((first.luns renew.lun).freeBlks = [] ∧
        openLen first type renew.lun < turn / env.geo.lunPerCh) := by
  have bit : lunBit renew.lun = renew.lun :=
    Nat.mod_eq_of_lt (lt_of_lt_of_le turns.lun_lt lists.bits)
  rw [bit, turns.lflag _ turns.lun_lt, turns.visits_here]

/-- The search finds the next open block of the LUN. -/
theorem Turn.pickOpen_eq (turns : Turn env type first turn renew) (lists : ListsOk env type first) :
    pickOpen renew.chan renew.lun type renew.picked =
      (((first.luns renew.lun).openBlks type)[turn / env.geo.lunPerCh]?).map
        fun blk => ⟨renew.lun, blk⟩ := by
  rw [pickOpen, turns.luns, List.find?_map]
  congr 1
  apply find?_take (lists.nodup _ turns.lun_lt)
  intro blk _
  have mem := turns.picked ⟨renew.lun, blk⟩
  rw [turns.visits_here] at mem
  have inRange := turns.lun_lt
  simp only [Function.comp_apply, decide_eq_true_eq]
  constructor
  · rintro (unmarked | notPicked) taken
    · exact unmarked (turns.marked _ (mem.mpr ⟨inRange, taken⟩))
    · exact notPicked (mem.mpr ⟨inRange, taken⟩)
  · intro notTaken
    exact Or.inr fun picked => notTaken (mem.mp picked).2

theorem Turn.next_lun (turns : Turn env type first turn renew) {renew' : RenewState}
    (same : renew'.lun = renew.lun) :
    (renew'.next env).lun = (turn + 1) % env.geo.lunPerCh := by
  have pos := env.geo.lun_pos
  have less := Nat.mod_lt turn pos
  change (if renew'.lun = env.geo.lunPerCh - 1 then 0 else renew'.lun + 1) = _
  rw [same, turns.lun, Nat.add_mod]
  by_cases last : turn % env.geo.lunPerCh = env.geo.lunPerCh - 1
  · rw [if_pos last, last]
    by_cases one : env.geo.lunPerCh = 1
    · rw [one]
    · rw [Nat.mod_eq_of_lt (show 1 < env.geo.lunPerCh by omega), Nat.sub_add_cancel pos,
        Nat.mod_self]
  · rw [if_neg last, Nat.mod_eq_of_lt (show 1 < env.geo.lunPerCh by omega),
      Nat.mod_eq_of_lt (show turn % env.geo.lunPerCh + 1 < env.geo.lunPerCh by omega)]

/-- Blocks that are collected in one more visit. -/
theorem sum_visits_succ (first : Chan) (type : LineType) (turn luns : Nat) (pos : 0 < luns) :
    ∑ lun ∈ Finset.range luns, min (openLen first type lun) (visits luns (turn + 1) lun) =
      ∑ lun ∈ Finset.range luns, min (openLen first type lun) (visits luns turn lun) +
        if turn / luns < openLen first type (turn % luns) then 1 else 0 := by
  have term : ∀ lun ∈ Finset.range luns,
      min (openLen first type lun) (visits luns (turn + 1) lun) =
        min (openLen first type lun) (visits luns turn lun) +
          if lun = turn % luns then
            (if turn / luns < openLen first type (turn % luns) then 1 else 0) else 0 := by
    intro lun mem
    rw [visits_succ turn (Finset.mem_range.mp mem)]
    by_cases here : lun = turn % luns
    · rw [if_pos here, if_pos here, here, visits_self]
      split <;> omega
    · rw [if_neg here, if_neg here, Nat.add_zero, Nat.add_zero]
  rw [Finset.sum_congr rfl term, Finset.sum_add_distrib, Finset.sum_ite_eq',
    if_pos (Finset.mem_range.mpr (Nat.mod_lt turn pos))]

/-- A visit that collects nothing. -/
theorem Turn.pass (turns : Turn env type first turn renew) {lflag : Finset Nat}
    (used : openLen first type renew.lun ≤ turn / env.geo.lunPerCh)
    (full : (first.luns renew.lun).freeBlks = [])
    (flags : ∀ lun, lun ∈ lflag ↔ lun ∈ renew.lflag ∧ lun ≠ renew.lun) :
    Turn env type first (turn + 1) (({ renew with lflag := lflag } : RenewState).next env) := by
  have pos := env.geo.lun_pos
  have here := turns.lun
  have others := @Turn.visits_other _ _ _ _ _ turns
  have own := turns.visits_own
  refine ⟨turns.quiet, turns.luns, turns.next_lun rfl, turns.marked, ?_, ?_, ?_, ?_⟩
  · intro vblk
    change vblk ∈ renew.picked ↔ _
    rw [turns.picked]
    constructor
    · rintro ⟨lt, mem⟩
      exact ⟨lt, List.take_subset_take_left _ (visits_mono (Nat.le_succ turn) lt) mem⟩
    · rintro ⟨lt, mem⟩
      refine ⟨lt, ?_⟩
      by_cases same : vblk.lun = renew.lun
      · rw [same, turns.visits_here, List.take_of_length_le used]
        rw [same] at mem
        exact List.mem_of_mem_take mem
      · rw [others _ lt same] at mem
        exact mem
  · change renew.picked.length = _
    rw [sum_visits_succ first type turn _ pos, ← here, if_neg (Nat.not_lt.mpr used), Nat.add_zero]
    exact turns.count
  · intro lun lt
    change lun ∈ lflag ↔ _
    rw [flags]
    by_cases same : lun = renew.lun
    · rw [same, own]
      constructor
      · exact fun both => absurd rfl both.2
      · intro notGiven
        exact absurd ⟨full, Nat.lt_succ_of_le used⟩ notGiven
    · rw [others lun lt same, ← turns.lflag lun lt]
      exact and_iff_left same
  · intro lun lt some
    have ne : lun ≠ renew.lun := by
      rintro rfl
      exact some full
    rw [others lun lt ne]
    exact turns.unopened lun lt some

/-- A visit that collects an open block. -/
theorem Turn.pick (turns : Turn env type first turn renew) {blk : Nat}
    (next : ((first.luns renew.lun).openBlks type)[turn / env.geo.lunPerCh]? = some blk) :
    Turn env type first (turn + 1)
      ((renew.collect env renew.chan type ⟨renew.lun, blk⟩).next env) := by
  have pos := env.geo.lun_pos
  have here := turns.lun
  have more : turn / env.geo.lunPerCh < openLen first type renew.lun :=
    (List.getElem?_eq_some_iff.mp next).1
  have others := @Turn.visits_other _ _ _ _ _ turns
  have own := turns.visits_own
  refine ⟨⟨turns.quiet.erases, turns.quiet.grownBad, turns.quiet.trace⟩, turns.luns,
    turns.next_lun rfl, ?_, ?_, ?_, ?_, ?_⟩
  · intro vblk mem
    change ((markLine env ⟨renew.lun, blk⟩ type renew.chan).mdOf vblk).flags.line = true
    by_cases same : vblk = ⟨renew.lun, blk⟩
    · rw [same, markLine, Chan.mdOf_setMd]
    · rw [markLine, Chan.mdOf_setMd_of_ne same, mdOf_mark]
      rcases List.mem_append.mp mem with old | new
      · exact turns.marked vblk old
      · exact absurd (List.mem_singleton.mp new) same
  · intro vblk
    change vblk ∈ renew.picked ++ [⟨renew.lun, blk⟩] ↔ _
    rw [List.mem_append, List.mem_singleton, turns.picked]
    by_cases same : vblk.lun = renew.lun
    · rw [same, turns.visits_here, own, List.take_add_one, next]
      rcases vblk with ⟨lun, number⟩
      change lun = renew.lun at same
      simp [same, turns.lun_lt]
    · constructor
      · rintro (⟨lt, mem⟩ | rfl)
        · rw [others _ lt same]
          exact ⟨lt, mem⟩
        · exact absurd rfl same
      · rintro ⟨lt, mem⟩
        rw [others _ lt same] at mem
        exact Or.inl ⟨lt, mem⟩
  · change (renew.picked ++ [_]).length = _
    rw [List.length_append, List.length_singleton, sum_visits_succ first type turn _ pos, ← here,
      if_pos more, turns.count]
  · intro lun lt
    change lun ∈ renew.lflag ↔ _
    rw [turns.lflag lun lt]
    by_cases same : lun = renew.lun
    · rw [same, own, turns.visits_here]
      constructor
      · exact fun _ given => absurd given.2 (by omega)
      · exact fun _ given => absurd given.2 (by omega)
    · rw [others lun lt same]
  · intro lun lt some
    by_cases same : lun = renew.lun
    · rw [same, own]
      exact more
    · rw [others lun lt same]
      exact turns.unopened lun lt some

/-- A visit of a LUN that does not have to open a block. -/
theorem Turn.step (turns : Turn env type first turn renew) (lists : ListsOk env type first)
    (keep : (first.luns renew.lun).freeBlks ≠ [] →
      openLen first type renew.lun ≠ turn / env.geo.lunPerCh) :
    Turn env type first (turn + 1) ((visitLun env type renew).next env) := by
  have bit := turns.bit_mem lists
  have search := turns.pickOpen_eq lists
  have isBit : lunBit renew.lun = renew.lun :=
    Nat.mod_eq_of_lt (lt_of_lt_of_le turns.lun_lt lists.bits)
  by_cases given : (first.luns renew.lun).freeBlks = [] ∧
      openLen first type renew.lun < turn / env.geo.lunPerCh
  · have gone : lunBit renew.lun ∉ renew.lflag := mt bit.mp (not_not.mpr given)
    rw [visitLun, if_pos gone]
    apply turns.pass given.2.le given.1
    intro lun
    constructor
    · intro mem
      refine ⟨mem, ?_⟩
      rintro rfl
      rw [isBit] at gone
      exact gone mem
    · exact And.left
  · have here : lunBit renew.lun ∈ renew.lflag := bit.mpr given
    rw [visitLun, if_neg (not_not.mpr here)]
    cases next : ((first.luns renew.lun).openBlks type)[turn / env.geo.lunPerCh]? with
    | some blk =>
        rw [next, Option.map_some] at search
        simp only [search]
        exact turns.pick next
    | none =>
        rw [next, Option.map_none] at search
        have used : openLen first type renew.lun ≤ turn / env.geo.lunPerCh :=
          List.getElem?_eq_none_iff.mp next
        have full : (first.luns renew.lun).freeBlks = [] := by
          by_contra some
          have le := turns.unopened _ turns.lun_lt some
          rw [turns.visits_here] at le
          exact keep some (by omega)
        have noBlk : chProvBlkGet env renew.lun type renew.chan = (renew.chan, none) := by
          rw [chProvBlkGet, turns.luns, lists.nfree _ turns.lun_lt, full]
          rfl
        simp only [search, noBlk]
        apply turns.pass used full
        intro lun
        rw [Finset.mem_erase, isBit, and_comm]

/-- Open blocks that are collected before the turn of a LUN that has none left. -/
def collectedBefore (env : Env) (chan : Chan) (type : LineType) (lun : Nat) : Nat :=
  ∑ other ∈ Finset.range env.geo.lunPerCh,
    min (openLen chan type other) (openLen chan type lun + if other < lun then 1 else 0)

/-- The line is full before a LUN with free blocks has to open one. -/
def LineFilled (env : Env) (chan : Chan) (type : LineType) : Prop :=
  ∀ lun < env.geo.lunPerCh, (chan.luns lun).freeBlks ≠ [] →
    appProvLineSz ≤ collectedBefore env chan type lun

theorem Turn.count_of_used (turns : Turn env type first turn renew)
    (used : openLen first type renew.lun = turn / env.geo.lunPerCh) :
    renew.picked.length = collectedBefore env first type renew.lun := by
  rw [turns.count, collectedBefore, used, turns.lun]
  rfl

/-- A line that open blocks fill is renewed without an erase. -/
theorem Turn.renewLoop (turns : Turn env type first turn renew) (lists : ListsOk env type first)
    (filled : LineFilled env first type) (fuel : Nat) :
    ∃ last, Turn env type first last (renewLoop env type fuel renew) ∧
      ((ChProv.renewLoop env type fuel renew).Done ∨ last = turn + fuel) := by
  induction fuel generalizing turn renew with
  | zero => exact ⟨turn, turns, Or.inr rfl⟩
  | succ fuel ih =>
      rw [ChProv.renewLoop]
      by_cases done : renew.Done
      · rw [if_pos done]
        exact ⟨turn, turns, Or.inl done⟩
      · rw [if_neg done]
        have next := turns.step lists (by
          intro some used
          have enough := filled _ turns.lun_lt some
          rw [← turns.count_of_used used] at enough
          exact done (Or.inr enough))
        obtain ⟨last, isTurn, ends⟩ := ih next
        exact ⟨last, isTurn, ends.imp id fun same => by omega⟩

/-- A LUN that has to open a block erases one. -/
theorem Turn.sends_here (turns : Turn env type first turn renew) (lists : ListsOk env type first)
    (memory : ∀ n, env.erase n ≠ .noMem) (some : (first.luns renew.lun).freeBlks ≠ [])
    (used : openLen first type renew.lun = turn / env.geo.lunPerCh) :
    ∃ vblk, SentErase (visitLun env type renew).chan vblk ∧ vblk.lun < env.geo.lunPerCh ∧
      vblk.blk ∈ (first.luns vblk.lun).freeBlks := by
  have here : lunBit renew.lun ∈ renew.lflag := (turns.bit_mem lists).mpr fun given => some given.1
  have search := turns.pickOpen_eq lists
  rw [List.getElem?_eq_none_iff.mpr used.le, Option.map_none] at search
  obtain ⟨blk, blks, isFree⟩ := List.exists_cons_of_ne_nil some
  have free : (renew.chan.luns renew.lun).freeBlks = blk :: blks := by
    rw [turns.luns]
    exact isFree
  have sent := @sentErase_blkGet env renew.chan type renew.lun blk blks memory free (by
    rw [turns.luns]
    exact lists.nfree _ turns.lun_lt)
  refine ⟨⟨renew.lun, blk⟩, ?_, turns.lun_lt, by rw [isFree]; exact List.mem_cons_self⟩
  rw [visitLun, if_neg (not_not.mpr here)]
  simp only [search]
  split
  next found =>
    rw [found] at sent
    exact sent
  next found =>
    rw [found] at sent
    split
    · exact sent
    · exact sent

theorem Turn.sends (turns : Turn env type first turn renew) (lists : ListsOk env type first)
    (memory : ∀ n, env.erase n ≠ .noMem) {lun : Nat} (lt : lun < env.geo.lunPerCh)
    (some : (first.luns lun).freeBlks ≠ [])
    (short : collectedBefore env first type lun < appProvLineSz) (fuel : Nat)
    (early : turn ≤ openLen first type lun * env.geo.lunPerCh + lun)
    (enough : openLen first type lun * env.geo.lunPerCh + lun < turn + fuel) :
    ∃ vblk, SentErase (ChProv.renewLoop env type fuel renew).chan vblk ∧
      vblk.lun < env.geo.lunPerCh ∧ vblk.blk ∈ (first.luns vblk.lun).freeBlks := by
  have pos := env.geo.lun_pos
  have round : (openLen first type lun * env.geo.lunPerCh + lun) / env.geo.lunPerCh =
      openLen first type lun := by
    rw [Nat.mul_comm, Nat.mul_add_div pos, Nat.div_eq_of_lt lt, Nat.add_zero]
  have place : (openLen first type lun * env.geo.lunPerCh + lun) % env.geo.lunPerCh = lun := by
    rw [Nat.mul_comm, Nat.mul_add_mod, Nat.mod_eq_of_lt lt]
  induction fuel generalizing turn renew with
  | zero => omega
  | succ fuel ih =>
      have notFull : renew.picked.length < appProvLineSz := by
        apply lt_of_le_of_lt _ short
        rw [turns.count, collectedBefore]
        apply Finset.sum_le_sum
        intro other mem
        have target : visits env.geo.lunPerCh
            (openLen first type lun * env.geo.lunPerCh + lun) other =
              openLen first type lun + if other < lun then 1 else 0 := by
          rw [visits, round, place]
        have later := visits_mono early (Finset.mem_range.mp mem)
        rw [target] at later
        exact min_le_min_left _ later
      have available : lun ∈ renew.lflag := (turns.lflag lun lt).mpr fun given => some given.1
      have notDone : ¬ renew.Done := by
        rintro (empty | full)
        · rw [empty] at available
          exact absurd available (Finset.notMem_empty lun)
        · omega
      rw [ChProv.renewLoop, if_neg notDone]
      by_cases opens : (first.luns renew.lun).freeBlks ≠ [] ∧
          openLen first type renew.lun = turn / env.geo.lunPerCh
      · obtain ⟨vblk, sent, isFree⟩ := turns.sends_here lists memory opens.1 opens.2
        exact ⟨vblk, @SentErase.renewLoop env type vblk ((visitLun env type renew).next env) sent
          fuel, isFree⟩
      · have before : turn ≠ openLen first type lun * env.geo.lunPerCh + lun := by
          intro same
          have here : renew.lun = lun := by rw [turns.lun, same, place]
          apply opens
          rw [here]
          refine ⟨some, ?_⟩
          rw [same, round]
        exact ih (turns.step lists fun isFree used => opens ⟨isFree, used⟩) (by omega) (by omega)

/-! ## Start-up -/

theorem renewLine_filled (lists : ListsOk env type first) (filled : LineFilled env first type) :
    Quiet first (chProvRenewLine env type first).1 ∧
      (chProvRenewLine env type first).1.luns = first.luns ∧
      ∀ lun < env.geo.lunPerCh, (first.luns lun).freeBlks ≠ [] →
        (chProvRenewLine env type first).2 = 0 := by
  obtain ⟨last, turns, ends⟩ := (turn_zero lists).renewLoop lists filled (renewFuel env)
  have line : ∀ lun < env.geo.lunPerCh, (first.luns lun).freeBlks ≠ [] →
      (renewLoop env type (renewFuel env)
        { chan := first, lun := 0, lflag := allLuns env, picked := [] }).picked.length ≠ 0 := by
    intro lun lt some
    rcases ends with (empty | full) | out
    · have available := (turns.lflag lun lt).mpr fun given => some given.1
      rw [empty] at available
      exact absurd available (Finset.notMem_empty lun)
    · rw [appProvLineSz] at full
      omega
    · have pos := env.geo.lun_pos
      have rounds : visits env.geo.lunPerCh last lun = appProvLineSz + 32 + 1 := by
        rw [out, renewFuel, Nat.zero_add, visits, Nat.mul_div_cancel _ pos, Nat.mul_mod_left,
          if_neg (Nat.not_lt_zero lun), Nat.add_zero]
      have opens := turns.unopened lun lt some
      have one : min (openLen first type lun) (visits env.geo.lunPerCh last lun) ≤
          ∑ other ∈ Finset.range env.geo.lunPerCh,
            min (openLen first type other) (visits env.geo.lunPerCh last other) :=
        Finset.single_le_sum
          (f := fun other => min (openLen first type other) (visits env.geo.lunPerCh last other))
          (fun _ _ => Nat.zero_le _) (Finset.mem_range.mpr lt)
      rw [turns.count]
      omega
  rw [chProvRenewLine, installLine]
  split
  case isTrue none =>
    refine ⟨⟨turns.quiet.erases, turns.quiet.grownBad, turns.quiet.trace⟩, turns.luns, ?_⟩
    intro lun lt some
    exact absurd none (line lun lt some)
  case isFalse =>
    exact ⟨⟨turns.quiet.erases, turns.quiet.grownBad, turns.quiet.trace⟩, turns.luns,
      fun _ _ _ => rfl⟩

theorem openLen_congr (luns : chan.luns = first.luns) (type : LineType) (lun : Nat) :
    openLen chan type lun = openLen first type lun := by
  rw [openLen, openLen, luns]

theorem LineFilled.congr (filled : LineFilled env first type) (luns : chan.luns = first.luns) :
    LineFilled env chan type := by
  intro lun lt some
  rw [luns] at some
  have enough := filled lun lt some
  rw [collectedBefore] at enough ⊢
  simp only [openLen_congr luns]
  exact enough

theorem ListsOk.congr (lists : ListsOk env type first) (luns : chan.luns = first.luns) :
    ListsOk env type chan where
  nodup := by
    rw [luns]
    exact lists.nodup
  nfree := by
    rw [luns]
    exact lists.nfree
  bits := lists.bits

/-- Lines that open blocks fill are set up without an erase. -/
theorem startLines_filled (lists : ∀ type, ListsOk env type first)
    (filled : ∀ type, LineFilled env first type) (types : List LineType)
    (luns : chan.luns = first.luns) : Quiet chan (startLines env types chan) := by
  induction types generalizing chan with
  | nil => exact Quiet.refl chan
  | cons type types ih =>
      obtain ⟨quiet, same, -⟩ := renewLine_filled ((lists type).congr luns)
        ((filled type).congr luns)
      rw [startLines]
      split
      next found =>
        rw [found] at quiet same
        exact quiet.trans (ih (same.trans luns))
      next found =>
        rw [found] at quiet
        exact quiet

/-- A line that is not filled makes start-up erase a free block. -/
theorem startLines_sends (lists : ∀ type, ListsOk env type first)
    (memory : ∀ n, env.erase n ≠ .noMem) {types : List LineType} (mem : type ∈ types)
    (unfilled : ¬ LineFilled env first type) (luns : chan.luns = first.luns) :
    ∃ vblk, SentErase (startLines env types chan) vblk ∧ vblk.lun < env.geo.lunPerCh ∧
      vblk.blk ∈ (first.luns vblk.lun).freeBlks := by
  induction types generalizing chan with
  | nil => exact absurd mem List.not_mem_nil
  | cons kind types ih =>
      by_cases filled : LineFilled env first kind
      · have other : type ∈ types := by
          rcases List.mem_cons.mp mem with rfl | later
          · exact absurd filled unfilled
          · exact later
        have some : ∃ lun < env.geo.lunPerCh, (first.luns lun).freeBlks ≠ [] := by
          by_contra none
          apply unfilled
          intro lun lt some
          exact absurd ⟨lun, lt, some⟩ none
        obtain ⟨lun, lt, some⟩ := some
        obtain ⟨-, same, result⟩ := renewLine_filled ((lists kind).congr luns) (filled.congr luns)
        rw [startLines]
        split
        next found =>
          rw [found] at same
          exact ih other (same.trans luns)
        next code noMatch found =>
          have zero := result lun lt (by rw [luns]; exact some)
          rw [found] at zero
          exact absurd zero noMatch
      · rw [LineFilled] at filled
        push Not at filled
        obtain ⟨lun, lt, some, short⟩ := filled
        have few : openLen chan kind lun ≤ collectedBefore env chan kind lun := by
          have one : min (openLen chan kind lun)
              (openLen chan kind lun + if lun < lun then 1 else 0) ≤
                collectedBefore env chan kind lun :=
            Finset.single_le_sum
              (f := fun other => min (openLen chan kind other)
                (openLen chan kind lun + if other < lun then 1 else 0))
              (fun _ _ => Nat.zero_le _) (Finset.mem_range.mpr lt)
          omega
        have shortHere : collectedBefore env chan kind lun < appProvLineSz := by
          rw [collectedBefore]
          simp only [openLen_congr luns]
          exact short
        have fuel : openLen chan kind lun * env.geo.lunPerCh + lun < 0 + renewFuel env := by
          have rounds : openLen chan kind lun + 1 ≤ appProvLineSz + 32 + 1 := by omega
          have turns := Nat.mul_le_mul_right env.geo.lunPerCh rounds
          rw [Nat.succ_mul] at turns
          rw [renewFuel]
          omega
        have someHere : (chan.luns lun).freeBlks ≠ [] := by
          rw [luns]
          exact some
        obtain ⟨vblk, sent, inRange, isFree⟩ := (turn_zero ((lists kind).congr luns)).sends
          ((lists kind).congr luns) memory lt someHere shortHere (renewFuel env)
          (Nat.zero_le _) fuel
        rw [luns] at isFree
        have renewed : SentErase (chProvRenewLine env kind chan).1 vblk := by
          rw [chProvRenewLine, installLine]
          split
          · exact sent
          · exact sent
        refine ⟨vblk, ?_, inRange, isFree⟩
        rw [startLines]
        split
        next found =>
          rw [found] at renewed
          exact renewed.startLines
        next found =>
          rw [found] at renewed
          exact renewed

/-! ## The image and the log -/

theorem rowOk_initLuns {lun : Nat} (lt : lun < env.geo.lunPerCh) :
    RowOk env md lun env.geo.blkPerLun (chProvInitLuns env md) :=
  (@foldl_luns env md env.geo.lunPerCh).2.1 lun lt

theorem listsOk_initLuns (shifts : env.geo.lunPerCh ≤ 32) (type : LineType) :
    ListsOk env type (chProvInitLuns env md) where
  nodup := by
    intro lun lt
    rw [(rowOk_initLuns lt).isOpen, List.nodup_reverse]
    exact List.nodup_range.filter _
  nfree := fun lun lt => (rowOk_initLuns lt).nfree
  bits := shifts

theorem openLen_initLuns {lun : Nat} (lt : lun < env.geo.lunPerCh) :
    openLen (chProvInitLuns env md) type lun = (imageOpen env md type lun).length := by
  rw [openLen, (rowOk_initLuns lt).isOpen, List.length_reverse, imageOpen]

theorem freeBlks_initLuns {lun : Nat} (lt : lun < env.geo.lunPerCh) :
    ((chProvInitLuns env md).luns lun).freeBlks = [] ↔ imageFree env md lun = [] := by
  have perm := (@rowOk_initLuns env md lun lt).free
  constructor
  · intro none
    rw [none] at perm
    exact perm.symm.eq_nil
  · intro none
    rw [imageFree] at none
    rw [none] at perm
    exact perm.eq_nil

theorem collectedBefore_initLuns {lun : Nat} (lt : lun < env.geo.lunPerCh) :
    collectedBefore env (chProvInitLuns env md) type lun = filledBefore env md type lun := by
  apply Finset.sum_congr rfl
  intro other mem
  rw [openLen_initLuns (Finset.mem_range.mp mem), openLen_initLuns lt]

theorem lineFilled_initLuns :
    LineFilled env (chProvInitLuns env md) type ↔
      ∀ lun < env.geo.lunPerCh, imageFree env md lun ≠ [] →
        appProvLineSz ≤ filledBefore env md type lun := by
  constructor
  · intro filled lun lt some
    rw [← collectedBefore_initLuns lt]
    exact filled lun lt (mt (freeBlks_initLuns lt).mp some)
  · intro filled lun lt some
    rw [collectedBefore_initLuns lt]
    exact filled lun lt (mt (freeBlks_initLuns lt).mpr some)

/-- A log with one record that names a block. -/
theorem exists_names (ch : Fin 4096) (inLun : vblk.lun < env.geo.lunPerCh)
    (inRange : vblk.blk < env.geo.blkPerLun) : ∃ log, NamesBlk ch log vblk := by
  have luns := env.geo.lun_le
  have blks := env.geo.blk_le
  refine ⟨[LogEntry.ofWrite .write 0 0 0 (Ppa.sector ch vblk.lun vblk.blk 0 0 0) 0], _,
    List.mem_singleton.mpr rfl, ?_⟩
  have named : (LogEntry.ofWrite .write 0 0 0 (Ppa.sector ch vblk.lun vblk.blk 0 0 0) 0).newPpa =
      Ppa.sector ch vblk.lun vblk.blk 0 0 0 := Ppa.ofNat_toNat _
  rw [named]
  exact ⟨Nat.mod_eq_of_lt ch.isLt, Nat.mod_eq_of_lt (by omega), Nat.mod_eq_of_lt (by omega)⟩

/-- Start-up on an image spares every log exactly when the image shows enough open blocks
for all lines. -/
theorem restart_spares_iff (env : Env) (shifts : env.geo.lunPerCh ≤ 32)
    (memory : ∀ n, env.erase n ≠ .noMem) (ch : Fin 4096) (md : Nat → Nat → BlkMdEntry) :
    (∀ log, SparesLog env ch md log) ↔ LinesFilled env md := by
  have lists := @listsOk_initLuns env md shifts
  constructor
  · intro spares
    by_contra unfilled
    rw [LinesFilled] at unfilled
    push Not at unfilled
    obtain ⟨type, lun, lt, some, short⟩ := unfilled
    have line : ¬ LineFilled env (chProvInitLuns env md) type := by
      rw [lineFilled_initLuns]
      intro filled
      have enough := filled lun lt some
      omega
    have mem : type ∈ [LineType.user, .cold, .metadata] := by cases type <;> decide
    obtain ⟨vblk, sent, inLun, isFree⟩ := startLines_sends lists memory mem line rfl
    rw [(rowOk_initLuns inLun).free.mem_iff, List.mem_filter, List.mem_range] at isFree
    obtain ⟨log, names⟩ := exists_names ch inLun isFree.1
    exact spares log vblk names sent
  · intro filled log vblk _ sent
    have quiet := startLines_filled lists (fun type => lineFilled_initLuns.mpr (filled type))
      [.user, .cold, .metadata] rfl
    have start := (@foldl_luns env md env.geo.lunPerCh).1
    rcases sent with erased | bad
    · rw [startUp, quiet.trace, chProvInitLuns, allBlks, start.trace] at erased
      exact absurd erased List.not_mem_nil
    · rw [startUp, quiet.grownBad, chProvInitLuns, allBlks, start.grownBad] at bad
      exact absurd bad List.not_mem_nil

/-! ## A small channel -/

theorem restart_blk_pos : 0 < 30 :=
  Nat.succ_pos 29

theorem restart_blk_le : 30 ≤ 32768 := by
  decide

/-- One LUN with 30 blocks of two pages. -/
def restartGeo : Geometry :=
  { Geometry.small with
    blkPerLun := 30
    blk_pos := restart_blk_pos
    blk_le := restart_blk_le }

/-- Four metadata entries on a page; block `head` joins the free list at its head. -/
def restartEnv (head : Nat) : Env where
  geo := restartGeo
  entPerPg := 4
  bad _ _ := false
  erase _ := .ok
  rand _ blk := if blk = head then (0, 1) else (0, 0)

theorem restartEnv_memory (head n : Nat) : (restartEnv head).erase n ≠ .noMem := by
  rintro ⟨⟩

/-- Eight open blocks for each line, and six free blocks. -/
def openImage (_lun blk : Nat) : BlkMdEntry where
  flags :=
    { used := decide (blk < 24)
      isOpen := decide (blk < 24)
      cold := decide (8 ≤ blk ∧ blk < 16)
      metadata := decide (16 ≤ blk) }

/-- With eight open blocks for each line, start-up spares a log that names a free block. -/
theorem restart_spares_iff_open :
    LinesFilled (restartEnv 6) openImage ∧
      SparesLog (restartEnv 6) 0 openImage
        [LogEntry.ofWrite .write 0 0 0 (Ppa.sector 0 0 24 0 0 0) 0] := by
  have filled : LinesFilled (restartEnv 6) openImage := by
    intro type lun lt _
    have zero : lun = 0 := Nat.lt_one_iff.mp lt
    rw [zero]
    cases type with
    | user => decide +kernel
    | cold => decide +kernel
    | metadata => decide +kernel
  exact ⟨filled, (restart_spares_iff (restartEnv 6) (by decide) (restartEnv_memory 6) 0
    openImage).mpr filled _⟩

/-- The channel when the checkpoint begins. -/
def restartBegin : Chan :=
  startUp (restartEnv 0) fun _ _ => {}

/-- Nine pages later block 0 is full and block 6 has taken its place. -/
def restartClosed : Chan :=
  step (restartEnv 0) restartBegin (.getPpas 9 .user)

/-- Seven pages later block 6 holds data. -/
def restartCrash : Chan :=
  step (restartEnv 0) restartClosed (.getPpas 7 .user)

/-- The metadata page of block 6 is copied first, the others after block 0 was closed. -/
def restartImage (lun blk : Nat) : BlkMdEntry :=
  if blk / 4 = 1 then restartBegin.md lun blk else restartClosed.md lun blk

/-- The record of a page that was handed out. -/
def pageRecord : Event → Option LogEntry
  | .page vblk pg => some (LogEntry.ofWrite .write 0 0 0 (Ppa.sector 0 vblk.lun vblk.blk pg 0 0) 0)
  | _ => none

/-- Records of the pages that were written since the checkpoint began. -/
def restartLog : List LogEntry :=
  (restartCrash.trace.drop restartBegin.trace.length).filterMap pageRecord

/-- The image shows seven open user blocks, so start-up opens block 6 and erases it. -/
theorem restart_erases_logged : ¬ SparesLog (restartEnv 6) 0 restartImage restartLog := by
  intro spares
  have named : LogEntry.ofWrite .write 0 0 0 (Ppa.sector 0 0 6 0 0 0) 0 ∈ restartLog := by
    decide +kernel
  have erased : Event.erase ⟨0, 6⟩ ∈ (startUp (restartEnv 6) restartImage).trace := by
    decide +kernel
  exact spares ⟨0, 6⟩ ⟨_, named, by decide +kernel⟩ (Or.inl erased)

end OxCtrl.ChProv
