import OxCtrl.ChProv.Runs

/-!
# Pages in the hands of a caller

A page that `ch_prov_get_ppas` has handed out lies behind the write pointer of its block.  As long
as the block is not put, no operation of the channel erases it or moves its pointer back, so the
page is not handed out again.
-/

namespace OxCtrl.ChProv

variable {env : Env} {start : Vblk → NextPage} {chan chan' : Chan} {type kind : LineType}
  {vblk : Vblk}

/-- A page of a block, over all planes. -/
structure Page where
  vblk : Vblk
  pg : Nat
  deriving DecidableEq, Repr

/-- The page that an event hands out. -/
def Event.page? : Event → Option Page
  | .page vblk pg => some ⟨vblk, pg⟩
  | _ => none

/-- The pages that the channel has handed out, in order. -/
def Chan.pages (chan : Chan) : List Page :=
  chan.trace.filterMap Event.page?

theorem Chan.pages_log (chan : Chan) (event : Event) :
    (chan.log event).pages = chan.pages ++ event.page?.toList := by
  cases event <;> simp [Chan.pages, Chan.log, Event.page?]

/-- The page exists. -/
structure Page.InRange (env : Env) (page : Page) : Prop where
  lun : page.vblk.lun < env.geo.lunPerCh
  blk : page.vblk.blk < env.geo.blkPerLun
  pg : page.pg < env.geo.pgPerBlk

/-- The block of the page is in use and does not wait to become free, and its write pointer is
behind the page. -/
structure Kept (env : Env) (chan : Chan) (page : Page) : Prop where
  inRange : page.InRange env
  used : page.vblk.blk ∈ (chan.luns page.vblk.lun).usedBlks
  notWaiting : page.vblk.blk ∉ (chan.luns page.vblk.lun).waitingCp
  behind : page.pg < (chan.mdOf page.vblk).currentPg

/-- From one channel state to another no page is handed out, and the pages stay with their
callers. -/
structure Idle (env : Env) (chan chan' : Chan) : Prop where
  kept : ∀ page, Kept env chan page → Kept env chan' page
  pages : chan'.pages = chan.pages

namespace Idle

theorem refl (chan : Chan) : Idle env chan chan :=
  ⟨fun _ kept => kept, rfl⟩

theorem trans {chan'' : Chan} (first : Idle env chan chan') (second : Idle env chan' chan'') :
    Idle env chan chan'' where
  kept page kept := second.kept page (first.kept page kept)
  pages := second.pages.trans first.pages

/-- The lists of used and of waiting blocks stay, and no write pointer moves back. -/
theorem of_frame (trace : chan'.trace = chan.trace)
    (used : ∀ lun, (chan'.luns lun).usedBlks = (chan.luns lun).usedBlks)
    (waiting : ∀ lun, (chan'.luns lun).waitingCp = (chan.luns lun).waitingCp)
    (pointer : ∀ vblk, (chan.mdOf vblk).currentPg ≤ (chan'.mdOf vblk).currentPg) :
    Idle env chan chan' where
  kept page kept := by
    constructor
    · exact kept.inRange
    · rw [used]
      exact kept.used
    · rw [waiting]
      exact kept.notWaiting
    · exact Nat.lt_of_lt_of_le kept.behind (pointer page.vblk)
  pages := by rw [Chan.pages, Chan.pages, trace]

end Idle

/-! ## Opening blocks -/

/-- A page in the hands of a caller is not in a free block. -/
theorem Kept.ne_of_free {page : Page} (kept : Kept env chan page) (core : CoreOk env start chan)
    (free : vblk.blk ∈ (chan.luns vblk.lun).freeBlks) : page.vblk ≠ vblk := by
  intro same
  have lunOk := core.luns page.vblk.lun kept.inRange.lun
  rw [same] at lunOk
  exact lunOk.disjoint vblk.blk free (same ▸ kept.used)

/-- A step that changes the lists of one LUN and the metadata of one of its free blocks, and keeps
the other used blocks, keeps the pages. -/
theorem Idle.of_free (core : CoreOk env start chan)
    (free : vblk.blk ∈ (chan.luns vblk.lun).freeBlks) {lun : Lun}
    (luns : chan'.luns = Function.update chan.luns vblk.lun lun)
    (used : ∀ blk, blk ≠ vblk.blk → blk ∈ (chan.luns vblk.lun).usedBlks → blk ∈ lun.usedBlks)
    (waiting : lun.waitingCp = (chan.luns vblk.lun).waitingCp)
    (md : ∀ other, other ≠ vblk → chan'.mdOf other = chan.mdOf other)
    (pages : chan'.pages = chan.pages) : Idle env chan chan' where
  kept page kept := by
    have differ := kept.ne_of_free core free
    by_cases sameLun : page.vblk.lun = vblk.lun
    · have blkNe : page.vblk.blk ≠ vblk.blk :=
        fun sameBlk => differ (Vblk.eq_of_lun_blk sameLun sameBlk)
      have usedBefore := kept.used
      have waitingBefore := kept.notWaiting
      rw [sameLun] at usedBefore waitingBefore
      constructor
      · exact kept.inRange
      · rw [luns, sameLun, Function.update_self]
        exact used page.vblk.blk blkNe usedBefore
      · rw [luns, sameLun, Function.update_self, waiting]
        exact waitingBefore
      · rw [md page.vblk differ]
        exact kept.behind
    · constructor
      · exact kept.inRange
      · rw [luns, Function.update_of_ne sameLun]
        exact kept.used
      · rw [luns, Function.update_of_ne sameLun]
        exact kept.notWaiting
      · rw [md page.vblk differ]
        exact kept.behind
  pages := pages

theorem idle_openedChan (core : CoreOk env start chan)
    (free : vblk.blk ∈ (chan.luns vblk.lun).freeBlks) :
    Idle env chan (openedChan env type vblk chan) := by
  apply Idle.of_free core free rfl
  · intro blk _ mem
    exact List.mem_append_left _ mem
  · rfl
  · intro other differ
    rw [openedChan, Chan.mdOf_log, Chan.mdOf_setMd_of_ne differ]
    rfl
  · rw [openedChan, Chan.pages_log]
    exact List.append_nil _

theorem idle_lostChan (core : CoreOk env start chan)
    (inRange : vblk.lun < env.geo.lunPerCh)
    (free : vblk.blk ∈ (chan.luns vblk.lun).freeBlks) :
    Idle env chan (lostChan env type vblk chan) := by
  have notUsed := (core.luns vblk.lun inRange).disjoint vblk.blk free
  have luns : (lostChan env type vblk chan).luns = Function.update chan.luns vblk.lun
      (dropBad type (openFirst type (chan.luns vblk.lun) vblk.blk) vblk.blk) := by
    simp [lostChan, Chan.setBad, Chan.setMd, mark, Chan.countErase, Chan.setLun]
  rw [dropBad_openFirst notUsed] at luns
  apply Idle.of_free core free luns
  · intro blk _ mem
    exact mem
  · rfl
  · intro other differ
    rw [lostChan, Chan.mdOf_setLun, Chan.mdOf_setBad, Chan.mdOf_setMd_of_ne differ]
    rfl
  · rfl

theorem idle_rawChan (core : CoreOk env start chan)
    (free : vblk.blk ∈ (chan.luns vblk.lun).freeBlks) :
    Idle env chan (rawChan type vblk chan) := by
  apply Idle.of_free core free rfl
  · intro blk _ mem
    exact List.mem_append_left _ mem
  · rfl
  · intro other _
    rfl
  · rw [rawChan, Chan.pages_log]
    exact List.append_nil _

theorem idle_blkGetLoop {lun : Nat} (inRange : lun < env.geo.lunPerCh) (nfree : Nat)
    (core : CoreOk env start chan) : Idle env chan (blkGetLoop env lun type nfree chan).1 := by
  induction nfree generalizing chan with
  | zero => exact .refl chan
  | succ nfree ih =>
      cases freeEq : (chan.luns lun).freeBlks with
      | nil =>
          simp only [blkGetLoop, freeEq]
          exact .refl chan
      | cons blk rest =>
          have free : blk ∈ (chan.luns lun).freeBlks := by simp [freeEq]
          rw [blkGetLoop_cons freeEq]
          cases env.erase chan.erases with
          | noMem => exact @idle_rawChan env start chan type ⟨lun, blk⟩ core free
          | failed =>
              have lost := @CoreOk.lostChan env start chan type ⟨lun, blk⟩ core inRange free
              exact (idle_lostChan core inRange free).trans (ih lost)
          | ok => exact @idle_openedChan env start chan type ⟨lun, blk⟩ core free

/-! ## Renewing a line -/

theorem idle_setLine {line : Line} : Idle env chan (chan.setLine type line) :=
  .of_frame rfl (fun _ => rfl) (fun _ => rfl) fun _ => Nat.le_refl _

theorem idle_markLine : Idle env chan (markLine env vblk type chan) := by
  apply Idle.of_frame
  · rfl
  · intro lun
    rfl
  · intro lun
    rfl
  · intro other
    by_cases same : other = vblk
    · simp [same, markLine]
    · rw [markLine, Chan.mdOf_setMd_of_ne same, mdOf_mark]

theorem idle_visitLun {renew : RenewState} (inRange : renew.lun < env.geo.lunPerCh)
    (core : CoreOk env start renew.chan) :
    Idle env renew.chan (visitLun env type renew).chan := by
  have opened := @idle_blkGetLoop env start renew.chan type renew.lun inRange
    (renew.chan.luns renew.lun).nfreeBlks core
  rw [visitLun]
  split
  · exact .refl _
  · split
    · exact idle_markLine
    · rw [chProvBlkGet]
      generalize blkGetLoop env renew.lun type _ renew.chan = result at opened
      obtain ⟨chan, vblk⟩ := result
      cases vblk with
      | none => exact opened
      | some vblk =>
          dsimp only
          split
          · exact opened.trans idle_markLine
          · exact opened

theorem RenewOk.idle_renewLoop {first : Chan} {renew : RenewState} (fuel : Nat)
    (ok : RenewOk env start type first renew) :
    Idle env renew.chan (ChProv.renewLoop env type fuel renew).chan := by
  induction fuel generalizing renew with
  | zero => exact .refl _
  | succ fuel ih =>
      simp only [ChProv.renewLoop]
      split
      · exact .refl _
      · exact (idle_visitLun ok.lun ok.core).trans (ih ok.visitLun.next)

theorem idle_installLine (renew : RenewState) :
    Idle env renew.chan (installLine type renew).1 := by
  simp only [installLine]
  split
  · exact idle_setLine
  · exact idle_setLine

theorem idle_chProvRenewLine (type : LineType) (core : CoreOk env start chan) :
    Idle env chan (chProvRenewLine env type chan).1 := by
  have initial : RenewOk env start type chan
      { chan := chan, lun := 0, lflag := allLuns env, picked := [] } :=
    ⟨core, .refl chan, env.geo.lun_pos, List.nodup_nil, by simp⟩
  exact (initial.idle_renewLoop (renewFuel env)).trans (idle_installLine _)

/-! ## The other operations -/

theorem idle_chProvBlkClose : Idle env chan (chProvBlkClose env vblk type chan) := by
  have luns : (chProvBlkClose env vblk type chan).luns = Function.update chan.luns vblk.lun
      (unlinkOpen type (chan.luns vblk.lun) vblk.blk) := rfl
  apply Idle.of_frame
  · rfl
  · intro lun
    rw [luns]
    by_cases same : lun = vblk.lun
    · rw [same, Function.update_self]
      rfl
    · rw [Function.update_of_ne same]
  · intro lun
    rw [luns]
    by_cases same : lun = vblk.lun
    · rw [same, Function.update_self]
      rfl
    · rw [Function.update_of_ne same]
  · intro other
    by_cases same : other = vblk
    · simp [same, chProvBlkClose]
    · rw [chProvBlkClose, Chan.mdOf_setMd_of_ne same, mdOf_mark, Chan.mdOf_setLun]

theorem idle_chProvBlkAmend (vblk : Vblk) (type : LineType) (ok : ChanOk env start chan) :
    Idle env chan (chProvBlkAmend env vblk type chan).1 := by
  simp only [chProvBlkAmend]
  split
  · rename_i mem
    have isOpen := (ok.line type).from_zero.isOpen vblk mem
    have renewed := idle_chProvRenewLine type (ok.core.chProvBlkClose isOpen)
    apply (idle_chProvBlkClose.trans renewed).trans
    generalize (chProvRenewLine env type (chProvBlkClose env vblk type chan)).1 = chan'
    constructor
    · intro page kept
      refine ⟨kept.inRange, kept.used, kept.notWaiting, ?_⟩
      by_cases same : page.vblk = vblk
      · rw [same, Chan.mdOf_setMd]
        exact kept.inRange.pg
      · rw [Chan.mdOf_setMd_of_ne same, mdOf_mark]
        exact kept.behind
    · rfl
  · exact .refl chan

theorem idle_chProvBlkPutNow {rest : List Nat}
    (waiting : (chan.luns vblk.lun).waitingCp = vblk.blk :: rest) :
    Idle env chan (chProvBlkPutNow env vblk
      (chan.setLun vblk.lun fun old => { old with waitingCp := rest })) := by
  have luns : (chProvBlkPutNow env vblk
      (chan.setLun vblk.lun fun old => { old with waitingCp := rest })).luns =
        Function.update chan.luns vblk.lun
          (moveFree { chan.luns vblk.lun with waitingCp := rest } vblk.blk) := by
    simp [chProvBlkPutNow, Chan.setLun, Chan.setMd, mark]
  constructor
  · intro page kept
    have pointer : ((chProvBlkPutNow env vblk
        (chan.setLun vblk.lun fun old => { old with waitingCp := rest })).mdOf
        page.vblk).currentPg =
          (chan.mdOf page.vblk).currentPg := by
      rw [chProvBlkPutNow, Chan.mdOf_setLun]
      by_cases same : page.vblk = vblk
      · rw [same, Chan.mdOf_setMd]
        rfl
      · rw [Chan.mdOf_setMd_of_ne same]
        rfl
    by_cases sameLun : page.vblk.lun = vblk.lun
    · have used := kept.used
      have notWaiting := kept.notWaiting
      rw [sameLun, waiting, List.mem_cons, not_or] at notWaiting
      rw [sameLun] at used
      constructor
      · exact kept.inRange
      · rw [luns, sameLun, Function.update_self]
        exact (List.mem_erase_of_ne notWaiting.1).mpr used
      · rw [luns, sameLun, Function.update_self]
        exact notWaiting.2
      · rw [pointer]
        exact kept.behind
    · constructor
      · exact kept.inRange
      · rw [luns, Function.update_of_ne sameLun]
        exact kept.used
      · rw [luns, Function.update_of_ne sameLun]
        exact kept.notWaiting
      · rw [pointer]
        exact kept.behind
  · rfl

theorem idle_putWaiting {lun : Nat} (waiting : List Nat)
    (eq : (chan.luns lun).waitingCp = waiting) :
    Idle env chan (putWaiting env lun waiting chan) := by
  induction waiting generalizing chan with
  | nil => exact .refl chan
  | cons blk rest ih =>
      apply (@idle_chProvBlkPutNow env chan ⟨lun, blk⟩ rest eq).trans
      apply ih
      simp [chProvBlkPutNow, Chan.setLun, Chan.setMd, mark, moveFree]

theorem idle_completePuts (left lun : Nat) : Idle env chan (completePuts env left lun chan) := by
  induction left generalizing lun chan with
  | zero => exact .refl chan
  | succ left ih => exact (idle_putWaiting _ rfl).trans (ih (lun + 1))

/-! ## Handing out pages -/

/-- The pages are different ones, and all of them are in the hands of a caller. -/
structure Handed (env : Env) (chan : Chan) (pages : List Page) : Prop where
  nodup : pages.Nodup
  kept : ∀ page ∈ pages, Kept env chan page

theorem Handed.idle {pages : List Page} (handed : Handed env chan pages)
    (idle : Idle env chan chan') : Handed env chan' pages :=
  ⟨handed.nodup, fun page mem => idle.kept page (handed.kept page mem)⟩

/-- The page that `takePage` hands out. -/
def nextPageOf (chan : Chan) (type : LineType) : Page :=
  ⟨currentVblk chan type, (chan.mdOf (currentVblk chan type)).currentPg⟩

theorem pages_takePage : (takePage env type chan).1.pages =
    chan.pages ++ [nextPageOf chan type] := by
  have logged := Chan.pages_log chan
    (.page (currentVblk chan type) (chan.mdOf (currentVblk chan type)).currentPg)
  simp only [takePage]
  split
  · exact logged
  · exact logged

/-- The next page of an open block lies before no page in the hands of a caller. -/
theorem Handed.takePage {pages : List Page} (handed : Handed env chan pages)
    (core : CoreOk env start chan) (left : PagesLeft env start)
    (memory : ∀ n, env.erase n ≠ .noMem)
    (isOpen : IsOpen env chan type (currentVblk chan type)) :
    Handed env (takePage env type chan).1 (pages ++ [nextPageOf chan type]) := by
  let bumpedChan := bumped env (currentVblk chan type) chan
  have lunOk := core.luns _ isOpen.1
  have erased : ¬ Raw chan.trace (currentVblk chan type).lun (currentVblk chan type).blk := by
    intro raw
    obtain ⟨n, none⟩ := core.memory _ raw
    exact memory n none
  have moved : (bumpedChan.mdOf (currentVblk chan type)).currentPg =
      (chan.mdOf (currentVblk chan type)).currentPg + 1 := by
    simp [bumpedChan, bumped]
  -- the page is handed out, and the pointer of its block moves
  have bumpedHanded : Handed env bumpedChan (pages ++ [nextPageOf chan type]) := by
    constructor
    · rw [List.nodup_append]
      refine ⟨handed.nodup, List.nodup_singleton _, ?_⟩
      intro page mem next isNext same
      obtain rfl := List.mem_singleton.mp isNext
      have behind := (handed.kept page mem).behind
      rw [same] at behind
      exact Nat.lt_irrefl _ behind
    · intro page mem
      rcases List.mem_append.mp mem with old | new
      · have kept := handed.kept page old
        refine ⟨kept.inRange, kept.used, kept.notWaiting, ?_⟩
        by_cases same : page.vblk = currentVblk chan type
        · rw [same, moved, ← same]
          exact Nat.lt_succ_of_lt kept.behind
        · rw [show bumpedChan.mdOf page.vblk = chan.mdOf page.vblk from
            Chan.mdOf_setMd_of_ne same]
          exact kept.behind
      · obtain rfl := List.mem_singleton.mp new
        constructor
        · exact ⟨isOpen.1, (core.good_of_isOpen isOpen).1, core.page_lt left isOpen erased⟩
        · exact lunOk.open_used type _ isOpen.2
        · exact fun waiting => lunOk.not_open_of_waiting waiting isOpen.2
        · change _ < (bumpedChan.mdOf (currentVblk chan type)).currentPg
          rw [moved]
          exact Nat.lt_succ_self _
  have takeEq : (ChProv.takePage env type chan).1 = bumpedChan ∨
      (ChProv.takePage env type chan).1 =
        chProvBlkClose env (currentVblk chan type) type bumpedChan := by
    simp only [ChProv.takePage]
    split
    · exact Or.inr rfl
    · exact Or.inl rfl
  rcases takeEq with stays | closed
  · rw [stays]
    exact bumpedHanded
  · rw [closed]
    exact bumpedHanded.idle idle_chProvBlkClose

theorem idle_advance : Idle env chan (advance type chan) :=
  idle_setLine

/-- What `ch_prov_get_ppas` hands out: pages that no caller has, and all that were asked for when
it succeeds. -/
structure Gives (env : Env) (chan : Chan) (pages : List Page) (pgs : Nat) (result : Chan × Int)
    (new : List Page) : Prop where
  handsOut : result.1.pages = chan.pages ++ new
  handed : Handed env result.1 (pages ++ new)
  length : result.2 = 0 → new.length = pgs

theorem LoopOk.getPpasLoop_gives (pagesLeft : PagesLeft env start)
    (memory : ∀ n, env.erase n ≠ .noMem) (left : Nat) {renew : Bool}
    (ok : LoopOk env start type renew chan) {pages : List Page} (handed : Handed env chan pages) :
    ∃ new, Gives env chan pages left (getPpasLoop env type left renew chan) new := by
  induction left generalizing renew chan pages with
  | zero => exact ⟨[], by simp [getPpasLoop], by simpa [getPpasLoop] using handed, fun _ => rfl⟩
  | succ left ih =>
      have advanced := ok.advance
      have taken := (handed.takePage ok.core pagesLeft memory ok.isOpen_current).idle
        (idle_advance : Idle env _ (ChProv.advance type _))
      have pagesEq : (ChProv.advance type (takePage env type chan).1).pages =
          chan.pages ++ [nextPageOf chan type] :=
        (idle_advance : Idle env _ (ChProv.advance type _)).pages.trans pages_takePage
      -- the rest of the loop, from a state with the first page
      have more : ∀ {chan' : Chan} {renew : Bool}, LoopOk env start type renew chan' →
          Handed env chan' (pages ++ [nextPageOf chan type]) →
          chan'.pages = chan.pages ++ [nextPageOf chan type] →
          ∃ new, Gives env chan pages (left + 1) (getPpasLoop env type left renew chan') new := by
        intro chan' renew loopOk handed' pages'
        obtain ⟨new, gives⟩ := ih loopOk handed'
        refine ⟨nextPageOf chan type :: new, ?_, ?_, ?_⟩
        · rw [gives.handsOut, pages', List.append_assoc, List.singleton_append]
        · rw [List.append_cons]
          exact gives.handed
        · intro success
          rw [List.length_cons, gives.length success]
      simp only [getPpasLoop]
      generalize (renew || (takePage env type chan).2) = renew' at advanced ⊢
      generalize ChProv.advance type (takePage env type chan).1 = chan' at advanced taken pagesEq ⊢
      split
      · have renewed := chProvRenewLine_spec type advanced.core
        have idle := idle_chProvRenewLine type advanced.core
        generalize chProvRenewLine env type chan' = result at renewed idle ⊢
        have takenAfter := taken.idle idle
        have pagesAfter := idle.pages.trans pagesEq
        split
        · exact more (renewed.loopOk advanced.others rfl) takenAfter pagesAfter
        · split
          · refine ⟨[nextPageOf chan type], pagesAfter, takenAfter, ?_⟩
            intro success
            change (-1 : Int) = 0 at success
            exact absurd success (by decide)
          · rename_i noneLeft
            obtain rfl : left = 0 := Nat.eq_zero_of_not_pos noneLeft
            exact ⟨[nextPageOf chan type], pagesAfter, takenAfter, fun _ => rfl⟩
      · rename_i keep
        refine more (advanced.loopOk ?_) taken pagesEq
        intro wrapped
        by_contra broken
        exact keep ⟨Or.inl wrapped, by simpa using broken⟩

/-- `ch_prov_get_ppas` hands out pages that no caller has. -/
theorem ChanOk.chProvGetPpas_gives (ok : ChanOk env start chan) (left : PagesLeft env start)
    (memory : ∀ n, env.erase n ≠ .noMem) (pgs : Nat) (type : LineType) {pages : List Page}
    (handed : Handed env chan pages) :
    ∃ new, Gives env chan pages pgs (ChProv.chProvGetPpas env pgs type chan) new := by
  simp only [ChProv.chProvGetPpas]
  split
  · refine ⟨[], by simp, by simpa using handed, ?_⟩
    intro success
    change (-1 : Int) = 0 at success
    exact absurd success (by decide)
  · rename_i nonempty
    have line := ok.line type
    have loopOk : LoopOk env start type false chan := by
      refine ⟨ok.core, fun kind _ => ok.line kind, line.current (by omega), ?_,
        fun _ => line.from_zero⟩
      refine line.from_zero.congr rfl line.from_zero.length ?_
      intro other mem
      exact line.from_zero.isOpen other (List.mem_of_mem_drop mem)
    exact loopOk.getPpasLoop_gives left memory pgs handed

/-- No operation but a put takes a page from its caller. -/
theorem Handed.step {pages : List Page} (handed : Handed env chan pages)
    (ok : ChanOk env start chan) (left : PagesLeft env start)
    (memory : ∀ n, env.erase n ≠ .noMem) {op : Op} (inRange : op.InRange env)
    (noPut : ∀ vblk, op ≠ .put vblk) : Handed env (step env chan op) pages := by
  cases op with
  | getPpas pgs type =>
      obtain ⟨new, gives⟩ := ok.chProvGetPpas_gives left memory pgs type handed
      exact ⟨handed.nodup, fun page mem => gives.handed.kept page (List.mem_append_left _ mem)⟩
  | amend vblk type => exact handed.idle (idle_chProvBlkAmend vblk type ok)
  | put vblk => exact absurd rfl (noPut vblk)
  | completePuts => exact handed.idle (idle_completePuts _ 0)
  | renewLine type => exact handed.idle (idle_chProvRenewLine type ok.core)
  | blkGet lun type => exact handed.idle (idle_blkGetLoop inRange _ ok.core)

end OxCtrl.ChProv
