import OxCtrl.ChProv.Invariant

/-!
# Write lines

The loop of `ch_prov_renew_line` collects distinct open blocks.  A line whose blocks
are all open satisfies `LineOk`; `ch_prov_get_ppas` breaks that while it has closed a
block of the line and not renewed the line yet, and `LineFrom` is what is left then.
-/

namespace OxCtrl.ChProv

variable {env : Env} {start : Vblk → NextPage} {chan chan' : Chan} {type kind : LineType}
  {vblk : Vblk}

/-! ## Collecting the blocks of a line -/

/-- Marking a line block changes neither the lists nor the flags they depend on. -/
theorem CoreOk.markLine (type : LineType) (ok : CoreOk env start chan)
    (isOpen : IsOpen env chan kind vblk) :
    CoreOk env start (ChProv.markLine env vblk type chan) := by
  have isGood := ok.good_of_isOpen isOpen
  refine ok.update (chan.luns vblk.lun) ?_ rfl (fun _ _ => Iff.rfl) (fun _ _ => rfl)
    (fun _ => Iff.rfl) ?_
    (fun inRange => ok.lost_update isGood inRange) ok.trace
  · simp [ChProv.markLine, Chan.setMd, mark]
  · intro inRange
    refine (ok.luns vblk.lun inRange).of_usage fun blk => ?_
    by_cases same : blk = vblk.blk <;> simp [same, mark, BlkMdEntry.usage]

theorem grows_markLine : Grows env chan (markLine env vblk type chan) where
  line := rfl
  isOpen _ _ isOpen := isOpen
  isClosed _ isClosed := isClosed
  marked kind other _ marked := by
    by_cases same : other = vblk
    · simp [same, markLine]
    · rwa [markLine, Chan.mdOf_setMd_of_ne same, mdOf_mark]

theorem pickOpen_eq_some {lun : Nat} {picked : List Vblk}
    (found : pickOpen chan lun type picked = some vblk) :
    vblk.lun = lun ∧ vblk.blk ∈ (chan.luns lun).openBlks type ∧
      ((chan.mdOf vblk).flags.line = true → vblk ∉ picked) := by
  have mem := List.mem_of_find?_eq_some found
  have holds := List.find?_some found
  simp only [List.mem_map] at mem
  obtain ⟨blk, listed, rfl⟩ := mem
  simp only [decide_eq_true_eq] at holds
  exact ⟨rfl, listed, fun marked => holds.resolve_left (by simp [marked])⟩

/-- Invariant of the loop of `ch_prov_renew_line`, started in the channel `first`. -/
structure RenewOk (env : Env) (start : Vblk → NextPage) (type : LineType) (first : Chan)
    (renew : RenewState) : Prop where
  core : CoreOk env start renew.chan
  grows : Grows env first renew.chan
  lun : renew.lun < env.geo.lunPerCh
  nodup : renew.picked.Nodup
  picked : ∀ vblk ∈ renew.picked, IsOpen env renew.chan type vblk ∧
    (renew.chan.mdOf vblk).flags.line = true

namespace RenewOk

variable {first : Chan} {renew : RenewState}

/-- More blocks may be opened. -/
theorem setChan (ok : RenewOk env start type first renew) (core : CoreOk env start chan)
    (grows : Grows env renew.chan chan) :
    RenewOk env start type first { renew with chan := chan } where
  core := core
  grows := ok.grows.trans grows
  lun := ok.lun
  nodup := ok.nodup
  picked vblk mem := by
    obtain ⟨isOpen, marked⟩ := ok.picked vblk mem
    exact ⟨grows.isOpen type vblk isOpen, grows.marked type vblk isOpen marked⟩

/-- The block found by the search is collected. -/
theorem collect (ok : RenewOk env start type first renew)
    (found : pickOpen renew.chan renew.lun type renew.picked = some vblk) :
    RenewOk env start type first (renew.collect env renew.chan type vblk) := by
  obtain ⟨lunEq, listed, fresh⟩ := pickOpen_eq_some found
  have isOpen : IsOpen env renew.chan type vblk := by
    refine ⟨?_, ?_⟩
    · rw [lunEq]
      exact ok.lun
    · rw [lunEq]
      exact listed
  have notPicked : vblk ∉ renew.picked := fun mem => fresh (ok.picked vblk mem).2 mem
  have marked := ok.setChan (ok.core.markLine type isOpen) grows_markLine
  refine ⟨marked.core, marked.grows, marked.lun, ?_, ?_⟩
  · exact List.nodup_append.mpr ⟨ok.nodup, by simp, by grind⟩
  · intro other mem
    rcases List.mem_append.mp mem with old | new
    · exact marked.picked other old
    · obtain rfl : other = vblk := by simpa using new
      exact ⟨isOpen, by simp [RenewState.collect, markLine]⟩

theorem next (ok : RenewOk env start type first renew) :
    RenewOk env start type first (renew.next env) := by
  refine ⟨ok.core, ok.grows, ?_, ok.nodup, ok.picked⟩
  have := ok.lun
  simp only [RenewState.next]
  split <;> omega

/-- What a visit can do: pass a LUN that was given up, collect a block, possibly one
that is opened for it, or give up the LUN. -/
theorem visitLun_cases (ok : RenewOk env start type first renew) :
    (lunBit renew.lun ∉ renew.lflag ∧ visitLun env type renew = renew) ∨
      (lunBit renew.lun ∈ renew.lflag ∧
        ∃ chan, CoreOk env start chan ∧ Grows env renew.chan chan ∧
          ((∃ vblk, pickOpen chan renew.lun type renew.picked = some vblk ∧
              visitLun env type renew = renew.collect env chan type vblk) ∨
            visitLun env type renew =
              { renew with chan := chan, lflag := renew.lflag.erase (lunBit renew.lun) })) := by
  by_cases available : lunBit renew.lun ∈ renew.lflag
  swap
  · exact Or.inl ⟨available, by simp [visitLun, available]⟩
  refine Or.inr ⟨available, ?_⟩
  cases found : pickOpen renew.chan renew.lun type renew.picked with
  | some vblk =>
      exact ⟨renew.chan, ok.core, .refl _,
        Or.inl ⟨vblk, found, by simp [visitLun, available, found]⟩⟩
  | none =>
      have spec := blkGetLoop_spec type ok.lun
        (renew.chan.luns renew.lun).nfreeBlks ok.core
      cases got : chProvBlkGet env renew.lun type renew.chan with
      | mk chan result =>
      rw [chProvBlkGet] at got
      rw [got] at spec
      obtain ⟨core, grows, opened⟩ := spec
      refine ⟨chan, core, grows, ?_⟩
      cases result with
      | none => exact Or.inr (by simp [visitLun, available, found, chProvBlkGet, got])
      | some vblk =>
          -- the new block is the first open block and carries no line flag
          obtain ⟨lunEq, rest, headEq, unmarked⟩ := opened vblk rfl
          have again : pickOpen chan renew.lun type renew.picked = some vblk := by
            obtain ⟨lun, blk⟩ := vblk
            subst lunEq
            simp only [Chan.mdOf] at headEq unmarked
            simp [pickOpen, headEq, Chan.mdOf, unmarked]
          exact Or.inl ⟨vblk, again, by
            simp [ChProv.visitLun, available, found, chProvBlkGet, got, again]⟩

theorem visitLun (ok : RenewOk env start type first renew) :
    RenewOk env start type first (visitLun env type renew) := by
  rcases ok.visitLun_cases with
    ⟨-, same⟩ | ⟨-, chan, core, grows, ⟨vblk, found, collected⟩ | given⟩
  · rwa [same]
  · rw [collected]
    exact (ok.setChan core grows).collect found
  · rw [given]
    have opened := ok.setChan core grows
    exact ⟨opened.core, opened.grows, opened.lun, opened.nodup, opened.picked⟩

theorem renewLoop (fuel : Nat) (ok : RenewOk env start type first renew) :
    RenewOk env start type first (renewLoop env type fuel renew) := by
  induction fuel generalizing renew with
  | zero => exact ok
  | succ fuel ih =>
      simp only [ChProv.renewLoop]
      split
      · exact ok
      · exact ih ok.visitLun.next

end RenewOk

/-! ## End of the loop -/

/-- Blocks still wanted and LUNs still available. -/
def RenewState.potential (renew : RenewState) : Nat :=
  (appProvLineSz - renew.picked.length) + renew.lflag.card

/-- The loop comes to an available LUN within one round. -/
theorem RenewState.exists_available {renew : RenewState} (available : renew.lflag ⊆ allLuns env)
    (inRange : renew.lun < env.geo.lunPerCh) (nonempty : renew.lflag ≠ ∅) :
    ∃ away < env.geo.lunPerCh, lunBit ((renew.lun + away) % env.geo.lunPerCh) ∈ renew.lflag := by
  obtain ⟨bit, mem⟩ := Finset.nonempty_iff_ne_empty.mpr nonempty
  obtain ⟨lun, lunMem, rfl⟩ := Finset.mem_image.mp (available mem)
  have lunInRange := Finset.mem_range.mp lunMem
  by_cases ahead : renew.lun ≤ lun
  · refine ⟨lun - renew.lun, by omega, ?_⟩
    rwa [show renew.lun + (lun - renew.lun) = lun by omega, Nat.mod_eq_of_lt lunInRange]
  · refine ⟨lun + env.geo.lunPerCh - renew.lun, by omega, ?_⟩
    rwa [show renew.lun + (lun + env.geo.lunPerCh - renew.lun) = lun + env.geo.lunPerCh by omega,
      Nat.add_mod_right, Nat.mod_eq_of_lt lunInRange]

theorem RenewState.next_lun {renew : RenewState} (inRange : renew.lun < env.geo.lunPerCh) :
    (renew.next env).lun = (renew.lun + 1) % env.geo.lunPerCh := by
  simp only [RenewState.next]
  split
  · rename_i last
    rw [last, Nat.sub_add_cancel env.geo.lun_pos, Nat.mod_self]
  · rw [Nat.mod_eq_of_lt (by omega)]

/-- A visit of an available LUN uses up one of the blocks wanted or of the LUNs; any
other visit changes nothing. -/
theorem RenewOk.visitLun_progress {first : Chan} {renew : RenewState}
    (ok : RenewOk env start type first renew) (wanted : renew.picked.length < appProvLineSz) :
    (lunBit renew.lun ∉ renew.lflag ∧ ChProv.visitLun env type renew = renew) ∨
      ((ChProv.visitLun env type renew).potential < renew.potential ∧
        (ChProv.visitLun env type renew).lflag ⊆ renew.lflag ∧
        (ChProv.visitLun env type renew).lun = renew.lun) := by
  rcases ok.visitLun_cases with
    same | ⟨available, chan, -, -, ⟨vblk, -, collected⟩ | given⟩
  · exact Or.inl same
  · refine Or.inr ?_
    rw [collected]
    refine ⟨?_, subset_rfl, rfl⟩
    simp only [RenewState.potential, RenewState.collect, List.length_append, List.length_singleton]
    omega
  · refine Or.inr ?_
    rw [given]
    refine ⟨?_, Finset.erase_subset _ _, rfl⟩
    have := Finset.card_erase_lt_of_mem available
    simp only [RenewState.potential]
    omega

/-- With fuel for every block wanted and every LUN given up, and one round for each,
the loop runs to its end. -/
theorem RenewOk.renewLoop_done {first : Chan} {renew : RenewState} (fuel away : Nat)
    (ok : RenewOk env start type first renew) (available : renew.lflag ⊆ allLuns env)
    (near : renew.Done ∨ (away < env.geo.lunPerCh ∧
      lunBit ((renew.lun + away) % env.geo.lunPerCh) ∈ renew.lflag ∧
        renew.potential * env.geo.lunPerCh + away < fuel)) :
    (ChProv.renewLoop env type fuel renew).Done := by
  induction fuel generalizing renew away with
  | zero => exact near.resolve_right (by omega)
  | succ fuel ih =>
      simp only [ChProv.renewLoop]
      split
      · assumption
      · rename_i running
        obtain ⟨awayInRange, ahead, enough⟩ := near.resolve_left running
        simp only [RenewState.Done, not_or, Nat.not_le] at running
        rcases ok.visitLun_progress running.2 with ⟨passed, same⟩ | ⟨less, fewer, lunEq⟩
        · -- the LUN was given up: one step nearer to the next available one
          have awayPos : away ≠ 0 := by
            rintro rfl
            rw [Nat.add_zero, Nat.mod_eq_of_lt ok.lun] at ahead
            exact passed ahead
          rw [same]
          refine ih (away - 1) ok.next available (Or.inr ⟨by omega, ?_, ?_⟩)
          · rw [RenewState.next_lun ok.lun, Nat.mod_add_mod,
              show renew.lun + 1 + (away - 1) = renew.lun + away by omega]
            exact ahead
          · simp only [RenewState.potential, RenewState.next] at enough ⊢
            omega
        · -- progress: the next available LUN is at most one round away
          have nextOk := ok.visitLun.next
          have nextAvailable : ((ChProv.visitLun env type renew).next env).lflag ⊆ allLuns env :=
            fewer.trans available
          by_cases done : ((ChProv.visitLun env type renew).next env).Done
          · exact ih 0 nextOk nextAvailable (Or.inl done)
          · have nonempty : ((ChProv.visitLun env type renew).next env).lflag ≠ ∅ := fun empty =>
              done (Or.inl empty)
            obtain ⟨away', awayInRange', ahead'⟩ :=
              RenewState.exists_available nextAvailable nextOk.lun nonempty
            refine ih away' nextOk nextAvailable (Or.inr ⟨awayInRange', ahead', ?_⟩)
            have potentialEq : ((ChProv.visitLun env type renew).next env).potential =
                (ChProv.visitLun env type renew).potential := rfl
            have := Nat.mul_le_mul_right env.geo.lunPerCh (Nat.succ_le_of_lt less)
            rw [potentialEq]
            rw [Nat.succ_mul] at this
            omega

/-! ## Write lines -/

/-- The blocks of a line from index `idx` on are open. -/
structure LineFrom (env : Env) (chan : Chan) (type : LineType) (idx : Nat) : Prop where
  length : (chan.line type).nblks ≤ (chan.line type).vblks.length
  nodup : (chan.line type).blks.Nodup
  isOpen : ∀ vblk ∈ (chan.line type).blks.drop idx, IsOpen env chan type vblk

/-- All blocks of a line are open, and the round-robin index lies in the line. -/
structure LineOk (env : Env) (chan : Chan) (type : LineType) : Prop where
  from_zero : LineFrom env chan type 0
  current : 0 < (chan.line type).nblks → (chan.line type).currentBlk < (chan.line type).nblks

/-- Invariant of a channel between two operations. -/
structure ChanOk (env : Env) (start : Vblk → NextPage) (chan : Chan) : Prop where
  core : CoreOk env start chan
  line : ∀ type, LineOk env chan type

/-- A line whose blocks stay open stays in order. -/
theorem LineOk.keep (ok : LineOk env chan type) (line : chan'.line = chan.line)
    (isOpen : ∀ vblk, IsOpen env chan type vblk → IsOpen env chan' type vblk) :
    LineOk env chan' type where
  from_zero := by
    refine ⟨?_, ?_, ?_⟩ <;> rw [line]
    · exact ok.from_zero.length
    · exact ok.from_zero.nodup
    · exact fun vblk mem => isOpen vblk (ok.from_zero.isOpen vblk mem)
  current := by
    rw [line]
    exact ok.current

theorem LineOk.setLine (line : Line) (ok : LineOk env chan kind) (differ : kind ≠ type) :
    LineOk env (chan.setLine type line) kind := by
  have lineEq : (chan.setLine type line).line kind = chan.line kind := by
    simp [Chan.setLine, differ]
  refine ⟨⟨?_, ?_, ?_⟩, ?_⟩ <;> rw [lineEq]
  · exact ok.from_zero.length
  · exact ok.from_zero.nodup
  · exact ok.from_zero.isOpen
  · exact ok.current

/-- What renewing a line does: it repairs the line and leaves the other lines alone;
a line without blocks is a failure. -/
structure Renewed (env : Env) (start : Vblk → NextPage) (type : LineType) (chan : Chan)
    (result : Chan × Int) : Prop where
  core : CoreOk env start result.1
  line : LineOk env result.1 type
  others : ∀ kind, kind ≠ type → LineOk env chan kind → LineOk env result.1 kind
  isClosed : ∀ vblk, IsClosed env chan vblk → IsClosed env result.1 vblk
  nonempty : result.2 = 0 → 0 < (result.1.line type).nblks

theorem RenewOk.installLine {renew : RenewState} (ok : RenewOk env start type chan renew) :
    Renewed env start type chan (installLine type renew) := by
  by_cases empty : renew.picked.length = 0
  · have resultEq : ChProv.installLine type renew =
        (renew.chan.setLine type { renew.chan.line type with nblks := 0 }, -1) := by
      simp [ChProv.installLine, empty]
    rw [resultEq]
    refine ⟨ok.core.congr rfl rfl rfl rfl, ?_, ?_, ok.grows.isClosed, by simp⟩
    · refine ⟨⟨?_, ?_, ?_⟩, ?_⟩ <;> simp [Chan.setLine, Line.blks]
    · exact fun kind differ lineOk =>
        (lineOk.keep ok.grows.line (ok.grows.isOpen kind)).setLine _ differ
  · have resultEq : ChProv.installLine type renew =
        (renew.chan.setLine type
          { nblks := renew.picked.length
            currentBlk := if renew.picked.length ≤ (renew.chan.line type).currentBlk then 0
              else (renew.chan.line type).currentBlk
            vblks := renew.picked ++
              (renew.chan.line type).vblks.drop renew.picked.length }, 0) := by
      simp [ChProv.installLine, empty]
    rw [resultEq]
    refine ⟨ok.core.congr rfl rfl rfl rfl, ?_, ?_, ok.grows.isClosed, ?_⟩
    · refine ⟨⟨?_, ?_, ?_⟩, ?_⟩
      · simp [Chan.setLine]
      · simpa [Chan.setLine, Line.blks] using ok.nodup
      · intro vblk mem
        have picked : vblk ∈ renew.picked := by simpa [Chan.setLine, Line.blks] using mem
        exact (ok.picked vblk picked).1
      · intro _
        simp only [Chan.setLine, Function.update_self]
        split <;> omega
    · exact fun kind differ lineOk =>
        (lineOk.keep ok.grows.line (ok.grows.isOpen kind)).setLine _ differ
    · intro _
      simpa [Chan.setLine] using Nat.pos_of_ne_zero empty

/-- The fuel of `ch_prov_renew_line` is enough: its loop ends because the line is full
or no LUN is left. -/
theorem renewLoop_renewFuel_done (type : LineType) (core : CoreOk env start chan) :
    (renewLoop env type (renewFuel env)
      { chan := chan, lun := 0, lflag := allLuns env, picked := [] }).Done := by
  have initial : RenewOk env start type chan
      { chan := chan, lun := 0, lflag := allLuns env, picked := [] } :=
    ⟨core, .refl chan, env.geo.lun_pos, List.nodup_nil, by simp⟩
  refine initial.renewLoop_done (renewFuel env) 0 subset_rfl (Or.inr ⟨env.geo.lun_pos, ?_, ?_⟩)
  · exact Finset.mem_image.mpr ⟨0, Finset.mem_range.mpr env.geo.lun_pos, by simp⟩
  · have bits : allLuns env ⊆ Finset.range 32 := by
      intro bit mem
      obtain ⟨lun, -, rfl⟩ := Finset.mem_image.mp mem
      exact Finset.mem_range.mpr (Nat.mod_lt _ (by decide))
    have card := Finset.card_le_card bits
    rw [Finset.card_range] at card
    have scaled := Nat.mul_le_mul_right env.geo.lunPerCh card
    have positive := env.geo.lun_pos
    simp only [RenewState.potential, renewFuel, List.length_nil, appProvLineSz, Nat.add_mul]
    omega

theorem chProvRenewLine_spec (type : LineType)
    (core : CoreOk env start chan) :
    Renewed env start type chan (chProvRenewLine env type chan) := by
  have initial : RenewOk env start type chan
      { chan := chan, lun := 0, lflag := allLuns env, picked := [] } :=
    ⟨core, .refl chan, env.geo.lun_pos, List.nodup_nil, by simp⟩
  exact (initial.renewLoop (renewFuel env)).installLine

/-! ## Closing blocks and handing out pages -/

/-- Channel after the write pointer of a block has been moved and the block has been
closed. -/
theorem CoreOk.closed (ok : CoreOk env start chan) (isOpen : IsOpen env chan type vblk)
    {entry : BlkMdEntry}
    (luns : chan'.luns = Function.update chan.luns vblk.lun
      (unlinkOpen type (chan.luns vblk.lun) vblk.blk))
    (md : chan'.md = Function.update chan.md vblk.lun
      (Function.update (chan.md vblk.lun) vblk.blk entry))
    (flags : entry.flags.used = (chan.mdOf vblk).flags.used ∧ entry.flags.isOpen = false)
    (grownBad : chan'.grownBad = chan.grownBad)
    (next : ∀ other, other ≠ vblk →
      nextPage start chan'.trace other = nextPage start chan.trace other)
    (raw : ∀ other, .unerased other ∈ chan'.trace ↔ .unerased other ∈ chan.trace)
    (trace : Sequential env.geo.pgPerBlk start chan'.trace) : CoreOk env start chan' := by
  have lunOk := ok.luns vblk.lun isOpen.1
  have isGood := ok.good_of_isOpen isOpen
  refine ok.update _ luns md (fun _ _ => by rw [grownBad]) ?_ raw ?_ ?_ trace
  · rintro other differ
    refine next other ?_
    rintro rfl
    exact differ rfl
  · intro _
    rw [grownBad]
    refine lunOk.close isOpen.2 flags ?_
    intro blk differ
    exact next ⟨vblk.lun, blk⟩ fun same => differ (congrArg Vblk.blk same)
  · rw [grownBad]
    exact ok.lost_update isGood

theorem CoreOk.chProvBlkClose (ok : CoreOk env start chan) (isOpen : IsOpen env chan type vblk) :
    CoreOk env start (chProvBlkClose env vblk type chan) :=
  ok.closed isOpen rfl rfl ⟨rfl, rfl⟩ rfl (fun _ _ => rfl) (fun _ => Iff.rfl) ok.trace

theorem isOpen_chProvBlkClose {other : Vblk} (differ : other ≠ vblk)
    (isOpen : IsOpen env chan kind other) :
    IsOpen env (chProvBlkClose env vblk type chan) kind other := by
  refine ⟨isOpen.1, ?_⟩
  have listed := isOpen.2
  by_cases sameLun : other.lun = vblk.lun
  · have blkNe : other.blk ≠ vblk.blk :=
      fun sameBlk => differ (Vblk.eq_of_lun_blk sameLun sameBlk)
    rw [sameLun] at listed ⊢
    simp only [ChProv.chProvBlkClose, Chan.setMd, mark, Chan.setLun, Function.update_self,
      unlinkOpen_openBlks]
    split
    · rename_i sameType
      rw [← sameType]
      exact (List.mem_erase_of_ne blkNe).mpr listed
    · exact listed
  · simpa [ChProv.chProvBlkClose, Chan.setMd, mark, Chan.setLun, sameLun] using listed

/-- Channel after the next page of a block has been handed out. -/
def bumped (env : Env) (vblk : Vblk) (chan : Chan) : Chan :=
  (mark env (chan.log (.page vblk (chan.mdOf vblk).currentPg)) vblk).setMd vblk fun entry =>
    { entry with currentPg := entry.currentPg + 1 }

/-- Current block of a line. -/
def currentVblk (chan : Chan) (type : LineType) : Vblk :=
  (chan.line type).vblks.getD (chan.line type).currentBlk ⟨0, 0⟩

/-- Handing out a page of an open block: the other open blocks stay open, and the
block stays open unless the page was its last one. -/
structure PageTaken (env : Env) (start : Vblk → NextPage) (type : LineType) (chan : Chan)
    (result : Chan × Bool) : Prop where
  core : CoreOk env start result.1
  line : result.1.line = chan.line
  others : ∀ kind other, other ≠ currentVblk chan type → IsOpen env chan kind other →
    IsOpen env result.1 kind other
  stays : result.2 = false → IsOpen env result.1 type (currentVblk chan type)

theorem takePage_spec (core : CoreOk env start chan)
    (isOpen : IsOpen env chan type (currentVblk chan type)) :
    PageTaken env start type chan (takePage env type chan) := by
  generalize vblkEq : currentVblk chan type = vblk at isOpen
  have lunOk := core.luns vblk.lun isOpen.1
  have page := lunOk.open_page type vblk.blk isOpen.2
  have isGood := core.good_of_isOpen isOpen
  -- the page that is logged is the next one of the block
  have trace : Sequential env.geo.pgPerBlk start
      (chan.trace ++ [.page vblk (chan.mdOf vblk).currentPg]) := by
    refine .page vblk _ ?_ core.trace
    intro erased
    exact (page erased).symm
  have raw : ∀ other, .unerased other ∈ chan.trace ++ [.page vblk (chan.mdOf vblk).currentPg] ↔
      .unerased other ∈ chan.trace := by
    simp
  have takeEq : takePage env type chan =
      if (chan.mdOf vblk).currentPg + 1 = env.geo.pgPerBlk then
        (chProvBlkClose env vblk type (bumped env vblk chan), true)
      else (bumped env vblk chan, false) := by
    subst vblkEq
    simp [takePage, bumped, currentVblk]
  have next : ∀ other, other ≠ vblk →
      nextPage start (chan.trace ++ [.page vblk (chan.mdOf vblk).currentPg]) other =
        nextPage start chan.trace other := by
    intro other differ
    simp [stepPage, differ]
  rw [takeEq]
  split
  · refine ⟨?_, rfl, ?_, by simp⟩
    · have mdEq : (chProvBlkClose env vblk type (bumped env vblk chan)).md =
          Function.update chan.md vblk.lun (Function.update (chan.md vblk.lun) vblk.blk
            { chan.mdOf vblk with
              currentPg := (chan.mdOf vblk).currentPg + 1
              flags := { (chan.mdOf vblk).flags with line := false, isOpen := false } }) := by
        simp [chProvBlkClose, bumped, mark, Chan.setMd, Chan.setLun, Chan.log, Chan.mdOf]
      exact core.closed isOpen rfl mdEq ⟨rfl, rfl⟩ rfl next raw trace
    · intro kind other differ otherOpen
      exact isOpen_chProvBlkClose (vblkEq ▸ differ) otherOpen
  · rename_i notLast
    refine ⟨?_, rfl, fun _ _ _ otherOpen => otherOpen, fun _ => vblkEq ▸ isOpen⟩
    refine core.update (chan.luns vblk.lun) ?_ rfl (fun _ _ => Iff.rfl) ?_ raw ?_
      (fun inRange => core.lost_update isGood inRange) trace
    · simp [bumped, Chan.setMd, mark, Chan.log]
    · intro other differ
      exact next other fun same => differ (congrArg Vblk.lun same)
    · intro _
      have nextEq : nextPage start (bumped env vblk chan).trace =
          stepPage (nextPage start chan.trace) (.page vblk (chan.mdOf vblk).currentPg) :=
        nextPage_append_singleton ..
      rw [nextEq]
      simp only [stepPage]
      rw [row_update]
      refine lunOk.bump rfl rfl ?_
      exact fun erased inside => lt_of_le_of_ne ((page erased).1 inside) notLast

/-! ## Page allocation -/

/-- State of `ch_prov_get_ppas` between two pages: the blocks from the current one on
are open, and all of them are when no block has been closed. -/
structure LoopOk (env : Env) (start : Vblk → NextPage) (type : LineType) (renew : Bool)
    (chan : Chan) : Prop where
  core : CoreOk env start chan
  others : ∀ kind, kind ≠ type → LineOk env chan kind
  current : (chan.line type).currentBlk < (chan.line type).nblks
  ahead : LineFrom env chan type (chan.line type).currentBlk
  all : renew = false → LineFrom env chan type 0

namespace LoopOk

variable {renew : Bool}

theorem chanOk (ok : LoopOk env start type renew chan) (unbroken : renew = false) :
    ChanOk env start chan := by
  refine ⟨ok.core, fun kind => ?_⟩
  by_cases same : kind = type
  · subst same
    exact ⟨ok.all unbroken, fun _ => ok.current⟩
  · exact ok.others kind same

theorem drop_currentBlk (ok : LoopOk env start type renew chan) :
    (chan.line type).blks.drop (chan.line type).currentBlk =
      currentVblk chan type :: (chan.line type).blks.drop ((chan.line type).currentBlk + 1) := by
  have current := ok.current
  have length := ok.ahead.length
  have inLine : (chan.line type).currentBlk < (chan.line type).blks.length := by
    simp only [Line.blks, List.length_take]
    omega
  rw [List.drop_eq_getElem_cons inLine]
  congr 1
  have stored : (chan.line type).currentBlk < (chan.line type).vblks.length := by omega
  simp [Line.blks, List.getElem_take, currentVblk, List.getD_eq_getElem?_getD,
    List.getElem?_eq_getElem stored]

/-- The current block is open. -/
theorem isOpen_current (ok : LoopOk env start type renew chan) :
    IsOpen env chan type (currentVblk chan type) := by
  apply ok.ahead.isOpen
  rw [ok.drop_currentBlk]
  exact List.mem_cons_self

/-- The current block occurs once in its line. -/
theorem currentVblk_not_mem (ok : LoopOk env start type renew chan) :
    currentVblk chan type ∉ (chan.line type).blks.drop ((chan.line type).currentBlk + 1) := by
  have nodup := ok.ahead.nodup.sublist (List.drop_sublist (chan.line type).currentBlk _)
  rw [ok.drop_currentBlk] at nodup
  exact (List.nodup_cons.mp nodup).1

end LoopOk

/-- A line that lost its current block is still open behind it. -/
theorem LineFrom.congr {idx idx' : Nat} (ok : LineFrom env chan type idx)
    (blks : (chan'.line type).blks = (chan.line type).blks)
    (length : (chan'.line type).nblks ≤ (chan'.line type).vblks.length)
    (isOpen : ∀ vblk ∈ (chan.line type).blks.drop idx', IsOpen env chan' type vblk) :
    LineFrom env chan' type idx' where
  length := length
  nodup := by
    rw [blks]
    exact ok.nodup
  isOpen := by
    rw [blks]
    exact isOpen

/-- State after a page has been handed out and the index has moved. -/
structure Advanced (env : Env) (start : Vblk → NextPage) (type : LineType) (idx : Nat)
    (renew : Bool) (chan : Chan) : Prop where
  core : CoreOk env start chan
  others : ∀ kind, kind ≠ type → LineOk env chan kind
  current : (chan.line type).currentBlk < (chan.line type).nblks
  index : (chan.line type).currentBlk = idx + 1 ∨ (chan.line type).currentBlk = 0
  behind : LineFrom env chan type (idx + 1)
  all : renew = false → LineFrom env chan type 0

theorem LoopOk.advance {renew : Bool} (ok : LoopOk env start type renew chan) :
    Advanced env start type (chan.line type).currentBlk (renew || (takePage env type chan).2)
      (advance type (takePage env type chan).1) := by
  have taken := takePage_spec ok.core ok.isOpen_current
  generalize takePage env type chan = result at taken
  obtain ⟨chan', closed⟩ := result
  have lineEq : chan'.line = chan.line := taken.line
  have blksEq : ((ChProv.advance type chan').line type).blks = (chan.line type).blks := by
    simp [ChProv.advance, Chan.setLine, Line.blks, lineEq]
  have lengthLe : ((ChProv.advance type chan').line type).nblks ≤
      ((ChProv.advance type chan').line type).vblks.length := by
    simpa [ChProv.advance, Chan.setLine, lineEq] using ok.ahead.length
  refine ⟨taken.core.congr rfl rfl rfl rfl, ?_, ?_, ?_, ?_, ?_⟩
  · -- a block of another line is open in another list
    intro kind differ
    refine LineOk.setLine _ ?_ differ
    have old := ok.others kind differ
    refine ⟨⟨?_, ?_, ?_⟩, ?_⟩ <;> rw [lineEq]
    · exact old.from_zero.length
    · exact old.from_zero.nodup
    · intro other mem
      have otherOpen := old.from_zero.isOpen other mem
      refine taken.others kind other ?_ otherOpen
      rintro rfl
      exact differ ((ok.core.luns _ otherOpen.1).open_type kind type _ otherOpen.2
        ok.isOpen_current.2)
    · exact old.current
  · have current := ok.current
    simp only [ChProv.advance, Chan.setLine, Function.update_self, lineEq]
    split <;> omega
  · simp only [ChProv.advance, Chan.setLine, Function.update_self, lineEq]
    split
    · exact Or.inl rfl
    · exact Or.inr rfl
  · refine ok.ahead.congr blksEq lengthLe ?_
    intro other mem
    have otherOpen : IsOpen env chan type other := by
      apply ok.ahead.isOpen
      rw [ok.drop_currentBlk]
      exact List.mem_cons_of_mem _ mem
    refine taken.others type other ?_ otherOpen
    rintro rfl
    exact ok.currentVblk_not_mem mem
  · intro unbroken
    simp only [Bool.or_eq_false_iff] at unbroken
    refine (ok.all unbroken.1).congr blksEq lengthLe ?_
    intro other mem
    by_cases same : other = currentVblk chan type
    · subst same
      exact taken.stays unbroken.2
    · exact taken.others type other same ((ok.all unbroken.1).isOpen other mem)

theorem Advanced.loopOk {idx : Nat} {renew : Bool}
    (advanced : Advanced env start type idx renew chan)
    (unbroken : (chan.line type).currentBlk = 0 → renew = false) :
    LoopOk env start type renew chan := by
  refine ⟨advanced.core, advanced.others, advanced.current, ?_, advanced.all⟩
  rcases advanced.index with moved | wrapped
  · rw [moved]
    exact advanced.behind
  · rw [wrapped]
    exact advanced.all (unbroken wrapped)

/-- After a renewal every line is in order again. -/
theorem Renewed.chanOk {result : Chan × Int} (renewed : Renewed env start type chan result)
    (others : ∀ kind, kind ≠ type → LineOk env chan kind) : ChanOk env start result.1 := by
  refine ⟨renewed.core, fun kind => ?_⟩
  by_cases same : kind = type
  · subst same
    exact renewed.line
  · exact renewed.others kind same (others kind same)

theorem Renewed.loopOk {result : Chan × Int} (renewed : Renewed env start type chan result)
    (others : ∀ kind, kind ≠ type → LineOk env chan kind) (success : result.2 = 0) :
    LoopOk env start type false result.1 := by
  have current := renewed.line.current (renewed.nonempty success)
  refine ⟨renewed.core, fun kind differ => renewed.others kind differ (others kind differ),
    current, ?_, fun _ => renewed.line.from_zero⟩
  refine renewed.line.from_zero.congr rfl renewed.line.from_zero.length ?_
  intro other mem
  exact renewed.line.from_zero.isOpen other (List.mem_of_mem_drop mem)

/-- `ch_prov_get_ppas` leaves every line in order. -/
theorem getPpasLoop_chanOk (left : Nat) {renew : Bool}
    (ok : LoopOk env start type renew chan) (last : left = 0 → renew = false) :
    ChanOk env start (getPpasLoop env type left renew chan).1 := by
  induction left generalizing renew chan with
  | zero => exact ok.chanOk (last rfl)
  | succ left ih =>
      have advanced := ok.advance
      simp only [getPpasLoop]
      generalize (renew || (takePage env type chan).2) = renew' at advanced ⊢
      generalize advance type (takePage env type chan).1 = chan' at advanced ⊢
      split
      · -- the line is renewed
        have renewed := chProvRenewLine_spec type advanced.core
        generalize chProvRenewLine env type chan' = result at renewed ⊢
        have renewedOk := renewed.chanOk advanced.others
        split
        · rename_i chan''
          exact ih (renewed.loopOk advanced.others rfl) (fun _ => rfl)
        · rename_i chan'' code failed
          split
          · exact renewedOk
          · rename_i noneLeft
            obtain rfl : left = 0 := by omega
            exact renewedOk
      · rename_i keep
        refine ih (advanced.loopOk ?_) ?_
        · intro wrapped
          by_contra broken
          exact keep ⟨Or.inl wrapped, by simpa using broken⟩
        · intro done
          by_contra broken
          exact keep ⟨Or.inr done, by simpa using broken⟩

theorem ChanOk.chProvGetPpas (pgs : Nat) (type : LineType)
    (ok : ChanOk env start chan) : ChanOk env start (chProvGetPpas env pgs type chan).1 := by
  simp only [ChProv.chProvGetPpas]
  split
  · exact ok
  · rename_i nonempty
    have line := ok.line type
    have current := line.current (by omega)
    refine getPpasLoop_chanOk pgs ⟨ok.core, fun kind _ => ok.line kind, current, ?_, ?_⟩
      fun _ => rfl
    · refine line.from_zero.congr rfl line.from_zero.length ?_
      intro other mem
      exact line.from_zero.isOpen other (List.mem_of_mem_drop mem)
    · exact fun _ => line.from_zero

end OxCtrl.ChProv
