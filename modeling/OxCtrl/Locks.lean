import Mathlib.Data.List.Infix
import Mathlib.Logic.Function.Basic

/-!
# The locks of page writes and checkpoints

`map_nvm_write`, `oxb_blk_md_nvm_write` and `oxb_ch_map_nvm_write` hold `user_w_mutex` while they
take addresses and write a page, and `oxb_recovery_checkpoint` holds `cp_mutex` while it flushes
everything.  A thread that locks a mutex that is held does not come back.
-/

namespace OxCtrl.Locks

/-- `APP_MD_IO_RETRY`. -/
def appMdIoRetry : Nat := 256

/-- `APP_FLUSH_RETRY`. -/
def appFlushRetry : Nat := 3

/-- A metadata table with a tiny table. -/
inductive Table where
  | blkMd
  | chMap
  deriving DecidableEq, Repr

/-- `user_w_mutex` and `cp_mutex`, and the dirty pages of the tables of a channel. -/
structure World where
  userW : Bool := false
  cp : Bool := false
  dirty : Table → Nat → Nat → Bool

/-- Both mutexes are free. -/
def World.Free (w : World) : Prop :=
  w.userW = false ∧ w.cp = false

/-- `tiny.dirty` of a page is set or cleared. -/
def World.setDirty (w : World) (table : Table) (ch ent : Nat) (value : Bool) : World :=
  let page := Function.update (w.dirty table ch) ent value
  { w with dirty := Function.update w.dirty table (Function.update (w.dirty table) ch page) }

/-- `pthread_mutex_lock (&user_w_mutex)`; there is no result when it is held. -/
def lockUserW (w : World) : Option World :=
  if w.userW then none else some { w with userW := true }

/-- `pthread_mutex_unlock (&user_w_mutex)` -/
def unlockUserW (w : World) : World :=
  { w with userW := false }

/-- `pthread_mutex_lock (&cp_mutex)` -/
def lockCp (w : World) : Option World :=
  if w.cp then none else some { w with cp := true }

/-- `pthread_mutex_unlock (&cp_mutex)` -/
def unlockCp (w : World) : World :=
  { w with cp := false }

/-! ## Page writes -/

/-- How a page write goes: there are no addresses, there is no memory for the I/O, the transfer
fails, or the page is written. -/
inductive NvmWrite where
  | noPpas
  | noIo
  | transferError
  | written
  deriving DecidableEq, Repr

/-- The mutex in the three page writes; `true` for an error.  `releases` says whether the exit
without addresses unlocks it. -/
def pageWrite (releases : Bool) (out : NvmWrite) (w : World) : Option (World × Bool) := do
  let w ← lockUserW w
  match out with
  | .noPpas => some (if releases then unlockUserW w else w, true)
  -- `FREE_PPA`
  | .noIo => some (unlockUserW w, true)
  -- `FREE_IO`
  | .transferError => some (unlockUserW w, true)
  | .written => some (unlockUserW w, false)

/-- `map_nvm_write` -/
def mapNvmWrite : NvmWrite → World → Option (World × Bool) :=
  pageWrite false

/-- `oxb_blk_md_nvm_write` -/
def oxbBlkMdNvmWrite : NvmWrite → World → Option (World × Bool) :=
  pageWrite true

/-- `oxb_ch_map_nvm_write` -/
def oxbChMapNvmWrite : NvmWrite → World → Option (World × Bool) :=
  pageWrite true

/-! ## Flushes -/

section Flush

variable (nvmWrite : NvmWrite → World → Option (World × Bool)) (outs : Nat → NvmWrite)

/-- The writes of a page from `RETRY` on, with so many retries left; the write with number `call`
is next. -/
def retryWrite : Nat → Nat → World → Option (World × Nat × Nat)
  | 0, call, w => some (w, 0, call)
  | retry + 1, call, w => do
      let (w, failed) ← nvmWrite (outs call) w
      if failed then retryWrite retry (call + 1) w else some (w, retry + 1, call + 1)

/-- The loop over the pages of a table; `true` for an error.  All pages share the retries. -/
def flushLoop (table : Table) (ch : Nat) : Nat → Nat → Nat → Nat → World → Option (World × Bool)
  | 0, _, _, _, w => some (w, false)
  | left + 1, ent, retry, call, w =>
      if w.dirty table ch ent then do
        let (w, retry, call) ← retryWrite nvmWrite outs retry call w
        if retry = 0 then some (w, true)
        else flushLoop table ch left (ent + 1) retry call (w.setDirty table ch ent false)
      else flushLoop table ch left (ent + 1) retry call w

end Flush

/-- The channels, and the pages of their tables. -/
structure Conf where
  nch : Nat
  entries : Table → Nat → Nat

/-- `oxb_blk_md_flush` -/
def oxbBlkMdFlush (conf : Conf) (ch : Nat) (outs : Nat → NvmWrite) (w : World) :
    Option (World × Bool) :=
  flushLoop oxbBlkMdNvmWrite outs .blkMd ch (conf.entries .blkMd ch) 0 appMdIoRetry 0 w

/-- `oxb_ch_map_flush` -/
def oxbChMapFlush (conf : Conf) (ch : Nat) (outs : Nat → NvmWrite) (w : World) :
    Option (World × Bool) :=
  flushLoop oxbChMapNvmWrite outs .chMap ch (conf.entries .chMap ch) 0 appMdIoRetry 0 w

/-! ## Checkpoints -/

/-- The entries that `oxb_recovery_checkpoint` sets itself. -/
inductive CpEntry where
  | logHead
  | logTail
  | glProvCh
  | timestamp
  deriving DecidableEq, Repr

/-- The order in which they are set. -/
def cpEntries : List CpEntry := [.logHead, .logTail, .glProvCh, .timestamp]

/-- How `oxb_recovery_flush_cp` goes. -/
inductive FlushCp where
  | tooBig
  | noMemory
  | writeError
  | flushed
  deriving DecidableEq, Repr

/-- A mapping page written by `clear_fn`, and the page of `ch_map` that is marked when it has been
written. -/
structure ClearWrite where
  out : NvmWrite
  ch : Nat
  ent : Nat

/-- What a checkpoint meets: the pages that `clear_fn` writes, the writes of each attempt to flush
the tables of a channel, the failures of `set_fn`, and the flush of the checkpoint. -/
structure Plan where
  clear : List ClearWrite
  outs : Table → Nat → Nat → Nat → NvmWrite
  setFails : CpEntry → Bool
  flushCp : FlushCp

/-- The page writes of `clear_fn`. -/
def clearFn : List ClearWrite → World → Option World
  | [], w => some w
  | write :: rest, w => do
      let (w, failed) ← mapNvmWrite write.out w
      clearFn rest (if failed then w else w.setDirty .chMap write.ch write.ent true)

/-- The loop around a flush, with so many attempts left. -/
def retryFlush (flush : Nat → World → Option (World × Bool)) : Nat → Nat → World → Option World
  | 0, _, w => some w
  | left + 1, attempt, w => do
      let (w, failed) ← flush attempt w
      if failed then retryFlush flush left (attempt + 1) w else some w

/-- The flushes of all channels. -/
def flushChannels (conf : Conf) (plan : Plan) : List Nat → World → Option World
  | [], w => some w
  | ch :: rest, w => do
      let w ← retryFlush (fun attempt => oxbChMapFlush conf ch (plan.outs .chMap ch attempt))
        appFlushRetry 0 w
      let w ← retryFlush (fun attempt => oxbBlkMdFlush conf ch (plan.outs .blkMd ch attempt))
        appFlushRetry 0 w
      flushChannels conf plan rest w

/-- `oxb_recovery_checkpoint`; `true` for an error. -/
def oxbRecoveryCheckpoint (conf : Conf) (plan : Plan) (w : World) : Option (World × Bool) := do
  let w ← lockCp w
  let w ← clearFn plan.clear w
  let w ← flushChannels conf plan (List.range conf.nch) w
  if cpEntries.any plan.setFails then some (w, true)
  else if plan.flushCp ≠ .flushed then some (w, true)
  else some (unlockCp w, false)

/-! ## Runs -/

/-- A call of one of the functions, or a page that becomes dirty. -/
inductive Op where
  | mapNvmWrite (out : NvmWrite)
  | blkMdFlush (ch : Nat) (outs : Nat → NvmWrite)
  | chMapFlush (ch : Nat) (outs : Nat → NvmWrite)
  | checkpoint (plan : Plan)
  | mark (table : Table) (ch ent : Nat)

/-- A call; there is no result when the thread does not come back. -/
def step (conf : Conf) (w : World) : Op → Option World
  | .mapNvmWrite out => (mapNvmWrite out w).map Prod.fst
  | .blkMdFlush ch outs => (oxbBlkMdFlush conf ch outs w).map Prod.fst
  | .chMapFlush ch outs => (oxbChMapFlush conf ch outs w).map Prod.fst
  | .checkpoint plan => (oxbRecoveryCheckpoint conf plan w).map Prod.fst
  | .mark table ch ent => some (w.setDirty table ch ent true)

/-- Calls one after another. -/
def run (conf : Conf) : World → List Op → Option World
  | w, [] => some w
  | w, op :: ops => do
      let w ← step conf w op
      run conf w ops

/-- Every call comes back, and then both mutexes are free. -/
def Released (conf : Conf) (w : World) (ops : List Op) : Prop :=
  ∀ done, done <+: ops → ∃ after, run conf w done = some after ∧ after.Free

/-- No mapping page is written without addresses, and a checkpoint sets its entries and is
flushed. -/
def Op.Fine : Op → Prop
  | .mapNvmWrite out => out ≠ .noPpas
  | .blkMdFlush _ _ => True
  | .chMapFlush _ _ => True
  | .checkpoint plan =>
      (∀ write ∈ plan.clear, write.out ≠ .noPpas) ∧ (∀ entry, plan.setFails entry = false) ∧
        plan.flushCp = .flushed
  | .mark _ _ _ => True

/-! ## What each function does to the locks -/

/-- The function comes back with `user_w_mutex` free and `cp_mutex` as before. -/
def Returns {α : Type} (w : World) (result : Option (World × α)) : Prop :=
  ∃ after value, result = some (after, value) ∧ after.userW = false ∧ after.cp = w.cp

section Functions

variable {w after : World} {out : NvmWrite} {failed : Bool}

/-- A page write takes the free mutex and gives it back, except without addresses. -/
theorem pageWrite_free (free : w.userW = false) (releases : Bool) (out : NvmWrite) :
    ∃ after failed, pageWrite releases out w = some (after, failed) ∧ after.cp = w.cp ∧
      (after.userW = true ↔ releases = false ∧ out = .noPpas) := by
  have locked : lockUserW w = some { w with userW := true } := by
    simp [lockUserW, free]
  cases out with
  | noPpas =>
      refine ⟨_, true, by rw [pageWrite, locked]; rfl, ?_, ?_⟩
      · cases releases <;> rfl
      · cases releases <;> simp [unlockUserW]
  | noIo =>
      exact ⟨unlockUserW w, true, by rw [pageWrite, locked]; rfl, rfl, by simp [unlockUserW]⟩
  | transferError =>
      exact ⟨unlockUserW w, true, by rw [pageWrite, locked]; rfl, rfl, by simp [unlockUserW]⟩
  | written =>
      exact ⟨unlockUserW w, false, by rw [pageWrite, locked]; rfl, rfl, by simp [unlockUserW]⟩

theorem pageWrite_held (held : w.userW = true) (releases : Bool) (out : NvmWrite) :
    pageWrite releases out w = none := by
  simp [pageWrite, lockUserW, held]

/-- A releasing page write comes back with the mutex free. -/
theorem returns_pageWrite (free : w.userW = false) (out : NvmWrite) :
    Returns w (pageWrite true out w) := by
  obtain ⟨after, failed, eq, cp, held⟩ := pageWrite_free free true out
  refine ⟨after, failed, eq, ?_, cp⟩
  exact Bool.eq_false_iff.mpr fun userW => absurd (held.mp userW).1 (by decide)

variable {outs : Nat → NvmWrite}

theorem returns_retryWrite (outs : Nat → NvmWrite) (free : w.userW = false) (retry call : Nat) :
    Returns w (retryWrite (pageWrite true) outs retry call w) := by
  induction retry generalizing w call with
  | zero => exact ⟨w, (0, call), rfl, free, rfl⟩
  | succ retry ih =>
      obtain ⟨after, failed, eq, userW, cp⟩ := returns_pageWrite free (outs call)
      simp only [retryWrite, eq, Option.bind_eq_bind, Option.bind_some]
      cases failed with
      | true =>
          obtain ⟨last, value, eq, lastUserW, lastCp⟩ := ih userW (call + 1)
          exact ⟨last, value, eq, lastUserW, lastCp.trans cp⟩
      | false => exact ⟨after, _, rfl, userW, cp⟩

theorem returns_flushLoop (free : w.userW = false) (table : Table) (ch left ent retry call : Nat) :
    Returns w (flushLoop (pageWrite true) outs table ch left ent retry call w) := by
  induction left generalizing w ent retry call with
  | zero => exact ⟨w, false, rfl, free, rfl⟩
  | succ left ih =>
      rw [flushLoop]
      split
      · obtain ⟨after, value, eq, userW, cp⟩ := returns_retryWrite outs free retry call
        simp only [eq, Option.bind_eq_bind, Option.bind_some]
        split
        · exact ⟨after, true, rfl, userW, cp⟩
        · obtain ⟨last, failed, eq, lastUserW, lastCp⟩ :=
            ih (w := after.setDirty table ch ent false) userW (ent + 1) value.1 value.2
          exact ⟨last, failed, eq, lastUserW, lastCp.trans cp⟩
      · exact ih free (ent + 1) retry call

/-- With `user_w_mutex` held, a flush comes back only when it has nothing to write. -/
theorem flushLoop_held (held : w.userW = true) {table : Table} {ch left ent retry call : Nat}
    (some : 0 < retry)
    (back : flushLoop (pageWrite true) outs table ch left ent retry call w =
      .some (after, failed)) :
    after = w := by
  induction left generalizing ent with
  | zero =>
      cases back
      rfl
  | succ left ih =>
      rw [flushLoop] at back
      split at back
      · obtain ⟨retry, rfl⟩ := Nat.exists_eq_succ_of_ne_zero (Nat.ne_of_gt some)
        simp [retryWrite, pageWrite_held held] at back
      · exact ih back

variable {flush : Nat → World → Option (World × Bool)}

theorem retryFlush_free (flush : Nat → World → Option (World × Bool))
    (returns : ∀ attempt w, w.userW = false → Returns w (flush attempt w))
    (free : w.userW = false) (left attempt : Nat) :
    ∃ after, retryFlush flush left attempt w = some after ∧ after.userW = false ∧
      after.cp = w.cp := by
  induction left generalizing w attempt with
  | zero => exact ⟨w, rfl, free, rfl⟩
  | succ left ih =>
      obtain ⟨after, failed, eq, userW, cp⟩ := returns attempt w free
      simp only [retryFlush, eq, Option.bind_eq_bind, Option.bind_some]
      cases failed with
      | true =>
          obtain ⟨last, eq, lastUserW, lastCp⟩ := ih userW (attempt + 1)
          exact ⟨last, eq, lastUserW, lastCp.trans cp⟩
      | false => exact ⟨after, rfl, userW, cp⟩

theorem retryFlush_held
    (keeps : ∀ attempt after failed, flush attempt w = some (after, failed) → after = w)
    {left attempt : Nat} (back : retryFlush flush left attempt w = some after) : after = w := by
  induction left generalizing attempt with
  | zero =>
      cases back
      rfl
  | succ left ih =>
      simp only [retryFlush, Option.bind_eq_bind, Option.bind_eq_some_iff] at back
      obtain ⟨⟨middle, failed⟩, eq, back⟩ := back
      obtain rfl := keeps attempt middle failed eq
      cases failed with
      | true => exact ih back
      | false =>
          cases back
          rfl

variable {conf : Conf} {plan : Plan}

theorem flushChannels_free (conf : Conf) (plan : Plan) (free : w.userW = false) (chs : List Nat) :
    ∃ after, flushChannels conf plan chs w = some after ∧ after.userW = false ∧
      after.cp = w.cp := by
  induction chs generalizing w with
  | nil => exact ⟨w, rfl, free, rfl⟩
  | cons ch rest ih =>
      obtain ⟨first, eq, userW, cp⟩ := retryFlush_free
        (fun attempt => oxbChMapFlush conf ch (plan.outs .chMap ch attempt))
        (fun _ _ free => returns_flushLoop free _ _ _ _ _ _) free appFlushRetry 0
      obtain ⟨second, eq', userW', cp'⟩ := retryFlush_free
        (fun attempt => oxbBlkMdFlush conf ch (plan.outs .blkMd ch attempt))
        (fun _ _ free => returns_flushLoop free _ _ _ _ _ _) userW appFlushRetry 0
      obtain ⟨last, eq'', userW'', cp''⟩ := ih userW'
      simp only [flushChannels, eq, eq', eq'', Option.bind_eq_bind, Option.bind_some]
      exact ⟨last, rfl, userW'', cp''.trans (cp'.trans cp)⟩

theorem flushChannels_held (held : w.userW = true) {chs : List Nat}
    (back : flushChannels conf plan chs w = some after) : after = w := by
  induction chs with
  | nil =>
      cases back
      rfl
  | cons ch rest ih =>
      simp only [flushChannels, Option.bind_eq_bind, Option.bind_eq_some_iff] at back
      obtain ⟨first, eq, second, eq', back⟩ := back
      obtain rfl := retryFlush_held (fun _ _ _ => flushLoop_held held (by decide)) eq
      obtain rfl := retryFlush_held (fun _ _ _ => flushLoop_held held (by decide)) eq'
      exact ih back

/-- `clear_fn` gives the mutex back when no page is written without addresses. -/
theorem clearFn_free {writes : List ClearWrite} (fine : ∀ write ∈ writes, write.out ≠ .noPpas)
    (free : w.userW = false) :
    ∃ after, clearFn writes w = some after ∧ after.userW = false ∧ after.cp = w.cp := by
  induction writes generalizing w with
  | nil => exact ⟨w, rfl, free, rfl⟩
  | cons write rest ih =>
      obtain ⟨first, others⟩ := List.forall_mem_cons.mp fine
      obtain ⟨after, failed, eq, cp, held⟩ := pageWrite_free free false write.out
      have userW : after.userW = false :=
        Bool.eq_false_iff.mpr fun userW => first (held.mp userW).2
      have both : (if failed then after else after.setDirty .chMap write.ch write.ent true).userW =
          false ∧ (if failed then after else after.setDirty .chMap write.ch write.ent true).cp =
            w.cp := by
        cases failed
        · exact ⟨userW, cp⟩
        · exact ⟨userW, cp⟩
      obtain ⟨last, eq', lastUserW, lastCp⟩ := ih others both.1
      simp only [clearFn, mapNvmWrite, eq, Option.bind_eq_bind, Option.bind_some]
      exact ⟨last, eq', lastUserW, lastCp.trans both.2⟩

/-- After a mapping page without addresses, `clear_fn` comes back with the mutex held, if at all. -/
theorem clearFn_held {writes : List ClearWrite} (free : w.userW = false)
    (lost : ∃ write ∈ writes, write.out = .noPpas) (back : clearFn writes w = some after) :
    after.userW = true := by
  induction writes generalizing w with
  | nil =>
      obtain ⟨write, mem, _⟩ := lost
      cases mem
  | cons write rest ih =>
      simp only [clearFn, mapNvmWrite, Option.bind_eq_bind, Option.bind_eq_some_iff] at back
      obtain ⟨⟨middle, failed⟩, eq, back⟩ := back
      obtain ⟨first, failed', eq', cp, held⟩ := pageWrite_free free false write.out
      rw [eq, Option.some.injEq, Prod.mk.injEq] at eq'
      obtain ⟨rfl, rfl⟩ := eq'
      by_cases here : write.out = .noPpas
      · -- the next write does not come back
        have userW : middle.userW = true := held.mpr ⟨rfl, here⟩
        cases rest with
        | nil =>
            cases back
            cases failed
            · exact userW
            · exact userW
        | cons next rest =>
            have both : (if failed then middle
                else middle.setDirty .chMap write.ch write.ent true).userW = true := by
              cases failed
              · exact userW
              · exact userW
            simp [clearFn, mapNvmWrite, pageWrite_held both] at back
      · have userW : middle.userW = false :=
          Bool.eq_false_iff.mpr fun userW => here (held.mp userW).2
        have both : (if failed then middle
            else middle.setDirty .chMap write.ch write.ent true).userW = false := by
          cases failed
          · exact userW
          · exact userW
        refine ih both ?_ back
        obtain ⟨other, mem, out⟩ := lost
        rcases List.mem_cons.mp mem with rfl | mem
        · exact absurd out here
        · exact ⟨other, mem, out⟩

theorem any_cpEntries :
    cpEntries.any plan.setFails = true ↔ ∃ entry, plan.setFails entry = true := by
  rw [List.any_eq_true]
  constructor
  · rintro ⟨entry, _, fails⟩
    exact ⟨entry, fails⟩
  · rintro ⟨entry, fails⟩
    exact ⟨entry, by cases entry <;> simp [cpEntries], fails⟩

/-- A checkpoint comes back with both mutexes free exactly when nothing in it keeps one. -/
theorem checkpoint_free_iff (conf : Conf) (free : w.Free) :
    (∃ after failed, oxbRecoveryCheckpoint conf plan w = some (after, failed) ∧ after.Free) ↔
      (Op.checkpoint plan).Fine := by
  obtain ⟨userW, cp⟩ := free
  have locked : lockCp w = some { w with cp := true } := by
    simp [lockCp, cp]
  simp only [oxbRecoveryCheckpoint, locked, Option.bind_eq_bind, Option.bind_some, Op.Fine]
  constructor
  · rintro ⟨after, failed, back, free⟩
    simp only [Option.bind_eq_some_iff] at back
    obtain ⟨cleared, clear, flushed, channels, back⟩ := back
    have found : ∀ write ∈ plan.clear, write.out ≠ .noPpas := by
      intro write mem out
      have held := clearFn_held (w := { w with cp := true }) userW ⟨write, mem, out⟩ clear
      obtain rfl := flushChannels_held held channels
      have kept : after.userW = true := by
        split at back
        · cases back
          exact held
        · split at back
          · cases back
            exact held
          · cases back
            exact held
      rw [free.1] at kept
      cases kept
    obtain ⟨cleared', eq, clearedW, clearedCp⟩ :=
      clearFn_free found (w := { w with cp := true }) userW
    obtain rfl : cleared = cleared' := Option.some.inj (clear.symm.trans eq)
    obtain ⟨flushed', eq', _, flushedCp⟩ :=
      flushChannels_free conf plan clearedW (List.range conf.nch)
    obtain rfl : flushed = flushed' := Option.some.inj (channels.symm.trans eq')
    have held : flushed.cp = true := flushedCp.trans clearedCp
    refine ⟨found, ?_⟩
    split at back
    · cases back
      exact absurd (held.symm.trans free.2) (by decide)
    · rename_i sets
      split at back
      · cases back
        exact absurd (held.symm.trans free.2) (by decide)
      · rename_i flush
        refine ⟨fun entry => ?_, not_not.mp flush⟩
        exact Bool.eq_false_iff.mpr fun fails => sets (any_cpEntries.mpr ⟨entry, fails⟩)
  · rintro ⟨found, sets, flush⟩
    obtain ⟨cleared, eq, clearedW, _⟩ := clearFn_free found (w := { w with cp := true }) userW
    obtain ⟨flushed, eq', flushedW, _⟩ :=
      flushChannels_free conf plan clearedW (List.range conf.nch)
    have none : ¬ cpEntries.any plan.setFails = true := by
      rw [any_cpEntries]
      rintro ⟨entry, fails⟩
      rw [sets entry] at fails
      cases fails
    refine ⟨unlockCp flushed, false, ?_, flushedW, rfl⟩
    rw [eq, Option.bind_some, eq', Option.bind_some, if_neg none, if_neg (not_not_intro flush)]

/-- A call comes back with both mutexes free exactly when it is fine. -/
theorem step_free_iff (conf : Conf) (free : w.Free) (op : Op) :
    (∃ after, step conf w op = some after ∧ after.Free) ↔ op.Fine := by
  obtain ⟨userW, cp⟩ := free
  have back : ∀ result : Option (World × Bool), Returns w result →
      ∃ after, result.map Prod.fst = some after ∧ after.Free := by
    rintro result ⟨after, failed, rfl, afterW, afterCp⟩
    exact ⟨after, rfl, afterW, afterCp.trans cp⟩
  cases op with
  | mapNvmWrite out =>
      obtain ⟨after, failed, eq, afterCp, held⟩ := pageWrite_free userW false out
      simp only [step, mapNvmWrite, eq, Option.map_some, Option.some.injEq,
        exists_eq_left', Op.Fine]
      constructor
      · intro free lost
        exact absurd ((held.mpr ⟨rfl, lost⟩).symm.trans free.1) (by decide)
      · intro out
        exact ⟨Bool.eq_false_iff.mpr fun userW => out (held.mp userW).2, afterCp.trans cp⟩
  | blkMdFlush ch outs =>
      exact iff_of_true (back _ (returns_flushLoop userW _ _ _ _ _ _)) trivial
  | chMapFlush ch outs =>
      exact iff_of_true (back _ (returns_flushLoop userW _ _ _ _ _ _)) trivial
  | checkpoint plan =>
      rw [← checkpoint_free_iff conf ⟨userW, cp⟩]
      constructor
      · rintro ⟨after, eq, free⟩
        obtain ⟨⟨back, failed⟩, result, rfl⟩ := Option.map_eq_some_iff.mp eq
        exact ⟨back, failed, result, free⟩
      · rintro ⟨after, failed, eq, free⟩
        exact ⟨after, by rw [step, eq]; rfl, free⟩
  | mark table ch ent => exact iff_of_true ⟨_, rfl, userW, cp⟩ trivial

theorem released_cons_iff {op : Op} {ops : List Op} (free : w.Free) :
    Released conf w (op :: ops) ↔
      ∃ after, step conf w op = some after ∧ after.Free ∧ Released conf after ops := by
  constructor
  · intro released
    obtain ⟨after, eq, afterFree⟩ := released [op] (List.prefix_append [op] ops)
    simp only [run, Option.bind_eq_bind, Option.bind_eq_some_iff, Option.some.injEq,
      exists_eq_right] at eq
    refine ⟨after, eq, afterFree, fun done pre => ?_⟩
    have more := released (op :: done) (List.cons_prefix_cons.mpr ⟨rfl, pre⟩)
    simpa [run, eq] using more
  · rintro ⟨after, eq, afterFree, released⟩ done pre
    cases done with
    | nil => exact ⟨w, rfl, free⟩
    | cons first rest =>
        obtain ⟨rfl, short⟩ := List.cons_prefix_cons.mp pre
        simpa [run, eq] using released rest short

end Functions

/-- From free mutexes on, every call comes back and leaves them free if and only if no mapping page
is written without addresses and no checkpoint fails. -/
theorem locks_released_iff (conf : Conf) (dirty : Table → Nat → Nat → Bool) (ops : List Op) :
    Released conf { dirty := dirty } ops ↔ ∀ op ∈ ops, op.Fine := by
  have general : ∀ w : World, w.Free → (Released conf w ops ↔ ∀ op ∈ ops, op.Fine) := by
    induction ops with
    | nil =>
        intro w free
        refine iff_of_true (fun done pre => ?_) (by simp)
        rw [List.prefix_nil.mp pre]
        exact ⟨w, rfl, free⟩
    | cons op ops ih =>
        intro w free
        rw [released_cons_iff free, List.forall_mem_cons, ← step_free_iff conf free op]
        constructor
        · rintro ⟨after, eq, afterFree, released⟩
          exact ⟨⟨after, eq, afterFree⟩, (ih after afterFree).mp released⟩
        · rintro ⟨⟨after, eq, afterFree⟩, fine⟩
          exact ⟨after, eq, afterFree, (ih after afterFree).mpr fine⟩
  exact general { dirty := dirty } ⟨rfl, rfl⟩

/-- A mapping page is written on a full device, and the next write does not come back. -/
theorem map_write_keeps_lock :
    (∃ after, run ⟨1, fun _ _ => 0⟩ { dirty := fun _ _ _ => false } [.mapNvmWrite .noPpas] =
        some after ∧ after.userW = true) ∧
      run ⟨1, fun _ _ => 0⟩ { dirty := fun _ _ _ => false }
        [.mapNvmWrite .noPpas, .mapNvmWrite .written] = none :=
  ⟨⟨_, rfl, rfl⟩, rfl⟩

end OxCtrl.Locks
