import Mathlib.Logic.Function.Basic
import OxCtrl.Geometry
import OxCtrl.Lib.RoundRobin
import OxCtrl.Lib.System
import OxCtrl.Lib.Tally

/-!
# Global provisioning

`gl_prov_get_ppa_list` spreads the pages of a request over the active channels, and
`gl_prov_free_ppa_list` gives the list back.  Both keep the number of users of each channel
in its `busy` counter, which garbage collection waits for.  Any number of calls run at the
same time.  Between two steps of a call, every access to the flags or the counter of a
channel and every call of channel provisioning, the other calls take any steps of theirs,
and garbage collection switches channels off and on.
-/

namespace OxCtrl.GlProv

open OxCtrl.Lib

/-- `app_nch` and the sectors of a page in all planes. -/
structure Conf where
  appNch : Nat
  secPerPlPg : Nat
  pos : 0 < secPerPlPg

/-- `struct app_prov_ppas`; a channel is in `ch` when its pointer is not `NULL`. -/
structure ProvPpas where
  ch : Nat → Bool
  ppa : List Ppa

/-- The flags and the counter of the channels, and `cur_ch_id`. -/
structure Channels where
  active : Nat → Bool
  busy : Nat → Nat
  needGc : Nat → Bool
  curChId : Nat

namespace Channels

/-- `app_ch_inc_thread`. -/
def incThread (chs : Channels) (ch : Nat) : Channels :=
  { chs with busy := Function.update chs.busy ch (chs.busy ch + 1) }

/-- `app_ch_dec_thread`. -/
def decThread (chs : Channels) (ch : Nat) : Channels :=
  if 0 < chs.busy ch then { chs with busy := Function.update chs.busy ch (chs.busy ch - 1) }
  else chs

/-- `app_ch_active_set` and `app_ch_active_unset`. -/
def setActive (chs : Channels) (ch : Nat) (active : Bool) : Channels :=
  { chs with active := Function.update chs.active ch active }

/-- `app_ch_need_gc_set`. -/
def needGcSet (chs : Channels) (ch : Nat) : Channels :=
  { chs with needGc := Function.update chs.needGc ch true }

end Channels

/-! ## The local variables of a request -/

/-- Variables of `gl_prov_get_ppa_list`.  A channel is in `prov` when `prov_ppa->ch` is not
`NULL`, and in `dec` when `dec_ch` is not `NULL`. -/
structure GetVars where
  pgs : Nat
  nactCh : Nat := 0
  prov : Nat → Bool := fun _ => false
  dec : Nat → Bool := fun _ => false
  cc : Nat := 0
  pgsCh : Nat → Nat := fun _ => 0
  tmpPpa : Nat → List Ppa := fun _ => []

/-- Where a request stands. -/
inductive GetPc where
  /-- The first test of a channel. -/
  | collect (ch : Nat)
  /-- The channel was active. -/
  | inc (ch : Nat)
  /-- The channel is counted and is tested again. -/
  | recheck (ch : Nat)
  /-- It was inactive then. -/
  | undo (ch : Nat)
  /-- `REDIST`. -/
  | redist
  /-- The loop that asks the channels for their pages. -/
  | visit (ch act left : Nat)
  /-- The channel has no pages. -/
  | refused (ch left : Nat)
  /-- It is not counted anymore. -/
  | leave (ch left : Nat)
  /-- The memory of the list. -/
  | gather
  /-- The last loop. -/
  | unused (ch : Nat)
  /-- `DEC_CH`. -/
  | decCh (ch : Nat)

/-- A call that runs. -/
inductive Call where
  | get (vars : GetVars) (pc : GetPc)
  | free (list : ProvPpas) (ch : Nat)

/-- Place of the next channel in a ring. -/
def nextCh (count ch : Nat) : Nat :=
  if ch = count - 1 then 0 else ch + 1

/-- The loop that distributes the pages among the active channels. -/
def distribute (nactCh : Nat) : Nat → Nat → (Nat → Nat) → Nat → Nat
  | 0, _, pgsCh => pgsCh
  | left + 1, act, pgsCh =>
      distribute nactCh left (nextCh nactCh act)
        (Function.update pgsCh act ((pgsCh act + 1) % 2 ^ 16))

/-- The loop that orders the list: a page of each channel in turn. -/
def reorder (conf : Conf) : Nat → Nat → (Nat → List Ppa) → List Ppa
  | 0, _, _ => []
  | rounds + 1, ch, tmpPpa =>
      match tmpPpa ch with
      | [] => reorder conf rounds (nextCh conf.appNch ch) tmpPpa
      | ppas =>
          ppas.take conf.secPerPlPg ++
            reorder conf rounds (nextCh conf.appNch ch)
              (Function.update tmpPpa ch (ppas.drop conf.secPerPlPg))

/-- Sectors of all channels. -/
def GetVars.tppas (conf : Conf) (vars : GetVars) : Nat :=
  ((List.range conf.appNch).map fun ch => (vars.tmpPpa ch).length).sum

/-- The list that is returned. -/
def GetVars.provPpas (conf : Conf) (vars : GetVars) : ProvPpas where
  ch := vars.prov
  ppa := reorder conf (conf.appNch * vars.tppas conf) vars.cc vars.tmpPpa

/-- What a called function answers: channel provisioning gives sectors or has none, memory
is there or is not. -/
inductive Answer where
  | ok
  | ppas (list : List Ppa)
  | fail

/-- What is left of a call behind a step. -/
inductive After where
  | running (call : Call)
  | ended
  | returned (list : ProvPpas)

/-- `get_ppas_fn` fills the list with sectors of its channel. -/
def Supplied (conf : Conf) (ch pgs : Nat) (list : List Ppa) : Prop :=
  list.length = conf.secPerPlPg * pgs ∧ ∀ ppa ∈ list, ppa.ch.val = ch

instance (conf : Conf) (ch pgs : Nat) (list : List Ppa) : Decidable (Supplied conf ch pgs list) :=
  inferInstanceAs (Decidable (_ ∧ _))

/-! ## Steps -/

variable (conf : Conf)

/-- One step of `gl_prov_get_ppa_list`. -/
def getStep (chs : Channels) (vars : GetVars) (answer : Answer) : GetPc → Channels × After
  | .collect ch =>
      if ch < conf.appNch then
        if chs.active ch then (chs, .running (.get vars (.inc ch)))
        else (chs, .running (.get vars (.collect (ch + 1))))
      else if vars.nactCh = 0 then (chs, .ended)
      else (chs, .running (.get vars .redist))
  | .inc ch => (chs.incThread ch, .running (.get vars (.recheck ch)))
  | .recheck ch =>
      if chs.active ch then
        (chs, .running (.get
          { vars with
            prov := Function.update vars.prov ch true
            dec := Function.update vars.dec ch true
            nactCh := vars.nactCh + 1 } (.collect (ch + 1))))
      else (chs, .running (.get vars (.undo ch)))
  | .undo ch => (chs.decThread ch, .running (.get vars (.collect (ch + 1))))
  | .redist =>
      let cc := chs.curChId
      let newCc := vars.pgs % conf.appNch + cc
      let newCc := if conf.appNch - 1 < newCc then newCc - conf.appNch else newCc
      ({ chs with curChId := newCc },
        .running (.get
          { vars with cc := cc, pgsCh := distribute vars.nactCh vars.pgs 0 fun _ => 0 }
          (.visit cc 0 vars.pgs)))
  | .visit ch act left =>
      if left = 0 then (chs, .running (.get vars .gather))
      else if vars.prov ch then
        match answer with
        | .ppas list =>
            if Supplied conf ch (vars.pgsCh act) list then
              (chs, .running (.get
                { vars with
                  tmpPpa := Function.update vars.tmpPpa ch (vars.tmpPpa ch ++ list)
                  dec := Function.update vars.dec ch false }
                (.visit (nextCh conf.appNch ch) (nextCh vars.nactCh act)
                  ((left + 2 ^ 32 - vars.pgsCh act) % 2 ^ 32))))
            else (chs, .running (.get vars (.visit ch act left)))
        | .fail => (chs, .running (.get vars (.refused ch left)))
        | .ok => (chs, .running (.get vars (.visit ch act left)))
      else (chs, .running (.get vars (.visit (nextCh conf.appNch ch) act left)))
  | .refused ch left => (chs.decThread ch, .running (.get vars (.leave ch left)))
  | .leave ch left =>
      ((chs.needGcSet ch).setActive ch false,
        if 0 < vars.nactCh - 1 then
          .running (.get
            { vars with
              prov := Function.update vars.prov ch false
              dec := Function.update vars.dec ch false
              nactCh := vars.nactCh - 1
              pgs := left } .redist)
        else .ended)
  | .gather =>
      match answer with
      | .fail => (chs, .running (.get vars (.decCh 0)))
      | _ => (chs, .running (.get vars (.unused 0)))
  | .unused ch =>
      if ch < conf.appNch then
        (if vars.dec ch then chs.decThread ch else chs,
          .running (.get vars (.unused (ch + 1))))
      else (chs, .returned (vars.provPpas conf))
  | .decCh ch =>
      if ch < conf.appNch then
        (if vars.prov ch then chs.decThread ch else chs, .running (.get vars (.decCh (ch + 1))))
      else (chs, .ended)

/-- One step of `gl_prov_free_ppa_list`. -/
def freeStep (chs : Channels) (list : ProvPpas) (ch : Nat) : Channels × After :=
  if ch < conf.appNch then
    (if list.ch ch then chs.decThread ch else chs, .running (.free list (ch + 1)))
  else (chs, .ended)

/-- One step of a call. -/
def callStep (chs : Channels) (answer : Answer) : Call → Channels × After
  | .get vars pc => getStep conf chs vars answer pc
  | .free list ch => freeStep conf chs list ch

/-- The channels, the calls that run, and the lists that were returned and not freed. -/
structure ProvState where
  chs : Channels
  calls : List Call := []
  lists : List ProvPpas := []

/-- What users, garbage collection and the scheduler do. -/
inductive ProvOp where
  | get (pgs : Nat)
  | free (idx : Nat)
  | step (idx : Nat) (answer : Answer)
  | active (ch : Nat) (active : Bool)

/-- The calls behind a step of one of them. -/
def After.calls : After → List Call
  | .running call => [call]
  | _ => []

/-- The lists that a step returns. -/
def After.lists : After → List ProvPpas
  | .returned list => [list]
  | _ => []

/-- One step of the system. -/
def provStep (state : ProvState) : ProvOp → ProvState
  | .get pgs =>
      { state with
        calls := state.calls ++ [.get { pgs := pgs % 2 ^ 32 } (.collect 0)] }
  | .free idx =>
      match state.lists[idx]? with
      | none => state
      | some list =>
          { state with
            calls := state.calls ++ [.free list 0]
            lists := replaceAt state.lists idx [] }
  | .step idx answer =>
      match state.calls[idx]? with
      | none => state
      | some call =>
          let (chs, after) := callStep conf state.chs answer call
          { chs := chs
            calls := replaceAt state.calls idx after.calls
            lists := state.lists ++ after.lists }
  | .active ch active => { state with chs := state.chs.setActive ch active }

/-- Runs of the users. -/
def provSystem : System ProvState ProvOp Unit where
  step state op := (provStep conf state op, ())

/-- Provisioning before the first request. -/
def glProvInit (active : Nat → Bool) (curChId : Nat) : ProvState where
  chs := { active := active, busy := fun _ => 0, needGc := fun _ => false, curChId := curChId }

/-! ## The loops of a request -/

variable {conf}

theorem nextCh_lt {count ch : Nat} (lt : ch < count) : nextCh count ch < count := by
  unfold nextCh
  split_ifs <;> omega

theorem nextCh_mod {count : Nat} (pos : 0 < count) (k : Nat) :
    nextCh count (k % count) = (k + 1) % count := by
  have place : k % count < count := Nat.mod_lt k pos
  unfold nextCh
  by_cases last : k % count + 1 = count
  · rw [(turn_wrap pos last).1, if_pos (by omega)]
  · rw [(turn_next (Nat.lt_of_le_of_ne place last)).1, if_neg (by omega)]

/-- The distribution when `k` pages have been given out. -/
theorem distribute_from {nactCh : Nat} (pos : 0 < nactCh) (left k : Nat) {pgsCh : Nat → Nat}
    (before : ∀ j < nactCh, pgsCh j = turnShare nactCh k j % 2 ^ 16) :
    ∀ j < nactCh, distribute nactCh left (k % nactCh) pgsCh j =
      turnShare nactCh (k + left) j % 2 ^ 16 := by
  induction left generalizing k pgsCh with
  | zero => exact before
  | succ left ih =>
      rw [distribute, nextCh_mod pos, ← Nat.add_assoc, Nat.add_right_comm]
      apply ih (k + 1)
      intro j lt
      rw [turnShare_succ pos k lt]
      by_cases same : j = k % nactCh
      · rw [if_pos same, same, Function.update_self, before _ (Nat.mod_lt k pos), Nat.mod_add_mod]
      · rw [if_neg same, Function.update_of_ne same, before j lt, Nat.add_zero]

/-- The pages are given out in turn, as far as 16 bits hold them. -/
theorem distribute_eq {nactCh pgs : Nat} (bound : pgs ≤ (2 ^ 16 - 1) * nactCh) {j : Nat}
    (lt : j < nactCh) : distribute nactCh pgs 0 (fun _ => 0) j = turnShare nactCh pgs j := by
  have pos : 0 < nactCh := Nat.zero_lt_of_lt lt
  have none : ∀ j < nactCh, (fun _ => 0) j = turnShare nactCh 0 j % 2 ^ 16 := by
    intro j _
    rw [turnShare_zero]
    rfl
  have all := distribute_from pos pgs 0 none j lt
  rw [Nat.zero_mod, Nat.zero_add] at all
  rw [all]
  apply Nat.mod_eq_of_lt
  exact Nat.lt_of_le_of_lt (turnShare_le bound j) (by decide)

/-- The ordered list holds sectors of the channels only. -/
theorem exists_of_mem_reorder {rounds ch : Nat} {tmpPpa : Nat → List Ppa} {ppa : Ppa}
    (lt : ch < conf.appNch) (mem : ppa ∈ reorder conf rounds ch tmpPpa) :
    ∃ c < conf.appNch, ppa ∈ tmpPpa c := by
  induction rounds generalizing ch tmpPpa with
  | zero => cases mem
  | succ rounds ih =>
      rw [reorder] at mem
      cases ppas : tmpPpa ch with
      | nil =>
          rw [ppas] at mem
          exact ih (nextCh_lt lt) mem
      | cons first rest =>
          rw [ppas] at mem
          rcases List.mem_append.mp mem with here | later
          · refine ⟨ch, lt, ?_⟩
            rw [ppas]
            exact List.mem_of_mem_take here
          · obtain ⟨c, ltC, memC⟩ := ih (nextCh_lt lt) later
            refine ⟨c, ltC, ?_⟩
            by_cases same : c = ch
            · rw [same, Function.update_self] at memC
              rw [same, ppas]
              exact List.mem_of_mem_drop memC
            · rwa [Function.update_of_ne same] at memC

/-- Steps from a channel to another one in the ring. -/
def ringDistance (count ch target : Nat) : Nat :=
  if ch ≤ target then target - ch else target + count - ch

theorem ringDistance_lt {count ch target : Nat} (lt : ch < count) (ltTarget : target < count) :
    ringDistance count ch target < count := by
  unfold ringDistance
  split_ifs <;> omega

theorem ringDistance_next {count ch target : Nat} (lt : ch < count) (ltTarget : target < count)
    (ne : ch ≠ target) :
    ringDistance count (nextCh count ch) target + 1 = ringDistance count ch target := by
  unfold ringDistance nextCh
  split_ifs <;> omega

/-- The sectors of a channel are all in the ordered list when the rounds suffice. -/
theorem mem_reorder_of_rounds {rounds ch target : Nat} {tmpPpa : Nat → List Ppa} {ppa : Ppa}
    (lt : ch < conf.appNch) (ltTarget : target < conf.appNch)
    (enough : ringDistance conf.appNch ch target + conf.appNch * ((tmpPpa target).length - 1) <
      rounds) (mem : ppa ∈ tmpPpa target) : ppa ∈ reorder conf rounds ch tmpPpa := by
  induction rounds generalizing ch tmpPpa with
  | zero => exact absurd enough (Nat.not_lt_zero _)
  | succ rounds ih =>
      rw [reorder]
      by_cases here : ch = target
      · cases ppas : tmpPpa ch with
        | nil =>
            rw [here] at ppas
            rw [ppas] at mem
            cases mem
        | cons first rest =>
            rw [← here, ppas] at mem
            have split := (List.take_append_drop conf.secPerPlPg (first :: rest)).symm
            rw [split] at mem
            rcases List.mem_append.mp mem with taken | left
            · exact List.mem_append_left _ taken
            · apply List.mem_append_right
              apply ih (nextCh_lt lt)
              · rw [← here, Function.update_self]
                rw [← here, ppas] at enough
                have near := ringDistance_lt (nextCh_lt lt) lt
                have some := List.length_pos_of_mem left
                have fewer : ((first :: rest).drop conf.secPerPlPg).length ≤
                    (first :: rest).length - 1 := by
                  rw [List.length_drop]
                  exact Nat.sub_le_sub_left conf.pos _
                have later := Nat.mul_le_mul_left conf.appNch fewer
                have one := Nat.mul_sub_one conf.appNch
                  ((first :: rest).drop conf.secPerPlPg).length
                have whole := Nat.le_mul_of_pos_right conf.appNch some
                omega
              · rwa [← here, Function.update_self]
      · have closer := ringDistance_next lt ltTarget here
        cases ppas : tmpPpa ch with
        | nil => exact ih (nextCh_lt lt) (by omega) mem
        | cons first rest =>
            apply List.mem_append_right
            have kept : Function.update tmpPpa ch ((first :: rest).drop conf.secPerPlPg) target =
                tmpPpa target := Function.update_of_ne (Ne.symm here) ..
            apply ih (nextCh_lt lt)
            · rw [kept]
              omega
            · rwa [kept]

/-- Exactly the sectors of the channels are in the list. -/
theorem mem_provPpas {vars : GetVars} (lt : vars.cc < conf.appNch) {ppa : Ppa} :
    ppa ∈ (vars.provPpas conf).ppa ↔ ∃ ch < conf.appNch, ppa ∈ vars.tmpPpa ch := by
  constructor
  · exact exists_of_mem_reorder lt
  · rintro ⟨ch, ltCh, mem⟩
    apply mem_reorder_of_rounds lt ltCh _ mem
    have near := ringDistance_lt lt ltCh
    have some := List.length_pos_of_mem mem
    have part : (vars.tmpPpa ch).length ≤ vars.tppas conf :=
      le_sum_of_getElem? (fun ch => (vars.tmpPpa ch).length) (List.getElem?_range ltCh)
    have all := Nat.mul_le_mul_left conf.appNch part
    have one := Nat.mul_sub_one conf.appNch (vars.tmpPpa ch).length
    have whole := Nat.le_mul_of_pos_right conf.appNch some
    omega

end OxCtrl.GlProv
