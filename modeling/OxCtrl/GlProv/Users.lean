import OxCtrl.GlProv.Core

/-!
# Users of the channels

While no call runs, the counter of a channel is the number of lists with sectors of the
channel.  The invariant adds what the calls in flight hold.
-/

namespace OxCtrl.GlProv

open OxCtrl.Lib

/-- The list has a sector of the channel. -/
def ProvPpas.uses (ch : Nat) (list : ProvPpas) : Bool :=
  list.ppa.any fun ppa => ppa.ch.val = ch

theorem uses_iff {list : ProvPpas} {ch : Nat} :
    list.uses ch ↔ ∃ ppa ∈ list.ppa, ppa.ch.val = ch := by
  simp [ProvPpas.uses]

/-- The counters are the numbers of users. -/
def Counted (conf : Conf) (state : ProvState) : Prop :=
  ∀ ch < conf.appNch, state.chs.busy ch = state.lists.countP (·.uses ch)

/-- A call is not about to go wrong.  A request has at most as many pages as 16 bits hold for
each of its channels; no channel that supplied sectors of a list refused pages of the same
request later; and a channel whose list has none of its sectors has no user when the list
is freed. -/
def CallFair (conf : Conf) (chs : Channels) : Call → Prop
  | .get vars .redist => vars.pgs ≤ (2 ^ 16 - 1) * vars.nactCh
  | .get vars (.unused ch) =>
      ch < conf.appNch ∨ ∀ c < conf.appNch, vars.tmpPpa c ≠ [] → vars.prov c
  | .free list ch => ch < conf.appNch → list.ch ch → ¬ list.uses ch → chs.busy ch = 0
  | _ => True

/-- The call that takes a step is not about to go wrong. -/
def Fair (conf : Conf) (state : ProvState) : ProvOp → Prop
  | .step idx _ => ∀ call ∈ state.calls[idx]?, CallFair conf state.chs call
  | _ => True

instance (conf : Conf) (chs : Channels) (call : Call) : Decidable (CallFair conf chs call) := by
  cases call with
  | get vars pc => cases pc <;> unfold CallFair <;> infer_instance
  | free list ch =>
      unfold CallFair
      infer_instance

instance (conf : Conf) (state : ProvState) (op : ProvOp) : Decidable (Fair conf state op) := by
  cases op <;> unfold Fair <;> infer_instance

/-! ## What a call holds -/

/-- A request counts as a user of the channel. -/
def heldGet (vars : GetVars) (c : Nat) : GetPc → Bool
  | .recheck ch => vars.prov c || decide (c = ch)
  | .undo ch => vars.prov c || decide (c = ch)
  | .leave ch _ => vars.prov c && decide (c ≠ ch)
  | .unused ch => vars.prov c && (decide (ch ≤ c) || !vars.dec c)
  | .decCh ch => vars.prov c && decide (ch ≤ c)
  | _ => vars.prov c

/-- Users of the channel that a call stands for. -/
def held (c : Nat) : Call → Nat
  | .get vars pc => (heldGet vars c pc).toNat
  | .free list ch => (decide (ch ≤ c) && list.uses c).toNat

/-- Users of the channel behind a step. -/
def After.held (c : Nat) : After → Nat
  | .running call => GlProv.held c call
  | .ended => 0
  | .returned list => (list.uses c).toNat

/-! ## Calls in order -/

/-- The channels that a request counts on. -/
def GetVars.counted (conf : Conf) (vars : GetVars) : Finset Nat :=
  (Finset.range conf.appNch).filter fun ch => vars.prov ch

/-- The variables of a request. -/
structure VarsOk (conf : Conf) (vars : GetVars) : Prop where
  nactCh : vars.nactCh = (vars.counted conf).card
  range : ∀ ch, vars.prov ch → ch < conf.appNch
  pgs : vars.pgs < 2 ^ 32
  cc : vars.cc < conf.appNch
  counted : ∀ ch, vars.dec ch → vars.prov ch
  unused : ∀ ch, vars.dec ch → vars.tmpPpa ch = []
  given : ∀ ch, vars.prov ch → vars.dec ch = false → vars.tmpPpa ch ≠ []
  own : ∀ ch, ∀ ppa ∈ vars.tmpPpa ch, ppa.ch.val = ch

/-- What the pages that are left to ask for are. -/
def PagesLeft (vars : GetVars) (act left : Nat) : Prop :=
  left = 0 ∨ act < vars.nactCh ∧ left = ∑ j ∈ Finset.Ico act vars.nactCh, vars.pgsCh j

/-- A request has looked at the channels before a place. -/
def Collecting (vars : GetVars) (ch : Nat) : Prop :=
  ∀ c, (vars.prov c → c < ch) ∧ vars.tmpPpa c = []

/-- Where a request stands. -/
def PcOk (conf : Conf) (vars : GetVars) : GetPc → Prop
  | .collect ch => Collecting vars ch
  | .inc ch => ch < conf.appNch ∧ Collecting vars ch
  | .recheck ch => ch < conf.appNch ∧ Collecting vars ch
  | .undo ch => ch < conf.appNch ∧ Collecting vars ch
  | .visit ch act left => ch < conf.appNch ∧ left < 2 ^ 32 ∧ PagesLeft vars act left ∧
      ∀ j < vars.nactCh, vars.pgsCh j = turnShare vars.nactCh vars.pgs j
  | .refused ch left => vars.prov ch ∧ left < 2 ^ 32
  | .leave ch left => vars.prov ch ∧ left < 2 ^ 32
  | _ => True

/-- The list counts the channels that it has sectors of. -/
def ListOk (conf : Conf) (list : ProvPpas) : Prop :=
  ∀ ch, list.uses ch → ch < conf.appNch ∧ list.ch ch

/-- The invariant of a call. -/
def CallOk (conf : Conf) : Call → Prop
  | .get vars pc => VarsOk conf vars ∧ PcOk conf vars pc
  | .free list _ => ListOk conf list

/-! ## The counter behind a step -/

theorem busy_incThread (chs : Channels) (ch c : Nat) :
    (chs.incThread ch).busy c = chs.busy c + (decide (c = ch)).toNat := by
  by_cases same : c = ch
  · simp [Channels.incThread, same]
  · simp [Channels.incThread, same]

theorem busy_decThread (chs : Channels) (ch c : Nat) :
    (chs.decThread ch).busy c = chs.busy c - (decide (c = ch)).toNat := by
  unfold Channels.decThread
  by_cases same : c = ch
  · by_cases pos : 0 < chs.busy ch
    · simp [pos, same]
    · simp [same, Nat.eq_zero_of_not_pos pos]
  · by_cases pos : 0 < chs.busy ch
    · simp [pos, same]
    · simp [pos, same]

/-- A counter that a call gives back. -/
theorem busy_dec_balance {chs : Channels} {ch c before after : Nat}
    (given : before = after + (decide (c = ch)).toNat) (enough : before ≤ chs.busy c) :
    (chs.decThread ch).busy c + before = chs.busy c + after := by
  rw [busy_decThread]
  omega

variable {conf : Conf}

/-- A list is returned with the users that the request counted. -/
theorem uses_provPpas {vars : GetVars} (ok : VarsOk conf vars)
    (kept : ∀ c < conf.appNch, vars.tmpPpa c ≠ [] → vars.prov c) {c : Nat} (lt : c < conf.appNch) :
    (vars.provPpas conf).uses c = (vars.prov c && !vars.dec c) := by
  have some : (vars.provPpas conf).uses c ↔ vars.tmpPpa c ≠ [] := by
    rw [uses_iff]
    constructor
    · rintro ⟨ppa, mem, isCh⟩
      obtain ⟨ch, _, memCh⟩ := (mem_provPpas ok.cc).mp mem
      rw [← isCh, ok.own ch ppa memCh]
      exact List.ne_nil_of_mem memCh
    · intro ne
      obtain ⟨ppa, mem⟩ := List.exists_mem_of_ne_nil _ ne
      exact ⟨ppa, (mem_provPpas ok.cc).mpr ⟨c, lt, mem⟩, ok.own c ppa mem⟩
  apply Bool.eq_iff_iff.mpr
  rw [some, Bool.and_eq_true, Bool.not_eq_true']
  constructor
  · intro ne
    apply And.intro (kept c lt ne)
    apply Bool.eq_false_iff.mpr
    intro unused
    exact ne (ok.unused c unused)
  · rintro ⟨counted, used⟩
    exact ok.given c counted used

/-- A request without channels counts on none. -/
theorem prov_eq_false {vars : GetVars} (ok : VarsOk conf vars) (none : vars.nactCh = 0) (c : Nat) :
    vars.prov c = false := by
  apply Bool.eq_false_iff.mpr
  intro counted
  have empty := Finset.card_eq_zero.mp (ok.nactCh.symm.trans none)
  have mem : c ∈ vars.counted conf :=
    Finset.mem_filter.mpr ⟨Finset.mem_range.mpr (ok.range c counted), counted⟩
  rw [empty] at mem
  cases mem

/-- A request with one channel counts on no other one. -/
theorem prov_only {vars : GetVars} (ok : VarsOk conf vars) (one : ¬ 0 < vars.nactCh - 1)
    {ch c : Nat} (first : vars.prov ch) (second : vars.prov c) : c = ch := by
  have memFirst : ch ∈ vars.counted conf :=
    Finset.mem_filter.mpr ⟨Finset.mem_range.mpr (ok.range ch first), first⟩
  have memSecond : c ∈ vars.counted conf :=
    Finset.mem_filter.mpr ⟨Finset.mem_range.mpr (ok.range c second), second⟩
  have card := ok.nactCh
  exact Finset.card_le_one.mp (by omega) c memSecond ch memFirst

/-- A request that collects channels does not count on the one it looks at. -/
theorem prov_or_toNat {vars : GetVars} {ch : Nat} (collecting : Collecting vars ch) (c : Nat) :
    (vars.prov c || decide (c = ch)).toNat = (vars.prov c).toNat + (decide (c = ch)).toNat := by
  by_cases same : c = ch
  · have none : vars.prov c = false := by
      apply Bool.eq_false_iff.mpr
      intro counted
      exact Nat.lt_irrefl _ (same ▸ (collecting c).1 counted)
    simp [same ▸ none, same]
  · simp [same]

theorem getStep_balance {chs : Channels} {vars : GetVars} {pc : GetPc} (ok : VarsOk conf vars)
    (pcOk : PcOk conf vars pc) (fair : CallFair conf chs (.get vars pc)) (answer : Answer) {c : Nat}
    (lt : c < conf.appNch) (enough : held c (.get vars pc) ≤ chs.busy c) :
    (getStep conf chs vars answer pc).1.busy c + held c (.get vars pc) =
      chs.busy c + (getStep conf chs vars answer pc).2.held c := by
  cases pc with
  | collect ch =>
      rw [getStep]
      split_ifs with inside active none
      · rfl
      · rfl
      · simp [held, heldGet, After.held, prov_eq_false ok none c]
      · rfl
  | inc ch =>
      have both := prov_or_toNat pcOk.2 c
      rw [getStep, busy_incThread]
      change _ + (vars.prov c).toNat = _ + (vars.prov c || decide (c = ch)).toNat
      omega
  | recheck ch =>
      rw [getStep]
      split_ifs with active
      · by_cases same : c = ch
        · simp [held, heldGet, After.held, same]
        · simp [held, heldGet, After.held, same]
      · rfl
  | undo ch =>
      rw [getStep]
      exact busy_dec_balance (prov_or_toNat pcOk.2 c) enough
  | redist => rfl
  | visit ch act left =>
      simp only [getStep]
      split_ifs with done counted
      · rfl
      · cases answer with
        | ok => rfl
        | fail => rfl
        | ppas list =>
            simp only
            split_ifs <;> rfl
      · rfl
  | refused ch left =>
      rw [getStep]
      apply busy_dec_balance _ enough
      by_cases same : c = ch
      · simp [held, heldGet, After.held, same, pcOk.1]
      · simp [held, heldGet, After.held, same]
  | leave ch left =>
      rw [getStep]
      change chs.busy c + (vars.prov c && decide (c ≠ ch)).toNat = chs.busy c + _
      split_ifs with more
      · by_cases same : c = ch
        · simp [held, heldGet, After.held, same]
        · simp [held, heldGet, After.held, same]
      · have none : (vars.prov c && decide (c ≠ ch)) = false := by
          apply Bool.eq_false_iff.mpr
          intro both
          rw [Bool.and_eq_true, decide_eq_true_iff] at both
          exact both.2 (prov_only ok more pcOk.1 both.1)
        rw [none]
        rfl
  | gather =>
      cases answer <;> simp [getStep, held, heldGet, After.held]
  | unused ch =>
      rw [getStep]
      split_ifs with inside unused
      · apply busy_dec_balance _ enough
        by_cases same : c = ch
        · simp [held, heldGet, After.held, same, unused, ok.counted ch unused]
        · have later : ch ≤ c ↔ ch + 1 ≤ c := by omega
          simp [held, heldGet, After.held, same, later]
      · by_cases same : c = ch
        · simp [held, heldGet, After.held, same, unused]
        · have later : ch ≤ c ↔ ch + 1 ≤ c := by omega
          simp [held, heldGet, After.held, later]
      · have behind : ¬ ch ≤ c := by omega
        rcases fair with early | kept
        · exact absurd early inside
        · simp [held, heldGet, After.held, behind, uses_provPpas ok kept lt]
  | decCh ch =>
      rw [getStep]
      split_ifs with inside counted
      · apply busy_dec_balance _ enough
        by_cases same : c = ch
        · simp [held, heldGet, After.held, same, counted]
        · have later : ch ≤ c ↔ ch + 1 ≤ c := by omega
          simp [held, heldGet, After.held, same, later]
      · by_cases same : c = ch
        · simp [held, heldGet, After.held, same, counted]
        · have later : ch ≤ c ↔ ch + 1 ≤ c := by omega
          simp [held, heldGet, After.held, later]
      · have behind : ¬ ch ≤ c := by omega
        simp [held, heldGet, After.held, behind]

/-- The free of a list: a counter that the list does not use is zero. -/
theorem freeStep_balance {chs : Channels} {list : ProvPpas} {ch : Nat} (ok : ListOk conf list)
    (fair : CallFair conf chs (.free list ch)) {c : Nat} (lt : c < conf.appNch)
    (enough : held c (.free list ch) ≤ chs.busy c) :
    (freeStep conf chs list ch).1.busy c + held c (.free list ch) =
      chs.busy c + (freeStep conf chs list ch).2.held c := by
  rw [freeStep]
  split_ifs with inside counted
  · by_cases same : c = ch
    · by_cases uses : list.uses ch
      · apply busy_dec_balance _ enough
        simp [held, After.held, same, uses]
      · have zero := fair inside counted uses
        rw [busy_decThread, same, zero]
        simp [held, After.held, uses]
    · apply busy_dec_balance _ enough
      have later : ch ≤ c ↔ ch + 1 ≤ c := by omega
      simp [held, After.held, same, later]
  · by_cases same : c = ch
    · have unused : list.uses ch = false := by
        apply Bool.eq_false_iff.mpr
        intro uses
        exact counted (ok ch uses).2
      simp [held, After.held, same, unused]
    · have later : ch ≤ c ↔ ch + 1 ≤ c := by omega
      simp [held, After.held, later]
  · have behind : ¬ ch ≤ c := by omega
    simp [held, After.held, behind]

/-! ## Calls stay in order -/

/-- What is left of a call is in order. -/
def AfterOk (conf : Conf) : After → Prop
  | .running call => CallOk conf call
  | .ended => True
  | .returned list => ListOk conf list

/-- A request counts on one more channel. -/
theorem VarsOk.count {vars : GetVars} (ok : VarsOk conf vars) {ch : Nat} (lt : ch < conf.appNch)
    (new : vars.prov ch = false) (none : vars.tmpPpa ch = []) :
    VarsOk conf { vars with
      prov := Function.update vars.prov ch true
      dec := Function.update vars.dec ch true
      nactCh := vars.nactCh + 1 } := by
  constructor
  · have more : GetVars.counted conf { vars with
        prov := Function.update vars.prov ch true
        dec := Function.update vars.dec ch true
        nactCh := vars.nactCh + 1 } = insert ch (vars.counted conf) := by
      ext c
      by_cases same : c = ch
      · simp [GetVars.counted, same, lt]
      · simp [GetVars.counted, same]
    have notMem : ch ∉ vars.counted conf := by simp [GetVars.counted, new]
    rw [more, Finset.card_insert_of_notMem notMem, ← ok.nactCh]
  · intro c counted
    by_cases same : c = ch
    · rw [same]
      exact lt
    · exact ok.range c (by simpa [same] using counted)
  · exact ok.pgs
  · exact ok.cc
  · intro c dec
    by_cases same : c = ch
    · simp [same]
    · simpa [same] using ok.counted c (by simpa [same] using dec)
  · intro c dec
    by_cases same : c = ch
    · rw [same]
      exact none
    · exact ok.unused c (by simpa [same] using dec)
  · intro c counted used
    by_cases same : c = ch
    · simp [same] at used
    · exact ok.given c (by simpa [same] using counted) (by simpa [same] using used)
  · exact ok.own

/-- A request drops a channel. -/
theorem VarsOk.drop {vars : GetVars} (ok : VarsOk conf vars) {ch left : Nat}
    (counted : vars.prov ch) (lt : left < 2 ^ 32) :
    VarsOk conf { vars with
      prov := Function.update vars.prov ch false
      dec := Function.update vars.dec ch false
      nactCh := vars.nactCh - 1
      pgs := left } := by
  constructor
  · have fewer : GetVars.counted conf { vars with
        prov := Function.update vars.prov ch false
        dec := Function.update vars.dec ch false
        nactCh := vars.nactCh - 1
        pgs := left } = (vars.counted conf).erase ch := by
      ext c
      by_cases same : c = ch
      · simp [GetVars.counted, same]
      · simp [GetVars.counted, same]
    have mem : ch ∈ vars.counted conf := by simp [GetVars.counted, counted, ok.range ch counted]
    rw [fewer, Finset.card_erase_of_mem mem, ← ok.nactCh]
  · intro c still
    by_cases same : c = ch
    · simp [same] at still
    · exact ok.range c (by simpa [same] using still)
  · exact lt
  · exact ok.cc
  · intro c dec
    by_cases same : c = ch
    · simp [same] at dec
    · simpa [same] using ok.counted c (by simpa [same] using dec)
  · intro c dec
    by_cases same : c = ch
    · simp [same] at dec
    · exact ok.unused c (by simpa [same] using dec)
  · intro c still used
    by_cases same : c = ch
    · simp [same] at still
    · exact ok.given c (by simpa [same] using still) (by simpa [same] using used)
  · exact ok.own

/-- A channel supplies sectors. -/
theorem VarsOk.supply {vars : GetVars} (ok : VarsOk conf vars) {ch : Nat} {list : List Ppa}
    (some : list ≠ []) (own : ∀ ppa ∈ list, ppa.ch.val = ch) :
    VarsOk conf { vars with
      tmpPpa := Function.update vars.tmpPpa ch (vars.tmpPpa ch ++ list)
      dec := Function.update vars.dec ch false } := by
  constructor
  · exact ok.nactCh
  · exact ok.range
  · exact ok.pgs
  · exact ok.cc
  · intro c dec
    by_cases same : c = ch
    · simp [same] at dec
    · exact ok.counted c (by simpa [same] using dec)
  · intro c dec
    by_cases same : c = ch
    · simp [same] at dec
    · simpa [same] using ok.unused c (by simpa [same] using dec)
  · intro c counted used
    by_cases same : c = ch
    · simp [same, some]
    · simpa [same] using ok.given c counted (by simpa [same] using used)
  · intro c ppa mem
    change ppa ∈ Function.update vars.tmpPpa ch (vars.tmpPpa ch ++ list) c at mem
    by_cases same : c = ch
    · rw [same, Function.update_self] at mem
      rw [same]
      rcases List.mem_append.mp mem with mem | mem
      · exact ok.own ch ppa mem
      · exact own ppa mem
    · rw [Function.update_of_ne same] at mem
      exact ok.own c ppa mem

/-- The pages are distributed. -/
theorem pagesLeft_redist {vars : GetVars} (bound : vars.pgs ≤ (2 ^ 16 - 1) * vars.nactCh)
    (cc : Nat) :
    PagesLeft { vars with cc := cc, pgsCh := distribute vars.nactCh vars.pgs 0 fun _ => 0 } 0
      vars.pgs := by
  rcases Nat.eq_zero_or_pos vars.nactCh with none | pos
  · rw [none] at bound
    exact Or.inl (Nat.le_zero.mp bound)
  · apply Or.inr
    apply And.intro pos
    rw [Nat.Ico_zero_eq_range]
    calc vars.pgs = ∑ j ∈ Finset.range vars.nactCh, turnShare vars.nactCh vars.pgs j :=
          (sum_turnShare pos vars.pgs).symm
      _ = ∑ j ∈ Finset.range vars.nactCh, distribute vars.nactCh vars.pgs 0 (fun _ => 0) j := by
          apply Finset.sum_congr rfl
          intro j mem
          exact (distribute_eq bound (Finset.mem_range.mp mem)).symm

/-- While pages are left, the next channel is asked for some. -/
theorem PagesLeft.share_pos {vars : GetVars} {act left : Nat} (pages : PagesLeft vars act left)
    (shares : ∀ j < vars.nactCh, vars.pgsCh j = turnShare vars.nactCh vars.pgs j)
    (more : left ≠ 0) : act < vars.nactCh ∧ 0 < vars.pgsCh act := by
  rcases pages with none | ⟨lt, sum⟩
  · exact absurd none more
  · apply And.intro lt
    apply Nat.pos_of_ne_zero
    intro zero
    apply more
    rw [sum]
    apply Finset.sum_eq_zero
    intro j mem
    have range := Finset.mem_Ico.mp mem
    rw [shares act lt] at zero
    rw [shares j range.2]
    exact Nat.le_zero.mp (zero ▸ turnShare_antitone _ _ range.1)

/-- The pages behind a channel that supplied its part. -/
theorem PagesLeft.next {vars : GetVars} {act left : Nat} (pages : PagesLeft vars act left)
    (small : left < 2 ^ 32) (more : left ≠ 0) :
    PagesLeft vars (nextCh vars.nactCh act) ((left + 2 ^ 32 - vars.pgsCh act) % 2 ^ 32) := by
  rcases pages with none | ⟨lt, sum⟩
  · exact absurd none more
  · rw [Finset.sum_eq_sum_Ico_succ_bot lt] at sum
    have rest : (left + 2 ^ 32 - vars.pgsCh act) % 2 ^ 32 =
        ∑ j ∈ Finset.Ico (act + 1) vars.nactCh, vars.pgsCh j := by omega
    rw [rest]
    by_cases last : act + 1 = vars.nactCh
    · apply Or.inl
      rw [last, Finset.Ico_self, Finset.sum_empty]
    · have notLast : act ≠ vars.nactCh - 1 := by omega
      rw [nextCh, if_neg notLast]
      exact Or.inr ⟨Nat.lt_of_le_of_ne lt last, rfl⟩

theorem Collecting.next {vars : GetVars} {ch : Nat} (collecting : Collecting vars ch) :
    Collecting vars (ch + 1) := by
  intro c
  exact ⟨fun counted => Nat.lt_succ_of_lt ((collecting c).1 counted), (collecting c).2⟩

theorem getStep_ok {chs : Channels} {vars : GetVars} {pc : GetPc} (cur : chs.curChId < conf.appNch)
    (ok : VarsOk conf vars) (pcOk : PcOk conf vars pc) (fair : CallFair conf chs (.get vars pc))
    (answer : Answer) : AfterOk conf (getStep conf chs vars answer pc).2 := by
  cases pc with
  | collect ch =>
      rw [getStep]
      split_ifs with inside active none
      · exact ⟨ok, inside, pcOk⟩
      · exact ⟨ok, Collecting.next pcOk⟩
      · trivial
      · exact ⟨ok, trivial⟩
  | inc ch => exact ⟨ok, pcOk⟩
  | recheck ch =>
      rw [getStep]
      split_ifs with active
      · have new : vars.prov ch = false := by
          apply Bool.eq_false_iff.mpr
          intro counted
          exact Nat.lt_irrefl _ ((pcOk.2 ch).1 counted)
        apply And.intro (ok.count pcOk.1 new (pcOk.2 ch).2)
        intro c
        apply And.intro _ (pcOk.2 c).2
        intro counted
        by_cases same : c = ch
        · rw [same]
          exact Nat.lt_succ_self ch
        · exact (pcOk.2.next c).1 (by simpa [same] using counted)
      · exact ⟨ok, pcOk⟩
  | undo ch => exact ⟨ok, pcOk.2.next⟩
  | redist =>
      have vars' : VarsOk conf { vars with
          cc := chs.curChId, pgsCh := distribute vars.nactCh vars.pgs 0 fun _ => 0 } :=
        ⟨ok.nactCh, ok.range, ok.pgs, cur, ok.counted, ok.unused, ok.given, ok.own⟩
      exact ⟨vars', cur, ok.pgs, pagesLeft_redist fair chs.curChId,
        fun j lt => distribute_eq fair lt⟩
  | visit ch act left =>
      rcases pcOk with ⟨lt, small, pages, shares⟩
      simp only [getStep]
      split_ifs with done counted
      · exact ⟨ok, trivial⟩
      · cases answer with
        | ok => exact ⟨ok, lt, small, pages, shares⟩
        | fail => exact ⟨ok, counted, small⟩
        | ppas list =>
            simp only
            split_ifs with supplied
            · have asked := (pages.share_pos shares done).2
              have some : list ≠ [] := by
                apply List.ne_nil_of_length_pos
                rw [supplied.1]
                exact Nat.mul_pos conf.pos asked
              exact ⟨ok.supply some supplied.2, nextCh_lt lt, Nat.mod_lt _ (by decide),
                pages.next small done, shares⟩
            · exact ⟨ok, lt, small, pages, shares⟩
      · exact ⟨ok, nextCh_lt lt, small, pages, shares⟩
  | refused ch left => exact ⟨ok, pcOk⟩
  | leave ch left =>
      rw [getStep]
      simp only
      split_ifs
      · exact ⟨ok.drop pcOk.1 pcOk.2, trivial⟩
      · trivial
  | gather => cases answer <;> exact ⟨ok, trivial⟩
  | unused ch =>
      rw [getStep]
      by_cases inside : ch < conf.appNch
      · rw [if_pos inside]
        exact ⟨ok, trivial⟩
      · rw [if_neg inside]
        intro c uses
        obtain ⟨ppa, mem, isCh⟩ := uses_iff.mp uses
        obtain ⟨c', lt, memTmp⟩ := (mem_provPpas ok.cc).mp mem
        obtain rfl : c' = c := (ok.own c' ppa memTmp).symm.trans isCh
        rcases fair with early | kept
        · exact absurd early inside
        · exact ⟨lt, kept c' lt (List.ne_nil_of_mem memTmp)⟩
  | decCh ch =>
      rw [getStep]
      by_cases inside : ch < conf.appNch
      · rw [if_pos inside]
        exact ⟨ok, trivial⟩
      · rw [if_neg inside]
        trivial

@[simp]
theorem curChId_decThread (chs : Channels) (ch : Nat) :
    (chs.decThread ch).curChId = chs.curChId := by
  unfold Channels.decThread
  split_ifs <;> rfl

/-- `cur_ch_id` names a channel. -/
theorem curChId_getStep {chs : Channels} (cur : chs.curChId < conf.appNch) (vars : GetVars)
    (answer : Answer) (pc : GetPc) :
    (getStep conf chs vars answer pc).1.curChId < conf.appNch := by
  cases pc with
  | redist =>
      have part : vars.pgs % conf.appNch < conf.appNch := Nat.mod_lt _ (Nat.zero_lt_of_lt cur)
      simp only [getStep]
      split_ifs <;> omega
  | visit ch act left =>
      simp only [getStep]
      split_ifs
      · exact cur
      · cases answer with
        | ok => exact cur
        | fail => exact cur
        | ppas list =>
            simp only
            split_ifs <;> exact cur
      · exact cur
  | gather => cases answer <;> exact cur
  | collect ch =>
      rw [getStep]
      split_ifs <;> exact cur
  | recheck ch =>
      rw [getStep]
      split_ifs <;> exact cur
  | unused ch =>
      rw [getStep]
      split_ifs <;> simpa using cur
  | decCh ch =>
      rw [getStep]
      split_ifs <;> simpa using cur
  | _ => simpa [getStep, Channels.incThread, Channels.needGcSet, Channels.setActive] using cur

/-! ## Runs -/

/-- Users of a channel: lists and calls in flight. -/
def users (state : ProvState) (ch : Nat) : Nat :=
  state.lists.countP (·.uses ch) + (state.calls.map (held ch)).sum

/-- The invariant of the users. -/
structure Inv (conf : Conf) (state : ProvState) : Prop where
  cur : state.chs.curChId < conf.appNch
  busy : ∀ ch < conf.appNch, state.chs.busy ch = users state ch
  calls : ∀ call ∈ state.calls, CallOk conf call
  lists : ∀ list ∈ state.lists, ListOk conf list

/-- One step of a call, seen from the counters. -/
theorem callStep_ok {chs : Channels} {call : Call} (cur : chs.curChId < conf.appNch)
    (ok : CallOk conf call) (fair : CallFair conf chs call) (answer : Answer) :
    (callStep conf chs answer call).1.curChId < conf.appNch ∧
      AfterOk conf (callStep conf chs answer call).2 ∧
      ∀ c < conf.appNch, held c call ≤ chs.busy c →
        (callStep conf chs answer call).1.busy c + held c call =
          chs.busy c + (callStep conf chs answer call).2.held c := by
  cases call with
  | get vars pc =>
      exact ⟨curChId_getStep cur vars answer pc, getStep_ok cur ok.1 ok.2 fair answer,
        fun c lt enough => getStep_balance ok.1 ok.2 fair answer lt enough⟩
  | free list ch =>
      refine ⟨?_, ?_, fun c lt enough => freeStep_balance ok fair lt enough⟩
      · simp only [callStep, freeStep]
        split_ifs <;> simpa using cur
      · simp only [callStep, freeStep]
        split_ifs
        · exact ok
        · exact ok
        · trivial

theorem After.sum_held (c : Nat) (after : After) :
    (after.calls.map (GlProv.held c)).sum + after.lists.countP (·.uses c) = after.held c := by
  cases after with
  | running call => simp [After.calls, After.lists, After.held]
  | ended => rfl
  | returned list =>
      cases uses : list.uses c <;> simp [After.calls, After.lists, After.held, uses]

theorem Inv.step {state : ProvState} (inv : Inv conf state) {idx : Nat} {call : Call}
    (get : state.calls[idx]? = some call) (fair : CallFair conf state.chs call) (answer : Answer) :
    Inv conf {
      chs := (callStep conf state.chs answer call).1
      calls := replaceAt state.calls idx (callStep conf state.chs answer call).2.calls
      lists := state.lists ++ (callStep conf state.chs answer call).2.lists } := by
  have mem : call ∈ state.calls := List.mem_of_getElem? get
  obtain ⟨cur, after, balance⟩ := callStep_ok inv.cur (inv.calls call mem) fair answer
  constructor
  · exact cur
  · intro c lt
    have part := le_sum_of_getElem? (held c) get
    have sum := sum_replaceAt (held c) get (callStep conf state.chs answer call).2.calls
    have total := After.sum_held c (callStep conf state.chs answer call).2
    have before := inv.busy c lt
    rw [users] at before
    have moved := balance c lt (by omega)
    change (callStep conf state.chs answer call).1.busy c =
      (state.lists ++ _).countP _ + ((replaceAt state.calls idx _).map (held c)).sum
    rw [List.countP_append]
    omega
  · intro other memOther
    rcases mem_replaceAt memOther with old | new
    · exact inv.calls other old
    · revert after new
      cases (callStep conf state.chs answer call).2 with
      | running next =>
          intro ok new
          rw [List.mem_singleton.mp new]
          exact ok
      | ended =>
          intro _ new
          cases new
      | returned list =>
          intro _ new
          cases new
  · intro list memList
    rcases List.mem_append.mp memList with old | new
    · exact inv.lists list old
    · revert after new
      cases (callStep conf state.chs answer call).2 with
      | running next =>
          intro _ new
          cases new
      | ended =>
          intro _ new
          cases new
      | returned returned =>
          intro ok new
          rw [List.mem_singleton.mp new]
          exact ok

/-- A request starts. -/
theorem Inv.get {state : ProvState} (inv : Inv conf state) (pgs : Nat) :
    Inv conf (provStep conf state (.get pgs)) := by
  have none : ∀ c, held c (.get { pgs := pgs % 2 ^ 32 } (.collect 0)) = 0 := fun _ => rfl
  constructor
  · exact inv.cur
  · intro c lt
    change state.chs.busy c = state.lists.countP _ + ((state.calls ++ [_]).map (held c)).sum
    rw [inv.busy c lt, users, List.map_append, List.sum_append, List.map_singleton, none]
    rfl
  · intro call mem
    rcases List.mem_append.mp mem with old | new
    · exact inv.calls call old
    · rw [List.mem_singleton.mp new]
      have vars : VarsOk conf { pgs := pgs % 2 ^ 32 } := by
        constructor
        · simp [GetVars.counted]
        · simp
        · exact Nat.mod_lt _ (by decide)
        · exact Nat.zero_lt_of_lt inv.cur
        · simp
        · simp
        · simp
        · simp
      exact ⟨vars, fun c => ⟨by simp, rfl⟩⟩
  · exact inv.lists

/-- A list goes back. -/
theorem Inv.free {state : ProvState} (inv : Inv conf state) (idx : Nat) :
    Inv conf (provStep conf state (.free idx)) := by
  rw [provStep]
  cases get : state.lists[idx]? with
  | none => exact inv
  | some list =>
      have mem : list ∈ state.lists := List.mem_of_getElem? get
      constructor
      · exact inv.cur
      · intro c lt
        have sum := sum_replaceAt (fun list : ProvPpas => (list.uses c).toNat) get []
        have before := inv.busy c lt
        rw [users, countP_eq_sum] at before
        change state.chs.busy c = (replaceAt state.lists idx []).countP _ +
          ((state.calls ++ [Call.free list 0]).map (held c)).sum
        rw [countP_eq_sum, List.map_append, List.sum_append]
        simp [held] at sum ⊢
        omega
      · intro call memCall
        rcases List.mem_append.mp memCall with old | new
        · exact inv.calls call old
        · rw [List.mem_singleton.mp new]
          exact inv.lists list mem
      · intro other memOther
        rcases mem_replaceAt memOther with old | new
        · exact inv.lists other old
        · cases new

/-- Every fair step keeps the invariant. -/
theorem inv_provStep (state : ProvState) (op : ProvOp) (fair : Fair conf state op)
    (inv : Inv conf state) : Inv conf (provStep conf state op) := by
  cases op with
  | get pgs => exact inv.get pgs
  | free idx => exact inv.free idx
  | step idx answer =>
      rw [provStep]
      cases get : state.calls[idx]? with
      | none => exact inv
      | some call => exact inv.step get (fair call get) answer
  | active ch active => exact ⟨inv.cur, inv.busy, inv.calls, inv.lists⟩

/-- The counters in every run of fair steps: while no call runs, a counter is the number of
lists with sectors of the channel, and it is not zero while there is such a list. -/
theorem users_counted (active : Nat → Bool) {curChId : Nat} (cur : curChId < conf.appNch)
    (ops : List ProvOp)
    (fair : (provSystem conf).Allowed (Fair conf) (glProvInit active curChId) ops)
    (quiet : ((provSystem conf).run (glProvInit active curChId) ops).calls = []) :
    Counted conf ((provSystem conf).run (glProvInit active curChId) ops) ∧
      ∀ list ∈ ((provSystem conf).run (glProvInit active curChId) ops).lists,
        ∀ ppa ∈ list.ppa,
          0 < ((provSystem conf).run (glProvInit active curChId) ops).chs.busy ppa.ch := by
  have start : Inv conf (glProvInit active curChId) := by
    constructor
    · exact cur
    · intro ch _
      rfl
    · simp [glProvInit]
    · simp [glProvInit]
  have inv := (provSystem conf).run_invariant _ (Inv conf) inv_provStep start fair
  have counted : Counted conf ((provSystem conf).run (glProvInit active curChId) ops) := by
    intro ch lt
    rw [inv.busy ch lt, users, quiet]
    rfl
  apply And.intro counted
  intro list memList ppa memPpa
  have uses : list.uses ppa.ch := uses_iff.mpr ⟨ppa, memPpa, rfl⟩
  rw [counted ppa.ch (inv.lists list memList ppa.ch uses).1]
  exact List.countP_pos_iff.mpr ⟨list, memList, uses⟩

/-- Two channels with one sector in a page. -/
def twoChannels : Conf where
  appNch := 2
  secPerPlPg := 1
  pos := Nat.one_pos

/-- The answers of the memory and of channel provisioning to a request that counts on both
channels. -/
def requestSteps (given : List Ppa) : List ProvOp :=
  (List.replicate 8 (.step 0 .ok)) ++ given.map (fun ppa => .step 0 (.ppas [ppa])) ++
    List.replicate 5 (.step 0 .ok)

/-- Two requests for a page of each channel; the first list is freed. -/
def pairedRequests : List ProvOp :=
  [.get 2, .get 2] ++
    requestSteps [Ppa.sector 0 0 0 0 0 0, Ppa.sector 1 0 0 0 0 0] ++
    requestSteps [Ppa.sector 0 0 0 1 0 0, Ppa.sector 1 0 0 1 0 0] ++
    [.free 0, .step 0 .ok, .step 0 .ok, .step 0 .ok]

theorem users_counted_paired :
    Counted twoChannels ((provSystem twoChannels).run (glProvInit (fun _ => true) 0)
        pairedRequests) ∧
      ((provSystem twoChannels).run (glProvInit (fun _ => true) 0) pairedRequests).lists.map
        ProvPpas.ppa = [[Ppa.sector 0 0 0 1 0 0, Ppa.sector 1 0 0 1 0 0]] :=
  ⟨(users_counted (fun _ => true) (by decide) pairedRequests (by decide) (by decide)).1,
    by decide⟩

/-- A request for a page of each channel, then a request for one page that is freed. -/
def singlePage : List ProvOp :=
  [.get 2] ++ requestSteps [Ppa.sector 0 0 0 0 0 0, Ppa.sector 1 0 0 0 0 0] ++
    [.get 1] ++ requestSteps [Ppa.sector 0 0 0 1 0 0] ++
    [.free 1, .step 0 .ok, .step 0 .ok, .step 0 .ok]

/-- The second request gave channel 1 back twice: its counter is zero under the first list. -/
theorem users_counted_twice :
    ((provSystem twoChannels).run (glProvInit (fun _ => true) 0) singlePage).calls = [] ∧
      ((provSystem twoChannels).run (glProvInit (fun _ => true) 0) singlePage).lists.map
        ProvPpas.ppa = [[Ppa.sector 0 0 0 0 0 0, Ppa.sector 1 0 0 0 0 0]] ∧
      ((provSystem twoChannels).run (glProvInit (fun _ => true) 0) singlePage).chs.busy 1 = 0 ∧
      ¬ Counted twoChannels
        ((provSystem twoChannels).run (glProvInit (fun _ => true) 0) singlePage) := by
  apply And.intro (by decide)
  apply And.intro (by decide)
  apply And.intro (by decide)
  intro counted
  exact absurd (counted 1 (by decide)) (by decide)

end OxCtrl.GlProv
