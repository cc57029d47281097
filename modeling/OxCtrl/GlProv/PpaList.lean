import OxCtrl.ChProv.Handed
import OxCtrl.GlProv.Users

/-!
# The list of a request

One request of `gl_prov_get_ppa_list` over the provisioning of its channels.  Between two of its
steps the other users change the flags and the counters in any way and take any steps in the
channels; garbage collection puts no block of a channel while the request counts on it.
-/

namespace OxCtrl.GlProv

open OxCtrl.Lib
open ChProv (Page)

/-! ## Model -/

/-- The channels, of one geometry. -/
structure Device where
  appNch : Nat
  geo : Geometry
  env : Nat → ChProv.Env
  same : ∀ ch, (env ch).geo = geo
  nch_le : appNch ≤ 4096

/-- What `gl_prov_get_ppa_list` reads of the device. -/
def Device.conf (dev : Device) : Conf where
  appNch := dev.appNch
  secPerPlPg := dev.geo.secPerPlPg
  pos := dev.geo.secPerPlPg_pos

/-- Sectors of a page as `ch_prov_get_ppas` writes them, plane after plane. -/
def pageSectors (geo : Geometry) (ch : Nat) (page : Page) : List Ppa :=
  (List.range geo.nOfPlanes).flatMap fun pl =>
    (List.range geo.secPerPg).map fun sec =>
      Ppa.sector ch page.vblk.lun page.vblk.blk page.pg pl sec

/-- `get_ppas_fn`: the pages in the list when the call succeeds. -/
def getPpasFn (dev : Device) (ch pgs : Nat) (type : ChProv.LineType) (chan : ChProv.Chan) :
    ChProv.Chan × Option (List Page) :=
  let (chan', rc) := ChProv.chProvGetPpas (dev.env ch) pgs type chan
  (chan', if rc = 0 then some (chan'.pages.drop chan.pages.length) else none)

/-- The channel that a request asks in its next step, and the pages it asks for. -/
def asked (vars : GetVars) : GetPc → Option (Nat × Nat)
  | .visit ch act left =>
      if left ≠ 0 ∧ vars.prov ch then some (ch, vars.pgsCh act) else none
  | _ => none

/-- A request among the others.  `served` has the pages that successful calls of `get_ppas_fn`
gave to it, in this order, each with its channel. -/
structure ReqState where
  chs : Channels
  chans : Nat → ChProv.Chan
  after : After
  served : List (Nat × Page) := []

/-- The request counts on the channel. -/
def ReqState.counts (state : ReqState) (ch : Nat) : Bool :=
  match state.after with
  | .running (.get vars _) => vars.prov ch
  | _ => false

/-- What the others do in a channel.  Garbage collection waits for the users of a channel before
it puts a block. -/
def Permitted (dev : Device) (state : ReqState) (ch : Nat) : ChProv.Op → Prop
  | .put vblk => (ChProv.Op.put vblk).InRange (dev.env ch) ∧ state.counts ch = false
  | op => op.InRange (dev.env ch)

instance (dev : Device) (state : ReqState) (ch : Nat) (op : ChProv.Op) :
    Decidable (Permitted dev state ch op) := by
  cases op <;> unfold Permitted ChProv.Op.InRange <;> infer_instance

/-- Steps of the request, with memory for the list or without, and of the others. -/
inductive ReqOp where
  | own (memory : Bool)
  | flags (chs : Channels)
  | chan (ch : Nat) (op : ChProv.Op)

variable (dev : Device) (type : ChProv.LineType)

/-- One step of the request. -/
def ownStep (state : ReqState) (memory : Bool) (vars : GetVars) (pc : GetPc) : ReqState :=
  match asked vars pc with
  | none =>
      let (chs, after) := getStep dev.conf state.chs vars (if memory then .ok else .fail) pc
      { state with chs := chs, after := after }
  | some (ch, pgs) =>
      match getPpasFn dev ch pgs type (state.chans ch) with
      | (chan, some pages) =>
          let (chs, after) := getStep dev.conf state.chs vars
            (.ppas (pages.flatMap (pageSectors dev.geo ch))) pc
          { chs := chs
            chans := Function.update state.chans ch chan
            after := after
            served := state.served ++ pages.map (Prod.mk ch) }
      | (chan, none) =>
          let (chs, after) := getStep dev.conf state.chs vars .fail pc
          { state with chs := chs, chans := Function.update state.chans ch chan, after := after }

/-- One step. -/
def reqStep (state : ReqState) : ReqOp → ReqState
  | .own memory =>
      match state.after with
      | .running (.get vars pc) => ownStep dev type state memory vars pc
      | _ => state
  | .flags chs => if chs.curChId < dev.appNch then { state with chs := chs } else state
  | .chan ch op =>
      if Permitted dev state ch op then
        { state with
          chans := Function.update state.chans ch (ChProv.step (dev.env ch) (state.chans ch) op) }
      else state

/-- Runs of the request and the others. -/
def reqSystem : System ReqState ReqOp Unit where
  step state op := (reqStep dev type state op, ())

/-- A request for `pgs` pages begins. -/
def request (chs : Channels) (chans : Nat → ChProv.Chan) (pgs : Nat) : ReqState where
  chs := chs
  chans := chans
  after := .running (.get { pgs := pgs } (.collect 0))

/-- The channel was started, and operations were carried out. -/
def Reachable (env : ChProv.Env) (chan : ChProv.Chan) : Prop :=
  ∃ md first ops, ChProv.MdOk env (fun lun blk => env.bad lun blk = true) md ∧
    ChProv.chProvInit env md = some first ∧ (∀ op ∈ ops, ChProv.Op.InRange env op) ∧
      chan = (ChProv.chProv env).run first ops

/-! ## Pages of a channel -/

/-- Pages of one channel. -/
def given (pages : List (Nat × Page)) (ch : Nat) : List Page :=
  pages.filterMap fun page => if page.1 = ch then some page.2 else none

/-- The list of a request for `pgs` pages: whole pages, each of them once, and those of a channel in
the order in which successful calls gave them. -/
structure Complete (pgs : Nat) (served : List (Nat × Page)) (list : ProvPpas) : Prop where
  length : list.ppa.length = pgs * (dev.geo.secPerPg * dev.geo.nOfPlanes)
  distinct : list.ppa.Nodup
  pages : ∃ pages : List (Nat × Page),
    list.ppa = (pages.flatMap fun page => pageSectors dev.geo page.1 page.2) ∧
      ∀ ch, given pages ch = given served ch

variable {dev type} {pages : List (Nat × Page)}

theorem given_append (first second : List (Nat × Page)) (ch : Nat) :
    given (first ++ second) ch = given first ch ++ given second ch :=
  List.filterMap_append

theorem given_tagged (own : List Page) (ch other : Nat) :
    given (own.map (Prod.mk ch)) other = if other = ch then own else [] := by
  by_cases same : other = ch
  · simp [given, List.filterMap_map, same]
  · simp [given, List.filterMap_map, same, Ne.symm same]

theorem count_given (pages : List (Nat × Page)) (ch : Nat) (page : Page) :
    (given pages ch).count page = pages.count (ch, page) := by
  induction pages with
  | nil => rfl
  | cons first pages ih =>
      obtain ⟨firstCh, firstPage⟩ := first
      rw [given] at ih
      rw [given, List.filterMap_cons, List.count_cons, ← ih]
      by_cases same : firstCh = ch
      · subst same
        by_cases samePage : firstPage = page
        · simp [samePage]
        · simp [samePage]
      · simp [same]

/-- The pages of all channels are different when those of each channel are. -/
theorem nodup_of_given (nodup : ∀ ch, (given pages ch).Nodup) : pages.Nodup := by
  apply List.nodup_iff_count_le_one.mpr
  rintro ⟨ch, page⟩
  rw [← count_given]
  exact List.nodup_iff_count_le_one.mp (nodup ch) page

theorem length_of_given {served : List (Nat × Page)}
    (same : ∀ ch, given pages ch = given served ch) : pages.length = served.length := by
  apply List.Perm.length_eq
  apply List.perm_iff_count.mpr
  rintro ⟨ch, page⟩
  rw [← count_given, same, count_given]

theorem mem_given {ch : Nat} {page : Page} : page ∈ given pages ch ↔ (ch, page) ∈ pages := by
  simp [given]

/-! ## Sectors of a page -/

theorem length_pageSectors (geo : Geometry) (ch : Nat) (page : Page) :
    (pageSectors geo ch page).length = geo.secPerPlPg := by
  simp [pageSectors, Geometry.secPerPlPg, Nat.mul_comm]

theorem length_flatMap_sectors (geo : Geometry) (ch : Nat) (own : List Page) :
    (own.flatMap (pageSectors geo ch)).length = own.length * geo.secPerPlPg := by
  induction own with
  | nil => simp
  | cons page own ih =>
      rw [List.flatMap_cons, List.length_append, ih, length_pageSectors, List.length_cons,
        Nat.succ_mul, Nat.add_comm]

theorem flatMap_sectors_eq_nil {geo : Geometry} {ch : Nat} {own : List Page} :
    own.flatMap (pageSectors geo ch) = [] ↔ own = [] := by
  rw [← List.length_eq_zero_iff, length_flatMap_sectors, Nat.mul_eq_zero, List.length_eq_zero_iff]
  exact or_iff_left (Nat.ne_of_gt geo.secPerPlPg_pos)

theorem mem_pageSectors {geo : Geometry} {ch : Nat} {page : Page} {ppa : Ppa} :
    ppa ∈ pageSectors geo ch page ↔ ∃ pl < geo.nOfPlanes, ∃ sec < geo.secPerPg,
      Ppa.sector ch page.vblk.lun page.vblk.blk page.pg pl sec = ppa := by
  simp [pageSectors]

theorem ch_of_mem_pageSectors {geo : Geometry} {ch : Nat} {page : Page} {ppa : Ppa}
    (mem : ppa ∈ pageSectors geo ch page) : ppa.ch.val = ch % 4096 := by
  obtain ⟨pl, _, sec, _, rfl⟩ := mem_pageSectors.mp mem
  rfl

/-- The sectors of a page are different ones. -/
theorem nodup_pageSectors (geo : Geometry) (ch : Nat) (page : Page) :
    (pageSectors geo ch page).Nodup := by
  apply List.nodup_flatMap.mpr
  constructor
  · intro pl _
    apply List.Nodup.map_on _ List.nodup_range
    intro first firstMem second secondMem eq
    have val := congrArg (fun ppa : Ppa => ppa.sec.val) eq
    have firstLt := List.mem_range.mp firstMem
    have secondLt := List.mem_range.mp secondMem
    have le := geo.sec_le
    simp only [Ppa.sector, Fin.val_ofNat] at val
    omega
  · apply List.nodup_range.imp_of_mem
    intro first second firstMem secondMem differ ppa inFirst inSecond
    obtain ⟨_, _, rfl⟩ := List.mem_map.mp inFirst
    obtain ⟨_, _, eq⟩ := List.mem_map.mp inSecond
    have val := congrArg (fun ppa : Ppa => ppa.pl.val) eq
    have firstLt := List.mem_range.mp firstMem
    have secondLt := List.mem_range.mp secondMem
    have le := geo.pl_le
    simp only [Ppa.sector, Fin.val_ofNat] at val
    omega

/-- A sector of a page tells which page it is. -/
theorem page_of_sector {ch other : Nat} {page second : Page} {ppa : Ppa}
    (lt : ch < dev.appNch) (ltOther : other < dev.appNch)
    (inRange : page.InRange (dev.env ch)) (inRangeSecond : second.InRange (dev.env other))
    (mem : ppa ∈ pageSectors dev.geo ch page)
    (memSecond : ppa ∈ pageSectors dev.geo other second) : (ch, page) = (other, second) := by
  obtain ⟨pl, _, sec, _, rfl⟩ := mem_pageSectors.mp mem
  obtain ⟨_, _, _, _, eq⟩ := mem_pageSectors.mp memSecond
  have chEq := congrArg (fun ppa : Ppa => ppa.ch.val) eq
  have lunEq := congrArg (fun ppa : Ppa => ppa.lun.val) eq
  have blkEq := congrArg (fun ppa : Ppa => ppa.blk.val) eq
  have pgEq := congrArg (fun ppa : Ppa => ppa.pg.val) eq
  obtain ⟨lunLt, blkLt, pgLt⟩ := inRange
  obtain ⟨lunLtSecond, blkLtSecond, pgLtSecond⟩ := inRangeSecond
  rw [dev.same] at lunLt blkLt pgLt lunLtSecond blkLtSecond pgLtSecond
  have nchLe := dev.nch_le
  have lunLe := dev.geo.lun_le
  have blkLe := dev.geo.blk_le
  have pgLe := dev.geo.pg_le
  simp only [Ppa.sector, Fin.val_ofNat] at chEq lunEq blkEq pgEq
  obtain ⟨⟨lun, blk⟩, pg⟩ := page
  obtain ⟨⟨lunSecond, blkSecond⟩, pgSecond⟩ := second
  dsimp only at *
  obtain rfl : ch = other := by omega
  obtain rfl : lun = lunSecond := by omega
  obtain rfl : blk = blkSecond := by omega
  obtain rfl : pg = pgSecond := by omega
  rfl

/-- Different pages have different sectors. -/
theorem nodup_sectors (nodup : pages.Nodup) (lt : ∀ page ∈ pages, page.1 < dev.appNch)
    (inRange : ∀ page ∈ pages, page.2.InRange (dev.env page.1)) :
    (pages.flatMap fun page => pageSectors dev.geo page.1 page.2).Nodup := by
  apply List.nodup_flatMap.mpr
  constructor
  · intro page _
    exact nodup_pageSectors dev.geo page.1 page.2
  · apply nodup.imp_of_mem
    intro first second firstMem secondMem differ ppa inFirst inSecond
    exact differ (page_of_sector (lt first firstMem) (lt second secondMem) (inRange first firstMem)
      (inRange second secondMem) inFirst inSecond)

/-! ## The last loop -/

theorem reorder_nil {conf : Conf} {rounds ch : Nat} {tmpPpa : Nat → List Ppa}
    (none : tmpPpa ch = []) : reorder conf (rounds + 1) ch tmpPpa =
      reorder conf rounds (nextCh conf.appNch ch) tmpPpa := by
  rw [reorder, none]

theorem reorder_page {conf : Conf} {rounds ch : Nat} {tmpPpa : Nat → List Ppa}
    {page rest : List Ppa}
    (eq : tmpPpa ch = page ++ rest) (length : page.length = conf.secPerPlPg) :
    reorder conf (rounds + 1) ch tmpPpa =
      page ++ reorder conf rounds (nextCh conf.appNch ch) (Function.update tmpPpa ch rest) := by
  rw [reorder, eq]
  cases page with
  | nil => exact absurd length.symm (Nat.ne_of_gt conf.pos)
  | cons first page =>
      simp only [List.cons_append]
      rw [← List.cons_append, ← length, List.take_left, List.drop_left]
      rfl

/-- The last loop takes a whole page of a channel at a time, and with enough rounds all pages. -/
theorem reorder_pages (rounds : Nat) {ch : Nat} {tmpPpa : Nat → List Ppa} {own : Nat → List Page}
    (lt : ch < dev.appNch) (tmp : ∀ c, tmpPpa c = (own c).flatMap (pageSectors dev.geo c))
    (enough : ∀ c < dev.appNch, own c ≠ [] →
      ringDistance dev.appNch ch c + dev.appNch * ((own c).length - 1) < rounds) :
    ∃ pages : List (Nat × Page),
      reorder dev.conf rounds ch tmpPpa =
          (pages.flatMap fun page => pageSectors dev.geo page.1 page.2) ∧
        (∀ c < dev.appNch, given pages c = own c) ∧ ∀ page ∈ pages, page.1 < dev.appNch := by
  induction rounds generalizing ch tmpPpa own with
  | zero =>
      refine ⟨[], rfl, ?_, by simp⟩
      intro c ltC
      by_contra some
      exact Nat.not_lt_zero _ (enough c ltC (Ne.symm some))
  | succ rounds ih =>
      have next : nextCh dev.appNch ch < dev.appNch := nextCh_lt lt
      cases ownEq : own ch with
      | nil =>
          have none : tmpPpa ch = [] := by rw [tmp, ownEq, List.flatMap_nil]
          rw [reorder_nil none]
          apply ih next tmp
          intro c ltC some
          have differ : ch ≠ c := by
            rintro rfl
            exact some ownEq
          have closer := ringDistance_next lt ltC differ
          have before := enough c ltC some
          omega
      | cons page rest =>
          have split : tmpPpa ch = pageSectors dev.geo ch page ++
              rest.flatMap (pageSectors dev.geo ch) := by
            rw [tmp, ownEq, List.flatMap_cons]
          have tmp' : ∀ c, Function.update tmpPpa ch (rest.flatMap (pageSectors dev.geo ch)) c =
              (Function.update own ch rest c).flatMap (pageSectors dev.geo c) := by
            intro c
            by_cases same : c = ch
            · rw [same, Function.update_self, Function.update_self]
            · rw [Function.update_of_ne same, Function.update_of_ne same, tmp]
          have enough' : ∀ c < dev.appNch, Function.update own ch rest c ≠ [] →
              ringDistance dev.appNch (nextCh dev.appNch ch) c +
                dev.appNch * ((Function.update own ch rest c).length - 1) < rounds := by
            intro c ltC some
            by_cases same : c = ch
            · subst same
              rw [Function.update_self] at some ⊢
              have before := enough c ltC (by rw [ownEq]; exact List.cons_ne_nil _ _)
              have near := ringDistance_lt next ltC
              have pos := List.length_pos_of_ne_nil some
              have turn := Nat.mul_sub_one dev.appNch rest.length
              have whole := Nat.le_mul_of_pos_right dev.appNch pos
              rw [ownEq, List.length_cons, Nat.add_sub_cancel] at before
              omega
            · rw [Function.update_of_ne same] at some ⊢
              have closer := ringDistance_next lt ltC (Ne.symm same)
              have before := enough c ltC some
              omega
          obtain ⟨pages, reordered, givenEq, inRange⟩ := ih next tmp' enough'
          refine ⟨(ch, page) :: pages, ?_, ?_, ?_⟩
          · rw [reorder_page split (length_pageSectors dev.geo ch page), List.flatMap_cons]
            exact congrArg _ reordered
          · intro c ltC
            have later := givenEq c ltC
            by_cases same : ch = c
            · subst same
              rw [Function.update_self] at later
              rw [ownEq, ← later]
              simp [given]
            · rw [Function.update_of_ne (Ne.symm same)] at later
              rw [← later]
              simp [given, same]
          · intro other mem
            rcases List.mem_cons.mp mem with rfl | old
            · exact lt
            · exact inRange other old

/-! ## The request -/

/-- Pages that a request still has to ask for. -/
def pagesLeft (vars : GetVars) : GetPc → Nat
  | .visit _ _ left => left
  | .refused _ left => left
  | .leave _ left => left
  | .gather => 0
  | .unused _ => 0
  | .decCh _ => 0
  | _ => vars.pgs

/-- What a request for `pgs` pages has: in the buffer of each channel the sectors of the pages that
it gave, which are still in the hands of the request while it counts on the channel. -/
structure Holds (dev : Device) (pgs : Nat) (chans : Nat → ChProv.Chan) (served : List (Nat × Page))
    (vars : GetVars) (left : Nat) : Prop where
  tmp : ∀ ch, vars.tmpPpa ch = (given served ch).flatMap (pageSectors dev.geo ch)
  held : ∀ ch, vars.prov ch → ChProv.Handed (dev.env ch) (chans ch) (given served ch)
  count : served.length + left = pgs

/-- The invariant of a request that runs. -/
structure GetInv (dev : Device) (pgs : Nat) (chans : Nat → ChProv.Chan) (served : List (Nat × Page))
    (vars : GetVars) (pc : GetPc) : Prop where
  varsOk : VarsOk dev.conf vars
  pcOk : PcOk dev.conf vars pc
  holds : Holds dev pgs chans served vars (pagesLeft vars pc)
  /-- A request that distributes its pages counts on some channel. -/
  counts : pc = .redist → 0 < vars.nactCh

/-- The invariant of what is left of a request. -/
def AfterInv (dev : Device) (pgs : Nat) (chans : Nat → ChProv.Chan) (served : List (Nat × Page)) :
    After → Prop
  | .running (.get vars pc) => GetInv dev pgs chans served vars pc
  | .returned list => Complete dev pgs served list
  | _ => True

/-- The pages that a request was given: different pages of its channels. -/
structure ServedOk (dev : Device) (served : List (Nat × Page)) : Prop where
  lt : ∀ page ∈ served, page.1 < dev.appNch
  inRange : ∀ page ∈ served, page.2.InRange (dev.env page.1)
  nodup : ∀ ch, (given served ch).Nodup

/-- The invariant of a request among the others. -/
structure ReqInv (dev : Device) (start : Nat → ChProv.Vblk → ChProv.NextPage) (pgs : Nat)
    (state : ReqState) : Prop where
  cur : state.chs.curChId < dev.appNch
  chans : ∀ ch < dev.appNch, ChProv.ChanOk (dev.env ch) (start ch) (state.chans ch)
  served : ServedOk dev state.served
  after : AfterInv dev pgs state.chans state.served state.after

variable {start : Nat → ChProv.Vblk → ChProv.NextPage} {pgs : Nat} {chans : Nat → ChProv.Chan}
  {served : List (Nat × Page)} {vars : GetVars} {left : Nat}

/-- The list of a request without pages left is complete. -/
theorem Holds.complete (holds : Holds dev pgs chans served vars 0) (ok : ServedOk dev served)
    (varsOk : VarsOk dev.conf vars) : Complete dev pgs served (vars.provPpas dev.conf) := by
  have sum : ∀ c < dev.appNch, (given served c).length ≤ vars.tppas dev.conf := by
    intro c lt
    have part : (vars.tmpPpa c).length ≤ vars.tppas dev.conf :=
      List.le_sum_of_mem (List.mem_map.mpr ⟨c, List.mem_range.mpr lt, rfl⟩)
    rw [holds.tmp, length_flatMap_sectors] at part
    exact Nat.le_trans (Nat.le_mul_of_pos_right _ dev.geo.secPerPlPg_pos) part
  have enough : ∀ c < dev.appNch, given served c ≠ [] →
      ringDistance dev.appNch vars.cc c + dev.appNch * ((given served c).length - 1) <
        dev.appNch * vars.tppas dev.conf := by
    intro c lt some
    have near := ringDistance_lt varsOk.cc lt
    have pos := List.length_pos_of_ne_nil some
    have turn := Nat.mul_sub_one dev.appNch (given served c).length
    have whole := Nat.le_mul_of_pos_right dev.appNch pos
    have all := Nat.mul_le_mul_left dev.appNch (sum c lt)
    change ringDistance dev.appNch vars.cc c < dev.appNch at near
    omega
  obtain ⟨pages, eq, givenEq, lt⟩ := reorder_pages _ varsOk.cc holds.tmp enough
  -- no other channel has pages
  have same : ∀ ch, given pages ch = given served ch := by
    intro ch
    by_cases ltCh : ch < dev.appNch
    · exact givenEq ch ltCh
    · have none : ∀ list : List (Nat × Page), (∀ page ∈ list, page.1 < dev.appNch) →
          given list ch = [] := by
        intro list bound
        apply List.eq_nil_iff_forall_not_mem.mpr
        intro page mem
        exact ltCh (bound _ (mem_given.mp mem))
      rw [none pages lt, none served ok.lt]
  have inRange : ∀ page ∈ pages, page.2.InRange (dev.env page.1) := by
    intro page mem
    have mem' : page.2 ∈ given served page.1 := by
      rw [← same]
      exact mem_given.mpr mem
    exact ok.inRange page (mem_given.mp mem')
  have ppa : (vars.provPpas dev.conf).ppa =
      pages.flatMap fun page => pageSectors dev.geo page.1 page.2 := eq
  refine ⟨?_, ?_, pages, ppa, same⟩
  · have count := holds.count
    rw [ppa, List.length_flatMap]
    simp only [length_pageSectors, List.map_const', List.sum_replicate, smul_eq_mul]
    rw [length_of_given same, ← count, Nat.add_zero]
    rfl
  · rw [ppa]
    exact nodup_sectors (nodup_of_given fun ch => same ch ▸ ok.nodup ch) lt inRange

/-! ## Steps of the request -/

theorem Holds.setChan (holds : Holds dev pgs chans served vars left) {ch : Nat}
    {chan : ChProv.Chan}
    (new : vars.prov ch → ChProv.Handed (dev.env ch) chan (given served ch)) :
    Holds dev pgs (Function.update chans ch chan) served vars left where
  tmp := holds.tmp
  held c counted := by
    by_cases same : c = ch
    · subst same
      rw [Function.update_self]
      exact new counted
    · rw [Function.update_of_ne same]
      exact holds.held c counted
  count := holds.count

/-- A channel whose buffer is empty gave no page. -/
theorem Holds.given_eq_nil (holds : Holds dev pgs chans served vars left) {ch : Nat}
    (none : vars.tmpPpa ch = []) : given served ch = [] :=
  flatMap_sectors_eq_nil.mp ((holds.tmp ch).symm.trans none)

/-- A step in which the request asks no channel. -/
theorem GetInv.step {chs : Channels} {pc : GetPc} (inv : GetInv dev pgs chans served vars pc)
    (cur : chs.curChId < dev.appNch) (ok : ServedOk dev served) (small : pgs < 2 ^ 16)
    (none : asked vars pc = none) (answer : Answer) :
    AfterInv dev pgs chans served (getStep dev.conf chs vars answer pc).2 := by
  have holds := inv.holds
  cases pc with
  | collect ch =>
      have next := getStep_ok cur inv.varsOk inv.pcOk trivial answer
      rw [getStep] at next ⊢
      by_cases inside : ch < dev.conf.appNch
      · rw [if_pos inside] at next ⊢
        by_cases active : chs.active ch
        · rw [if_pos active] at next ⊢
          exact ⟨next.1, next.2, holds, by simp⟩
        · rw [if_neg active] at next ⊢
          exact ⟨next.1, next.2, holds, by simp⟩
      · rw [if_neg inside] at next ⊢
        by_cases noCh : vars.nactCh = 0
        · rw [if_pos noCh]
          trivial
        · rw [if_neg noCh] at next ⊢
          exact ⟨next.1, next.2, holds, fun _ => Nat.pos_of_ne_zero noCh⟩
  | inc ch =>
      have next := getStep_ok cur inv.varsOk inv.pcOk trivial answer
      exact ⟨next.1, next.2, holds, by simp⟩
  | recheck ch =>
      have next := getStep_ok cur inv.varsOk inv.pcOk trivial answer
      rw [getStep] at next ⊢
      by_cases active : chs.active ch
      · rw [if_pos active] at next ⊢
        refine ⟨next.1, next.2, ⟨holds.tmp, ?_, holds.count⟩, by simp⟩
        intro c counted
        by_cases same : c = ch
        · rw [holds.given_eq_nil (inv.pcOk.2 c).2]
          exact ⟨List.nodup_nil, by simp⟩
        · exact holds.held c (by simpa [same] using counted)
      · rw [if_neg active] at next ⊢
        exact ⟨next.1, next.2, holds, by simp⟩
  | undo ch =>
      have next := getStep_ok cur inv.varsOk inv.pcOk trivial answer
      exact ⟨next.1, next.2, holds, by simp⟩
  | redist =>
      have fair : CallFair dev.conf chs (.get vars .redist) := by
        have count : served.length + vars.pgs = pgs := holds.count
        have pos := inv.counts rfl
        have bound := Nat.le_mul_of_pos_right (2 ^ 16 - 1) pos
        rw [CallFair]
        omega
      have next := getStep_ok cur inv.varsOk inv.pcOk fair answer
      exact ⟨next.1, next.2, ⟨holds.tmp, holds.held, holds.count⟩, by simp⟩
  | visit ch act left =>
      have next := getStep_ok cur inv.varsOk inv.pcOk trivial answer
      simp only [getStep] at next ⊢
      by_cases done : left = 0
      · rw [if_pos done] at next ⊢
        subst done
        exact ⟨next.1, next.2, holds, by simp⟩
      · rw [if_neg done] at next ⊢
        have skipped : ¬ vars.prov ch := fun counted => by simp [asked, done, counted] at none
        rw [if_neg skipped] at next ⊢
        exact ⟨next.1, next.2, holds, by simp⟩
  | refused ch left =>
      have next := getStep_ok cur inv.varsOk inv.pcOk trivial answer
      exact ⟨next.1, next.2, holds, by simp⟩
  | leave ch left =>
      have next := getStep_ok cur inv.varsOk inv.pcOk trivial answer
      rw [getStep] at next ⊢
      by_cases more : 0 < vars.nactCh - 1
      · rw [if_pos more] at next ⊢
        refine ⟨next.1, next.2, ⟨holds.tmp, ?_, holds.count⟩, fun _ => more⟩
        intro c counted
        by_cases same : c = ch
        · simp [same] at counted
        · exact holds.held c (by simpa [same] using counted)
      · rw [if_neg more]
        trivial
  | gather =>
      cases answer with
      | ok => exact ⟨inv.varsOk, trivial, holds, by simp⟩
      | ppas list => exact ⟨inv.varsOk, trivial, holds, by simp⟩
      | fail => exact ⟨inv.varsOk, trivial, holds, by simp⟩
  | unused ch =>
      rw [getStep]
      by_cases inside : ch < dev.conf.appNch
      · rw [if_pos inside]
        exact ⟨inv.varsOk, trivial, holds, by simp⟩
      · rw [if_neg inside]
        exact holds.complete ok inv.varsOk
  | decCh ch =>
      rw [getStep]
      by_cases inside : ch < dev.conf.appNch
      · rw [if_pos inside]
        exact ⟨inv.varsOk, trivial, holds, by simp⟩
      · rw [if_neg inside]
        trivial

/-- While pages are left, the next channel is asked for no more than these. -/
theorem PagesLeft.share_le {act : Nat} (pages : PagesLeft vars act left) (more : left ≠ 0) :
    vars.pgsCh act ≤ left := by
  rcases pages with none | ⟨lt, sum⟩
  · exact absurd none more
  · rw [sum]
    exact Finset.single_le_sum (fun _ _ => Nat.zero_le _)
      (Finset.mem_Ico.mpr ⟨Nat.le_refl act, lt⟩)

/-- A channel gave its pages. -/
theorem GetInv.supply {chs : Channels} {ch act : Nat} {chan : ChProv.Chan} {new : List Page}
    (inv : GetInv dev pgs chans served vars (.visit ch act left)) (cur : chs.curChId < dev.appNch)
    (more : left ≠ 0) (counted : vars.prov ch) (length : new.length = vars.pgsCh act)
    (handed : ChProv.Handed (dev.env ch) chan (given served ch ++ new)) :
    AfterInv dev pgs (Function.update chans ch chan) (served ++ new.map (Prod.mk ch))
      (getStep dev.conf chs vars (.ppas (new.flatMap (pageSectors dev.geo ch)))
        (.visit ch act left)).2 := by
  have holds := inv.holds
  have ltCh : ch < dev.appNch := inv.varsOk.range ch counted
  have supplied : Supplied dev.conf ch (vars.pgsCh act)
      (new.flatMap (pageSectors dev.geo ch)) := by
    constructor
    · rw [length_flatMap_sectors, length, Nat.mul_comm]
      rfl
    · intro ppa mem
      obtain ⟨page, _, inPage⟩ := List.mem_flatMap.mp mem
      rw [ch_of_mem_pageSectors inPage]
      exact Nat.mod_eq_of_lt (Nat.lt_of_lt_of_le ltCh dev.nch_le)
  have next := getStep_ok cur inv.varsOk inv.pcOk trivial
    (.ppas (new.flatMap (pageSectors dev.geo ch)))
  simp only [getStep] at next ⊢
  rw [if_neg more, if_pos counted, if_pos supplied] at next ⊢
  refine ⟨next.1, next.2, ⟨?_, ?_, ?_⟩, by simp⟩
  · intro c
    rw [given_append, given_tagged]
    by_cases same : c = ch
    · subst same
      change Function.update vars.tmpPpa c _ c = _
      rw [Function.update_self, if_pos rfl, List.flatMap_append, holds.tmp]
    · change Function.update vars.tmpPpa ch _ c = _
      rw [Function.update_of_ne same, if_neg same, List.append_nil, holds.tmp]
  · intro c countedC
    rw [given_append, given_tagged]
    by_cases same : c = ch
    · subst same
      rw [Function.update_self, if_pos rfl]
      exact handed
    · rw [Function.update_of_ne same, if_neg same, List.append_nil]
      exact holds.held c countedC
  · obtain ⟨_, lt, pages, _⟩ := inv.pcOk
    have part := pages.share_le more
    have count := holds.count
    rw [pagesLeft] at count ⊢
    rw [List.length_append, List.length_map, length]
    omega

theorem ServedOk.supply {ch : Nat} {chan : ChProv.Chan} {new : List Page} (ok : ServedOk dev served)
    (lt : ch < dev.appNch) (handed : ChProv.Handed (dev.env ch) chan (given served ch ++ new)) :
    ServedOk dev (served ++ new.map (Prod.mk ch)) where
  lt page mem := by
    rcases List.mem_append.mp mem with old | own
    · exact ok.lt page old
    · obtain ⟨_, _, rfl⟩ := List.mem_map.mp own
      exact lt
  inRange page mem := by
    rcases List.mem_append.mp mem with old | own
    · exact ok.inRange page old
    · obtain ⟨page, memNew, rfl⟩ := List.mem_map.mp own
      exact (handed.kept page (List.mem_append_right _ memNew)).inRange
  nodup c := by
    rw [given_append, given_tagged]
    by_cases same : c = ch
    · subst same
      rw [if_pos rfl]
      exact handed.nodup
    · rw [if_neg same, List.append_nil]
      exact ok.nodup c

theorem asked_eq_some {pc : GetPc} {ch asks : Nat} (eq : asked vars pc = some (ch, asks)) :
    ∃ act left, pc = .visit ch act left ∧ left ≠ 0 ∧ vars.prov ch ∧ asks = vars.pgsCh act := by
  cases pc with
  | visit ch' act left =>
      simp only [asked] at eq
      split_ifs at eq with asks
      obtain ⟨rfl, rfl⟩ := Prod.mk.inj (Option.some.inj eq)
      exact ⟨act, left, rfl, asks.1, asks.2, rfl⟩
  | _ => cases eq

/-- A channel stays in order, whether it gave the pages or not. -/
theorem chanOk_update {ch : Nat} {chan : ChProv.Chan}
    (oks : ∀ c < dev.appNch, ChProv.ChanOk (dev.env c) (start c) (chans c))
    (ok : ch < dev.appNch → ChProv.ChanOk (dev.env ch) (start ch) chan) :
    ∀ c < dev.appNch, ChProv.ChanOk (dev.env c) (start c) (Function.update chans ch chan c) := by
  intro c lt
  by_cases same : c = ch
  · subst same
    rw [Function.update_self]
    exact ok lt
  · rw [Function.update_of_ne same]
    exact oks c lt

theorem ReqInv.ownStep {state : ReqState} {pc : GetPc} (inv : ReqInv dev start pgs state)
    (runs : GetInv dev pgs state.chans state.served vars pc) (small : pgs < 2 ^ 16)
    (pagesLeft : ∀ ch < dev.appNch, ChProv.PagesLeft (dev.env ch) (start ch))
    (memory : ∀ ch n, (dev.env ch).erase n ≠ .noMem) (hasMemory : Bool) :
    ReqInv dev start pgs (ownStep dev type state hasMemory vars pc) := by
  rw [GlProv.ownStep]
  cases asks : asked vars pc with
  | none =>
      constructor
      · exact curChId_getStep inv.cur vars _ pc
      · exact inv.chans
      · exact inv.served
      · exact runs.step inv.cur inv.served small asks _
  | some ask =>
      obtain ⟨ch, asks'⟩ := ask
      obtain ⟨act, left, rfl, more, counted, rfl⟩ := asked_eq_some asks
      have lt : ch < dev.appNch := runs.varsOk.range ch counted
      have held := runs.holds.held ch counted
      have ok := inv.chans ch lt
      obtain ⟨new, gives⟩ :=
        ok.chProvGetPpas_gives (pagesLeft ch lt) (memory ch) (vars.pgsCh act) type held
      have okAfter := ok.chProvGetPpas (vars.pgsCh act) type
      simp only [getPpasFn]
      generalize ChProv.chProvGetPpas (dev.env ch) (vars.pgsCh act) type (state.chans ch) = result
        at gives okAfter
      obtain ⟨chan, rc⟩ := result
      have pages : chan.pages.drop (state.chans ch).pages.length = new := by
        rw [show chan.pages = (state.chans ch).pages ++ new from gives.handsOut, List.drop_left]
      have chansOk := chanOk_update inv.chans fun _ => okAfter
      by_cases success : rc = 0
      · simp only [success, if_true, pages]
        constructor
        · exact curChId_getStep inv.cur vars _ _
        · exact chansOk
        · exact inv.served.supply lt gives.handed
        · exact runs.supply inv.cur more counted (gives.length success) gives.handed
      · simp only [success, if_false]
        have refused : (getStep dev.conf state.chs vars .fail (.visit ch act left)).2 =
            .running (.get vars (.refused ch left)) := by
          simp only [getStep]
          rw [if_neg more, if_pos counted]
        have left' : ChProv.Handed (dev.env ch) chan (given state.served ch) :=
          ⟨held.nodup, fun page mem => gives.handed.kept page (List.mem_append_left _ mem)⟩
        constructor
        · exact curChId_getStep inv.cur vars _ _
        · exact chansOk
        · exact inv.served
        · change AfterInv dev pgs _ _ (getStep dev.conf state.chs vars .fail _).2
          rw [refused]
          exact ⟨runs.varsOk, ⟨counted, runs.pcOk.2.1⟩, runs.holds.setChan fun _ => left', by simp⟩

theorem Reachable.chanOk {env : ChProv.Env} {chan : ChProv.Chan} (reachable : Reachable env chan) :
    ∃ start, ChProv.PagesLeft env start ∧ ChProv.ChanOk env start chan := by
  obtain ⟨md, first, ops, mdOk, init, inRange, rfl⟩ := reachable
  exact ⟨_, mdOk.pagesLeft, ChProv.chanOk_run mdOk.bad_unused init inRange⟩

/-- Every step keeps the invariant. -/
theorem reqInv_reqStep (small : pgs < 2 ^ 16)
    (pagesLeft : ∀ ch < dev.appNch, ChProv.PagesLeft (dev.env ch) (start ch))
    (memory : ∀ ch n, (dev.env ch).erase n ≠ .noMem) (state : ReqState) (op : ReqOp)
    (inv : ReqInv dev start pgs state) : ReqInv dev start pgs (reqStep dev type state op) := by
  cases op with
  | own hasMemory =>
      rw [reqStep]
      split
      · rename_i vars pc eq
        have runs := inv.after
        rw [eq] at runs
        exact inv.ownStep runs small pagesLeft memory hasMemory
      · exact inv
  | flags chs =>
      rw [reqStep]
      split_ifs with cur
      · exact ⟨cur, inv.chans, inv.served, inv.after⟩
      · exact inv
  | chan ch op =>
      rw [reqStep]
      split_ifs with permitted
      · have inRange : op.InRange (dev.env ch) := by
          cases op with
          | put vblk => exact permitted.1
          | _ => exact permitted
        constructor
        · exact inv.cur
        · exact chanOk_update inv.chans fun lt => (inv.chans ch lt).step op inRange
        · exact inv.served
        · -- the pages of the request stay with it, since no block of its channels is put
          have after := inv.after
          cases eq : state.after with
          | running call =>
              cases call with
              | get vars pc =>
                  rw [eq] at after
                  refine ⟨after.varsOk, after.pcOk, after.holds.setChan ?_, after.counts⟩
                  intro counted
                  have lt : ch < dev.appNch := after.varsOk.range ch counted
                  apply (after.holds.held ch counted).step (inv.chans ch lt) (pagesLeft ch lt)
                    (memory ch) inRange
                  rintro vblk rfl
                  have none : state.counts ch = false := permitted.2
                  simp only [ReqState.counts, eq] at none
                  exact Bool.false_ne_true (none.symm.trans counted)
              | free list place => trivial
          | ended => trivial
          | returned list =>
              rw [eq] at after
              exact after
      · exact inv

/-- The list that a request returns, among any steps of the others: it has the number of sectors
that was asked for, in whole pages that successful calls of the channels gave, each of them once,
and the pages of a channel in the order in which it gave them. -/
theorem gl_prov_list_complete (dev : Device) (type : ChProv.LineType) {pgs : Nat}
    (small : pgs * (dev.geo.secPerPg * dev.geo.nOfPlanes) < 65536)
    (memory : ∀ ch n, (dev.env ch).erase n ≠ .noMem) {chs : Channels}
    (cur : chs.curChId < dev.appNch) {chans : Nat → ChProv.Chan}
    (started : ∀ ch < dev.appNch, Reachable (dev.env ch) (chans ch)) (ops : List ReqOp) :
    ∀ list ∈ ((reqSystem dev type).run (request chs chans pgs) ops).after.lists,
      Complete dev pgs ((reqSystem dev type).run (request chs chans pgs) ops).served list := by
  choose! start pagesLeft chansOk using fun ch lt => (started ch lt).chanOk
  have pgsSmall : pgs < 2 ^ 16 :=
    Nat.lt_of_le_of_lt (Nat.le_mul_of_pos_right pgs dev.geo.secPerPlPg_pos) small
  have vars : VarsOk dev.conf { pgs := pgs } := by
    constructor
    · simp [GetVars.counted]
    · simp
    · exact Nat.lt_trans pgsSmall (by decide)
    · exact Nat.zero_lt_of_lt cur
    · simp
    · simp
    · simp
    · simp
  have initial : ReqInv dev start pgs (request chs chans pgs) := by
    constructor
    · exact cur
    · exact chansOk
    · exact ⟨by simp [request], by simp [request], fun ch => List.nodup_nil⟩
    · refine ⟨vars, fun c => ⟨by simp, rfl⟩, ⟨fun ch => rfl, by simp, ?_⟩, by simp⟩
      exact Nat.zero_add pgs
  have inv : ReqInv dev start pgs ((reqSystem dev type).run (request chs chans pgs) ops) := by
    apply (reqSystem dev type).run_invariant (fun _ _ => True) _ _ initial
    · exact (reqSystem dev type).allowed_of_forall_mem (fun _ _ => trivial) _
    · intro state op _ inv
      exact reqInv_reqStep pgsSmall pagesLeft memory state op inv
  intro list mem
  have after := inv.after
  generalize (reqSystem dev type).run (request chs chans pgs) ops = state at mem after
  cases eq : state.after with
  | running call =>
      rw [eq] at mem
      cases mem
  | ended =>
      rw [eq] at mem
      cases mem
  | returned returned =>
      rw [eq] at mem after
      rw [List.mem_singleton.mp mem]
      exact after

/-- A small channel without bad blocks. -/
def plainEnv : ChProv.Env where
  geo := .small
  entPerPg := 4
  bad _ _ := false
  erase _ := .ok
  rand _ _ := (0, 0)

theorem plainEnv_geo : plainEnv.geo = .small :=
  rfl

theorem two_le_plain : 2 ≤ 4096 := by
  decide

/-- Two of these channels. -/
def twoPlain : Device where
  appNch := 2
  geo := .small
  env _ := plainEnv
  same _ := plainEnv_geo
  nch_le := two_le_plain

def plainChan : ChProv.Chan :=
  (ChProv.chProvInit plainEnv ChProv.freshMd).getD {}

theorem reachable_plainChan : Reachable plainEnv plainChan := by
  have started : (ChProv.chProvInit plainEnv ChProv.freshMd).isSome = true := by decide +kernel
  obtain ⟨chan, success⟩ := Option.isSome_iff_exists.mp started
  refine ⟨ChProv.freshMd, chan, [], ChProv.mdOk_freshMd _ _, success, by simp, ?_⟩
  rw [plainChan, success, Option.getD_some]
  rfl

/-- Channel 1 has six pages left for the request: its eight pages come from channel 0. -/
def redistributed : ReqState :=
  (reqSystem twoPlain .user).run
    (request { active := fun _ => true, busy := fun _ => 0, needGc := fun _ => false, curChId := 0 }
      (fun _ => plainChan) 16)
    (.chan 1 (.getPpas 10 .user) :: List.replicate 30 (.own true))

theorem gl_prov_list_complete_redistributed :
    redistributed.after.lists.length = 1 ∧
      redistributed.served.map Prod.fst = List.replicate 16 0 ∧
      ∀ list ∈ redistributed.after.lists, Complete twoPlain 16 redistributed.served list := by
  apply And.intro (by decide +kernel)
  apply And.intro (by decide +kernel)
  exact gl_prov_list_complete twoPlain .user (by decide) (by simp [twoPlain, plainEnv]) (by decide)
    (fun _ _ => reachable_plainChan) _

end OxCtrl.GlProv
