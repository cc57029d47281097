import Mathlib.Logic.Function.Basic
import Mathlib.Tactic.Ring

/-!
# Transfer of a flat table

`ftl_nvm_seq_transfer` cuts a flat table into multi-plane pages.  A plane of a page
takes `ent_per_pg / n_pl` entries; the last page may hold fewer.  Between the table and
the medium stands one I/O buffer, which keeps what the last copy left in it.  The units
of the table are bytes, or entries where the size of an entry is one.
-/

namespace OxCtrl.SeqTransfer

universe u v

/-- Layout of a table on multi-plane pages. -/
structure Layout where
  nPl : Nat
  entPerPg : Nat
  entrySz : Nat
  pl_pos : 0 < nPl
  aligned : nPl ∣ entPerPg

namespace Layout

/-- Entries in a plane of a page. -/
def entPl (layout : Layout) : Nat :=
  layout.entPerPg / layout.nPl

/-- `pg_ent_sz`. -/
def pgEntSz (layout : Layout) : Nat :=
  layout.entPerPg * layout.entrySz

/-- Units in a plane of a page. -/
def plSz (layout : Layout) : Nat :=
  layout.entPl * layout.entrySz

theorem nPl_mul_entPl (layout : Layout) : layout.nPl * layout.entPl = layout.entPerPg :=
  Nat.mul_div_cancel' layout.aligned

theorem pgEntSz_eq (layout : Layout) : layout.pgEntSz = layout.nPl * layout.plSz := by
  rw [pgEntSz, plSz, ← Nat.mul_assoc, nPl_mul_entPl]

theorem pgEntSz_div (layout : Layout) : layout.pgEntSz / layout.nPl = layout.plSz := by
  rw [pgEntSz_eq, Nat.mul_div_cancel_left _ layout.pl_pos]

end Layout

/-- `struct nvm_io_data`: the planes of a page and the OOB area. -/
structure PgIo (α : Type u) (ω : Type v) where
  planes : Nat → Nat → α
  oob : ω

variable {α : Type u} {ω : Type v} (layout : Layout)

/-- Entries of a plane that are transferred when `entLeft` are left. -/
def trfEnt (entLeft : Nat) : Nat :=
  if layout.entPl ≤ entLeft then layout.entPl else entLeft

/-- Entries that are left after a plane. -/
def nextLeft (entLeft : Nat) : Nat :=
  if layout.entPl ≤ entLeft then entLeft - layout.entPl else 0

/-- Position of a plane of page `i` in the table. -/
def tblOff (i pl : Nat) : Nat :=
  layout.pgEntSz * i + pl * (layout.pgEntSz / layout.nPl)

/-- The loop over the planes, from the table to the buffer. -/
def planesTo (user : Nat → α) (i : Nat) :
    Nat → Nat → Nat → (Nat → Nat → α) → (Nat → Nat → α) × Nat
  | 0, _, entLeft, planes => (planes, entLeft)
  | left + 1, pl, entLeft, planes =>
      let trfSz := trfEnt layout entLeft * layout.entrySz
      let planes := Function.update planes pl fun off =>
        if off < trfSz then user (tblOff layout i pl + off) else planes pl off
      let entLeft := nextLeft layout entLeft
      if entLeft = 0 then (planes, entLeft) else planesTo user i left (pl + 1) entLeft planes

/-- The loop over the planes, from the buffer to the table. -/
def planesFrom (planes : Nat → Nat → α) (i : Nat) :
    Nat → Nat → Nat → (Nat → α) → (Nat → α) × Nat
  | 0, _, entLeft, user => (user, entLeft)
  | left + 1, pl, entLeft, user =>
      let trfSz := trfEnt layout entLeft * layout.entrySz
      let user := fun x =>
        if tblOff layout i pl ≤ x ∧ x < tblOff layout i pl + trfSz
        then planes pl (x - tblOff layout i pl) else user x
      let entLeft := nextLeft layout entLeft
      if entLeft = 0 then (user, entLeft) else planesFrom planes i left (pl + 1) entLeft user

/-- `ftl_nvm_seq_transfer` with `NVM_TRANS_TO_NVM`: `left` pages from page `i` of the table on
are written, the first of the table to page `start` of the block. -/
def transferTo (start : Nat) (user : Nat → α) :
    Nat → Nat → Nat → PgIo α ω → (Nat → PgIo α ω) → (Nat → PgIo α ω) × PgIo α ω
  | 0, _, _, io, blk => (blk, io)
  | left + 1, i, entLeft, io, blk =>
      let (planes, entLeft) := planesTo layout user i layout.nPl 0 entLeft io.planes
      let io := { io with planes := planes }
      transferTo start user left (i + 1) entLeft io (Function.update blk (start + i) io)

/-- `ftl_nvm_seq_transfer` with `NVM_TRANS_FROM_NVM`. -/
def transferFrom (start : Nat) (blk : Nat → PgIo α ω) :
    Nat → Nat → Nat → (Nat → α) → (Nat → α)
  | 0, _, _, user => user
  | left + 1, i, entLeft, user =>
      let (user, entLeft) := planesFrom layout (blk (start + i)).planes i layout.nPl 0 entLeft user
      transferFrom start blk left (i + 1) entLeft user

/-! ## A page -/

/-- Unit number `y` of a page. -/
def unitAt (planes : Nat → Nat → α) (y : Nat) : α :=
  planes (y / layout.plSz) (y % layout.plSz)

variable {layout}

theorem trfEnt_eq (entLeft : Nat) : trfEnt layout entLeft = min layout.entPl entLeft := by
  unfold trfEnt
  split <;> omega

theorem nextLeft_eq (entLeft : Nat) : nextLeft layout entLeft = entLeft - layout.entPl := by
  unfold nextLeft
  split <;> omega

theorem tblOff_eq (i pl : Nat) : tblOff layout i pl = layout.pgEntSz * i + pl * layout.plSz := by
  rw [tblOff, layout.pgEntSz_div]

theorem unitAt_of_lt (planes : Nat → Nat → α) {pl off : Nat} (lt : off < layout.plSz) :
    unitAt layout planes (pl * layout.plSz + off) = planes pl off := by
  have pos : 0 < layout.plSz := Nat.zero_lt_of_lt lt
  rw [unitAt, Nat.mul_comm pl, Nat.mul_add_div pos, Nat.div_eq_of_lt lt, Nat.mul_add_mod,
    Nat.mod_eq_of_lt lt, Nat.add_zero]

/-- Planes before the first one are left alone. -/
theorem planesTo_frame (user : Nat → α) (i left pl entLeft : Nat) (planes : Nat → Nat → α)
    {other : Nat} (before : other < pl) :
    (planesTo layout user i left pl entLeft planes).1 other = planes other := by
  induction left generalizing pl entLeft planes with
  | zero => rfl
  | succ left ih =>
      have ne : other ≠ pl := before.ne
      rw [planesTo]
      split
      · exact Function.update_of_ne ne _ _
      · rw [ih _ _ _ (Nat.lt_succ_of_lt before), Function.update_of_ne ne]

theorem planesTo_left (user : Nat → α) (i left pl entLeft : Nat) (planes : Nat → Nat → α) :
    (planesTo layout user i left pl entLeft planes).2 = entLeft - left * layout.entPl := by
  induction left generalizing pl entLeft planes with
  | zero => simp [planesTo]
  | succ left ih =>
      have next := @nextLeft_eq layout entLeft
      have split : (left + 1) * layout.entPl = left * layout.entPl + layout.entPl := Nat.succ_mul ..
      rw [planesTo]
      split
      · omega
      · rw [ih]
        omega

theorem planesFrom_left (planes : Nat → Nat → α) (i left pl entLeft : Nat) (user : Nat → α) :
    (planesFrom layout planes i left pl entLeft user).2 = entLeft - left * layout.entPl := by
  induction left generalizing pl entLeft user with
  | zero => simp [planesFrom]
  | succ left ih =>
      have next := @nextLeft_eq layout entLeft
      have split : (left + 1) * layout.entPl = left * layout.entPl + layout.entPl := Nat.succ_mul ..
      rw [planesFrom]
      split
      · omega
      · rw [ih]
        omega

/-- Units that the loop over the planes transfers, one plane split off. -/
theorem min_succ_mul {left entLeft : Nat} (le : layout.entPl ≤ entLeft) :
    min ((left + 1) * layout.entPl) entLeft * layout.entrySz =
      layout.plSz + min (left * layout.entPl) (entLeft - layout.entPl) * layout.entrySz := by
  have split : min ((left + 1) * layout.entPl) entLeft =
      layout.entPl + min (left * layout.entPl) (entLeft - layout.entPl) := by
    rw [Nat.succ_mul]
    omega
  rw [split, Nat.add_mul, Layout.plSz]

/-- Units beyond the first plane: more entries are left than it takes. -/
theorem lt_of_plSz_lt {left entLeft y : Nat} (le : layout.plSz ≤ y)
    (lt : y < min ((left + 1) * layout.entPl) entLeft * layout.entrySz) :
    layout.entPl < entLeft := by
  have bound : layout.entPl * layout.entrySz < entLeft * layout.entrySz :=
    lt_of_le_of_lt le (lt_of_lt_of_le lt (Nat.mul_le_mul_right _ (Nat.min_le_right _ _)))
  exact Nat.lt_of_mul_lt_mul_right bound

theorem lt_plane {left entLeft y : Nat} (lt : y < min ((left + 1) * layout.entPl) entLeft *
    layout.entrySz) (inPlane : y < layout.plSz) :
    y < trfEnt layout entLeft * layout.entrySz := by
  rw [trfEnt_eq]
  rcases Nat.le_total layout.entPl entLeft with le | le
  · rw [Nat.min_eq_left le]
    exact inPlane
  · rw [Nat.min_eq_right le]
    exact lt_of_lt_of_le lt (Nat.mul_le_mul_right _ (Nat.min_le_right _ _))

/-- The buffer holds the units of the table. -/
theorem planesTo_spec (user : Nat → α) (i left pl entLeft : Nat) (planes : Nat → Nat → α)
    {y : Nat} (lt : y < min (left * layout.entPl) entLeft * layout.entrySz) :
    unitAt layout (planesTo layout user i left pl entLeft planes).1 (pl * layout.plSz + y) =
      user (layout.pgEntSz * i + (pl * layout.plSz + y)) := by
  induction left generalizing pl entLeft planes y with
  | zero => simp at lt
  | succ left ih =>
      rw [planesTo]
      by_cases inPlane : y < layout.plSz
      · rw [unitAt_of_lt _ inPlane]
        have here := lt_plane lt inPlane
        have value : Function.update planes pl (fun off =>
            if off < trfEnt layout entLeft * layout.entrySz then user (tblOff layout i pl + off)
            else planes pl off) pl y = user (layout.pgEntSz * i + (pl * layout.plSz + y)) := by
          rw [Function.update_self, if_pos here, tblOff_eq, Nat.add_assoc]
        split
        · exact value
        · rw [planesTo_frame user i left (pl + 1) _ _ (Nat.lt_succ_self pl)]
          exact value
      · have more := lt_of_plSz_lt (Nat.le_of_not_lt inPlane) lt
        have next := @nextLeft_eq layout entLeft
        obtain ⟨z, rfl⟩ := Nat.exists_eq_add_of_le (Nat.le_of_not_lt inPlane)
        rw [min_succ_mul more.le, Nat.add_lt_add_iff_left, ← next] at lt
        rw [if_neg (by omega)]
        have later := ih (pl + 1) (nextLeft layout entLeft)
          (Function.update planes pl fun off =>
            if off < trfEnt layout entLeft * layout.entrySz then user (tblOff layout i pl + off)
            else planes pl off) lt
        have shift : (pl + 1) * layout.plSz + z = pl * layout.plSz + (layout.plSz + z) := by ring
        rw [shift] at later
        exact later

/-- The table receives the units of the buffer, and keeps the others. -/
theorem planesFrom_spec (planes : Nat → Nat → α) (i left pl entLeft : Nat) (user : Nat → α)
    (x : Nat) :
    (planesFrom layout planes i left pl entLeft user).1 x =
      if layout.pgEntSz * i + pl * layout.plSz ≤ x ∧
          x < layout.pgEntSz * i + pl * layout.plSz +
            min (left * layout.entPl) entLeft * layout.entrySz
      then unitAt layout planes (x - layout.pgEntSz * i) else user x := by
  induction left generalizing pl entLeft user with
  | zero =>
      rw [if_neg]
      · rfl
      · simp
  | succ left ih =>
      rw [planesFrom]
      have next := @nextLeft_eq layout entLeft
      have trf := @trfEnt_eq layout entLeft
      simp only [tblOff_eq]
      generalize isBase : layout.pgEntSz * i + pl * layout.plSz = base
      have unit : ∀ x, base ≤ x → x < base + layout.plSz →
          planes pl (x - base) = unitAt layout planes (x - layout.pgEntSz * i) := by
        intro x le lt
        have pos : x - layout.pgEntSz * i = pl * layout.plSz + (x - base) := by omega
        rw [pos, unitAt_of_lt _ (by omega)]
      by_cases last : entLeft ≤ layout.entPl
      · have size : min ((left + 1) * layout.entPl) entLeft = trfEnt layout entLeft := by
          rw [trf, Nat.succ_mul]
          omega
        have inPlane : trfEnt layout entLeft * layout.entrySz ≤ layout.plSz := by
          rw [trf]
          exact Nat.mul_le_mul_right _ (Nat.min_le_left _ _)
        rw [if_pos (by omega), size]
        by_cases range : base ≤ x ∧ x < base + trfEnt layout entLeft * layout.entrySz
        · simp only [if_pos range]
          exact unit x range.1 (by omega)
        · simp only [if_neg range]
      · have size : trfEnt layout entLeft * layout.entrySz = layout.plSz := by
          rw [trf, Nat.min_eq_left (by omega), Layout.plSz]
        have shift : layout.pgEntSz * i + (pl + 1) * layout.plSz = base + layout.plSz := by
          rw [Nat.succ_mul, ← Nat.add_assoc, isBase]
        rw [if_neg (by omega), ih, shift, size, min_succ_mul (by omega), next]
        generalize min (left * layout.entPl) (entLeft - layout.entPl) * layout.entrySz = more
        by_cases inPlane : base ≤ x ∧ x < base + layout.plSz
        · rw [if_neg (by omega), if_pos inPlane, if_pos (by omega), unit x inPlane.1 inPlane.2]
        · rw [if_neg inPlane]
          by_cases beyond : base + layout.plSz ≤ x ∧ x < base + layout.plSz + more
          · rw [if_pos beyond, if_pos (by omega)]
          · rw [if_neg beyond, if_neg (by omega)]

/-! ## A table -/

theorem planesTo_page_left (user : Nat → α) (i entLeft : Nat) (planes : Nat → Nat → α) :
    (planesTo layout user i layout.nPl 0 entLeft planes).2 = entLeft - layout.entPerPg := by
  rw [planesTo_left, layout.nPl_mul_entPl]

theorem planesFrom_page_left (planes : Nat → Nat → α) (i entLeft : Nat) (user : Nat → α) :
    (planesFrom layout planes i layout.nPl 0 entLeft user).2 = entLeft - layout.entPerPg := by
  rw [planesFrom_left, layout.nPl_mul_entPl]

/-- Pages outside the table are left alone. -/
theorem transferTo_frame (start : Nat) (user : Nat → α) (left i entLeft : Nat) (io : PgIo α ω)
    (blk : Nat → PgIo α ω) {pg : Nat} (other : pg < start + i ∨ start + i + left ≤ pg) :
    (transferTo layout start user left i entLeft io blk).1 pg = blk pg := by
  induction left generalizing i entLeft io blk with
  | zero => rfl
  | succ left ih =>
      rw [transferTo, ih _ _ _ _ (by omega), Function.update_of_ne (by omega)]

/-- The pages of the table hold its units, and the OOB area of the buffer. -/
theorem transferTo_spec (start : Nat) (user : Nat → α) (left i entLeft : Nat) (io : PgIo α ω)
    (blk : Nat → PgIo α ω) {j : Nat} (lt : j < left) :
    ((transferTo layout start user left i entLeft io blk).1 (start + i + j)).oob = io.oob ∧
      ∀ y < min layout.entPerPg (entLeft - j * layout.entPerPg) * layout.entrySz,
        unitAt layout
            ((transferTo layout start user left i entLeft io blk).1 (start + i + j)).planes y =
          user (layout.pgEntSz * (i + j) + y) := by
  induction left generalizing i entLeft io blk j with
  | zero => omega
  | succ left ih =>
      rw [transferTo]
      cases j with
      | zero =>
          rw [transferTo_frame _ _ _ _ _ _ _ (Or.inl (by omega)), Nat.add_zero,
            Function.update_self]
          refine ⟨rfl, fun y less => ?_⟩
          rw [Nat.zero_mul, Nat.sub_zero, ← layout.nPl_mul_entPl] at less
          have here := planesTo_spec user i layout.nPl 0 entLeft io.planes less
          simpa using here
      | succ j =>
          have index : start + i + (j + 1) = start + (i + 1) + j := by omega
          have position : i + (j + 1) = i + 1 + j := by omega
          have count : entLeft - (j + 1) * layout.entPerPg =
              entLeft - layout.entPerPg - j * layout.entPerPg := by
            rw [Nat.succ_mul]
            omega
          rw [index, position, count, ← planesTo_page_left user i entLeft io.planes]
          exact ih (i + 1) _ _ _ (by omega)

/-- A transfer from the medium fills the table, up to the entries that are left. -/
theorem transferFrom_spec (start : Nat) (blk : Nat → PgIo α ω) (left i entLeft : Nat)
    (user : Nat → α) (x : Nat) :
    transferFrom layout start blk left i entLeft user x =
      if layout.pgEntSz * i ≤ x ∧
          x < layout.pgEntSz * i + min (left * layout.entPerPg) entLeft * layout.entrySz
      then unitAt layout (blk (start + x / layout.pgEntSz)).planes (x % layout.pgEntSz)
      else user x := by
  induction left generalizing i entLeft user with
  | zero => simp [transferFrom]
  | succ left ih =>
      have step : transferFrom layout start blk (left + 1) i entLeft user =
          transferFrom layout start blk left (i + 1)
            (planesFrom layout (blk (start + i)).planes i layout.nPl 0 entLeft user).2
            (planesFrom layout (blk (start + i)).planes i layout.nPl 0 entLeft user).1 := rfl
      rw [step, ih, planesFrom_page_left, planesFrom_spec, layout.nPl_mul_entPl]
      simp only [Nat.zero_mul, Nat.add_zero]
      have shift : layout.pgEntSz * (i + 1) = layout.pgEntSz * i + layout.pgEntSz := Nat.mul_succ ..
      have here : layout.pgEntSz * i ≤ x → x < layout.pgEntSz * i + layout.pgEntSz →
          x / layout.pgEntSz = i ∧ x % layout.pgEntSz = x - layout.pgEntSz * i := by
        intro le lt
        have pos : 0 < layout.pgEntSz := by omega
        obtain ⟨y, rfl⟩ := Nat.exists_eq_add_of_le le
        have less : y < layout.pgEntSz := by omega
        rw [Nat.mul_add_div pos, Nat.div_eq_of_lt less, Nat.mul_add_mod, Nat.mod_eq_of_lt less]
        omega
      rw [shift]
      by_cases last : entLeft ≤ layout.entPerPg
      · have size : min ((left + 1) * layout.entPerPg) entLeft = min layout.entPerPg entLeft := by
          rw [Nat.succ_mul]
          omega
        have inPage : min layout.entPerPg entLeft * layout.entrySz ≤ layout.pgEntSz :=
          Nat.mul_le_mul_right _ (Nat.min_le_left _ _)
        have none : min (left * layout.entPerPg) (entLeft - layout.entPerPg) = 0 := by omega
        rw [size, none, Nat.zero_mul, if_neg (by omega)]
        by_cases range : layout.pgEntSz * i ≤ x ∧
            x < layout.pgEntSz * i + min layout.entPerPg entLeft * layout.entrySz
        · obtain ⟨div, mod⟩ := here range.1 (by omega)
          rw [if_pos range, if_pos range, div, mod]
        · rw [if_neg range, if_neg range]
      · have size : min layout.entPerPg entLeft * layout.entrySz = layout.pgEntSz := by
          rw [Nat.min_eq_left (by omega), Layout.pgEntSz]
        have total : min ((left + 1) * layout.entPerPg) entLeft * layout.entrySz =
            layout.pgEntSz + min (left * layout.entPerPg) (entLeft - layout.entPerPg) *
              layout.entrySz := by
          rw [Layout.pgEntSz, ← Nat.add_mul, Nat.succ_mul]
          congr 1
          omega
        rw [size, total]
        generalize min (left * layout.entPerPg) (entLeft - layout.entPerPg) * layout.entrySz = more
        by_cases inPage : layout.pgEntSz * i ≤ x ∧ x < layout.pgEntSz * i + layout.pgEntSz
        · obtain ⟨div, mod⟩ := here inPage.1 inPage.2
          rw [if_neg (by omega), if_pos inPage, if_pos (by omega), div, mod]
        · rw [if_neg inPage]
          by_cases beyond : layout.pgEntSz * i + layout.pgEntSz ≤ x ∧
              x < layout.pgEntSz * i + layout.pgEntSz + more
          · rw [if_pos beyond, if_pos (by omega)]
          · rw [if_neg beyond, if_neg (by omega)]

/-- What was transferred to the medium is transferred back. -/
theorem transferFrom_transferTo (start : Nat) (table user : Nat → α) {pgs entLeft : Nat}
    (enough : entLeft ≤ pgs * layout.entPerPg) (io : PgIo α ω) (blk : Nat → PgIo α ω) {x : Nat}
    (lt : x < entLeft * layout.entrySz) :
    transferFrom layout start (transferTo layout start table pgs 0 entLeft io blk).1 pgs 0
      entLeft user x = table x := by
  rw [transferFrom_spec, Nat.min_eq_right enough, Nat.mul_zero, Nat.zero_add,
    if_pos ⟨Nat.zero_le x, lt⟩]
  have pos : 0 < layout.pgEntSz := by
    rw [Layout.pgEntSz]
    apply Nat.mul_pos
    · rcases Nat.eq_zero_or_pos layout.entPerPg with zero | pos
      · rw [zero, Nat.mul_zero, Nat.le_zero] at enough
        rw [enough, Nat.zero_mul] at lt
        omega
      · exact pos
    · rcases Nat.eq_zero_or_pos layout.entrySz with zero | pos
      · rw [zero, Nat.mul_zero] at lt
        omega
      · exact pos
  have page : x / layout.pgEntSz < pgs := by
    rw [Nat.div_lt_iff_lt_mul pos, Layout.pgEntSz, ← Nat.mul_assoc]
    exact lt_of_lt_of_le lt (Nat.mul_le_mul_right _ enough)
  have inPage := Nat.mod_lt x pos
  have split := Nat.div_add_mod x layout.pgEntSz
  have left : x % layout.pgEntSz < min layout.entPerPg
      (entLeft - x / layout.pgEntSz * layout.entPerPg) * layout.entrySz := by
    rcases Nat.le_total layout.entPerPg (entLeft - x / layout.pgEntSz * layout.entPerPg)
      with le | le
    · rw [Nat.min_eq_left le]
      exact inPage
    · have same : x / layout.pgEntSz * layout.entPerPg * layout.entrySz =
          layout.pgEntSz * (x / layout.pgEntSz) := by
        rw [Nat.mul_assoc, Nat.mul_comm, Layout.pgEntSz]
      rw [Nat.min_eq_right le, Nat.sub_mul]
      omega
  have spec := (@transferTo_spec _ _ layout start table pgs 0 entLeft io blk _ page).2 _ left
  rw [Nat.add_zero, Nat.zero_add, split] at spec
  exact spec

end OxCtrl.SeqTransfer
