import OxCtrl.Lib.Buffer
import OxCtrl.SeqTransfer

/-!
# Transfer of a table in memory

`ftl_nvm_seq_transfer` over the bytes of the table and of the I/O buffer.  A copy has no result when
it leaves one of them.  The number of a page has 12 bits.
-/

namespace OxCtrl.SeqTransfer.Bytes

open OxCtrl.Lib

/-! ## The transfer -/

/-- `NVM_TRANS_TO_NVM` and `NVM_TRANS_FROM_NVM`. -/
inductive Direction where
  | toNvm
  | fromNvm
  deriving DecidableEq, Repr

/-- `pg_sz` and `meta_sz` of `struct nvm_io_data`, and `MMGR_FLAG_PL_CMD`. -/
structure IoGeo where
  pgSz : Nat
  metaSz : Nat
  plCmd : Bool

variable (layout : Layout) (geo : IoGeo)

/-- `buf_sz` in `ftl_alloc_pg_io`. -/
def bufSz : Nat :=
  (geo.pgSz + geo.metaSz) * layout.nPl

/-- `pl_vec`, as an offset in `buf`: `ftl_pl_pg_io_prepare` or `ftl_pg_io_prepare`. -/
def plVec (pl : Nat) : Nat :=
  if geo.plCmd then pl * geo.pgSz else pl * (bufSz layout geo / layout.nPl)

/-- The I/O buffer, the table and the pages of the block. -/
structure MemState where
  buf : List UInt8
  user : List UInt8
  blk : Nat → List UInt8

/-- `memcpy`, which touches no byte when there are none to copy. -/
def copyBytes (dst : List UInt8) (dstOff : Nat) (src : List UInt8) (srcOff n : Nat) :
    Option (List UInt8) :=
  if n = 0 then some dst else memcpy dst dstOff src srcOff n

/-- The copy of a plane. -/
def copyPlane (direction : Direction) (i pl entLeft : Nat) (mem : MemState) : Option MemState :=
  let trfSz := trfEnt layout entLeft * layout.entrySz
  match direction with
  | .toNvm =>
      (copyBytes mem.buf (plVec layout geo pl) mem.user (tblOff layout i pl) trfSz).map
        fun buf => { mem with buf := buf }
  | .fromNvm =>
      (copyBytes mem.user (tblOff layout i pl) mem.buf (plVec layout geo pl) trfSz).map
        fun user => { mem with user := user }

/-- The loop over the planes of page `i`, and the entries that are left. -/
def copyPlanes (direction : Direction) (i : Nat) :
    Nat → Nat → Nat → MemState → Option (MemState × Nat)
  | 0, _, entLeft, mem => some (mem, entLeft)
  | left + 1, pl, entLeft, mem =>
      (copyPlane layout geo direction i pl entLeft mem).bind fun mem =>
        let entLeft := nextLeft layout entLeft
        if entLeft = 0 then some (mem, entLeft)
        else copyPlanes direction i left (pl + 1) entLeft mem

/-- The page of round `i`: `ppa_io.g.pg` has 12 bits. -/
def pageOf (start i : Nat) : Nat :=
  (start + i) % 2 ^ 12

/-- `ftl_nvm_seq_transfer` for `left` pages from round `i` on, with its return value; `ok` says in
which rounds the page I/O succeeds. -/
def ftlNvmSeqTransfer (ok : Nat → Bool) (direction : Direction) (start : Nat) :
    Nat → Nat → Nat → MemState → Option (MemState × Int)
  | 0, _, _, mem => some (mem, 0)
  | left + 1, i, entLeft, mem =>
      match direction with
      | .fromNvm =>
          if ! ok i then some (mem, -1)
          else
            (copyPlanes layout geo .fromNvm i layout.nPl 0 entLeft
              { mem with buf := mem.blk (pageOf start i) }).bind fun (mem, entLeft) =>
                ftlNvmSeqTransfer ok .fromNvm start left (i + 1) entLeft mem
      | .toNvm =>
          (copyPlanes layout geo .toNvm i layout.nPl 0 entLeft mem).bind fun (mem, entLeft) =>
            if ! ok i then some (mem, -1)
            else
              ftlNvmSeqTransfer ok .toNvm start left (i + 1) entLeft
                { mem with blk := Function.update mem.blk (pageOf start i) mem.buf }

/-! ## A longer table -/

/-- More bytes behind the table. -/
def MemState.extend (mem : MemState) (rest : List UInt8) : MemState :=
  { mem with user := mem.user ++ rest }

variable {layout geo}

theorem copyBytes_append_src {dst src out : List UInt8} {dstOff srcOff n : Nat}
    (copied : copyBytes dst dstOff src srcOff n = some out) (rest : List UInt8) :
    copyBytes dst dstOff (src ++ rest) srcOff n = some out := by
  rw [copyBytes] at copied ⊢
  split
  · rename_i none
    rw [if_pos none] at copied
    exact copied
  · rename_i some
    rw [if_neg some] at copied
    exact memcpy_append_src copied rest

theorem copyBytes_append_dst {dst src out : List UInt8} {dstOff srcOff n : Nat}
    (copied : copyBytes dst dstOff src srcOff n = some out) (rest : List UInt8) :
    copyBytes (dst ++ rest) dstOff src srcOff n = some (out ++ rest) := by
  rw [copyBytes] at copied ⊢
  split
  · rename_i none
    rw [if_pos none] at copied
    rw [Option.some.inj copied]
  · rename_i some
    rw [if_neg some] at copied
    exact memcpy_append_dst copied rest

theorem copyPlane_extend {direction : Direction} {i pl entLeft : Nat} {mem after : MemState}
    (copied : copyPlane layout geo direction i pl entLeft mem = some after) (rest : List UInt8) :
    copyPlane layout geo direction i pl entLeft (mem.extend rest) = some (after.extend rest) := by
  cases direction with
  | toNvm =>
      obtain ⟨buf, isBuf, rfl⟩ := Option.map_eq_some_iff.mp copied
      exact Option.map_eq_some_iff.mpr ⟨buf, copyBytes_append_src isBuf rest, rfl⟩
  | fromNvm =>
      obtain ⟨user, isUser, rfl⟩ := Option.map_eq_some_iff.mp copied
      exact Option.map_eq_some_iff.mpr ⟨user ++ rest, copyBytes_append_dst isUser rest, rfl⟩

theorem copyPlanes_extend {direction : Direction} {i left pl entLeft next : Nat}
    {mem after : MemState}
    (copied : copyPlanes layout geo direction i left pl entLeft mem = some (after, next))
    (rest : List UInt8) :
    copyPlanes layout geo direction i left pl entLeft (mem.extend rest) =
      some (after.extend rest, next) := by
  induction left generalizing pl entLeft mem with
  | zero =>
      obtain ⟨rfl, rfl⟩ := Prod.mk.inj (Option.some.inj copied)
      rfl
  | succ left ih =>
      rw [copyPlanes] at copied ⊢
      obtain ⟨plane, isPlane, copied⟩ := Option.bind_eq_some_iff.mp copied
      rw [copyPlane_extend isPlane rest, Option.bind_some]
      by_cases last : nextLeft layout entLeft = 0
      · rw [if_pos last] at copied ⊢
        obtain ⟨rfl, rfl⟩ := Prod.mk.inj (Option.some.inj copied)
        rfl
      · rw [if_neg last] at copied ⊢
        exact ih copied

/-- A transfer that stays inside a table does the same with a longer one, whose other bytes it
neither reads nor writes. -/
theorem transfer_extend {ok : Nat → Bool} {direction : Direction} {start left i entLeft : Nat}
    {ret : Int} {mem after : MemState}
    (transferred : ftlNvmSeqTransfer layout geo ok direction start left i entLeft mem =
      some (after, ret)) (rest : List UInt8) :
    ftlNvmSeqTransfer layout geo ok direction start left i entLeft (mem.extend rest) =
      some (after.extend rest, ret) := by
  induction left generalizing i entLeft mem with
  | zero =>
      obtain ⟨rfl, rfl⟩ := Prod.mk.inj (Option.some.inj transferred)
      rfl
  | succ left ih =>
      cases direction with
      | fromNvm =>
          rw [ftlNvmSeqTransfer] at transferred ⊢
          split
          · rename_i failed
            rw [if_pos failed] at transferred
            obtain ⟨rfl, rfl⟩ := Prod.mk.inj (Option.some.inj transferred)
            rfl
          · rename_i succeeds
            rw [if_neg succeeds] at transferred
            obtain ⟨⟨page, next⟩, isPage, transferred⟩ := Option.bind_eq_some_iff.mp transferred
            exact Option.bind_eq_some_iff.mpr
              ⟨(page.extend rest, next), copyPlanes_extend isPage rest, ih transferred⟩
      | toNvm =>
          rw [ftlNvmSeqTransfer] at transferred ⊢
          obtain ⟨⟨page, next⟩, isPage, transferred⟩ := Option.bind_eq_some_iff.mp transferred
          refine Option.bind_eq_some_iff.mpr
            ⟨(page.extend rest, next), copyPlanes_extend isPage rest, ?_⟩
          dsimp only at transferred ⊢
          split
          · rename_i failed
            rw [if_pos failed] at transferred
            obtain ⟨rfl, rfl⟩ := Prod.mk.inj (Option.some.inj transferred)
            rfl
          · rename_i succeeds
            rw [if_neg succeeds] at transferred
            exact ih transferred

/-! ## The bytes of a page and of a table -/

/-- A buffer with these planes. -/
structure Holds (layout : Layout) (geo : IoGeo) (buf : List UInt8) (planes : Nat → Nat → UInt8) :
    Prop where
  length : buf.length = bufSz layout geo
  byte : ∀ pl < layout.nPl, ∀ off < geo.pgSz,
    buf[plVec layout geo pl + off]? = some (planes pl off)

/-- A list with these bytes. -/
def IsTable (user : List UInt8) (table : Nat → UInt8) : Prop :=
  ∀ x < user.length, user[x]? = some (table x)

theorem plVec_eq (layout : Layout) (geo : IoGeo) :
    ∃ stride, geo.pgSz ≤ stride ∧ layout.nPl * stride ≤ bufSz layout geo ∧
      ∀ pl, plVec layout geo pl = pl * stride := by
  cases plCmd : geo.plCmd with
  | true =>
      refine ⟨geo.pgSz, Nat.le_refl _, ?_, fun pl => by rw [plVec, if_pos plCmd]⟩
      rw [bufSz, Nat.mul_comm]
      exact Nat.mul_le_mul_right _ (Nat.le_add_right ..)
  | false =>
      refine ⟨geo.pgSz + geo.metaSz, Nat.le_add_right .., ?_, fun pl => ?_⟩
      · rw [bufSz, Nat.mul_comm]
      · rw [plVec, if_neg (by rw [plCmd]; decide), bufSz, Nat.mul_div_cancel _ layout.pl_pos]

theorem plVec_add_le (geo : IoGeo) {pl : Nat} (lt : pl < layout.nPl) :
    plVec layout geo pl + geo.pgSz ≤ bufSz layout geo := by
  obtain ⟨stride, le, whole, eq⟩ := plVec_eq layout geo
  have next : (pl + 1) * stride ≤ layout.nPl * stride := Nat.mul_le_mul_right _ lt
  rw [Nat.succ_mul] at next
  rw [eq]
  omega

/-- The planes do not overlap. -/
theorem plVec_apart {pl other off x : Nat} (ne : other ≠ pl) (inPage : off < geo.pgSz)
    (inOther : x < geo.pgSz) :
    plVec layout geo other + x ≠ plVec layout geo pl + off := by
  obtain ⟨stride, le, -, eq⟩ := plVec_eq layout geo
  rw [eq, eq]
  rcases Nat.lt_or_gt_of_ne ne with lt | lt
  · have next : (other + 1) * stride ≤ pl * stride := Nat.mul_le_mul_right _ lt
    rw [Nat.succ_mul] at next
    omega
  · have next : (pl + 1) * stride ≤ other * stride := Nat.mul_le_mul_right _ lt
    rw [Nat.succ_mul] at next
    omega

theorem copyBytes_spec {dst src : List UInt8} {dstOff srcOff n : Nat}
    (inside : n ≠ 0 → dstOff + n ≤ dst.length ∧ srcOff + n ≤ src.length) :
    ∃ out, copyBytes dst dstOff src srcOff n = some out ∧ out.length = dst.length ∧
      ∀ x, out[x]? =
        if dstOff ≤ x ∧ x < dstOff + n then src[srcOff + (x - dstOff)]? else dst[x]? := by
  by_cases none : n = 0
  · subst none
    refine ⟨dst, if_pos rfl, rfl, fun x => ?_⟩
    rw [if_neg (by omega)]
  · obtain ⟨dstWithin, srcWithin⟩ := inside none
    obtain ⟨out, copied, length, -⟩ := memcpy_eq dst src dstOff srcOff n dstWithin srcWithin
    refine ⟨out, ?_, length, getElem?_memcpy copied⟩
    rw [copyBytes, if_neg none, copied]

/-! ## A plane -/

theorem trf_le_plSz (entLeft : Nat) : trfEnt layout entLeft * layout.entrySz ≤ layout.plSz := by
  rw [trfEnt_eq]
  exact Nat.mul_le_mul_right _ (Nat.min_le_left _ _)

/-- A copy that moves bytes ends inside of the entries. -/
theorem tblOff_add_le {total i pl entLeft : Nat}
    (isLeft : entLeft = total - (i * layout.entPerPg + pl * layout.entPl))
    (some : trfEnt layout entLeft * layout.entrySz ≠ 0) :
    tblOff layout i pl + trfEnt layout entLeft * layout.entrySz ≤ total * layout.entrySz := by
  have position : tblOff layout i pl =
      (i * layout.entPerPg + pl * layout.entPl) * layout.entrySz := by
    rw [tblOff_eq, Layout.pgEntSz, Layout.plSz, Nat.add_mul]
    ring
  have count := @trfEnt_eq layout entLeft
  have pos : 0 < trfEnt layout entLeft := Nat.pos_of_ne_zero fun none =>
    some (by rw [none, Nat.zero_mul])
  rw [position, ← Nat.add_mul]
  exact Nat.mul_le_mul_right _ (by omega)

variable {table : Nat → UInt8} {planes : Nat → Nat → UInt8}

theorem copyPlane_toNvm (mem : MemState) (fits : layout.plSz ≤ geo.pgSz)
    (holds : Holds layout geo mem.buf planes)
    (isTable : IsTable mem.user table) {total i pl entLeft : Nat}
    (length : total * layout.entrySz ≤ mem.user.length)
    (isLeft : entLeft = total - (i * layout.entPerPg + pl * layout.entPl))
    (lt : pl < layout.nPl) :
    ∃ buf, copyPlane layout geo .toNvm i pl entLeft mem = some { mem with buf := buf } ∧
      Holds layout geo buf (Function.update planes pl fun off =>
        if off < trfEnt layout entLeft * layout.entrySz then table (tblOff layout i pl + off)
        else planes pl off) := by
  have small := Nat.le_trans (@trf_le_plSz layout entLeft) fits
  have whole := plVec_add_le geo lt
  have inside : trfEnt layout entLeft * layout.entrySz ≠ 0 →
      plVec layout geo pl + trfEnt layout entLeft * layout.entrySz ≤ mem.buf.length ∧
        tblOff layout i pl + trfEnt layout entLeft * layout.entrySz ≤ mem.user.length := by
    intro some
    rw [holds.length]
    exact ⟨by omega, Nat.le_trans (tblOff_add_le isLeft some) length⟩
  obtain ⟨buf, copied, same, bytes⟩ := copyBytes_spec inside
  refine ⟨buf, ?_, same.trans holds.length, fun other otherLt off offLt => ?_⟩
  · rw [copyPlane, copied, Option.map_some]
  · rw [bytes]
    by_cases here : other = pl
    · subst here
      rw [Function.update_self]
      by_cases moved : off < trfEnt layout entLeft * layout.entrySz
      · have bound := (inside (Nat.ne_of_gt (Nat.zero_lt_of_lt moved))).2
        rw [if_pos ⟨Nat.le_add_right .., Nat.add_lt_add_left moved _⟩, if_pos moved,
          Nat.add_sub_cancel_left]
        exact isTable _ (by omega)
      · rw [if_neg fun within => moved (Nat.lt_of_add_lt_add_left within.2), if_neg moved]
        exact holds.byte other otherLt off offLt
    · rw [Function.update_of_ne here, if_neg, holds.byte other otherLt off offLt]
      rintro ⟨le, lt⟩
      obtain ⟨x, eq⟩ := Nat.exists_eq_add_of_le le
      exact plVec_apart here (by omega) offLt eq

theorem copyPlane_fromNvm (mem : MemState) (fits : layout.plSz ≤ geo.pgSz)
    (holds : Holds layout geo mem.buf planes) (isTable : IsTable mem.user table)
    {total i pl entLeft : Nat} (length : total * layout.entrySz ≤ mem.user.length)
    (isLeft : entLeft = total - (i * layout.entPerPg + pl * layout.entPl))
    (lt : pl < layout.nPl) :
    ∃ user, copyPlane layout geo .fromNvm i pl entLeft mem = some { mem with user := user } ∧
      user.length = mem.user.length ∧
      IsTable user fun x =>
        if tblOff layout i pl ≤ x ∧ x < tblOff layout i pl + trfEnt layout entLeft * layout.entrySz
        then planes pl (x - tblOff layout i pl) else table x := by
  have small := Nat.le_trans (@trf_le_plSz layout entLeft) fits
  have whole := plVec_add_le geo lt
  have inside : trfEnt layout entLeft * layout.entrySz ≠ 0 →
      tblOff layout i pl + trfEnt layout entLeft * layout.entrySz ≤ mem.user.length ∧
        plVec layout geo pl + trfEnt layout entLeft * layout.entrySz ≤ mem.buf.length := by
    intro some
    rw [holds.length]
    exact ⟨Nat.le_trans (tblOff_add_le isLeft some) length, by omega⟩
  obtain ⟨user, copied, same, bytes⟩ := copyBytes_spec inside
  refine ⟨user, ?_, same, fun x inTable => ?_⟩
  · rw [copyPlane, copied, Option.map_some]
  · rw [bytes]
    by_cases range : tblOff layout i pl ≤ x ∧
        x < tblOff layout i pl + trfEnt layout entLeft * layout.entrySz
    · simp only [if_pos range]
      exact holds.byte pl lt _ (by omega)
    · simp only [if_neg range]
      exact isTable x (same ▸ inTable)

/-! ## A page -/

theorem nextLeft_sub {total i pl entLeft : Nat}
    (isLeft : entLeft = total - (i * layout.entPerPg + pl * layout.entPl)) :
    nextLeft layout entLeft = total - (i * layout.entPerPg + (pl + 1) * layout.entPl) := by
  rw [nextLeft_eq, isLeft, Nat.sub_sub, Nat.succ_mul, Nat.add_assoc]

theorem first_left {total i entLeft : Nat} (isLeft : entLeft = total - i * layout.entPerPg) :
    entLeft = total - (i * layout.entPerPg + 0 * layout.entPl) := by
  rw [isLeft, Nat.zero_mul, Nat.add_zero]

theorem copyPlanes_toNvm (mem : MemState) (fits : layout.plSz ≤ geo.pgSz)
    (isTable : IsTable mem.user table)
    {total : Nat} (length : total * layout.entrySz ≤ mem.user.length) {i left pl entLeft : Nat}
    (isLeft : entLeft = total - (i * layout.entPerPg + pl * layout.entPl))
    (count : pl + left = layout.nPl) {buf : List UInt8} (holds : Holds layout geo buf planes) :
    ∃ after, copyPlanes layout geo .toNvm i left pl entLeft { mem with buf := buf } =
        some ({ mem with buf := after }, (planesTo layout table i left pl entLeft planes).2) ∧
      Holds layout geo after (planesTo layout table i left pl entLeft planes).1 := by
  induction left generalizing pl entLeft buf planes with
  | zero => exact ⟨buf, rfl, holds⟩
  | succ left ih =>
      obtain ⟨plane, copied, holdsPlane⟩ := copyPlane_toNvm { mem with buf := buf } fits
        holds isTable length isLeft (by omega)
      rw [copyPlanes, copied, Option.bind_some, planesTo]
      by_cases last : nextLeft layout entLeft = 0
      · simp only [if_pos last]
        exact ⟨plane, rfl, holdsPlane⟩
      · simp only [if_neg last]
        exact ih (nextLeft_sub isLeft) (by omega) holdsPlane

theorem copyPlanes_fromNvm (mem : MemState) (fits : layout.plSz ≤ geo.pgSz)
    (holds : Holds layout geo mem.buf planes) {total i left pl entLeft : Nat}
    (isLeft : entLeft = total - (i * layout.entPerPg + pl * layout.entPl))
    (count : pl + left = layout.nPl) {user : List UInt8}
    (length : total * layout.entrySz ≤ user.length) (isTable : IsTable user table) :
    ∃ after, copyPlanes layout geo .fromNvm i left pl entLeft { mem with user := user } =
        some ({ mem with user := after }, (planesFrom layout planes i left pl entLeft table).2) ∧
      after.length = user.length ∧
      IsTable after (planesFrom layout planes i left pl entLeft table).1 := by
  induction left generalizing pl entLeft user table with
  | zero => exact ⟨user, rfl, rfl, isTable⟩
  | succ left ih =>
      obtain ⟨plane, copied, same, isPlane⟩ := copyPlane_fromNvm { mem with user := user } fits
        holds isTable length isLeft (by omega)
      rw [copyPlanes, copied, Option.bind_some, planesFrom]
      by_cases last : nextLeft layout entLeft = 0
      · simp only [if_pos last]
        exact ⟨plane, rfl, same, isPlane⟩
      · simp only [if_neg last]
        obtain ⟨after, eq, sameAfter, isAfter⟩ := ih (nextLeft_sub isLeft) (by omega)
          (same ▸ length) isPlane
        exact ⟨after, eq, sameAfter.trans same, isAfter⟩

/-! ## All pages -/

/-- Page I/O that always succeeds. -/
abbrev succeeds : Nat → Bool := fun _ => true

/-- Rounds that are less than 4096 apart have different pages. -/
theorem pageOf_ne {start i j : Nat} (lt : j < i) (near : i < j + 2 ^ 12) :
    pageOf start j ≠ pageOf start i := by
  rw [pageOf, pageOf]
  omega

/-- The pages of the last 4096 rounds are those of the transfer without memory. -/
def PagesHold (layout : Layout) (geo : IoGeo) (start rounds : Nat) (pages : Nat → List UInt8)
    (blk : Nat → PgIo UInt8 Unit) : Prop :=
  ∀ j < rounds, rounds ≤ j + 2 ^ 12 →
    Holds layout geo (pages (pageOf start j)) (blk (start + j)).planes

theorem PagesHold.write {start i : Nat} {pages : Nat → List UInt8} {blk : Nat → PgIo UInt8 Unit}
    (held : PagesHold layout geo start i pages blk) {buf : List UInt8} {page : PgIo UInt8 Unit}
    (holds : Holds layout geo buf page.planes) :
    PagesHold layout geo start (i + 1) (Function.update pages (pageOf start i) buf)
      (Function.update blk (start + i) page) := by
  intro j lt near
  rcases Nat.lt_succ_iff_lt_or_eq.mp lt with before | rfl
  · rw [Function.update_of_ne (pageOf_ne before (by omega)), Function.update_of_ne (by omega)]
    exact held j before (by omega)
  · rw [Function.update_self, Function.update_self]
    exact holds

theorem transfer_toNvm (start left : Nat) (fits : layout.plSz ≤ geo.pgSz) {user : List UInt8}
    (isTable : IsTable user table) {total : Nat} (length : total * layout.entrySz ≤ user.length)
    {i entLeft : Nat} (isLeft : entLeft = total - i * layout.entPerPg)
    {buf : List UInt8} {io : PgIo UInt8 Unit} (holds : Holds layout geo buf io.planes)
    {pages : Nat → List UInt8} {blk : Nat → PgIo UInt8 Unit}
    (held : PagesHold layout geo start i pages blk) :
    ∃ bufAfter pagesAfter,
      ftlNvmSeqTransfer layout geo succeeds .toNvm start left i entLeft ⟨buf, user, pages⟩ =
          some (⟨bufAfter, user, pagesAfter⟩, 0) ∧
        PagesHold layout geo start (i + left) pagesAfter
          (transferTo layout start table left i entLeft io blk).1 := by
  induction left generalizing i entLeft buf io pages blk with
  | zero => exact ⟨buf, pages, rfl, held⟩
  | succ left ih =>
      obtain ⟨page, copied, holdsPage⟩ := copyPlanes_toNvm ⟨buf, user, pages⟩ fits isTable length
        (first_left isLeft) (Nat.zero_add layout.nPl) holds
      have next : (planesTo layout table i layout.nPl 0 entLeft io.planes).2 =
          total - (i + 1) * layout.entPerPg := by
        rw [planesTo_page_left, isLeft, Nat.sub_sub, Nat.succ_mul]
      let ioNext : PgIo UInt8 Unit :=
        { io with planes := (planesTo layout table i layout.nPl 0 entLeft io.planes).1 }
      have holdsNext : Holds layout geo page ioNext.planes := holdsPage
      obtain ⟨bufAfter, pagesAfter, eq, heldAfter⟩ := ih next holdsNext (held.write holdsNext)
      refine ⟨bufAfter, pagesAfter, ?_, ?_⟩
      · rw [ftlNvmSeqTransfer, copied, Option.bind_some]
        exact eq
      · rw [show i + (left + 1) = i + 1 + left by omega]
        exact heldAfter

theorem transfer_fromNvm (start left : Nat) (buf : List UInt8) (fits : layout.plSz ≤ geo.pgSz)
    {total i entLeft : Nat} (isLeft : entLeft = total - i * layout.entPerPg) {user : List UInt8}
    (length : total * layout.entrySz ≤ user.length) (isTable : IsTable user table)
    {pages : Nat → List UInt8} {blk : Nat → PgIo UInt8 Unit}
    (held : ∀ j, i ≤ j → j < i + left →
      Holds layout geo (pages (pageOf start j)) (blk (start + j)).planes) :
    ∃ bufAfter after,
      ftlNvmSeqTransfer layout geo succeeds .fromNvm start left i entLeft ⟨buf, user, pages⟩ =
          some (⟨bufAfter, after, pages⟩, 0) ∧
        after.length = user.length ∧
        IsTable after (transferFrom layout start blk left i entLeft table) := by
  induction left generalizing i entLeft buf user table with
  | zero => exact ⟨buf, user, rfl, rfl, isTable⟩
  | succ left ih =>
      obtain ⟨page, copied, same, isPage⟩ :=
        copyPlanes_fromNvm ⟨pages (pageOf start i), user, pages⟩ fits
          (held i (Nat.le_refl _) (by omega)) (first_left isLeft) (Nat.zero_add layout.nPl) length
        isTable
      have next : (planesFrom layout (blk (start + i)).planes i layout.nPl 0 entLeft table).2 =
          total - (i + 1) * layout.entPerPg := by
        rw [planesFrom_page_left, isLeft, Nat.sub_sub, Nat.succ_mul]
      obtain ⟨bufAfter, after, eq, sameAfter, isAfter⟩ := ih _ next (same ▸ length) isPage
        fun j le lt => held j (by omega) (by omega)
      refine ⟨bufAfter, after, ?_, sameAfter.trans same, isAfter⟩
      rw [ftlNvmSeqTransfer]
      simp only [Bool.not_true, Bool.false_eq_true, if_false]
      rw [copied, Option.bind_some]
      exact eq

/-! ## The round trip -/

/-- A transfer to NVM and one from NVM stay inside of the entries of the table, whatever stands
behind them, and the second one restores them. -/
def RoundTrip (layout : Layout) (geo : IoGeo) (start pgs entLeft : Nat) (buf : List UInt8)
    (pages : Nat → List UInt8) (table : List UInt8) : Prop :=
  ∃ bufWritten written,
    (∀ rest, ftlNvmSeqTransfer layout geo succeeds .toNvm start pgs 0 entLeft
        ⟨buf, table ++ rest, pages⟩ = some (⟨bufWritten, table ++ rest, written⟩, 0)) ∧
      ∀ bufRead user : List UInt8, user.length = entLeft * layout.entrySz → ∃ bufAfter, ∀ rest,
        ftlNvmSeqTransfer layout geo succeeds .fromNvm start pgs 0 entLeft
          ⟨bufRead, user ++ rest, written⟩ = some (⟨bufAfter, table ++ rest, written⟩, 0)

/-- The bytes of a list as a table. -/
def tableOf (user : List UInt8) : Nat → UInt8 :=
  fun x => user.getD x 0

theorem isTable_tableOf (user : List UInt8) : IsTable user (tableOf user) := by
  intro x lt
  rw [tableOf, List.getD_eq_getElem?_getD, List.getElem?_eq_getElem lt, Option.getD_some]

/-- The planes of a buffer. -/
def planesOf (layout : Layout) (geo : IoGeo) (buf : List UInt8) : Nat → Nat → UInt8 :=
  fun pl off => buf.getD (plVec layout geo pl + off) 0

theorem holds_planesOf {buf : List UInt8} (length : buf.length = bufSz layout geo) :
    Holds layout geo buf (planesOf layout geo buf) where
  length := length
  byte pl lt off inPage := by
    have whole := plVec_add_le geo lt
    exact isTable_tableOf buf _ (by omega)

/-- What a transfer to NVM leaves in the pages of its last 4096 rounds. -/
theorem toNvm_pages (start pgs : Nat) (fits : layout.plSz ≤ geo.pgSz) {entLeft : Nat}
    {buf : List UInt8}
    (bufLength : buf.length = bufSz layout geo) (pages : Nat → List UInt8) {user : List UInt8}
    (length : user.length = entLeft * layout.entrySz) :
    ∃ bufAfter written,
      ftlNvmSeqTransfer layout geo succeeds .toNvm start pgs 0 entLeft ⟨buf, user, pages⟩ =
          some (⟨bufAfter, user, written⟩, 0) ∧
        PagesHold layout geo start pgs written
          (transferTo layout start (tableOf user) pgs 0 entLeft ⟨planesOf layout geo buf, ()⟩
            fun _ => ⟨fun _ _ => 0, ()⟩).1 := by
  have none : PagesHold layout geo start 0 pages fun _ => ⟨fun _ _ => 0, ()⟩ :=
    fun j lt => absurd lt (Nat.not_lt_zero j)
  have isLeft : entLeft = entLeft - 0 * layout.entPerPg := by rw [Nat.zero_mul, Nat.sub_zero]
  have io : Holds layout geo buf (⟨planesOf layout geo buf, ()⟩ : PgIo UInt8 Unit).planes :=
    holds_planesOf bufLength
  obtain ⟨bufAfter, written, eq, held⟩ := transfer_toNvm start pgs fits
    (isTable_tableOf user) (Nat.le_of_eq length.symm) isLeft io none
  rw [Nat.zero_add] at held
  exact ⟨bufAfter, written, eq, held⟩

/-- A table of up to 4096 pages, with entries of any size that fits the planes, is restored. -/
theorem seq_transfer_round_trip (fits : layout.plSz ≤ geo.pgSz) {start pgs entLeft : Nat}
    (blockPages : pgs ≤ 2 ^ 12) (enough : entLeft ≤ pgs * layout.entPerPg) {buf : List UInt8}
    (bufLength : buf.length = bufSz layout geo) (pages : Nat → List UInt8) {table : List UInt8}
    (length : table.length = entLeft * layout.entrySz) :
    RoundTrip layout geo start pgs entLeft buf pages table := by
  obtain ⟨bufWritten, written, wrote, held⟩ :=
    toNvm_pages start pgs fits bufLength pages length
  refine ⟨bufWritten, written, transfer_extend wrote, fun bufRead user userLength => ?_⟩
  have isLeft : entLeft = entLeft - 0 * layout.entPerPg := by rw [Nat.zero_mul, Nat.sub_zero]
  obtain ⟨bufAfter, after, read, same, isAfter⟩ := transfer_fromNvm start pgs bufRead fits isLeft
    (Nat.le_of_eq userLength.symm) (isTable_tableOf user)
    fun j _ lt => held j (by omega) (by omega)
  have restored : after = table := by
    refine List.ext_getElem? fun x => ?_
    by_cases lt : x < entLeft * layout.entrySz
    · rw [isAfter x (by omega), isTable_tableOf table x (by omega),
        transferFrom_transferTo start (tableOf table) (tableOf user) enough _ _ lt]
    · rw [List.getElem?_eq_none (by omega), List.getElem?_eq_none (by omega)]
  subst restored
  exact ⟨bufAfter, transfer_extend read⟩

/-- Two entries of two bytes in each of two planes. -/
def twoPlanes : Layout where
  nPl := 2
  entPerPg := 4
  entrySz := 2
  pl_pos := Nat.two_pos
  aligned := Nat.dvd_mul_left 2 2

/-- Planes with a byte that no entry uses, and an OOB area behind each. -/
def twoPlanesGeo : IoGeo := ⟨5, 3, false⟩

/-- Seven entries in the two last pages of a block: the last plane has one. -/
theorem round_trip_two :
    RoundTrip twoPlanes twoPlanesGeo 4094 2 7 (List.replicate (bufSz twoPlanes twoPlanesGeo) 0xff)
      (fun _ => []) [1, 2, 3, 4, 5, 6, 7, 8, 9, 10, 11, 12, 13, 14] :=
  seq_transfer_round_trip (by decide) (by decide) (by decide) List.length_replicate (fun _ => [])
    rfl

/-! ## One byte a page -/

/-- One entry of one byte in the only plane of a page. -/
def oneByte : Layout where
  nPl := 1
  entPerPg := 1
  entrySz := 1
  pl_pos := Nat.one_pos
  aligned := Nat.dvd_refl 1

/-- Pages of one byte. -/
def oneByteGeo : IoGeo := ⟨1, 0, true⟩

/-- The pages as a transfer without memory reads them. -/
def pagesOf (layout : Layout) (geo : IoGeo) (pages : Nat → List UInt8) : Nat → PgIo UInt8 Unit :=
  fun pg => ⟨planesOf layout geo (pages (pg % 2 ^ 12)), ()⟩

/-- The byte of the only plane. -/
theorem Holds.first {buf : List UInt8} {planes : Nat → Nat → UInt8}
    (holds : Holds oneByte oneByteGeo buf planes) : buf.getD 0 0 = planes 0 0 := by
  have byte := holds.byte 0 Nat.one_pos 0 Nat.one_pos
  rw [List.getD_eq_getElem?_getD]
  exact congrArg (fun found => Option.getD found 0) byte

/-- A transfer of 4097 bytes to NVM leaves the last one in the first page. -/
theorem wrapped_first {user : List UInt8} {written : Nat → List UInt8} {io : PgIo UInt8 Unit}
    {blk : Nat → PgIo UInt8 Unit}
    (held : PagesHold oneByte oneByteGeo 0 4097 written
      (transferTo oneByte 0 (tableOf user) 4097 0 4097 io blk).1) :
    (written 0).length = 1 ∧ (written 0).getD 0 0 = tableOf user 4096 := by
  have last := held 4096 (by decide) (by decide)
  rw [show pageOf 0 4096 = 0 by decide] at last
  refine ⟨last.length, last.first.trans ?_⟩
  have spec := (@transferTo_spec _ _ oneByte 0 (tableOf user) 4097 0 4097 io blk 4096
    (by decide)).2 0 (by decide)
  rw [unitAt, Nat.zero_div, Nat.zero_mod, Nat.zero_add 0,
    show oneByte.pgEntSz * (0 + 4096) + 0 = 4096 by decide] at spec
  exact spec

/-- A table of 4097 entries: the last page takes the place of the first one. -/
theorem wrapped_page_lost :
    ¬ RoundTrip oneByte oneByteGeo 0 4097 4097 [0] (fun _ => []) (1 :: List.replicate 4096 0) := by
  have fits : oneByte.plSz ≤ oneByteGeo.pgSz := by decide
  have first : tableOf (1 :: List.replicate 4096 0) 0 = 1 := rfl
  have last : tableOf (1 :: List.replicate 4096 0) 4096 = 0 := by
    rw [tableOf, List.getD_cons_succ, List.getD_eq_getElem?_getD, List.getElem?_replicate]
    rfl
  have length : (1 :: List.replicate 4096 0 : List UInt8).length = 4097 * oneByte.entrySz := by
    rw [List.length_cons, List.length_replicate]
    rfl
  generalize (1 :: List.replicate 4096 0 : List UInt8) = user at first last length ⊢
  have bufLength : ([0] : List UInt8).length = bufSz oneByte oneByteGeo := rfl
  obtain ⟨bufWritten, written, wrote, held⟩ :=
    toNvm_pages 0 4097 fits bufLength (fun _ => []) length
  rintro ⟨bufOther, other, wroteOther, readOther⟩
  have same := (wroteOther []).symm.trans (transfer_extend wrote [])
  obtain rfl : other = written :=
    congrArg MemState.blk (congrArg Prod.fst (Option.some.inj same))
  obtain ⟨firstLength, firstByte⟩ := wrapped_first held
  have readable : ∀ j, 0 ≤ j → j < 0 + 4097 → Holds oneByte oneByteGeo (other (pageOf 0 j))
      (pagesOf oneByte oneByteGeo other (0 + j)).planes := by
    intro j _ lt
    refine holds_planesOf ?_
    rcases Nat.eq_zero_or_pos j with rfl | pos
    · exact firstLength
    · exact (held j (by omega) (by omega)).length
  have isLeft : 4097 = 4097 - 0 * oneByte.entPerPg := rfl
  obtain ⟨bufAfter, after, read, sameLength, isAfter⟩ := transfer_fromNvm 0 4097 [] fits isLeft
    (Nat.le_of_eq length.symm) (isTable_tableOf user) readable
  obtain ⟨bufRead, readBack⟩ := readOther [] user length
  have restored := (readBack []).symm.trans (transfer_extend read [])
  have eq : user ++ [] = after ++ [] :=
    congrArg MemState.user (congrArg Prod.fst (Option.some.inj restored))
  rw [List.append_nil, List.append_nil] at eq
  subst eq
  have inTable : 0 < user.length := by
    rw [length]
    decide
  have byte := (isAfter 0 inTable).symm.trans (isTable_tableOf user 0 inTable)
  rw [transferFrom_spec, if_pos (by decide), first] at byte
  have read0 : (other 0).getD 0 0 = 1 := Option.some.inj byte
  rw [firstByte, last] at read0
  exact absurd read0 (by decide)

end OxCtrl.SeqTransfer.Bytes
