import Mathlib.Algebra.Order.Ring.Nat
import Mathlib.Data.Nat.Init
import Mathlib.Logic.Function.Iterate

/-!
# Levels of the hierarchical map

`app_hmap_create` builds levels until one fits in a page.  The number of entries of a level is that
of the level below divided by the entries of a page, rounded down, and `app_hmap_get` divides the
index once for each level.
-/

namespace OxCtrl.Hmap

/-! ## Create -/

/-- The size of `struct app_hmap_entry`, which is packed. -/
def entrySz : Nat := 16

/-- `HMAP_MAX_STATIC_SZ` -/
def hmapMaxStaticSz : Nat := 1024 * 1024 * 32

/-- The length of `level` in `struct app_hmap`. -/
def maxLevels : Nat := 8

/-- `struct app_hmap_level`: `buf` of a static table has `tbl_sz` bytes. -/
structure AppHmapLevel where
  level : Nat
  tblSz : Nat
  nEntries : Nat
  useCache : Bool
  deriving DecidableEq, Repr

/-- `struct app_hmap`; `n_levels` is the length of the list. -/
structure AppHmap where
  entPerPg : Nat
  level : List AppHmapLevel
  deriving DecidableEq, Repr

/-- Which allocations of `app_hmap_create` succeed. -/
structure CreateEnv where
  memType : Bool := true
  map : Bool := true
  buf : Nat → Bool := fun _ => true
  staticFlag : Nat → Bool := fun _ => true

/-- `app_hmap_create` returns a map or `NULL`, divides by zero, or writes behind the last level. -/
inductive Created where
  | map (map : AppHmap)
  | null
  | fault
  deriving DecidableEq, Repr

/-- What a round of `app_hmap_create` stores in its level. -/
def newLevel (l lvlEntries : Nat) : AppHmapLevel :=
  let lvlSz := lvlEntries * entrySz % 2 ^ 64
  { level := l, tblSz := lvlSz, nEntries := lvlEntries, useCache := lvlSz > hmapMaxStaticSz }

/-- The loop of `app_hmap_create` with the number of levels that are still free. -/
def createLevels (env : CreateEnv) (plPgSize entPerPg : Nat) :
    Nat → Nat → List AppHmapLevel → Created
  | 0, _, _ => .fault
  | free + 1, lvlEntries, levels =>
      let level := newLevel levels.length lvlEntries
      let next :=
        if level.tblSz > plPgSize then
          if entPerPg = 0 then .fault
          else createLevels env plPgSize entPerPg free (lvlEntries / entPerPg) (levels ++ [level])
        else .map ⟨entPerPg, levels ++ [level]⟩
      if level.useCache then next
      else if ! env.buf level.level then .null
      else if entPerPg = 0 then .fault
      else if ! env.staticFlag level.level then .null
      else next

/-- `app_hmap_create` -/
def appHmapCreate (env : CreateEnv) (entries : UInt64) (plPgSize : UInt32) : Created :=
  if ! env.memType then .null
  else if ! env.map then .null
  else
    createLevels env plPgSize.toNat (plPgSize.toNat / entrySz) maxLevels entries.toNat []

/-! ## Get -/

/-- `app_hmap_lba_up` -/
def appHmapLbaUp (map : AppHmap) (lba : Nat) : Nat :=
  lba / map.entPerPg

/-- The `ppa` of an entry of a static table, if the entry is inside the buffer. -/
def readEntry (level : AppHmapLevel) (buf : Nat → Nat) (index : Nat) : Option Nat :=
  if (index + 1) * entrySz ≤ level.tblSz then some (buf index) else none

/-- The loop of `app_hmap_get` from level `lid` on: the level and the entry where it stops. -/
def getLevels (map : AppHmap) (buf : Nat → Nat → Nat) :
    List AppHmapLevel → Nat → Nat → Option Nat → Option (Nat × Option Nat)
  | [], lid, _, entry => some (lid, entry)
  | level :: rest, lid, upLba, entry =>
      if entry.any (· ≠ 0) then some (lid, entry)
      else
        (if level.useCache then some entry
          else (readEntry level (buf lid) upLba).map some).bind fun entry =>
            if entry.any (· ≠ 0) then some (lid, entry)
            else getLevels map buf rest (lid + 1) (appHmapLbaUp map upLba) entry

/-- `n_entries` of the bottom level. -/
def bottomEntries (map : AppHmap) : Nat :=
  (map.level.head?.map AppHmapLevel.nEntries).getD 0

/-- `app_hmap_get`; there is no result when a table is read outside its buffer. -/
def appHmapGet (map : AppHmap) (buf : Nat → Nat → Nat) (lba : Nat) : Option Nat :=
  if lba > (bottomEntries map + (2 ^ 64 - 1)) % 2 ^ 64 then some (2 ^ 64 - 1)
  else
    (getLevels map buf map.level 0 lba none).map fun (lid, entry) =>
      match entry with
      | none => 0
      | some ppa => if lid = 0 ∨ ppa = 0 then ppa else 0

/-! ## What the levels are for -/

/-- The top level fits a page, and every LBA has an entry of each level above it; the static tables
are read inside their buffers. -/
structure Covers (map : AppHmap) (entries plPgSize : Nat) : Prop where
  top : ∃ level, map.level.getLast? = some level ∧ level.nEntries * entrySz ≤ plPgSize
  index : ∀ lba < entries, ∀ l level, map.level[l]? = some level →
    (appHmapLbaUp map)^[l] lba < level.nEntries
  reads : ∀ lba < entries, ∀ buf, appHmapGet map buf lba ≠ none

/-- All allocations succeed. -/
structure CreateEnv.Full (env : CreateEnv) : Prop where
  memType : env.memType = true
  map : env.map = true
  buf : ∀ l, env.buf l = true
  staticFlag : ∀ l, env.staticFlag l = true

/-- The outcome for all entries and a page size: a covering map, or `NULL` for lack of memory. -/
def CreatedOk (env : CreateEnv) (entries plPgSize : Nat) : Created → Prop
  | .map map => Covers map entries plPgSize
  | .null => ¬ env.Full
  | .fault => False

/-- The numbers of entries that the levels cover: there are few enough for eight levels, the size of
the bottom table wraps only where the table is cached anyway, and a level with another one above it
is a number of whole pages. -/
structure EntriesOk (entries plPgSize entPerPg : Nat) : Prop where
  page : 0 < entPerPg
  levels : entries / entPerPg ^ 7 ≤ entPerPg
  size : entries * entrySz < 2 ^ 64 ∨
    hmapMaxStaticSz < entries * entrySz % 2 ^ 64 ∧ plPgSize < entries * entrySz % 2 ^ 64
  whole : ∀ l, entPerPg < entries / entPerPg ^ l → entPerPg ^ (l + 1) ∣ entries

/-! ## Division once per level -/

theorem iterate_lbaUp (map : AppHmap) (l lba : Nat) :
    (appHmapLbaUp map)^[l] lba = lba / map.entPerPg ^ l := by
  induction l with
  | zero => rw [Function.iterate_zero_apply, Nat.pow_zero, Nat.div_one]
  | succ l ih =>
      rw [Function.iterate_succ_apply', ih, appHmapLbaUp, Nat.div_div_eq_div_mul, Nat.pow_succ]

/-- The last key of a table has an entry above it when the table is a number of whole pages. -/
theorem index_lt_iff_dvd {entries : Nat} (size : Nat) (pos : 0 < entries) :
    (∀ lba < entries, lba / size < entries / size) ↔ size ∣ entries := by
  constructor
  · intro below
    obtain ⟨last, rfl⟩ := Nat.exists_eq_succ_of_ne_zero (Nat.ne_of_gt pos)
    have lt := below last (Nat.lt_succ_self last)
    rw [Nat.succ_eq_add_one, Nat.succ_div] at lt
    by_contra partial'
    rw [if_neg partial', Nat.add_zero] at lt
    exact Nat.lt_irrefl _ lt
  · intro whole lba lt
    exact Nat.div_lt_div_of_lt_of_dvd whole lt

variable {entries plPgSize entPerPg : Nat}

theorem entries_antitone (pos : 0 < entPerPg) {low high : Nat} (le : low ≤ high) :
    entries / entPerPg ^ high ≤ entries / entPerPg ^ low :=
  Nat.div_le_div_left (Nat.pow_le_pow_right pos le) (Nat.pow_pos pos)

/-! ## The loop -/

/-- The bottom levels up to a number. -/
def levelsUpTo (entries entPerPg count : Nat) : List AppHmapLevel :=
  (List.range count).map fun l => newLevel l (entries / entPerPg ^ l)

theorem levelsUpTo_succ (entries entPerPg count : Nat) :
    levelsUpTo entries entPerPg (count + 1) =
      levelsUpTo entries entPerPg count ++ [newLevel count (entries / entPerPg ^ count)] := by
  rw [levelsUpTo, List.range_succ, List.map_append]
  rfl

theorem length_levelsUpTo (entries entPerPg count : Nat) :
    (levelsUpTo entries entPerPg count).length = count := by
  rw [levelsUpTo, List.length_map, List.length_range]

theorem getElem?_levelsUpTo {count l : Nat} {level : AppHmapLevel} :
    (levelsUpTo entries entPerPg count)[l]? = some level ↔
      l < count ∧ level = newLevel l (entries / entPerPg ^ l) := by
  rw [levelsUpTo, List.getElem?_map, Option.map_eq_some_iff]
  constructor
  · rintro ⟨other, isOther, rfl⟩
    obtain ⟨lt, rfl⟩ := List.getElem?_eq_some_iff.mp isOther
    rw [List.length_range] at lt
    rw [List.getElem_range]
    exact ⟨lt, rfl⟩
  · rintro ⟨lt, rfl⟩
    exact ⟨l, List.getElem?_range lt, rfl⟩

/-- The size of a level, as the code computes it. -/
def tblSzAt (entries entPerPg l : Nat) : Nat :=
  entries / entPerPg ^ l * entrySz % 2 ^ 64

/-- The outcome of the loop from a level on. -/
def LoopOk (env : CreateEnv) (entries plPgSize entPerPg first : Nat) : Created → Prop
  | .map map => ∃ top, top < maxLevels ∧
      map = ⟨entPerPg, levelsUpTo entries entPerPg (top + 1)⟩ ∧
      tblSzAt entries entPerPg top ≤ plPgSize ∧
      ∀ l, first ≤ l → l < top → plPgSize < tblSzAt entries entPerPg l
  | .null => ¬ env.Full
  | .fault => entPerPg = 0 ∨
      ∀ l, first ≤ l → l < maxLevels → plPgSize < tblSzAt entries entPerPg l

theorem LoopOk.down {env : CreateEnv} {first : Nat} {created : Created}
    (large : plPgSize < tblSzAt entries entPerPg first)
    (ok : LoopOk env entries plPgSize entPerPg (first + 1) created) :
    LoopOk env entries plPgSize entPerPg first created := by
  have extend : ∀ {bound : Nat},
      (∀ l, first + 1 ≤ l → l < bound → plPgSize < tblSzAt entries entPerPg l) →
        ∀ l, first ≤ l → l < bound → plPgSize < tblSzAt entries entPerPg l := by
    intro bound above l le lt
    rcases Nat.eq_or_lt_of_le le with rfl | later
    · exact large
    · exact above l later lt
  cases created with
  | map map =>
      obtain ⟨top, lt, eq, fits, above⟩ := ok
      exact ⟨top, lt, eq, fits, extend above⟩
  | null => exact ok
  | fault => exact ok.imp_right extend

theorem createLevels_spec (env : CreateEnv) (entries plPgSize entPerPg free first : Nat)
    (total : first + free = maxLevels) :
    LoopOk env entries plPgSize entPerPg first
      (createLevels env plPgSize entPerPg free (entries / entPerPg ^ first)
        (levelsUpTo entries entPerPg first)) := by
  induction free generalizing first with
  | zero =>
      refine Or.inr fun l le lt => absurd lt (Nat.not_lt.mpr ?_)
      rw [← total]
      exact le
  | succ free ih =>
      have nextOk : LoopOk env entries plPgSize entPerPg first
          (if (newLevel first (entries / entPerPg ^ first)).tblSz > plPgSize then
            if entPerPg = 0 then .fault
            else createLevels env plPgSize entPerPg free (entries / entPerPg ^ first / entPerPg)
              (levelsUpTo entries entPerPg first ++ [newLevel first (entries / entPerPg ^ first)])
          else .map ⟨entPerPg,
            levelsUpTo entries entPerPg first ++
              [newLevel first (entries / entPerPg ^ first)]⟩) := by
        rw [← levelsUpTo_succ]
        split
        · rename_i large
          split
          · rename_i none
            exact Or.inl none
          · rw [Nat.div_div_eq_div_mul, ← Nat.pow_succ]
            exact (ih (first + 1) (by omega)).down large
        · rename_i fits
          refine ⟨first, by omega, rfl, Nat.not_lt.mp fits, fun l le lt => ?_⟩
          exact absurd lt (Nat.not_lt.mpr le)
      simp only [createLevels, length_levelsUpTo]
      split
      · exact nextOk
      · split
        · rename_i noBuf
          intro full
          rw [full.buf] at noBuf
          cases noBuf
        · split
          · rename_i none
            exact Or.inl none
          · rename_i some
            rw [if_neg some] at nextOk
            split
            · rename_i noFlag
              intro full
              rw [full.staticFlag] at noFlag
              cases noFlag
            · exact nextOk

/-- `app_hmap_create` has the outcome of its loop, or lacks memory for the map. -/
theorem appHmapCreate_spec (env : CreateEnv) (entries : UInt64) (plPgSize : UInt32) :
    LoopOk env entries.toNat plPgSize.toNat (plPgSize.toNat / entrySz) 0
      (appHmapCreate env entries plPgSize) := by
  rw [appHmapCreate]
  split
  · rename_i noType
    intro full
    rw [full.memType] at noType
    cases noType
  · split
    · rename_i noMap
      intro full
      rw [full.map] at noMap
      cases noMap
    · have spec := createLevels_spec env entries.toNat plPgSize.toNat (plPgSize.toNat / entrySz)
        maxLevels 0 (Nat.zero_add _)
      rw [Nat.pow_zero, Nat.div_one] at spec
      exact spec

/-! ## When the levels cover the entries -/

/-- The entries of a page are divided by when there are none. -/
theorem createLevels_no_entries {env : CreateEnv} (full : env.Full) (small : plPgSize < entrySz)
    (free lvlEntries : Nat) (levels : List AppHmapLevel) :
    createLevels env plPgSize 0 (free + 1) lvlEntries levels = .fault := by
  simp only [createLevels, full.buf]
  split
  · rename_i useCache
    have large : hmapMaxStaticSz < (newLevel levels.length lvlEntries).tblSz :=
      of_decide_eq_true useCache
    rw [if_pos (Nat.lt_trans small (Nat.lt_trans (by decide) large)), if_pos trivial]
  · rfl

theorem appHmapCreate_no_entries {env : CreateEnv} (full : env.Full) (entries : UInt64)
    {plPgSize : UInt32} (none : plPgSize.toNat / entrySz = 0) :
    appHmapCreate env entries plPgSize = .fault := by
  have small : plPgSize.toNat < entrySz := (Nat.div_eq_zero_iff.mp none).resolve_left (by decide)
  rw [appHmapCreate, full.memType, full.map, none]
  exact createLevels_no_entries full small 7 entries.toNat []

/-- Levels above the bottom are too small for their size to wrap. -/
theorem size_above (pos : 0 < entPerPg) (lt : entries < 2 ^ 64)
    (levels : entries / entPerPg ^ 7 ≤ entPerPg) (size : 2 ^ 64 ≤ entries * entrySz) {l : Nat}
    (above : 0 < l) :
    entries / entPerPg ^ l * entrySz < 2 ^ 64 := by
  have enough : entrySz ≤ entPerPg := by
    by_contra few
    have le : entPerPg ≤ 15 := Nat.le_of_lt_succ (Nat.not_le.mp few)
    have power : entPerPg ^ 7 ≤ 15 ^ 7 := Nat.pow_le_pow_left le 7
    have quotient : entries / entPerPg ^ 7 ≤ 15 := Nat.le_trans levels le
    have bound : entries < (15 + 1) * entPerPg ^ 7 :=
      (Nat.div_lt_iff_lt_mul (Nat.pow_pos pos)).mp (Nat.lt_succ_of_le quotient)
    have total : (15 + 1) * entPerPg ^ 7 ≤ (15 + 1) * 15 ^ 7 := Nat.mul_le_mul_left _ power
    rw [entrySz] at size
    omega
  calc entries / entPerPg ^ l * entrySz
      ≤ entries / entPerPg ^ 1 * entrySz := Nat.mul_le_mul_right _ (entries_antitone pos above)
    _ ≤ entries / entPerPg * entPerPg := by
        rw [Nat.pow_one]
        exact Nat.mul_le_mul_left _ enough
    _ ≤ entries := Nat.div_mul_le_self _ _
    _ < 2 ^ 64 := lt

theorem tblSzAt_le (entries entPerPg l : Nat) :
    tblSzAt entries entPerPg l ≤ entries / entPerPg ^ l * entrySz :=
  Nat.mod_le _ _

theorem fits_page_iff (page : entPerPg = plPgSize / entrySz) (count : Nat) :
    count * entrySz ≤ plPgSize ↔ count ≤ entPerPg := by
  rw [page]
  exact (Nat.le_div_iff_mul_le (by decide)).symm

/-- A level that is larger than a page has more entries than a page. -/
theorem entries_gt (page : entPerPg = plPgSize / entrySz) {l : Nat}
    (large : plPgSize < tblSzAt entries entPerPg l) : entPerPg < entries / entPerPg ^ l := by
  by_contra few
  have fits := (fits_page_iff page _).mpr (Nat.not_lt.mp few)
  exact Nat.not_le.mpr large (Nat.le_trans (tblSzAt_le ..) fits)

/-- Only the size of the bottom level wraps, and what is left is too large for a static table and
for a page. -/
theorem EntriesOk.size_at (ok : EntriesOk entries plPgSize entPerPg) (lt : entries < 2 ^ 64)
    (l : Nat) :
    tblSzAt entries entPerPg l = entries / entPerPg ^ l * entrySz ∨
      l = 0 ∧ hmapMaxStaticSz < tblSzAt entries entPerPg 0 ∧
        plPgSize < tblSzAt entries entPerPg 0 := by
  by_cases small : entries * entrySz < 2 ^ 64
  · left
    exact Nat.mod_eq_of_lt
      (Nat.lt_of_le_of_lt (Nat.mul_le_mul_right _ (Nat.div_le_self _ _)) small)
  · rcases Nat.eq_zero_or_pos l with rfl | above
    · right
      rw [tblSzAt, Nat.pow_zero, Nat.div_one]
      exact ⟨rfl, ok.size.resolve_left small⟩
    · left
      exact Nat.mod_eq_of_lt (size_above ok.page lt ok.levels (Nat.not_lt.mp small) above)

/-- The loop does not pass the last level. -/
theorem EntriesOk.not_all_large (ok : EntriesOk entries plPgSize entPerPg)
    (page : entPerPg = plPgSize / entrySz) :
    ¬ ∀ l, 0 ≤ l → l < maxLevels → plPgSize < tblSzAt entries entPerPg l := by
  intro large
  exact Nat.not_le.mpr (entries_gt page (large 7 (Nat.zero_le _) (by decide))) ok.levels

theorem getLevels_ne_none (map : AppHmap) (buf : Nat → Nat → Nat) (levels : List AppHmapLevel)
    (lid upLba : Nat) (entry : Option Nat)
    (inside : ∀ i level, levels[i]? = some level → level.useCache = false →
      (upLba / map.entPerPg ^ i + 1) * entrySz ≤ level.tblSz) :
    getLevels map buf levels lid upLba entry ≠ none := by
  induction levels generalizing lid upLba entry with
  | nil => exact Option.some_ne_none _
  | cons level rest ih =>
      have insideRest : ∀ i level, rest[i]? = some level → level.useCache = false →
          (appHmapLbaUp map upLba / map.entPerPg ^ i + 1) * entrySz ≤ level.tblSz := by
        intro i level isLevel static
        rw [appHmapLbaUp, Nat.div_div_eq_div_mul, ← Nat.pow_succ']
        exact inside (i + 1) level isLevel static
      rw [getLevels]
      split
      · exact Option.some_ne_none _
      · cases cached : level.useCache with
        | true =>
            rw [if_pos rfl, Option.bind_some]
            split
            · exact Option.some_ne_none _
            · exact ih _ _ _ insideRest
        | false =>
            have first := inside 0 level rfl cached
            rw [Nat.pow_zero, Nat.div_one] at first
            rw [readEntry, if_pos first]
            simp only [Bool.false_eq_true, if_false, Option.map_some, Option.bind_some]
            split
            · exact Option.some_ne_none _
            · exact ih _ _ _ insideRest

/-- The map of the loop covers the entries. -/
theorem EntriesOk.covers (ok : EntriesOk entries plPgSize entPerPg) (lt : entries < 2 ^ 64)
    (page : entPerPg = plPgSize / entrySz) {top : Nat}
    (fits : tblSzAt entries entPerPg top ≤ plPgSize)
    (large : ∀ l, 0 ≤ l → l < top → plPgSize < tblSzAt entries entPerPg l) :
    Covers ⟨entPerPg, levelsUpTo entries entPerPg (top + 1)⟩ entries plPgSize := by
  have index : ∀ lba < entries, ∀ l, l < top + 1 →
      lba / entPerPg ^ l < entries / entPerPg ^ l := by
    intro lba below l level
    cases l with
    | zero =>
        rw [Nat.pow_zero, Nat.div_one, Nat.div_one]
        exact below
    | succ l =>
        have more := entries_gt page (large l (Nat.zero_le _) (Nat.lt_of_succ_lt_succ level))
        exact Nat.div_lt_div_of_lt_of_dvd (ok.whole l more) below
  refine ⟨?_, ?_, ?_⟩
  · refine ⟨newLevel top (entries / entPerPg ^ top), ?_, ?_⟩
    · rw [levelsUpTo_succ, List.getLast?_concat]
    · rcases ok.size_at lt top with eq | ⟨rfl, _, wraps⟩
      · rw [eq] at fits
        exact fits
      · exact absurd fits (Nat.not_le.mpr wraps)
  · intro lba below l level isLevel
    obtain ⟨lower, rfl⟩ := getElem?_levelsUpTo.mp isLevel
    rw [iterate_lbaUp]
    exact index lba below l lower
  · intro lba below buf
    rw [appHmapGet]
    split
    · exact Option.some_ne_none _
    · intro none
      refine getLevels_ne_none _ buf _ 0 lba Option.none (fun l level isLevel static => ?_)
        (Option.map_eq_none_iff.mp none)
      obtain ⟨lower, rfl⟩ := getElem?_levelsUpTo.mp isLevel
      rcases ok.size_at lt l with eq | ⟨rfl, wraps, _⟩
      · exact (Nat.mul_le_mul_right entrySz (index lba below l lower)).trans (Nat.le_of_eq eq.symm)
      · exact absurd wraps (of_decide_eq_false static)

theorem pos_of_wraps (wraps : 2 ^ 64 ≤ entries * entrySz) : 0 < entries := by
  refine Nat.pos_of_ne_zero fun none => ?_
  rw [none, Nat.zero_mul] at wraps
  exact absurd wraps (by decide)

/-- A bottom table whose size has wrapped is read behind its buffer. -/
theorem get_wrapped (entPerPg : Nat) (levels : List AppHmapLevel) (lt : entries < 2 ^ 64)
    (wraps : 2 ^ 64 ≤ entries * entrySz)
    (static : entries * entrySz % 2 ^ 64 ≤ hmapMaxStaticSz) (buf : Nat → Nat → Nat) :
    appHmapGet ⟨entPerPg, newLevel 0 entries :: levels⟩ buf (entries - 1) = none := by
  have pos := pos_of_wraps wraps
  have last : (entries + (2 ^ 64 - 1)) % 2 ^ 64 = entries - 1 := by omega
  have cached : (newLevel 0 entries).useCache = false := decide_eq_false (Nat.not_lt.mpr static)
  have outside : readEntry (newLevel 0 entries) (buf 0) (entries - 1) = none := by
    rw [readEntry, if_neg]
    rw [Nat.sub_add_cancel pos]
    exact fun inside => absurd (Nat.le_trans wraps inside)
      (Nat.not_le.mpr (Nat.mod_lt _ (by decide)))
  rw [appHmapGet, if_neg, getLevels, cached, outside]
  · rfl
  · simp only [bottomEntries, List.head?_cons, Option.map_some, Option.getD_some, newLevel, last]
    exact Nat.lt_irrefl _

/-- Only entries of this kind are covered by the map of the loop. -/
theorem EntriesOk.of_covers (lt : entries < 2 ^ 64) (page : entPerPg = plPgSize / entrySz)
    (pos : 0 < entPerPg) (pageLt : plPgSize < 2 ^ 32) {top : Nat} (slots : top < maxLevels)
    (fits : tblSzAt entries entPerPg top ≤ plPgSize)
    (large : ∀ l, 0 ≤ l → l < top → plPgSize < tblSzAt entries entPerPg l)
    (covers : Covers ⟨entPerPg, levelsUpTo entries entPerPg (top + 1)⟩ entries plPgSize) :
    EntriesOk entries plPgSize entPerPg := by
  have atTop : entries / entPerPg ^ top * entrySz ≤ plPgSize := by
    obtain ⟨level, isTop, le⟩ := covers.top
    rw [levelsUpTo_succ, List.getLast?_concat] at isTop
    rw [← Option.some.inj isTop] at le
    exact le
  have fewAtTop := (fits_page_iff page _).mp atTop
  refine ⟨pos, ?_, ?_, ?_⟩
  · exact Nat.le_trans (entries_antitone pos (Nat.le_of_lt_succ slots)) fewAtTop
  · by_contra wraps
    rw [not_or, Nat.not_lt, not_and_or, Nat.not_lt, Nat.not_lt] at wraps
    obtain ⟨wraps, small⟩ := wraps
    have bottom : tblSzAt entries entPerPg 0 = entries * entrySz % 2 ^ 64 := by
      rw [tblSzAt, Nat.pow_zero, Nat.div_one]
    have later : 0 < top := by
      rcases Nat.eq_zero_or_pos top with rfl | later
      · rw [Nat.pow_zero, Nat.div_one] at atTop
        exact absurd (Nat.le_trans wraps atTop)
          (Nat.not_le.mpr (Nat.lt_trans pageLt (by decide)))
      · exact later
    have static : entries * entrySz % 2 ^ 64 ≤ hmapMaxStaticSz :=
      small.resolve_right (Nat.not_le.mpr (bottom ▸ large 0 (Nat.le_refl _) later))
    have levels : levelsUpTo entries entPerPg (top + 1) =
        newLevel 0 entries ::
          (List.range' 1 top).map fun l => newLevel l (entries / entPerPg ^ l) := by
      rw [levelsUpTo, List.range_eq_range', List.range'_succ, List.map_cons, Nat.pow_zero,
        Nat.div_one]
    have none := get_wrapped entPerPg ((List.range' 1 top).map fun l =>
      newLevel l (entries / entPerPg ^ l)) lt wraps static fun _ _ => 0
    rw [← levels] at none
    exact covers.reads (entries - 1) (Nat.sub_one_lt_of_lt (pos_of_wraps wraps)) _ none
  · intro l more
    have below : l < top := by
      by_contra above
      exact absurd (Nat.le_trans (entries_antitone pos (Nat.not_lt.mp above)) fewAtTop)
        (Nat.not_le.mpr more)
    have some : 0 < entries :=
      Nat.lt_of_lt_of_le (Nat.zero_lt_of_lt more) (Nat.div_le_self _ _)
    refine (index_lt_iff_dvd _ some).mp fun lba lt => ?_
    have index := covers.index lba lt (l + 1) _
      (getElem?_levelsUpTo.mpr ⟨Nat.succ_lt_succ below, rfl⟩)
    rw [iterate_lbaUp] at index
    exact index

theorem full_default : ({} : CreateEnv).Full :=
  ⟨rfl, rfl, fun _ => rfl, fun _ => rfl⟩

/-- For every number of entries and every size of a page, the levels are created with a top level
that fits a page and an entry for every LBA exactly for these numbers of entries. -/
theorem create_covers_iff (entries : UInt64) (plPgSize : UInt32) :
    (∀ env : CreateEnv, CreatedOk env entries.toNat plPgSize.toNat
        (appHmapCreate env entries plPgSize)) ↔
      EntriesOk entries.toNat plPgSize.toNat (plPgSize.toNat / entrySz) := by
  constructor
  · intro always
    have pos : 0 < plPgSize.toNat / entrySz := by
      refine Nat.pos_of_ne_zero fun none => ?_
      have outcome := always {}
      rw [appHmapCreate_no_entries full_default entries none] at outcome
      exact outcome
    have spec := appHmapCreate_spec {} entries plPgSize
    have outcome := always {}
    cases created : appHmapCreate {} entries plPgSize with
    | map map =>
        rw [created] at spec outcome
        obtain ⟨top, slots, rfl, fits, large⟩ := spec
        exact EntriesOk.of_covers entries.toNat_lt rfl pos plPgSize.toNat_lt slots
          fits large outcome
    | null =>
        rw [created] at outcome
        exact absurd full_default outcome
    | fault =>
        rw [created] at outcome
        cases outcome
  · intro ok env
    have spec := appHmapCreate_spec env entries plPgSize
    cases created : appHmapCreate env entries plPgSize with
    | map map =>
        rw [created] at spec
        obtain ⟨top, _, rfl, fits, large⟩ := spec
        exact ok.covers entries.toNat_lt rfl fits large
    | null =>
        rw [created] at spec
        exact spec
    | fault =>
        rw [created] at spec
        rcases spec with none | large
        · exact absurd none (Nat.ne_of_gt ok.page)
        · exact ok.not_all_large rfl large

/-- With 2048 entries in a page, 2049 entries have one entry above them, and the last LBA is read
behind it. -/
theorem partial_page_not_covered :
    ¬ CreatedOk {} 2049 32768 (appHmapCreate {} 2049 32768) := by
  have created : appHmapCreate {} 2049 32768 =
      .map ⟨2048, [⟨0, 32784, 2049, false⟩, ⟨1, 16, 1, false⟩]⟩ := by decide
  rw [created]
  intro covers
  exact absurd (covers.index 2048 (by decide) 1 _ rfl) (by decide)

end OxCtrl.Hmap
