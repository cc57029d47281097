import OxCtrl.GlMap.Cache

/-!
# Links of a mapping cache

What the lists of a cache, the small table with its immutable copy and the addresses in the cache
entries say about each other, apart from the contents of pages.  A checkpoint copies the small
table, and then goes through the used list to replace each pointer in the copy by the address of
the page.
-/

namespace OxCtrl.GlMap

/-- The links of the cache of a channel. -/
@[ext]
structure Links where
  free : List Nat
  used : List Nat
  nused : Nat
  /-- The cache entry that a load of the page has taken off the free list. -/
  loading : Nat → Option Nat
  entry : Nat → Nat
  immut : Nat → Nat
  mdEntry : Nat → Option Nat
  ppa : Nat → Nat
  dirty : Nat → Bool

variable {conf : Conf} {links : Links} {out : Option Nat} {off slot addr : Nat}
  {rest todo later visited : List Nat}

namespace Links

/-! ## Operations -/

/-- A load of a page takes the first free entry. -/
def take (links : Links) (off slot : Nat) (rest : List Nat) : Links :=
  { links with free := rest, loading := Function.update links.loading off (some slot) }

/-- The load links the entry to the page. -/
def link (links : Links) (off slot : Nat) : Links :=
  { links with
    used := links.used ++ [slot]
    nused := links.nused + 1
    loading := Function.update links.loading off none
    entry := Function.update links.entry off (mapAddrFlag + slot)
    mdEntry := Function.update links.mdEntry slot (some off)
    ppa := Function.update links.ppa slot (links.entry off)
    dirty := Function.update links.dirty slot (decide (links.entry off = 0) || links.dirty slot) }

/-- The load fails. -/
def fail (links : Links) (off slot : Nat) : Links :=
  { links with
    free := slot :: links.free
    loading := Function.update links.loading off none }

/-- An entry becomes the hottest one. -/
def touch (links : Links) (slot : Nat) : Links :=
  { links with used := links.used.erase slot ++ [slot] }

/-- An update sets the dirty flag of an entry. -/
def soil (links : Links) (slot : Nat) : Links :=
  { links with dirty := Function.update links.dirty slot true }

/-- An entry of the small table is copied. -/
def copy (links : Links) (off : Nat) : Links :=
  { links with immut := Function.update links.immut off (links.entry off) }

/-- The first used entry is taken off the list. -/
def unlink (links : Links) (rest : List Nat) : Links :=
  { links with used := rest, nused := links.nused - 1 }

/-- A page gets a new address. -/
def move (links : Links) (slot addr : Nat) : Links :=
  { links with ppa := Function.update links.ppa slot addr }

/-- The dirty flag of an entry is cleared. -/
def clean (links : Links) (slot : Nat) : Links :=
  { links with dirty := Function.update links.dirty slot false }

/-- The address of a page goes to the immutable table. -/
def setImmut (links : Links) (off addr : Nat) : Links :=
  { links with immut := Function.update links.immut off addr }

/-- The address of a page goes to the small table. -/
def writeBack (links : Links) (off addr : Nat) : Links :=
  { links with entry := Function.update links.entry off addr }

/-- A cache entry forgets its page. -/
def release (links : Links) (slot : Nat) : Links :=
  { links with
    ppa := Function.update links.ppa slot 0
    mdEntry := Function.update links.mdEntry slot none }

/-- A cache entry becomes free. -/
def insert (links : Links) (slot : Nat) : Links :=
  { links with free := slot :: links.free }

/-- NVM address of a mapping page; zero if it was never written. -/
def current (links : Links) (off : Nat) : Nat :=
  if addrFlag (links.entry off) then links.ppa (addrPtr (links.entry off)) else links.entry off

/-! ## Invariant -/

/-- The cache entry holds the page. -/
structure Held (conf : Conf) (links : Links) (off slot : Nat) : Prop where
  off_lt : off < conf.entries
  mdEntry : links.mdEntry slot = some off
  entry : links.entry off = mapAddrFlag + slot

theorem Held.congr {links' : Links} (held : Held conf links off slot)
    (mdEntry : links'.mdEntry slot = links.mdEntry slot)
    (entry : links'.entry off = links.entry off) : Held conf links' off slot :=
  ⟨held.off_lt, mdEntry.trans held.mdEntry, entry.trans held.entry⟩

/-- No page is in the cache entry. -/
def Unused (conf : Conf) (links : Links) (slot : Nat) : Prop :=
  ∀ off < conf.entries, links.entry off ≠ mapAddrFlag + slot

/-- The cache entry has no page and no address. -/
def Blank (links : Links) (slot : Nat) : Prop :=
  links.ppa slot = 0 ∧ links.mdEntry slot = none

/-- The cache entry is free, or a load has taken it. -/
def Idle (links : Links) (slot : Nat) : Prop :=
  slot ∈ links.free ∨ ∃ off, links.loading off = some slot

/-- The cache entry is linked, or `out` of the list. -/
def Busy (links : Links) (out : Option Nat) (slot : Nat) : Prop :=
  slot ∈ links.used ∨ out = some slot

/-- A load of a page has taken a cache entry. -/
structure Loads (conf : Conf) (links : Links) (off slot : Nat) : Prop where
  off_lt : off < conf.entries
  uncached : addrFlag (links.entry off) = false
  fresh : slot ∉ links.free
  alone : ∀ other, links.loading other = some slot → other = off

/-- The lists, the small table and the cache entries agree; `out` is taken off the used list. -/
structure Ok (conf : Conf) (links : Links) (out : Option Nat) : Prop where
  free_nodup : links.free.Nodup
  used_nodup : links.used.Nodup
  out_fresh : ∀ slot, out = some slot → slot ∉ links.used
  apart : ∀ slot, Idle links slot → ¬ Busy links out slot
  below : ∀ slot, Idle links slot ∨ Busy links out slot → slot < conf.cap
  blank : ∀ slot, Idle links slot → Blank links slot
  loads : ∀ off slot, links.loading off = some slot → Loads conf links off slot
  nused : links.nused = links.used.length
  held : ∀ slot ∈ links.used, ∃ off, Held conf links off slot
  flagged : ∀ off < conf.entries, addrFlag (links.entry off) = true →
    ∃ slot, Busy links out slot ∧ Held conf links off slot
  ppa_lt : ∀ slot < conf.cap, links.ppa slot < mapAddrFlag
  unsaved : ∀ slot ∈ links.used, links.ppa slot = 0 → links.dirty slot = true

namespace Ok

/-- The page of an entry of the small table that points to a cache entry. -/
theorem held_of_entry (ok : Ok conf links out) (offLt : off < conf.entries)
    (entry : links.entry off = mapAddrFlag + slot) :
    Busy links out slot ∧ Held conf links off slot := by
  obtain ⟨found, busy, held⟩ := ok.flagged off offLt (by rw [entry, addrFlag_add])
  have same := held.entry
  rw [entry] at same
  obtain rfl : slot = found := by omega
  exact ⟨busy, held⟩

/-- Two pages do not share a cache entry. -/
theorem off_unique (ok : Ok conf links out) {other : Nat} (held : Held conf links off slot)
    (otherLt : other < conf.entries) (entry : links.entry other = mapAddrFlag + slot) :
    other = off := by
  have otherHeld := (ok.held_of_entry otherLt entry).2
  exact Option.some.inj (otherHeld.mdEntry.symm.trans held.mdEntry)

theorem current_of_held (ok : Ok conf links out) (busy : Busy links out slot)
    (held : Held conf links off slot) : links.current off = links.ppa slot := by
  rw [current, held.entry, addrFlag_add, if_pos rfl,
    addrPtr_add ((ok.below slot (Or.inr busy)).trans conf.cap_lt)]

theorem current_of_unflagged (unflagged : addrFlag (links.entry off) = false) :
    links.current off = links.entry off := by
  rw [current, unflagged, if_neg Bool.false_ne_true]

/-- The address of a page depends on its small-table entry and its cache entry. -/
theorem current_congr {links' : Links} (ok : Ok conf links out) (offLt : off < conf.entries)
    (entry : links'.entry off = links.entry off)
    (ppa : ∀ slot, Held conf links off slot → links'.ppa slot = links.ppa slot) :
    links'.current off = links.current off := by
  rw [current, current, entry]
  cases flag : addrFlag (links.entry off) with
  | true =>
      obtain ⟨slot, busy, held⟩ := ok.flagged off offLt flag
      rw [held.entry, addrPtr_add ((ok.below slot (Or.inr busy)).trans conf.cap_lt), ppa slot held]
  | false => rfl

/-- An idle entry holds no page. -/
theorem not_held (ok : Ok conf links out) (idle : Idle links slot) (offLt : off < conf.entries) :
    links.entry off ≠ mapAddrFlag + slot := by
  intro entry
  exact ok.apart slot idle (ok.held_of_entry offLt entry).1

end Ok

/-! ## Loading a page -/

theorem idle_take (free : links.free = slot :: rest) (none : links.loading off = none)
    (found : Nat) : Idle (links.take off slot rest) found ↔ Idle links found := by
  have loads : (∃ other, (links.take off slot rest).loading other = some found) ↔
      found = slot ∨ ∃ other, links.loading other = some found := by
    simp only [take, Function.update_apply]
    constructor
    · rintro ⟨other, eq⟩
      split at eq
      · exact Or.inl (Option.some.inj eq).symm
      · exact Or.inr ⟨other, eq⟩
    · rintro (rfl | ⟨other, eq⟩)
      · exact ⟨off, if_pos rfl⟩
      · refine ⟨other, ?_⟩
        rw [if_neg]
        · exact eq
        · rintro rfl
          rw [none] at eq
          contradiction
  rw [Idle, Idle, loads, free, List.mem_cons]
  simp only [take]
  tauto

theorem Ok.take (ok : Ok conf links out) (free : links.free = slot :: rest)
    (none : links.loading off = none) (offLt : off < conf.entries)
    (uncached : addrFlag (links.entry off) = false) : Ok conf (links.take off slot rest) out := by
  have idle := idle_take free none
  have nodup := ok.free_nodup
  rw [free] at nodup
  refine ⟨(List.nodup_cons.mp nodup).2, ok.used_nodup, ok.out_fresh, ?_, ?_, ?_, ?_, ok.nused, ?_,
    ?_, ok.ppa_lt, ok.unsaved⟩
  · exact fun found mem => ok.apart found ((idle found).mp mem)
  · exact fun found mem => ok.below found (mem.imp (idle found).mp id)
  · exact fun found mem => ok.blank found ((idle found).mp mem)
  · intro other found eq
    have kept (place : Nat) : (links.take off slot rest).loading place = some found →
        place = off ∧ found = slot ∨ links.loading place = some found := by
      intro eq
      simp only [Links.take, Function.update_apply] at eq
      split at eq
      · exact Or.inl ⟨by assumption, (Option.some.inj eq).symm⟩
      · exact Or.inr eq
    have slotFree : slot ∈ links.free := by
      rw [free]
      exact List.mem_cons_self
    rcases kept other eq with ⟨rfl, rfl⟩ | old
    · refine ⟨offLt, uncached, (List.nodup_cons.mp nodup).1, fun place placeEq => ?_⟩
      rcases kept place placeEq with ⟨rfl, -⟩ | placeOld
      · rfl
      · exact absurd slotFree (ok.loads place _ placeOld).fresh
    · have loads := ok.loads other found old
      refine ⟨loads.off_lt, loads.uncached, ?_, fun place placeEq => ?_⟩
      · intro mem
        exact loads.fresh (by rw [free]; exact List.mem_cons_of_mem _ mem)
      · rcases kept place placeEq with ⟨-, rfl⟩ | placeOld
        · exact absurd slotFree loads.fresh
        · exact loads.alone place placeOld
  · intro found mem
    obtain ⟨place, held⟩ := ok.held found mem
    exact ⟨place, held.congr rfl rfl⟩
  · intro place placeLt flag
    obtain ⟨found, busy, held⟩ := ok.flagged place placeLt flag
    exact ⟨found, busy, held.congr rfl rfl⟩

section

variable (ok : Ok conf links out) (loading : links.loading off = some slot)
include ok loading

/-- The entry is not idle any more when the load is over. -/
theorem idle_loaded {links' : Links} {found : Nat} (free : links'.free = links.free)
    (loads : links'.loading = Function.update links.loading off none) :
    Idle links' found ↔ found ≠ slot ∧ Idle links found := by
  have mine := ok.loads off slot loading
  rw [Idle, Idle, free, loads]
  simp only [Function.update_apply]
  constructor
  · rintro (mem | ⟨other, eq⟩)
    · exact ⟨fun same => mine.fresh (same ▸ mem), Or.inl mem⟩
    · split at eq
      · contradiction
      · rename_i differ
        exact ⟨fun same => differ (mine.alone other (same ▸ eq)), Or.inr ⟨other, eq⟩⟩
  · rintro ⟨differ, mem | ⟨other, eq⟩⟩
    · exact Or.inl mem
    · refine Or.inr ⟨other, ?_⟩
      rw [if_neg]
      · exact eq
      · rintro rfl
        exact differ (Option.some.inj (eq.symm.trans loading))

theorem Ok.differ_of_busy {found : Nat} (busy : Busy links out found) : found ≠ slot := by
  rintro rfl
  exact ok.apart found (Or.inr ⟨off, loading⟩) busy

theorem Ok.held_link {other found : Nat} (busy : Busy links out found)
    (held : Held conf links other found) : Held conf (links.link off slot) other found := by
  have differ := ok.differ_of_busy loading busy
  have differOff : other ≠ off := by
    rintro rfl
    have uncached := (ok.loads other slot loading).uncached
    rw [held.entry, addrFlag_add] at uncached
    contradiction
  refine ⟨held.off_lt, ?_, ?_⟩
  · simpa only [link, Function.update_of_ne differ] using held.mdEntry
  · simpa only [link, Function.update_of_ne differOff] using held.entry

theorem Ok.held_slot_link : Held conf (links.link off slot) off slot :=
  ⟨(ok.loads off slot loading).off_lt, Function.update_self _ _ _, Function.update_self _ _ _⟩

omit ok loading in
theorem busy_link {found : Nat} :
    Busy (links.link off slot) out found ↔ found = slot ∨ Busy links out found := by
  simp only [Busy, link, List.mem_append, List.mem_singleton]
  tauto

theorem Ok.link : Ok conf (links.link off slot) out := by
  have mine := ok.loads off slot loading
  have idle (found : Nat) : Idle (links.link off slot) found ↔ found ≠ slot ∧ Idle links found :=
    idle_loaded ok loading rfl rfl
  have slotIdle : Idle links slot := Or.inr ⟨off, loading⟩
  constructor
  case free_nodup => exact ok.free_nodup
  case used_nodup =>
    refine List.nodup_append.mpr ⟨ok.used_nodup, by simp, ?_⟩
    intro found mem last lastMem
    rw [List.mem_singleton.mp lastMem]
    exact ok.differ_of_busy loading (Or.inl mem)
  case out_fresh =>
    intro found eq mem
    rcases List.mem_append.mp mem with used | last
    · exact ok.out_fresh found eq used
    · exact ok.differ_of_busy loading (Or.inr eq) (List.mem_singleton.mp last)
  case apart =>
    intro found foundIdle busy
    obtain ⟨differ, old⟩ := (idle found).mp foundIdle
    exact ok.apart found old ((busy_link.mp busy).resolve_left differ)
  case below =>
    rintro found (foundIdle | busy)
    · exact ok.below found (Or.inl ((idle found).mp foundIdle).2)
    · rcases busy_link.mp busy with rfl | old
      · exact ok.below found (Or.inl slotIdle)
      · exact ok.below found (Or.inr old)
  case blank =>
    intro found foundIdle
    obtain ⟨differ, old⟩ := (idle found).mp foundIdle
    simp only [Blank, Links.link, Function.update_of_ne differ]
    exact ok.blank found old
  case loads =>
    intro other found eq
    simp only [Links.link, Function.update_apply] at eq
    split at eq
    · contradiction
    · rename_i differ
      have loads := ok.loads other found eq
      refine ⟨loads.off_lt, ?_, loads.fresh, fun place placeEq => ?_⟩
      · simpa only [Links.link, Function.update_of_ne differ] using loads.uncached
      · simp only [Links.link, Function.update_apply] at placeEq
        split at placeEq
        · contradiction
        · exact loads.alone place placeEq
  case nused => simp only [Links.link, List.length_append, List.length_singleton, ok.nused]
  case held =>
    intro found mem
    rcases List.mem_append.mp mem with used | last
    · obtain ⟨other, held⟩ := ok.held found used
      exact ⟨other, ok.held_link loading (Or.inl used) held⟩
    · obtain rfl := List.mem_singleton.mp last
      exact ⟨off, ok.held_slot_link loading⟩
  case flagged =>
    intro other otherLt flag
    by_cases same : other = off
    · subst same
      exact ⟨slot, busy_link.mpr (Or.inl rfl), ok.held_slot_link loading⟩
    · simp only [Links.link, Function.update_of_ne same] at flag
      obtain ⟨found, busy, held⟩ := ok.flagged other otherLt flag
      exact ⟨found, busy_link.mpr (Or.inr busy), ok.held_link loading busy held⟩
  case ppa_lt =>
    intro found below
    simp only [Links.link, Function.update_apply]
    split
    · exact addrFlag_eq_false.mp mine.uncached
    · exact ok.ppa_lt found below
  case unsaved =>
    intro found mem
    rcases List.mem_append.mp mem with used | last
    · have differ := ok.differ_of_busy loading (Or.inl used)
      simp only [Links.link, Function.update_of_ne differ]
      exact ok.unsaved found used
    · obtain rfl := List.mem_singleton.mp last
      simp only [Links.link, Function.update_self]
      intro untouched
      rw [untouched, decide_eq_true rfl, Bool.true_or]

/-- Loading a page does not move it. -/
theorem Ok.current_link {other : Nat} (otherLt : other < conf.entries) :
    (links.link off slot).current other = links.current other := by
  have mine := ok.loads off slot loading
  by_cases same : other = off
  · subst same
    rw [(ok.link loading).current_of_held (busy_link.mpr (Or.inl rfl)) (ok.held_slot_link loading),
      current_of_unflagged mine.uncached]
    exact Function.update_self _ _ _
  · apply ok.current_congr otherLt (Function.update_of_ne same _ _)
    intro found held
    apply Function.update_of_ne
    rintro rfl
    exact ok.not_held (Or.inr ⟨off, loading⟩) otherLt held.entry

theorem Ok.fail : Ok conf (links.fail off slot) out := by
  have mine := ok.loads off slot loading
  have idle (found : Nat) : Idle (links.fail off slot) found ↔ Idle links found := by
    have others := @idle_loaded conf links out off slot ok loading
      { links with loading := Function.update links.loading off none } found rfl rfl
    rw [Idle] at others
    rw [Idle]
    simp only [Links.fail, List.mem_cons, or_assoc, others]
    constructor
    · rintro (rfl | ⟨-, old⟩)
      · exact Or.inr ⟨off, loading⟩
      · exact old
    · intro old
      by_cases same : found = slot
      · exact Or.inl same
      · exact Or.inr ⟨same, old⟩
  refine ⟨List.nodup_cons.mpr ⟨mine.fresh, ok.free_nodup⟩, ok.used_nodup, ok.out_fresh, ?_, ?_, ?_,
    ?_, ok.nused, ?_, ?_, ok.ppa_lt, ok.unsaved⟩
  · exact fun found mem => ok.apart found ((idle found).mp mem)
  · exact fun found mem => ok.below found (mem.imp (idle found).mp id)
  · exact fun found mem => ok.blank found ((idle found).mp mem)
  · intro other found eq
    have kept (place : Nat) : (links.fail off slot).loading place = some found →
        place ≠ off ∧ links.loading place = some found := by
      intro eq
      simp only [Links.fail, Function.update_apply] at eq
      split at eq
      · contradiction
      · exact ⟨by assumption, eq⟩
    have old := kept other eq
    have loads := ok.loads other found old.2
    refine ⟨loads.off_lt, loads.uncached, ?_, fun place placeEq =>
      loads.alone place (kept place placeEq).2⟩
    intro mem
    rcases List.mem_cons.mp mem with rfl | free
    · exact old.1 (mine.alone other old.2)
    · exact loads.fresh free
  · intro found mem
    obtain ⟨place, held⟩ := ok.held found mem
    exact ⟨place, held.congr rfl rfl⟩
  · intro place placeLt flag
    obtain ⟨found, busy, held⟩ := ok.flagged place placeLt flag
    exact ⟨found, busy, held.congr rfl rfl⟩

end

/-! ## Steps that keep the links -/

/-- A step that keeps the lists, the small table and the pages of the cache entries. -/
theorem Ok.congr {links' : Links} (ok : Ok conf links out) (free : links'.free = links.free)
    (used : links'.used = links.used) (nused : links'.nused = links.nused)
    (loading : links'.loading = links.loading) (entry : links'.entry = links.entry)
    (mdEntry : links'.mdEntry = links.mdEntry)
    (ppa : ∀ slot, Idle links slot → links'.ppa slot = 0)
    (ppaLt : ∀ slot < conf.cap, links'.ppa slot < mapAddrFlag)
    (unsaved : ∀ slot ∈ links.used, links'.ppa slot = 0 → links'.dirty slot = true) :
    Ok conf links' out := by
  have held (off slot : Nat) (held : Held conf links off slot) : Held conf links' off slot :=
    held.congr (by rw [mdEntry]) (by rw [entry])
  have idle (slot : Nat) : Idle links' slot ↔ Idle links slot := by
    rw [Idle, Idle, free, loading]
  have busy (slot : Nat) : Busy links' out slot ↔ Busy links out slot := by
    rw [Busy, Busy, used]
  constructor
  case free_nodup =>
    rw [free]
    exact ok.free_nodup
  case used_nodup =>
    rw [used]
    exact ok.used_nodup
  case out_fresh =>
    rw [used]
    exact ok.out_fresh
  case apart => exact fun slot mem both => ok.apart slot ((idle slot).mp mem) ((busy slot).mp both)
  case below => exact fun slot mem => ok.below slot (mem.imp (idle slot).mp (busy slot).mp)
  case blank =>
    intro slot mem
    have old := (idle slot).mp mem
    exact ⟨ppa slot old, by rw [mdEntry]; exact (ok.blank slot old).2⟩
  case loads =>
    rw [loading]
    intro off slot eq
    have loads := ok.loads off slot eq
    exact ⟨loads.off_lt, by rw [entry]; exact loads.uncached, by rw [free]; exact loads.fresh,
      by rw [loading]; exact loads.alone⟩
  case nused =>
    rw [nused, used]
    exact ok.nused
  case held =>
    rw [used]
    intro slot mem
    obtain ⟨off, old⟩ := ok.held slot mem
    exact ⟨off, held off slot old⟩
  case flagged =>
    rw [entry]
    intro off offLt flag
    obtain ⟨slot, mem, old⟩ := ok.flagged off offLt flag
    exact ⟨slot, (busy slot).mpr mem, held off slot old⟩
  case ppa_lt => exact ppaLt
  case unsaved =>
    rw [used]
    exact unsaved

theorem Ok.setImmut (ok : Ok conf links out) (off addr : Nat) :
    Ok conf (links.setImmut off addr) out :=
  ok.congr rfl rfl rfl rfl rfl rfl (fun slot idle => (ok.blank slot idle).1) ok.ppa_lt ok.unsaved

theorem Ok.copy (ok : Ok conf links out) (off : Nat) : Ok conf (links.copy off) out :=
  ok.setImmut off (links.entry off)

theorem Ok.soil (ok : Ok conf links out) (slot : Nat) : Ok conf (links.soil slot) out := by
  refine ok.congr (by rfl) (by rfl) (by rfl) (by rfl) (by rfl) (by rfl)
    (fun slot idle => (ok.blank slot idle).1) ok.ppa_lt ?_
  intro found mem zero
  simp only [Links.soil, Function.update_apply]
  split
  · rfl
  · exact ok.unsaved found mem zero

/-- The flag of an entry with an address is cleared. -/
theorem Ok.clean (ok : Ok conf links out) (saved : links.ppa slot ≠ 0) :
    Ok conf (links.clean slot) out := by
  refine ok.congr (by rfl) (by rfl) (by rfl) (by rfl) (by rfl) (by rfl)
    (fun slot idle => (ok.blank slot idle).1) ok.ppa_lt ?_
  intro found mem zero
  have differ : found ≠ slot := by
    rintro rfl
    exact saved zero
  simp only [Links.clean, Function.update_of_ne differ]
  exact ok.unsaved found mem zero

theorem Ok.move (ok : Ok conf links out) (busy : Busy links out slot) (addrLt : addr < mapAddrFlag)
    (stored : addr ≠ 0) : Ok conf (links.move slot addr) out := by
  refine ok.congr (by rfl) (by rfl) (by rfl) (by rfl) (by rfl) (by rfl) ?_ ?_ ?_
  · intro found idle
    have differ : found ≠ slot := by
      rintro rfl
      exact ok.apart found idle busy
    simp only [Links.move, Function.update_of_ne differ]
    exact (ok.blank found idle).1
  · intro found below
    simp only [Links.move, Function.update_apply]
    split
    · exact addrLt
    · exact ok.ppa_lt found below
  · intro found mem
    simp only [Links.move, Function.update_apply]
    split
    · exact fun zero => absurd zero stored
    · exact ok.unsaved found mem

/-! ## Steps on the used list -/

theorem Ok.touch (ok : Ok conf links out) (mem : slot ∈ links.used) :
    Ok conf (links.touch slot) out := by
  have perm : (links.used.erase slot ++ [slot]).Perm links.used :=
    ((List.perm_cons_erase mem).trans (List.perm_append_singleton slot _).symm).symm
  have busy (found : Nat) : Busy (links.touch slot) out found ↔ Busy links out found := by
    rw [Busy, Busy, Links.touch, perm.mem_iff]
  constructor
  case free_nodup => exact ok.free_nodup
  case used_nodup => exact perm.nodup_iff.mpr ok.used_nodup
  case out_fresh => exact fun found eq used => ok.out_fresh found eq (perm.mem_iff.mp used)
  case apart => exact fun found idle both => ok.apart found idle ((busy found).mp both)
  case below => exact fun found place => ok.below found (place.imp id (busy found).mp)
  case blank => exact ok.blank
  case loads =>
    intro off found eq
    have loads := ok.loads off found eq
    exact ⟨loads.off_lt, loads.uncached, loads.fresh, loads.alone⟩
  case nused => exact ok.nused.trans perm.length_eq.symm
  case held =>
    intro found used
    obtain ⟨off, held⟩ := ok.held found (perm.mem_iff.mp used)
    exact ⟨off, held.congr rfl rfl⟩
  case flagged =>
    intro off offLt flag
    obtain ⟨found, both, held⟩ := ok.flagged off offLt flag
    exact ⟨found, (busy found).mpr both, held.congr rfl rfl⟩
  case ppa_lt => exact ok.ppa_lt
  case unsaved => exact fun found used => ok.unsaved found (perm.mem_iff.mp used)

theorem Ok.unlink (ok : Ok conf links none) (used : links.used = slot :: rest) :
    Ok conf (links.unlink rest) (some slot) := by
  have nodup := ok.used_nodup
  rw [used] at nodup
  have fresh : slot ∉ rest := (List.nodup_cons.mp nodup).1
  have kept (found : Nat) (mem : found ∈ rest) : found ∈ links.used := by
    rw [used]
    exact List.mem_cons_of_mem _ mem
  have busy (found : Nat) : Busy (links.unlink rest) (some slot) found ↔ Busy links none found := by
    simp only [Busy, Links.unlink, used, List.mem_cons, Option.some.injEq, reduceCtorEq, or_false]
    constructor
    · exact fun place => place.symm.imp Eq.symm id
    · exact fun place => place.symm.imp id Eq.symm
  constructor
  case free_nodup => exact ok.free_nodup
  case used_nodup => exact (List.nodup_cons.mp nodup).2
  case out_fresh =>
    rintro found eq
    obtain rfl := Option.some.inj eq
    exact fresh
  case apart => exact fun found idle both => ok.apart found idle ((busy found).mp both)
  case below => exact fun found place => ok.below found (place.imp id (busy found).mp)
  case blank => exact ok.blank
  case loads =>
    intro off found eq
    have loads := ok.loads off found eq
    exact ⟨loads.off_lt, loads.uncached, loads.fresh, loads.alone⟩
  case nused => simp only [Links.unlink, ok.nused, used, List.length_cons, Nat.add_sub_cancel]
  case held =>
    intro found mem
    obtain ⟨off, held⟩ := ok.held found (kept found mem)
    exact ⟨off, held.congr rfl rfl⟩
  case flagged =>
    intro off offLt flag
    obtain ⟨found, both, held⟩ := ok.flagged off offLt flag
    exact ⟨found, (busy found).mpr both, held.congr rfl rfl⟩
  case ppa_lt => exact ok.ppa_lt
  case unsaved => exact fun found mem => ok.unsaved found (kept found mem)

/-! ## Giving a cache entry back -/

section

variable (ok : Ok conf links (some slot))
include ok

theorem Ok.differ_of_used {found : Nat} (mem : found ∈ links.used) : found ≠ slot := by
  rintro rfl
  exact ok.out_fresh found rfl mem

theorem Ok.writeBack (held : Held conf links off slot) (addrLt : addr < mapAddrFlag) :
    Ok conf (links.writeBack off addr) (some slot) ∧
      Unused conf (links.writeBack off addr) slot := by
  have other (found : Nat) (mem : found ∈ links.used) (place : Nat)
      (foundHeld : Held conf links place found) :
      Held conf (links.writeBack off addr) place found := by
    refine ⟨foundHeld.off_lt, foundHeld.mdEntry, ?_⟩
    have differ : place ≠ off := by
      rintro rfl
      have eq := foundHeld.entry
      rw [held.entry] at eq
      obtain rfl : slot = found := by omega
      exact ok.out_fresh slot rfl mem
    simpa only [Links.writeBack, Function.update_of_ne differ] using foundHeld.entry
  refine ⟨⟨ok.free_nodup, ok.used_nodup, ok.out_fresh, ok.apart, ok.below, ok.blank, ?_, ok.nused,
    ?_, ?_, ok.ppa_lt, ok.unsaved⟩, ?_⟩
  · intro place found eq
    have loads := ok.loads place found eq
    refine ⟨loads.off_lt, ?_, loads.fresh, loads.alone⟩
    simp only [Links.writeBack, Function.update_apply]
    split
    · exact addrFlag_eq_false.mpr addrLt
    · exact loads.uncached
  · intro found mem
    obtain ⟨place, foundHeld⟩ := ok.held found mem
    exact ⟨place, other found mem place foundHeld⟩
  · intro place placeLt flag
    by_cases same : place = off
    · subst same
      simp only [Links.writeBack, Function.update_self, addrFlag_eq_false.mpr addrLt,
        Bool.false_eq_true] at flag
    · simp only [Links.writeBack, Function.update_of_ne same] at flag
      obtain ⟨found, busy, foundHeld⟩ := ok.flagged place placeLt flag
      rcases busy with used | eq
      · exact ⟨found, Or.inl used, other found used place foundHeld⟩
      · obtain rfl := Option.some.inj eq
        exact absurd (ok.off_unique held placeLt foundHeld.entry) same
  · intro place placeLt entry
    by_cases same : place = off
    · subst same
      simp only [Links.writeBack, Function.update_self] at entry
      omega
    · simp only [Links.writeBack, Function.update_of_ne same] at entry
      exact same (ok.off_unique held placeLt entry)

theorem Ok.release (unused : Unused conf links slot) :
    Ok conf (links.release slot) (some slot) := by
  have kept (found : Nat) (mem : found ∈ links.used) (place : Nat)
      (held : Held conf links place found) : Held conf (links.release slot) place found := by
    refine ⟨held.off_lt, ?_, held.entry⟩
    simpa only [Links.release, Function.update_of_ne (ok.differ_of_used mem)] using held.mdEntry
  refine ⟨ok.free_nodup, ok.used_nodup, ok.out_fresh, ok.apart, ok.below, ?_, ?_, ok.nused, ?_, ?_,
    ?_, ?_⟩
  · intro found idle
    have differ : found ≠ slot := by
      rintro rfl
      exact ok.apart found idle (Or.inr rfl)
    simp only [Blank, Links.release, Function.update_of_ne differ]
    exact ok.blank found idle
  · intro place found eq
    have loads := ok.loads place found eq
    exact ⟨loads.off_lt, loads.uncached, loads.fresh, loads.alone⟩
  · intro found mem
    obtain ⟨place, held⟩ := ok.held found mem
    exact ⟨place, kept found mem place held⟩
  · intro place placeLt flag
    obtain ⟨found, busy, held⟩ := ok.flagged place placeLt flag
    rcases busy with used | eq
    · exact ⟨found, Or.inl used, kept found used place held⟩
    · obtain rfl := Option.some.inj eq
      exact absurd held.entry (unused place placeLt)
  · intro found below
    simp only [Links.release, Function.update_apply]
    split
    · exact Nat.two_pow_pos 63
    · exact ok.ppa_lt found below
  · intro found mem
    simp only [Links.release, Function.update_of_ne (ok.differ_of_used mem)]
    exact ok.unsaved found mem

theorem Ok.insert (unused : Unused conf links slot) (blank : Blank links slot) :
    Ok conf (links.insert slot) none := by
  have slotBusy : Busy links (some slot) slot := Or.inr rfl
  have idle (found : Nat) : Idle (links.insert slot) found ↔ found = slot ∨ Idle links found := by
    simp only [Idle, Links.insert, List.mem_cons, or_assoc]
  have fresh (found : Nat) (mem : Idle links found) : found ≠ slot := by
    rintro rfl
    exact ok.apart found mem slotBusy
  refine ⟨List.nodup_cons.mpr ⟨fun mem => fresh slot (Or.inl mem) rfl, ok.free_nodup⟩,
    ok.used_nodup, by simp, ?_, ?_, ?_, ?_, ok.nused, ?_, ?_, ok.ppa_lt, ok.unsaved⟩
  · rintro found mem (used | eq)
    · rcases (idle found).mp mem with rfl | old
      · exact ok.out_fresh found rfl used
      · exact ok.apart found old (Or.inl used)
    · contradiction
  · rintro found (mem | used | eq)
    · rcases (idle found).mp mem with rfl | old
      · exact ok.below found (Or.inr slotBusy)
      · exact ok.below found (Or.inl old)
    · exact ok.below found (Or.inr (Or.inl used))
    · contradiction
  · intro found mem
    rcases (idle found).mp mem with rfl | old
    · exact blank
    · exact ok.blank found old
  · intro place found eq
    have loads := ok.loads place found eq
    refine ⟨loads.off_lt, loads.uncached, ?_, loads.alone⟩
    intro mem
    rcases List.mem_cons.mp mem with rfl | free
    · exact fresh found (Or.inr ⟨place, eq⟩) rfl
    · exact loads.fresh free
  · intro found mem
    obtain ⟨place, held⟩ := ok.held found mem
    exact ⟨place, held.congr rfl rfl⟩
  · intro place placeLt flag
    obtain ⟨found, busy, held⟩ := ok.flagged place placeLt flag
    rcases busy with used | eq
    · exact ⟨found, Or.inl used, held.congr rfl rfl⟩
    · obtain rfl := Option.some.inj eq
      exact absurd held.entry (unused place placeLt)

end

end Links

end OxCtrl.GlMap
