import Mathlib.Logic.Function.Basic
import OxCtrl.Lib.System
import OxCtrl.Mmgr.RoundTrip

/-!
# The volt backend is a page store

The volt backend has its pages in memory.  It writes them to a file when it ends, and it reads the
file when it starts.  The commands of a channel are executed one after another by the thread of its
queue, and those of two channels have no block in common.
-/

namespace OxCtrl.Mmgr

open OxCtrl.Lib

/-! ## Blocks -/

def voltChipCount : Nat := 8

def voltVirtualLuns : Nat := 4

def voltPlaneCount : Nat := 2

def voltBlkLife : Nat := 5000

/-- The fields of `volt_geo` that `CONFIG_VOLT_GB` changes. -/
structure VoltGeo where
  blkPerLun : Nat
  pgPerBlk : Nat

/-- A plane of a block. -/
@[ext]
structure VoltBlk (geo : VoltGeo) where
  ch : Fin voltChipCount
  lun : Fin voltVirtualLuns
  blk : Fin geo.blkPerLun
  pl : Fin voltPlaneCount
  deriving DecidableEq

structure VoltPpa (geo : VoltGeo) where
  addr : VoltBlk geo
  pg : Fin geo.pgPerBlk
  deriving DecidableEq

structure VoltBlock where
  life : Nat
  /-- The data of the pages with their spare bytes. -/
  pages : Nat → List UInt8

/-- The blocks of a process, and the file `volt_disk`. -/
structure Volt where
  blocks : Nat → VoltBlock
  disk : Option (List UInt8)

/-- `tot_blk` -/
def VoltGeo.totBlk (geo : VoltGeo) : Nat :=
  voltPlaneCount * geo.blkPerLun * voltVirtualLuns * voltChipCount

variable {geo : VoltGeo}

/-- The place of `volt_get_block` in `volt->blocks`: a channel points to its first LUN, and a LUN to
its first block. -/
def voltGetBlock (addr : VoltBlk geo) : Nat :=
  (addr.ch * voltVirtualLuns + addr.lun) * geo.blkPerLun * voltPlaneCount +
    (addr.blk * voltPlaneCount + addr.pl)

def Volt.page (volt : Volt) (ppa : VoltPpa geo) : List UInt8 :=
  (volt.blocks (voltGetBlock ppa.addr)).pages ppa.pg

def Volt.setBlock (volt : Volt) (addr : VoltBlk geo) (block : VoltBlock) : Volt :=
  { volt with blocks := Function.update volt.blocks (voltGetBlock addr) block }

/-! ## Commands -/

/-- A slot of `dma_buf`. -/
structure Slot where
  bytes : List UInt8
  size : bytes.length = slotSize

inductive VoltCmd (geo : VoltGeo) where
  | readPg (ppa : VoltPpa geo)
  /-- The slot is that after `volt_prepare_rw` has copied the host data. -/
  | writePg (ppa : VoltPpa geo) (slot : Slot)
  | eraseBlk (addr : VoltBlk geo)

/-- Status of a command and its slot. -/
structure VoltReply where
  status : Bool
  buf : List UInt8
  deriving DecidableEq

/-- `volt_process_io`.  A copy that leaves the page or the slot is no success. -/
def voltProcessIo (volt : Volt) : VoltCmd geo → Volt × VoltReply
  | .readPg ppa =>
      match voltNandDma true (volt.page ppa) clearedSlot pageBytes with
      | none => (volt, ⟨false, clearedSlot⟩)
      | some (_, buf) => (volt, ⟨true, buf⟩)
  | .writePg ppa slot =>
      match voltNandDma false (volt.page ppa) slot.bytes pageBytes with
      | none => (volt, ⟨false, slot.bytes⟩)
      | some (data, buf) =>
          let block := volt.blocks (voltGetBlock ppa.addr)
          (volt.setBlock ppa.addr { block with pages := Function.update block.pages ppa.pg data },
            ⟨true, buf⟩)
  | .eraseBlk addr =>
      let block := volt.blocks (voltGetBlock addr)
      if 0 < block.life then
        (volt.setBlock addr
          { life := block.life - 1
            pages := fun pg =>
              if pg < geo.pgPerBlk then List.replicate pageBytes 0xff else block.pages pg },
          ⟨true, []⟩)
      else (volt, ⟨false, []⟩)

/-! ## Processes -/

/-- The inner loop of `volt_disk_flush`. -/
def flushPages (block : VoltBlock) : Nat → List UInt8
  | 0 => []
  | n + 1 => flushPages block n ++ block.pages n

/-- The outer loop of `volt_disk_flush`. -/
def flushBlocks (geo : VoltGeo) (blocks : Nat → VoltBlock) : Nat → List UInt8
  | 0 => []
  | n + 1 => flushBlocks geo blocks n ++ flushPages (blocks n) geo.pgPerBlk

/-- `volt_disk_flush`: the file, where each `fwrite` succeeds. -/
def voltDiskFlush (geo : VoltGeo) (blocks : Nat → VoltBlock) : List UInt8 :=
  flushBlocks geo blocks geo.totBlk

/-- The inner loop of `volt_disk_load`: the block, and what is left of the file. -/
def loadPages : Nat → VoltBlock → List UInt8 → Option (VoltBlock × List UInt8)
  | 0, block, file => some (block, file)
  | n + 1, block, file =>
      (loadPages n block file).bind fun (block, file) =>
        if pageBytes ≤ file.length then
          some ({ block with pages := Function.update block.pages n (file.take pageBytes) },
            file.drop pageBytes)
        else none

/-- The outer loop of `volt_disk_load`. -/
def loadBlocks (geo : VoltGeo) :
    Nat → (Nat → VoltBlock) → List UInt8 → Option ((Nat → VoltBlock) × List UInt8)
  | 0, blocks, file => some (blocks, file)
  | n + 1, blocks, file =>
      (loadBlocks geo n blocks file).bind fun (blocks, file) =>
        (loadPages geo.pgPerBlk (blocks n) file).map fun (block, file) =>
          (Function.update blocks n block, file)

/-- What `volt_init_page` finds in the memory that it gets for the pages. -/
structure Memory where
  cells : Nat → Nat → List UInt8
  size : ∀ b p, (cells b p).length = pageBytes

/-- `volt_init_blocks` -/
def voltInitBlocks (memory : Memory) : Nat → VoltBlock :=
  fun b => ⟨voltBlkLife, memory.cells b⟩

/-- `volt_init` with the flag of `mmgr_volt_init`: a process starts, and whether it has. -/
def voltInit (geo : VoltGeo) (memory : Memory) (disk : Option (List UInt8)) : Volt × Bool :=
  let blocks := voltInitBlocks memory
  match disk with
  | none => (⟨blocks, some (voltDiskFlush geo blocks)⟩, true)
  | some file =>
      match loadBlocks geo geo.totBlk blocks file with
      | none => (⟨blocks, some file⟩, false)
      | some (blocks, _) => (⟨blocks, some file⟩, true)

inductive VoltOp (geo : VoltGeo) where
  | command (cmd : VoltCmd geo)
  /-- `volt_exit` without a command on its way, and the start of the next process. -/
  | restart (memory : Memory)
  /-- The process dies, and the next one starts. -/
  | died (memory : Memory)

def voltStep (volt : Volt) : VoltOp geo → Volt × VoltReply
  | .command cmd => voltProcessIo volt cmd
  | .restart memory =>
      let next := voltInit geo memory (some (voltDiskFlush geo volt.blocks))
      (next.1, ⟨next.2, []⟩)
  | .died memory =>
      let next := voltInit geo memory volt.disk
      (next.1, ⟨next.2, []⟩)

def voltSystem (geo : VoltGeo) : System Volt (VoltOp geo) VoltReply where
  step := voltStep

/-! ## The page store -/

/-- A store of pages: what a read gets, what a process finds when the last one has died, and the
erases of a block by this process. -/
structure PageStore (geo : VoltGeo) where
  now : VoltPpa geo → List UInt8
  saved : VoltPpa geo → List UInt8
  erases : VoltBlk geo → Nat

namespace PageStore

/-- The store of the first process. -/
def start (pages : VoltPpa geo → List UInt8) : PageStore geo :=
  ⟨pages, pages, fun _ => 0⟩

def step (store : PageStore geo) : VoltOp geo → PageStore geo × VoltReply
  | .command (.readPg ppa) => (store, ⟨true, store.now ppa ++ clearedSlot.drop pageBytes⟩)
  | .command (.writePg ppa slot) =>
      ({ store with now := Function.update store.now ppa (slot.bytes.take pageBytes) },
        ⟨true, slot.bytes⟩)
  | .command (.eraseBlk addr) =>
      if store.erases addr < voltBlkLife then
        ({ store with
            now := fun ppa =>
              if ppa.addr = addr then List.replicate pageBytes 0xff else store.now ppa
            erases := Function.update store.erases addr (store.erases addr + 1) },
          ⟨true, []⟩)
      else (store, ⟨false, []⟩)
  | .restart _ => ({ store with saved := store.now, erases := fun _ => 0 }, ⟨true, []⟩)
  | .died _ => ({ store with now := store.saved, erases := fun _ => 0 }, ⟨true, []⟩)

def system (geo : VoltGeo) : System (PageStore geo) (VoltOp geo) VoltReply where
  step := step

end PageStore

/-! ## Addresses -/

theorem div_mod_add (q : Nat) {n r : Nat} (bound : r < n) :
    (q * n + r) / n = q ∧ (q * n + r) % n = r := by
  rw [Nat.mul_comm, Nat.mul_add_div (Nat.zero_lt_of_lt bound), Nat.div_eq_of_lt bound, Nat.add_zero,
    Nat.mul_add_mod, Nat.mod_eq_of_lt bound]
  exact ⟨rfl, rfl⟩

theorem split_inj {n a b c d : Nat} (bound : b < n) (bound' : d < n)
    (same : a * n + b = c * n + d) :
    a = c ∧ b = d := by
  obtain ⟨quotient, rest⟩ := div_mod_add a bound
  obtain ⟨quotient', rest'⟩ := div_mod_add c bound'
  exact ⟨by rw [← quotient, same, quotient'], by rw [← rest, same, rest']⟩

theorem blk_inside (addr : VoltBlk geo) :
    addr.blk * voltPlaneCount + addr.pl < geo.blkPerLun * voltPlaneCount := by
  have blk := addr.blk.isLt
  have pl := addr.pl.isLt
  unfold voltPlaneCount at *
  omega

/-- Two planes of blocks have two places. -/
theorem voltGetBlock_inj {addr other : VoltBlk geo}
    (same : voltGetBlock addr = voltGetBlock other) :
    addr = other := by
  rw [voltGetBlock, voltGetBlock, Nat.mul_assoc, Nat.mul_assoc] at same
  obtain ⟨luns, blocks⟩ := split_inj (blk_inside addr) (blk_inside other) same
  obtain ⟨ch, lun⟩ := split_inj addr.lun.isLt other.lun.isLt luns
  obtain ⟨blk, pl⟩ := split_inj addr.pl.isLt other.pl.isLt blocks
  exact VoltBlk.ext (Fin.ext ch) (Fin.ext lun) (Fin.ext blk) (Fin.ext pl)

theorem voltGetBlock_lt (addr : VoltBlk geo) : voltGetBlock addr < geo.totBlk := by
  have ch := addr.ch.isLt
  have lun := addr.lun.isLt
  have inside := blk_inside addr
  have few : addr.ch * voltVirtualLuns + addr.lun + 1 ≤ 32 := by
    unfold voltChipCount voltVirtualLuns at *
    omega
  have le := Nat.mul_le_mul_right (geo.blkPerLun * voltPlaneCount) few
  rw [Nat.succ_mul] at le
  rw [voltGetBlock, Nat.mul_assoc, VoltGeo.totBlk]
  unfold voltPlaneCount voltVirtualLuns voltChipCount at *
  omega

/-! ## The file -/

/-- A block comes back from the file. -/
theorem loadPages_flush {src : VoltBlock} (sized : ∀ p, (src.pages p).length = pageBytes) (n : Nat)
    (block : VoltBlock) (rest : List UInt8) :
    ∃ loaded, loadPages n block (flushPages src n ++ rest) = some (loaded, rest) ∧
      loaded.life = block.life ∧
        ∀ p, loaded.pages p = if p < n then src.pages p else block.pages p := by
  induction n generalizing rest with
  | zero => exact ⟨block, rfl, rfl, fun p => rfl⟩
  | succ n ih =>
      obtain ⟨loaded, loop, life, pages⟩ := ih (src.pages n ++ rest)
      rw [loadPages, flushPages, List.append_assoc, loop, Option.bind_some]
      simp only
      rw [if_pos (by rw [List.length_append, sized]; exact Nat.le_add_right _ _),
        List.take_left' (sized n), List.drop_left' (sized n)]
      refine ⟨_, rfl, life, fun p => ?_⟩
      show Function.update loaded.pages n (src.pages n) p = _
      rw [Function.update_apply, pages]
      by_cases last : p = n
      · rw [if_pos last, if_pos (by omega), last]
      · rw [if_neg last]
        by_cases before : p < n
        · rw [if_pos before, if_pos (by omega)]
        · rw [if_neg before, if_neg (by omega)]

/-- The blocks come back from the file. -/
theorem loadBlocks_flush {src : Nat → VoltBlock}
    (sized : ∀ b p, ((src b).pages p).length = pageBytes)
    (n : Nat) (blocks : Nat → VoltBlock) (rest : List UInt8) :
    ∃ loaded, loadBlocks geo n blocks (flushBlocks geo src n ++ rest) = some (loaded, rest) ∧
      ∀ b, (loaded b).life = (blocks b).life ∧ ∀ p, (loaded b).pages p =
        if b < n ∧ p < geo.pgPerBlk then (src b).pages p else (blocks b).pages p := by
  induction n generalizing rest with
  | zero => exact ⟨blocks, rfl, fun b => ⟨rfl, fun p => (if_neg fun both => by omega).symm⟩⟩
  | succ n ih =>
      obtain ⟨loaded, loop, same⟩ := ih (flushPages (src n) geo.pgPerBlk ++ rest)
      obtain ⟨block, inner, life, pages⟩ := loadPages_flush (sized n) geo.pgPerBlk (loaded n) rest
      rw [loadBlocks, flushBlocks, List.append_assoc, loop, Option.bind_some]
      simp only
      rw [inner, Option.map_some]
      refine ⟨_, rfl, fun b => ?_⟩
      rw [Function.update_apply]
      by_cases last : b = n
      · subst last
        rw [if_pos rfl]
        refine ⟨life.trans (same b).1, fun p => ?_⟩
        rw [pages, (same b).2]
        by_cases inside : p < geo.pgPerBlk
        · rw [if_pos inside, if_pos ⟨Nat.lt_succ_self b, inside⟩]
        · rw [if_neg inside, if_neg fun both => inside both.2, if_neg fun both => inside both.2]
      · rw [if_neg last]
        refine ⟨(same b).1, fun p => ?_⟩
        rw [(same b).2]
        congr 1
        exact propext ⟨fun both => ⟨by omega, both.2⟩, fun both => ⟨by omega, both.2⟩⟩

/-! ## Refinement -/

/-- Pages have the size of a page. -/
def Sized (blocks : Nat → VoltBlock) : Prop :=
  ∀ b p, ((blocks b).pages p).length = pageBytes

/-- The backend holds what the store does. -/
structure Holds (volt : Volt) (store : PageStore geo) : Prop where
  sized : Sized volt.blocks
  now : ∀ ppa, volt.page ppa = store.now ppa
  life : ∀ addr, (volt.blocks (voltGetBlock addr)).life + store.erases addr = voltBlkLife
  disk : ∃ blocks : Nat → VoltBlock, volt.disk = some (voltDiskFlush geo blocks) ∧ Sized blocks ∧
    ∀ ppa : VoltPpa geo, (blocks (voltGetBlock ppa.addr)).pages ppa.pg = store.saved ppa

/-- A process starts with the pages of the file. -/
theorem voltInit_holds (memory : Memory) {src : Nat → VoltBlock} (sized : Sized src)
    {pages : VoltPpa geo → List UInt8}
    (holds : ∀ ppa : VoltPpa geo, (src (voltGetBlock ppa.addr)).pages ppa.pg = pages ppa) :
    (voltInit geo memory (some (voltDiskFlush geo src))).2 = true ∧
      Holds (voltInit geo memory (some (voltDiskFlush geo src))).1 ⟨pages, pages, fun _ => 0⟩ := by
  obtain ⟨loaded, loop, same⟩ :=
    @loadBlocks_flush geo src sized geo.totBlk (voltInitBlocks memory) []
  rw [List.append_nil] at loop
  rw [voltInit, voltDiskFlush]
  simp only [loop]
  refine ⟨trivial, fun b p => ?_, fun ppa => ?_, fun addr => (same _).1, ⟨src, rfl, sized, holds⟩⟩
  · rw [(same b).2]
    split
    · exact sized b p
    · exact memory.size b p
  · rw [Volt.page, (same _).2, if_pos ⟨voltGetBlock_lt ppa.addr, ppa.pg.isLt⟩]
    exact holds ppa

theorem block_setBlock (volt : Volt) (addr other : VoltBlk geo) (block : VoltBlock) :
    (volt.setBlock addr block).blocks (voltGetBlock other) =
      if other = addr then block else volt.blocks (voltGetBlock other) := by
  show Function.update volt.blocks (voltGetBlock addr) block (voltGetBlock other) = _
  rw [Function.update_apply]
  by_cases same : other = addr
  · rw [if_pos (congrArg voltGetBlock same), if_pos same]
  · rw [if_neg fun eq => same (voltGetBlock_inj eq), if_neg same]

theorem Sized.page {volt : Volt} (sized : Sized volt.blocks) (ppa : VoltPpa geo) :
    (volt.page ppa).length = pageBytes :=
  sized _ _

theorem Sized.setBlock {volt : Volt} (sized : Sized volt.blocks) (addr : VoltBlk geo)
    {block : VoltBlock} (pages : ∀ p, (block.pages p).length = pageBytes) :
    Sized (volt.setBlock addr block).blocks := by
  intro b p
  show ((Function.update volt.blocks (voltGetBlock addr) block b).pages p).length = pageBytes
  rw [Function.update_apply]
  split
  · exact pages p
  · exact sized b p

/-- A read copies the page. -/
theorem voltNandDma_read {page : List UInt8} (size : page.length = pageBytes) :
    voltNandDma true page clearedSlot pageBytes =
      some (page, page ++ clearedSlot.drop pageBytes) := by
  have long : 0 + pageBytes ≤ clearedSlot.length := by
    rw [clearedSlot, List.length_replicate]
    decide
  have copied := memcpy_eq_some.mpr ⟨⟨long, Nat.le_of_eq ((Nat.zero_add _).trans size.symm)⟩, rfl⟩
  rw [voltNandDma, if_pos rfl, copied, List.take_zero, List.nil_append, slice_zero, ← size,
    List.take_length, Nat.zero_add]
  rfl

/-- A write replaces the page. -/
theorem voltNandDma_write {page : List UInt8} (size : page.length = pageBytes) (slot : Slot) :
    voltNandDma false page slot.bytes pageBytes =
      some (slot.bytes.take pageBytes, slot.bytes) := by
  have long : 0 + pageBytes ≤ slot.bytes.length := by
    rw [slot.size]
    decide
  have copied := memcpy_eq_some.mpr ⟨⟨Nat.le_of_eq ((Nat.zero_add _).trans size.symm), long⟩, rfl⟩
  rw [voltNandDma, if_neg Bool.false_ne_true, copied, List.take_zero, List.nil_append, slice_zero,
    Nat.zero_add, ← size, List.drop_length, List.append_nil]
  rfl

theorem voltProcessIo_readPg {volt : Volt} (sized : Sized volt.blocks) (ppa : VoltPpa geo) :
    voltProcessIo volt (.readPg ppa) =
      (volt, ⟨true, volt.page ppa ++ clearedSlot.drop pageBytes⟩) := by
  have copied := voltNandDma_read (sized.page ppa)
  unfold voltProcessIo
  simp only [copied]

/-- The block after a page has been replaced. -/
def VoltBlock.setPage (block : VoltBlock) (pg : Nat) (data : List UInt8) : VoltBlock :=
  { block with pages := Function.update block.pages pg data }

theorem voltProcessIo_writePg {volt : Volt} (sized : Sized volt.blocks) (ppa : VoltPpa geo)
    (slot : Slot) :
    voltProcessIo volt (.writePg ppa slot) =
      (volt.setBlock ppa.addr
        ((volt.blocks (voltGetBlock ppa.addr)).setPage ppa.pg (slot.bytes.take pageBytes)),
        ⟨true, slot.bytes⟩) := by
  have copied := voltNandDma_write (sized.page ppa) slot
  unfold voltProcessIo
  simp only [copied]
  rfl

theorem Holds.writePg {volt : Volt} {store : PageStore geo} (holds : Holds volt store)
    (ppa : VoltPpa geo) {data : List UInt8} (size : data.length = pageBytes) :
    Holds (volt.setBlock ppa.addr ((volt.blocks (voltGetBlock ppa.addr)).setPage ppa.pg data))
      { store with now := Function.update store.now ppa data } := by
  refine ⟨holds.sized.setBlock _ fun p => ?_, fun other => ?_, fun addr => ?_, holds.disk⟩
  · show (Function.update (volt.blocks _).pages (ppa.pg : Nat) data p).length = pageBytes
    rw [Function.update_apply]
    split
    · exact size
    · exact holds.sized _ p
  · show _ = Function.update store.now ppa data other
    rw [Volt.page, block_setBlock, Function.update_apply]
    by_cases sameBlk : other.addr = ppa.addr
    · rw [if_pos sameBlk]
      show Function.update (volt.blocks _).pages (ppa.pg : Nat) data other.pg = _
      rw [Function.update_apply]
      by_cases samePg : other.pg = ppa.pg
      · have same : other = ppa := by
          cases other
          cases ppa
          simp_all
        rw [if_pos same, if_pos (congrArg Fin.val samePg)]
      · have differ : other ≠ ppa := fun eq => samePg (congrArg VoltPpa.pg eq)
        rw [if_neg differ, if_neg fun eq => samePg (Fin.ext eq), ← sameBlk]
        exact holds.now other
    · have differ : other ≠ ppa := fun eq => sameBlk (congrArg VoltPpa.addr eq)
      rw [if_neg sameBlk, if_neg differ]
      exact holds.now other
  · rw [block_setBlock]
    split
    · rename_i same
      rw [same]
      exact holds.life ppa.addr
    · exact holds.life addr

theorem Holds.eraseBlk {volt : Volt} {store : PageStore geo} (holds : Holds volt store)
    {addr : VoltBlk geo} {block : VoltBlock} {data : List UInt8} (size : data.length = pageBytes)
    (life : block.life + (store.erases addr + 1) = voltBlkLife)
    (pages : ∀ pg, block.pages pg =
      if pg < geo.pgPerBlk then data else (volt.blocks (voltGetBlock addr)).pages pg) :
    Holds (volt.setBlock addr block)
      { store with
        now := fun ppa => if ppa.addr = addr then data else store.now ppa
        erases := Function.update store.erases addr (store.erases addr + 1) } := by
  refine ⟨holds.sized.setBlock _ fun p => ?_, fun other => ?_, fun other => ?_, holds.disk⟩
  · rw [pages]
    split
    · exact size
    · exact holds.sized _ p
  · show _ = if other.addr = addr then data else store.now other
    rw [Volt.page, block_setBlock]
    by_cases same : other.addr = addr
    · rw [if_pos same, if_pos same, pages, if_pos other.pg.isLt]
    · rw [if_neg same, if_neg same]
      exact holds.now other
  · show _ + Function.update store.erases addr (store.erases addr + 1) other = voltBlkLife
    rw [block_setBlock, Function.update_apply]
    by_cases same : other = addr
    · rw [if_pos same, if_pos same]
      exact life
    · rw [if_neg same, if_neg same]
      exact holds.life other

theorem holds_command {volt : Volt} {store : PageStore geo} (holds : Holds volt store)
    (cmd : VoltCmd geo) :
    Holds (voltProcessIo volt cmd).1 (store.step (.command cmd)).1 ∧
      (voltProcessIo volt cmd).2 = (store.step (.command cmd)).2 := by
  cases cmd with
  | readPg ppa =>
      rw [voltProcessIo_readPg holds.sized, PageStore.step, holds.now]
      exact ⟨holds, rfl⟩
  | writePg ppa slot =>
      have size : (slot.bytes.take pageBytes).length = pageBytes := by
        rw [List.length_take, slot.size]
        decide
      rw [voltProcessIo_writePg holds.sized, PageStore.step]
      exact ⟨holds.writePg ppa size, rfl⟩
  | eraseBlk addr =>
      have life := holds.life addr
      by_cases lives : 0 < (volt.blocks (voltGetBlock addr)).life
      · have few : store.erases addr < voltBlkLife := by omega
        unfold voltProcessIo PageStore.step
        simp only [if_pos lives, if_pos few]
        exact ⟨holds.eraseBlk List.length_replicate (by simp only; omega) fun _ => rfl, trivial⟩
      · have many : ¬ store.erases addr < voltBlkLife := by omega
        unfold voltProcessIo PageStore.step
        simp only [if_neg lives, if_neg many]
        exact ⟨holds, trivial⟩

theorem holds_step {volt : Volt} {store : PageStore geo} (holds : Holds volt store)
    (op : VoltOp geo) :
    Holds (voltStep volt op).1 (store.step op).1 ∧ (voltStep volt op).2 = (store.step op).2 := by
  cases op with
  | command cmd => exact holds_command holds cmd
  | restart memory =>
      obtain ⟨started, next⟩ := voltInit_holds memory holds.sized holds.now
      rw [voltStep, PageStore.step]
      exact ⟨next, by rw [started]⟩
  | died memory =>
      obtain ⟨blocks, disk, sized, saved⟩ := holds.disk
      obtain ⟨started, next⟩ := voltInit_holds memory sized saved
      rw [voltStep, PageStore.step, disk]
      exact ⟨next, by rw [started]⟩

/-- In every run of commands, of processes that end and of processes that die, the volt backend
answers as a store of pages does. -/
theorem volt_page_store (geo : VoltGeo) (memory : Memory) (ops : List (VoltOp geo)) :
    (voltSystem geo).results (voltInit geo memory none).1 ops =
      (PageStore.system geo).results
        (PageStore.start fun ppa => memory.cells (voltGetBlock ppa.addr) ppa.pg) ops := by
  have simulates : System.Simulates (voltSystem geo) (PageStore.system geo) (fun _ _ => True)
      Holds :=
    ⟨fun _ _ op _ holds => (holds_step holds op).1, fun _ _ op _ holds => (holds_step holds op).2⟩
  refine simulates.results ?_ ?_
  · exact ⟨fun b p => memory.size b p, fun _ => rfl, fun _ => rfl,
      ⟨voltInitBlocks memory, rfl, fun b p => memory.size b p, fun _ => rfl⟩⟩
  · exact System.allowed_of_forall_mem _ (fun _ _ => trivial) _

end OxCtrl.Mmgr
