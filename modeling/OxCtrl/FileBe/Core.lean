import Mathlib.Logic.Function.Basic
import OxCtrl.Lib.File
import OxCtrl.Lib.System

/-!
# The file backend

The media manager of `file-be.c` keeps each LUN in two files.  The data file holds the blocks
in the order of their first write.  The metadata file holds one `file_id` per block: zero while
the block is not in the data file, else one more than its place there.  The commands of a channel
are executed one after another by the thread of its queue.
-/

namespace OxCtrl.FileBe

open OxCtrl.Lib

def fileBlockCount : Nat := 64

def filePageCount : Nat := 64

def fileSectorCount : Nat := 4

def filePlaneCount : Nat := 2

def filePageSize : Nat := 0x4000

def fileSectorSize : Nat := 0x1000

def fileSecOobSize : Nat := 0x10

def fileBlkLife : Nat := 5000

/-- Bytes of a page with its spare bytes.  None of the sizes below reaches `2 ^ 32`. -/
def pgSize : Nat :=
  filePageSize + fileSectorCount * fileSecOobSize

/-- Bytes of one plane of a block: `blk_size` of `fbe_erase_file` and `fbe_rw_file`. -/
def planeSize : Nat :=
  pgSize * filePageCount

/-- Bytes of a block: `blk_size` of the other functions. -/
def blkSize : Nat :=
  pgSize * filePageCount * filePlaneCount

/-- A page of the LUN. -/
@[ext]
structure Ppa where
  blk : Fin fileBlockCount
  pl : Fin filePlaneCount
  pg : Fin filePageCount
deriving DecidableEq

structure FileBEBlock where
  life : Nat
  fileId : Nat
  fileOffset : Nat

/-- A LUN: its part of the block table and its two files. -/
structure Lun where
  blocks : Nat → FileBEBlock
  data : Option (List UInt8)
  md : Option (List Nat)

/-- `fbe_get_block` -/
def fbeGetBlock (lun : Lun) (blk pl : Nat) : FileBEBlock :=
  lun.blocks (blk * filePlaneCount + pl)

def Lun.setBlock (lun : Lun) (blk pl : Nat) (block : FileBEBlock) : Lun :=
  { lun with blocks := Function.update lun.blocks (blk * filePlaneCount + pl) block }

/-- The loop over the planes of a block. -/
def Lun.forPlanes (lun : Lun) (blk : Nat) (change : FileBEBlock → FileBEBlock) : Nat → Lun
  | 0 => lun
  | n + 1 =>
      let before := lun.forPlanes blk change n
      before.setBlock blk n (change (fbeGetBlock before blk n))

/-- The loop over the blocks of the LUN and the planes of each. -/
def Lun.forBlocks (lun : Lun) (change : Nat → FileBEBlock → FileBEBlock) : Nat → Lun
  | 0 => lun
  | n + 1 => (lun.forBlocks change n).forPlanes n (change n) filePlaneCount

/-- `fbe_erase_file`.  A missing file makes `pwrite` fail. -/
def fbeEraseFile (lun : Lun) (blk pl : Nat) : Option Lun :=
  lun.data.map fun file =>
    { lun with
      data := some (pwrite 0 file (List.replicate planeSize 0)
        ((fbeGetBlock lun blk pl).fileOffset + planeSize * pl)) }

/-- Where a page is in the data file. -/
def pgOffset (lun : Lun) (ppa : Ppa) : Nat :=
  (fbeGetBlock lun ppa.blk ppa.pl).fileOffset + planeSize * ppa.pl + ppa.pg * pgSize

/-- `fbe_rw_file` with `FILE_DMA_READ`: the buffer after the read. -/
def fbeReadFile (lun : Lun) (ppa : Ppa) (buf : List UInt8) : Option (List UInt8) :=
  lun.data.map fun file => pread file buf pgSize (pgOffset lun ppa)

/-- `fbe_rw_file` with `FILE_DMA_WRITE` -/
def fbeWriteFile (lun : Lun) (ppa : Ppa) (buf : List UInt8) : Option Lun :=
  lun.data.map fun file =>
    { lun with data := some (pwrite 0 file (buf.take pgSize) (pgOffset lun ppa)) }

/-- `fbe_append_blk_file`: the file is created when it is missing. -/
def fbeAppendBlkFile (lun : Lun) : Lun :=
  { lun with data := some (lun.data.getD [] ++ List.replicate blkSize 0) }

/-- `fbe_update_md_file` -/
def fbeUpdateMdFile (lun : Lun) (blk pl : Nat) : Option Lun :=
  lun.md.map fun list => { lun with md := some (list.set blk (fbeGetBlock lun blk pl).fileId) }

/-- The number of blocks that have a `file_id`, read on plane 0. -/
def allocatedCount (lun : Lun) : Nat :=
  (List.range fileBlockCount).countP fun blk => (fbeGetBlock lun blk 0).fileId != 0

/-- The loop of `fbe_process_io` that numbers a block on all its planes. -/
def assignId (lun : Lun) (blk : Nat) : Lun :=
  let count := allocatedCount lun + 1
  lun.forPlanes blk
    (fun block => { block with fileId := count, fileOffset := blkSize * (count - 1) })
    filePlaneCount

/-- The branch of `fbe_process_io` for the first write of a block. -/
def newBlk (lun : Lun) (ppa : Ppa) : Option Lun :=
  fbeUpdateMdFile (assignId (fbeAppendBlkFile lun) ppa.blk) ppa.blk ppa.pl

/-- A slot of `dma_buf`. -/
structure DmaBuf where
  bytes : List UInt8
  size : bytes.length = filePageSize + fileSectorSize

inductive Cmd where
  | readPg (ppa : Ppa)
  /-- `buf` is the slot after `fbe_prepare_rw` has copied the host data to it. -/
  | writePg (ppa : Ppa) (buf : DmaBuf)
  | eraseBlk (blk : Fin fileBlockCount) (pl : Fin filePlaneCount)

/-- The slot of a read, cleared by `fbe_prepare_rw`. -/
def clearedBuf : List UInt8 :=
  List.replicate (filePageSize + fileSectorSize) 0

/-- Status of a command and the contents of its slot. -/
structure Reply where
  status : Bool
  buf : List UInt8

/-- `fbe_process_io`.  A read of a block without a `file_id` and a failed read of the file
succeed with the slot as it is. -/
def fbeProcessIo (lun : Lun) : Cmd → Lun × Reply
  | .readPg ppa =>
      if (fbeGetBlock lun ppa.blk ppa.pl).fileId = 0 then (lun, ⟨true, clearedBuf⟩)
      else (lun, ⟨true, (fbeReadFile lun ppa clearedBuf).getD clearedBuf⟩)
  | .writePg ppa buf =>
      let prepared :=
        if (fbeGetBlock lun ppa.blk ppa.pl).fileId = 0 then newBlk lun ppa else some lun
      match prepared with
      | none => (assignId (fbeAppendBlkFile lun) ppa.blk, ⟨false, buf.bytes⟩)
      | some lun =>
          match fbeWriteFile lun ppa buf.bytes with
          | none => (lun, ⟨false, buf.bytes⟩)
          | some lun => (lun, ⟨true, buf.bytes⟩)
  | .eraseBlk blk pl =>
      let block := fbeGetBlock lun blk pl
      if 0 < block.life then
        let lun := lun.setBlock blk pl { block with life := block.life - 1 }
        if block.fileId = 0 then (lun, ⟨true, []⟩)
        else
          match fbeEraseFile lun blk pl with
          | none => (lun, ⟨false, []⟩)
          | some lun => (lun, ⟨true, []⟩)
      else (lun, ⟨false, []⟩)

/-- `fbe_init_blocks` -/
def fbeInitBlocks (lun : Lun) : Lun :=
  { lun with blocks := fun _ => { life := fileBlkLife, fileId := 0, fileOffset := 0 } }

/-- `fbe_disk_md_create` -/
def fbeDiskMdCreate (lun : Lun) : Lun :=
  { lun.forBlocks (fun _ block => { block with fileId := 0, fileOffset := 0 }) fileBlockCount with
    md := some (List.replicate fileBlockCount 0) }

/-- The block table of `fbe_disk_md_load`.  The subtraction is the 32-bit one. -/
def loadTable (lun : Lun) (list : List Nat) : Lun :=
  lun.forBlocks (fun blk block =>
    { block with
      fileId := list.getD blk 0
      fileOffset := blkSize * ((list.getD blk 0 + 0xffffffff) % 0x100000000) }) fileBlockCount

/-- `fbe_disk_md_load`: the data file is cut to the blocks of the list. -/
def fbeDiskMdLoad (lun : Lun) (list : List Nat) : Lun × Bool :=
  let count := (List.range fileBlockCount).countP fun blk => list.getD blk 0 != 0
  let lun := loadTable lun list
  if count = 0 then ({ lun with data := none }, true)
  else
    match lun.data with
    | none => (lun, false)
    | some file => ({ lun with data := some (ftruncate 0 file (blkSize * count)) }, true)

/-- `fbe_init` for one LUN: a process starts and finds the files as they are. -/
def fbeInit (lun : Lun) : Lun × Bool :=
  match lun.md with
  | none => (fbeDiskMdCreate (fbeInitBlocks lun), true)
  | some list => fbeDiskMdLoad (fbeInitBlocks lun) list

/-- The LUN before its first start: no file, the table of no use. -/
def blank : Lun where
  blocks := fun _ => { life := 0, fileId := 0, fileOffset := 0 }
  data := none
  md := none

inductive Op where
  | command (cmd : Cmd)
  | restart
  /-- The process dies in a write of the page and starts again: after the block has been
  appended to the data file, before the metadata file has been updated. -/
  | diedAppended (ppa : Ppa)
  /-- The same after the metadata file has been updated, before the page has been written. -/
  | diedUpdated (ppa : Ppa)

/-- The files when a write dies with the block appended. -/
def appended (lun : Lun) (ppa : Ppa) : Lun :=
  if (fbeGetBlock lun ppa.blk ppa.pl).fileId = 0 then fbeAppendBlkFile lun else lun

/-- The files when a write dies with the metadata updated. -/
def updated (lun : Lun) (ppa : Ppa) : Lun :=
  if (fbeGetBlock lun ppa.blk ppa.pl).fileId = 0 then (newBlk lun ppa).getD (appended lun ppa)
  else lun

/-- One command, or one start of the process. -/
def step (lun : Lun) : Op → Lun × Reply
  | .command cmd => fbeProcessIo lun cmd
  | .restart => ((fbeInit lun).1, ⟨(fbeInit lun).2, []⟩)
  | .diedAppended ppa => ((fbeInit (appended lun ppa)).1, ⟨(fbeInit (appended lun ppa)).2, []⟩)
  | .diedUpdated ppa => ((fbeInit (updated lun ppa)).1, ⟨(fbeInit (updated lun ppa)).2, []⟩)

def system : System Lun Op Reply where
  step := step

/-- The LUN after the first start and a run of operations. -/
def afterRun (ops : List Op) : Lun :=
  system.run (fbeInit blank).1 ops

/-- What an operation with its reply does to the page an address reads: a write replaces it, an
erase of its block and plane clears it. -/
def applyEvent (ppa : Ppa) (page : List UInt8) : Op × Reply → List UInt8
  | (.command (.writePg target buf), reply) =>
      if reply.status ∧ target = ppa then buf.bytes.take pgSize else page
  | (.command (.eraseBlk blk pl), reply) =>
      if reply.status ∧ blk = ppa.blk ∧ pl = ppa.pl then List.replicate pgSize 0 else page
  | _ => page

/-- The operations of a run with their replies. -/
def events (ops : List Op) : List (Op × Reply) :=
  ops.zip (system.results (fbeInit blank).1 ops)

/-- The last page written to an address since the last erase of its block and plane, zeros if
there is none. -/
def lastWritten (ops : List Op) (ppa : Ppa) : List UInt8 :=
  (events ops).foldl (applyEvent ppa) (List.replicate pgSize 0)

end OxCtrl.FileBe
