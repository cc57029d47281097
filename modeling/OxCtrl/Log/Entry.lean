import OxCtrl.Geometry

/-!
# Log records

`LogEntry` is `struct app_log_entry`.  The 48 bytes of its union are kept as six
64-bit words, so that the `write`, `amend`, `pointer` and `byte` views overlap as
they do in the source.
-/

namespace OxCtrl.Log

/-- `enum app_log_type`; `unknown` stands for the codes without a name. -/
inductive LogType where
  | pad | pointer | write | map | gcWrite | gcMap | amend | commit | blkMd | mapMd
  | abortW | putBlk
  | unknown (code : Nat)
  deriving DecidableEq, Repr

/-- `struct app_log_entry`. -/
structure LogEntry where
  ts : Nat
  type : LogType
  word0 : Nat := 0
  word1 : Nat := 0
  word2 : Nat := 0
  word3 : Nat := 0
  word4 : Nat := 0
  word5 : Nat := 0
  deriving DecidableEq, Repr

namespace LogEntry

/-- A record wiped by `memset`. -/
def zero : LogEntry where
  ts := 0
  type := .pad

/-- `write.tid`. -/
def tid (entry : LogEntry) : Nat := entry.word0

/-- `write.lba`. -/
def lba (entry : LogEntry) : Nat := entry.word1

/-- `write.old_ppa`. -/
def oldPpa (entry : LogEntry) : Ppa := Ppa.ofNat entry.word2

/-- `write.new_ppa`. -/
def newPpa (entry : LogEntry) : Ppa := Ppa.ofNat entry.word3

/-- `amend.ppa`. -/
def amendPpa (entry : LogEntry) : Ppa := Ppa.ofNat entry.word0

/-- `amend.prov_type`. -/
def provType (entry : LogEntry) : Nat := entry.word3 % 2 ^ 8

/-- Word `i` of the union. -/
def word (entry : LogEntry) : Nat → Nat
  | 0 => entry.word0
  | 1 => entry.word1
  | 2 => entry.word2
  | 3 => entry.word3
  | 4 => entry.word4
  | _ => entry.word5

/-- `byte[i]` of the union, on a little-endian machine. -/
def byte (entry : LogEntry) (i : Nat) : Nat :=
  entry.word (i / 8) / 2 ^ (8 * (i % 8)) % 2 ^ 8

/-- A sector write record of a transaction.  The union words past the four named
fields are not written by the source and stay as they are. -/
def ofWrite (type : LogType) (ts tid lba : Nat) (newPpa oldPpa : Ppa) : LogEntry where
  ts := ts
  type := type
  word0 := tid
  word1 := lba
  word2 := oldPpa.toNat
  word3 := newPpa.toNat

/-- The commit record of a transaction without aborted entries. -/
def ofCommit (ts : Nat) : LogEntry where
  ts := ts
  type := .commit

@[simp]
theorem ofWrite_newPpa (type : LogType) (ts tid lba : Nat) (newPpa oldPpa : Ppa) :
    (ofWrite type ts tid lba newPpa oldPpa).newPpa = newPpa :=
  Ppa.ofNat_toNat newPpa

@[simp]
theorem ofWrite_oldPpa (type : LogType) (ts tid lba : Nat) (newPpa oldPpa : Ppa) :
    (ofWrite type ts tid lba newPpa oldPpa).oldPpa = oldPpa :=
  Ppa.ofNat_toNat oldPpa

end LogEntry

end OxCtrl.Log
