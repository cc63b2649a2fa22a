import NicoOS.Fs.Log.Header
import NicoOS.Lib.Bytes

/-!
# Commit and recovery

The disk side of `fs/log.c`.  A single block is written atomically, and the
power may fail before any write; what is left then is the disk alone.
-/

namespace NicoOS
namespace Fs
namespace Log

open Lib

abbrev Block := Bytes blockSize

abbrev Disk := UInt32 -> Block

/--
The disk behind the buffer cache of `kernel/device/ide/bio.c`.  `cache` holds
the valid buffers; `power` is the number of writes until the power fails, or
`none` if it does not.
-/
structure Device where
  disk : Disk
  cache : UInt32 -> Option Block
  power : Option Nat

def bufRead (dev : Device) (b : UInt32) : Block := (dev.cache b).getD (dev.disk b)

def Device.put (dev : Device) (b : UInt32) (data : Block) : Device :=
  { dev with
    disk := fun c => if c = b then data else dev.disk c
    cache := fun c => if c = b then some data else dev.cache c }

/-- `buf_write`; the error is the disk that a power failure leaves. -/
def bufWrite (b : UInt32) (data : Block) (dev : Device) : Except Disk Device :=
  match dev.power with
  | none => Except.ok (dev.put b data)
  | some 0 => Except.error dev.disk
  | some (k + 1) => Except.ok { dev.put b data with power := some k }

/-- The block of the log that holds the copy of entry `i`. -/
def logBlock (logStart : UInt32) (i : Nat) : UInt32 := logStart + UInt32.ofNat (i + 1)

/-- The loop of `install_trans`, for the entries from `i` on. -/
def installFrom (logStart : UInt32) (blocks : Nat -> UInt32) : Nat -> Nat -> Device ->
    Except Disk Device
  | 0, _, dev => Except.ok dev
  | k + 1, i, dev => do
      let dev <- bufWrite (blocks i) (bufRead dev (logBlock logStart i)) dev
      installFrom logStart blocks k (i + 1) dev

def installTrans (logStart : UInt32) (lh : LogHeader) (dev : Device) : Except Disk Device :=
  installFrom logStart lh.blocks lh.n 0 dev

def writeLogFrom (logStart : UInt32) (blocks : Nat -> UInt32) : Nat -> Nat -> Device ->
    Except Disk Device
  | 0, _, dev => Except.ok dev
  | k + 1, i, dev => do
      let dev <- bufWrite (logBlock logStart i) (bufRead dev (blocks i)) dev
      writeLogFrom logStart blocks k (i + 1) dev

def writeLog (logStart : UInt32) (lh : LogHeader) (dev : Device) : Except Disk Device :=
  writeLogFrom logStart lh.blocks lh.n 0 dev

def slot (i : Nat) : Nat := 4 + 4 * i

def encodeFrom (blocks : Nat -> UInt32) : Nat -> Nat -> Block -> Block
  | 0, _, data => data
  | k + 1, i, data => encodeFrom blocks k (i + 1) (data.setWord (slot i) (blocks i))

/-- The header block that `write_head` writes over its old contents. -/
def encodeHead (lh : LogHeader) (data : Block) : Block :=
  encodeFrom lh.blocks lh.n 0 (data.setWord 0 (UInt32.ofNat lh.n))

def writeHead (logStart : UInt32) (lh : LogHeader) (dev : Device) : Except Disk Device :=
  bufWrite logStart (encodeHead lh (bufRead dev logStart)) dev

/-- The count in a header block; a negative `int` runs no loop, as 0 does. -/
def headCount (data : Block) : Nat := (data.word 0).toInt32.toInt.toNat

def readHead (logStart : UInt32) (dev : Device) : LogHeader :=
  let data := bufRead dev logStart
  { n := headCount data, blocks := fun i => data.word (slot i) }

/-- The end of `commit` and of recovery: the header is cleared. -/
def clearHead (logStart : UInt32) (lh : LogHeader) (dev : Device) : Except Disk Device :=
  writeHead logStart { lh with n := 0 } dev

def commit (logStart : UInt32) (lh : LogHeader) (dev : Device) : Except Disk Device :=
  if lh.n > 0 then do
    let dev <- writeLog logStart lh dev
    let dev <- writeHead logStart lh dev
    let dev <- installTrans logStart lh dev
    clearHead logStart lh dev
  else
    Except.ok dev

def recoverFromLog (logStart : UInt32) (dev : Device) : Except Disk Device := do
  let lh := readHead logStart dev
  let dev <- installTrans logStart lh dev
  clearHead logStart lh dev

/-- The machine after a start: nothing is cached. -/
def powerUp (disk : Disk) (power : Option Nat) : Device :=
  { disk := disk, cache := fun _ => none, power := power }

/-- The disk that a call leaves, whether the power failed during it or behind it. -/
def diskAfter : Except Disk Device -> Disk
  | Except.ok dev => dev.disk
  | Except.error disk => disk

/-- `log_init` completes at last, with any number of power failures before. -/
inductive Recovers (logStart : UInt32) : Disk -> Disk -> Prop where
  | completes {disk : Disk} {dev : Device} :
      recoverFromLog logStart (powerUp disk none) = Except.ok dev ->
      Recovers logStart disk dev.disk
  | fails {disk next final : Disk} (k : Nat) :
      recoverFromLog logStart (powerUp disk (some k)) = Except.error next ->
      Recovers logStart next final -> Recovers logStart disk final

/-- The blocks of the log: its header and the copies. -/
def InLog (logStart b : UInt32) : Prop :=
  b = logStart ∨ exists i, i < logSize ∧ b = logBlock logStart i

/--
The log and the device when `commit` starts.  The header on the disk is clear;
the recorded blocks are distinct and outside the log, and their new contents are
in the cache; other buffers agree with the disk.
-/
structure Ready (logStart : UInt32) (lh : LogHeader) (dev : Device)
    (new : UInt32 -> Block) : Prop where
  clear : (dev.disk logStart).word 0 = 0
  bounded : lh.n ≤ logSize
  nodup : lh.entries.Nodup
  home : forall b, b ∈ lh.entries -> Not (InLog logStart b)
  cached : forall b, b ∈ lh.entries -> dev.cache b = some (new b)
  clean : forall b, Not (b ∈ lh.entries) -> dev.cache b = none ∨
    dev.cache b = some (dev.disk b)

/-- All or nothing: the recorded blocks are all old or all new, the rest is kept. -/
structure Atomic (logStart : UInt32) (lh : LogHeader) (old new final : Disk) : Prop where
  allOrNothing : (forall b, b ∈ lh.entries -> final b = old b) ∨
    (forall b, b ∈ lh.entries -> final b = new b)
  others : forall b, Not (InLog logStart b) -> Not (b ∈ lh.entries) -> final b = old b
  clear : (final logStart).word 0 = 0

end Log
end Fs
end NicoOS
