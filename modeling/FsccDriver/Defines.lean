import FsccDriver.Lib.Bytes
import FsccDriver.Lib.Words

/-!
# Defines — register offsets, descriptor bits, and the hardware behind them

The constants are those of `port.h`, `card.h` and `io.h`.  The hardware is a parameter of the
model: `Hardware H` says what a 32-bit read or write of a BAR does to a device whose state is `H`,
and what the system clock reads.  Every result about the driver names the hardware it assumes.
-/

namespace FsccDriver

/-! ## Registers (`port.h`, `card.h`) -/

def fifoOffset : Nat := 0x00
def bcFifoLOffset : Nat := 0x04
def fifotOffset : Nat := 0x08
def fifoBcOffset : Nat := 0x0C
def fifoFcOffset : Nat := 0x10
def cmdrOffset : Nat := 0x14
def starOffset : Nat := 0x18
def ccr0Offset : Nat := 0x1C
def ccr1Offset : Nat := 0x20
def ccr2Offset : Nat := 0x24
def bgrOffset : Nat := 0x28
def ssrOffset : Nat := 0x2C
def smrOffset : Nat := 0x30
def tsrOffset : Nat := 0x34
def tmrOffset : Nat := 0x38
def rarOffset : Nat := 0x3C
def ramrOffset : Nat := 0x40
def pprOffset : Nat := 0x44
def tcrOffset : Nat := 0x48
def vstrOffset : Nat := 0x4C
def isrOffset : Nat := 0x50
def imrOffset : Nat := 0x54
def dpllrOffset : Nat := 0x58
/-- The highest FCore register of BAR 0. -/
def maxOffset : Nat := 0x58

def fcrOffset : Nat := 0x00
def dmaccrOffset : Nat := 0x04
def dmaRxBaseOffset : Nat := 0x0c
def dmaTxBaseOffset : Nat := 0x10
def dmaCurrentRxBaseOffset : Nat := 0x20
def dmaCurrentTxBaseOffset : Nat := 0x24
def dstarOffset : Nat := 0x30

def ceBit : BitVec 32 := 0x00040000

/-! ## Descriptors (`io.h`, `defines.h`) -/

def descFeBit : Nat := 0x80000000
def descCstopBit : Nat := 0x40000000
def descHiBit : Nat := 0x20000000
def dmaMaxLength : Nat := 0x1fffffff

/-- `struct dma_frame` with the `struct fscc_descriptor` it points to. -/
structure DmaFrame where
  control : Nat
  dataCount : Nat
  dataSize : Nat
  buffer : List Byte
  timestamp : BitVec 64

-- A buffer size the driver works with: a positive multiple of 4, kept in an `unsigned`.
structure BufferSize (ds : Nat) : Prop where
  pos : 0 < ds
  align : ds % 4 = 0
  lt : ds < 4294967296

/-! ## Status codes -/

/-- The `NTSTATUS` values the modelled code tells apart; `failed` is any other failure. -/
inductive NtStatus where
  | success
  | bufferTooSmall
  | ioTimeout
  | objectNameNotFound
  | noMoreEntries
  | notFound
  | notSupported
  | failed
  deriving DecidableEq, Repr

/-! ## The hardware -/

structure Hardware (H : Type) where
  ioRead : (bar offset : Nat) → H → BitVec 32 × H
  ioWrite : (bar offset : Nat) → BitVec 32 → H → H
  keQuerySystemTime : H → BitVec 64 × H

end FsccDriver
