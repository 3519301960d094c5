import ChudOS.LowLevel.Memory
import Mathlib.Logic.Function.Basic

/-!
# The PCI scan

`ScanBusses` of `PCI.c`. A header is a record over an array of words, of which the members are parts.
The local variables of the loops keep what an earlier round left in them; a ghost remembers where a
header was read.
-/

namespace ChudOS.PCI

/-- The configuration space: by bus, slot, function and register, a doubleword. -/
abbrev ConfigSpace := BitVec 8 → BitVec 5 → BitVec 3 → BitVec 6 → U32

/-- What the data port shows for what was written to the address port. -/
def ConfigSpace.inl (space : ConfigSpace) (address : U32) : U32 :=
  if address.getLsbD 31 then
    space (address.extractLsb' 16 8) (address.extractLsb' 11 5) (address.extractLsb' 8 3)
      (address.extractLsb' 2 6)
  else 0xffffffff

def createConfigAddress (bus slot func offset : U8) : U32 :=
  bus.setWidth 32 <<< 16 ||| slot.setWidth 32 <<< 11 ||| func.setWidth 32 <<< 8 |||
    (offset &&& 0xfc).setWidth 32 ||| 0x80000000

/-! ## The records -/

def half (x : U32) (k : Nat) : U16 := (x >>> (16 * k)).setWidth 16

def quarter (x : U32) (k : Nat) : U8 := (x >>> (8 * k)).setWidth 8

structure CommonHeader where
  vendorID : U16
  deviceID : U16
  command : U16
  status : U16
  revisionID : U8
  progIF : U8
  subClass : U8
  classCode : U8
  cacheLineSize : U8
  latencyTimer : U8
  headerType : U8
  bist : U8
  deriving DecidableEq

/-- The members over four words. -/
def CommonHeader.ofWords (w : Nat → U32) : CommonHeader where
  vendorID := half (w 0) 0
  deviceID := half (w 0) 1
  command := half (w 1) 0
  status := half (w 1) 1
  revisionID := quarter (w 2) 0
  progIF := quarter (w 2) 1
  subClass := quarter (w 2) 2
  classCode := quarter (w 2) 3
  cacheLineSize := quarter (w 3) 0
  latencyTimer := quarter (w 3) 1
  headerType := quarter (w 3) 2
  bist := quarter (w 3) 3

structure Header0 where
  bar0 : U32
  bar1 : U32
  bar2 : U32
  bar3 : U32
  bar4 : U32
  bar5 : U32
  cardbusCIS : U32
  subsystemVendorID : U16
  subsystemID : U16
  expansionROM : U32
  capabilityPointer : U16
  reserved1 : U16
  reserved2 : U32
  interruptLine : U8
  interruptPIN : U8
  minGrant : U8
  maxLatency : U8
  commonHeader : CommonHeader
  deriving DecidableEq

/-- The members over sixteen words. The common header comes last. -/
def Header0.ofWords (w : Nat → U32) : Header0 where
  bar0 := w 0
  bar1 := w 1
  bar2 := w 2
  bar3 := w 3
  bar4 := w 4
  bar5 := w 5
  cardbusCIS := w 6
  subsystemVendorID := half (w 7) 0
  subsystemID := half (w 7) 1
  expansionROM := w 8
  capabilityPointer := half (w 9) 0
  reserved1 := half (w 9) 1
  reserved2 := w 10
  interruptLine := quarter (w 11) 0
  interruptPIN := quarter (w 11) 1
  minGrant := quarter (w 11) 2
  maxLatency := quarter (w 11) 3
  commonHeader := .ofWords fun i => w (12 + i)

structure Header1 where
  bar0 : U32
  bar1 : U32
  primaryBusNumber : U8
  secondaryBusNumber : U8
  subordinateBusNumber : U8
  secondaryLatencyTimer : U8
  ioBase : U8
  ioLimit : U8
  secondaryStatus : U16
  memoryBase : U16
  memoryLimit : U16
  prefetchMemoryBaseLower : U16
  prefetchMemoryLimitLower : U16
  prefetchBaseUpper : U32
  prefetchLimitUpper : U32
  ioBaseUpper : U16
  ioLimitUpper : U16
  capabilityPointer : U16
  reserved1 : U16
  expansionROM : U32
  interruptLine : U8
  interruptPIN : U8
  bridgeControl : U16
  commonHeader : CommonHeader
  deriving DecidableEq

def Header1.ofWords (w : Nat → U32) : Header1 where
  bar0 := w 0
  bar1 := w 1
  primaryBusNumber := quarter (w 2) 0
  secondaryBusNumber := quarter (w 2) 1
  subordinateBusNumber := quarter (w 2) 2
  secondaryLatencyTimer := quarter (w 2) 3
  ioBase := quarter (w 3) 0
  ioLimit := quarter (w 3) 1
  secondaryStatus := half (w 3) 1
  memoryBase := half (w 4) 0
  memoryLimit := half (w 4) 1
  prefetchMemoryBaseLower := half (w 5) 0
  prefetchMemoryLimitLower := half (w 5) 1
  prefetchBaseUpper := w 6
  prefetchLimitUpper := w 7
  ioBaseUpper := half (w 8) 0
  ioLimitUpper := half (w 8) 1
  capabilityPointer := half (w 9) 0
  reserved1 := half (w 9) 1
  expansionROM := w 10
  interruptLine := quarter (w 11) 0
  interruptPIN := quarter (w 11) 1
  bridgeControl := half (w 11) 1
  commonHeader := .ofWords fun i => w (12 + i)

/-! ## Reading headers -/

section Read

variable (space : ConfigSpace) (bus slot : U8)

def readL (offset : U8) : U32 := space.inl (createConfigAddress bus slot 0 offset)

/-- The words of `PCI_ReadCommonHeader`, over the words that its result held before. -/
def readCommonHeader (raw : Nat → U32) : Nat → U32 :=
  (List.range 4).foldl
    (fun ret i => Function.update ret i (readL space bus slot (BitVec.ofNat 8 (i * 4)))) raw

/-- The words of `PCI_ReadHeader0` and `PCI_ReadHeader1`, which copy the common header and then read
sixteen words. -/
def readHeader (raw common : Nat → U32) : Nat → U32 :=
  (List.range 16).foldl
    (fun ret i => Function.update ret i (readL space bus slot (BitVec.ofNat 8 ((i + 4) * 4))))
    fun i => if 12 ≤ i then common (i - 12) else raw i

def readHeader0 (raw common : Nat → U32) : Header0 := .ofWords (readHeader space bus slot raw common)

def readHeader1 (raw common : Nat → U32) : Header1 := .ofWords (readHeader space bus slot raw common)

end Read

/-! ## The scan -/

/-- A local header, and the bus and the slot where it was read. -/
structure Local (α : Type) where
  value : α
  source : Option (U8 × U8)

structure Device where
  header : CommonHeader
  header0 : Local Header0
  header1 : Local Header1
  headerType : Bool
  present : Bool
  slot : U8
  bus : U8

/-- The variables of the loops, and the variables of the module: `Devices[0 .. deviceRun)`, and which
of them the two pointers name. -/
structure Scan where
  header0 : Local Header0
  header1 : Local Header1
  headerType : Bool
  devices : List Device
  ahciController : Option Nat
  floppyController : Option Nat

/-- One slot, where new variables hold the words `raw`. -/
def scanSlot (space : ConfigSpace) (raw : Nat → U32) (s : Scan) (bus slot : U8) : Scan :=
  let words := readCommonHeader space bus slot raw
  let curHeader := CommonHeader.ofWords words
  if curHeader.vendorID = 0xffff then s
  else
    let s :=
      if curHeader.headerType = 0 then
        { s with
          header0 := ⟨readHeader0 space bus slot raw words, some (bus, slot)⟩
          headerType := false }
      -- `HeaderType = 0x01` is an assignment, and true
      else
        { s with
          header1 := ⟨readHeader1 space bus slot raw words, some (bus, slot)⟩
          headerType := true }
    let deviceRun := s.devices.length
    let s :=
      { s with
        devices := s.devices ++
          [⟨curHeader, s.header0, s.header1, s.headerType, true, slot, bus⟩] }
    if curHeader.classCode = 1 ∧ curHeader.subClass = 6 ∧ curHeader.progIF = 1 then
      { s with ahciController := some deviceRun }
    else if curHeader.classCode = 1 ∧ curHeader.subClass = 2 ∧ curHeader.progIF = 0 then
      { s with floppyController := some deviceRun }
    else s

def scanBusses (space : ConfigSpace) (raw : Nat → U32) (s : Scan) : Scan :=
  (List.range 8).foldl (fun s (bus : Nat) =>
    (List.range 32).foldl (fun s (slot : Nat) =>
      scanSlot space raw s (BitVec.ofNat 8 bus) (BitVec.ofNat 8 slot)) s) s

/-- Before the loops: the headers were not read, and no device was found. -/
def Scan.start (raw : Nat → U32) (headerType : Bool) (ahci floppy : Option Nat) : Scan where
  header0 := ⟨.ofWords raw, none⟩
  header1 := ⟨.ofWords raw, none⟩
  headerType := headerType
  devices := []
  ahciController := ahci
  floppyController := floppy

end ChudOS.PCI
