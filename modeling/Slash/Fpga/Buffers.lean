import Mathlib.Data.String.Basic
import Slash.Lib.Forest

/-!
# The buffer store of a device

`FpgaDevice` keeps one `BufferRecord` for each canonical key, a map of aliases between keys, and
the memory region of every key whose kernel ports are known. `ensureBufferByKey` is the only place
that makes a record: it reuses the one that is there when its capacity and its kind of memory fit,
and otherwise puts a new one in its place.

Device memory comes from an allocator that is told which allocations are alive (those of the
records, and those pinned by the launch that is being prepared) and answers with an address. The
RP1 window is a second space, from which buffers are carved one after the other. What the two
spaces hold is part of the state. Element types, which only travel along, are left out.
-/

namespace Slash.Fpga

open Lib (OrderedMap)

/-! ## Keys -/

abbrev BufferKey := String

def scopedBufferKey (scopeId : Nat) (name : String) : BufferKey :=
  "scope:" ++ toString scopeId ++ ":" ++ name

/-- `rfind(head, 0) == 0`. -/
def startsWith (key head : String) : Bool := head.toList.isPrefixOf key.toList

def normalizeBufferKey (bufferName : String) : BufferKey :=
  if startsWith bufferName "scope:" then bufferName else scopedBufferKey 0 bufferName

/-! ## Records -/

inductive MemoryRangeType where
  | ddr | hbm | hbmVnoc
  deriving DecidableEq, Repr

structure MemoryConfig where
  type : MemoryRangeType
  hbmPort : Option Nat
  deriving DecidableEq, Repr

/-- A live `vrt::Buffer`. -/
structure Allocation where
  address : Nat
  bytes : Nat
  region : MemoryConfig
  deriving DecidableEq, Repr

inductive Space where
  | device | window
  deriving DecidableEq, Repr

/-- What a record points to: `mem`, or `offset` when `mem` is null. -/
inductive Backing where
  | mem (a : Allocation)
  | offset (n : Nat)
  deriving DecidableEq, Repr

namespace Backing

def isMem : Backing → Bool
  | mem _ => true
  | offset _ => false

def space : Backing → Space
  | mem _ => .device
  | offset _ => .window

def base : Backing → Nat
  | mem a => a.address
  | offset n => n

/-- The address a kernel argument is patched with; `0x30000000` is `RP1_CTRL_PHYS_ADDR`. -/
def deviceAddress : Backing → Nat
  | mem a => a.address
  | offset n => 0x30000000 + n

def allocations : Backing → List Allocation
  | mem a => [a]
  | offset _ => []

end Backing

structure BufferRecord where
  size : Nat
  capacity : Nat
  backing : Backing
  deriving DecidableEq, Repr

abbrev Memory := Space → Nat → UInt8

def Memory.write (m : Memory) (b : Backing) (bytes : List UInt8) : Memory := fun space n =>
  if space = b.space ∧ b.base ≤ n ∧ n < b.base + bytes.length then
    bytes.getD (n - b.base) 0
  else m space n

/-! ## The device -/

/-- `kBufferArenaStart`. -/
def bufferArenaStart : Nat := 0x153000

/-- `Rp1BarWindow::kWindowSize`. -/
def windowSize : Nat := 0x4000000

/-- The buffer state of an `FpgaDevice`, with the pins of the launch it prepares. -/
structure Device where
  buffers : OrderedMap BufferKey BufferRecord := .empty
  aliases : OrderedMap BufferKey BufferKey := .empty
  regions : OrderedMap BufferKey MemoryConfig := .empty
  nextOffset : Nat := bufferArenaStart
  staging : Bool := false
  pins : List Allocation := []
  memory : Memory := fun _ _ => 0

def Device.live (d : Device) : List Allocation :=
  (d.buffers.values.flatMap fun r => r.backing.allocations) ++ d.pins

/-- The allocator of the staging device: an address for the bytes, given what is alive. -/
abbrev Allocator := List Allocation → Nat → MemoryConfig → Option Nat

/-- Live allocations do not overlap. -/
def Allocator.Lawful (alloc : Allocator) : Prop :=
  ∀ live bytes region address, alloc live bytes region = some address →
    ∀ a ∈ live, address + bytes ≤ a.address ∨ a.address + a.bytes ≤ address

namespace Device

def canonicalBufferKey (d : Device) (key : BufferKey) : Except String BufferKey :=
  match Lib.rootOf d.aliases key with
  | some k => .ok k
  | none => .error ("FpgaDevice: cycle detected in buffer aliases for '" ++ key ++ "'")

/-- The region under `key` is also that of its canonical key. -/
def requestRegion (d : Device) (key canonicalKey : BufferKey) : Device :=
  match d.regions.find? key with
  | some region => { d with regions := d.regions.insert canonicalKey region }
  | none => d

/-- The region a buffer is allocated in; without one, or without a staging device, the window is
used. -/
def placement (d : Device) (canonicalKey : BufferKey) : Option MemoryConfig :=
  if d.staging then d.regions.find? canonicalKey else none

/-- The record that is there, when its capacity and kind of memory fit. -/
def reusable (d : Device) (canonicalKey : BufferKey) (sizeBytes : Nat) : Option BufferRecord :=
  match d.buffers.find? canonicalKey with
  | some r =>
    if sizeBytes ≤ r.capacity ∧ r.backing.isMem = (d.placement canonicalKey).isSome then
      some { r with size := sizeBytes }
    else none
  | none => none

/-- `alignUp(nextBufferOffset_, 64)`. -/
def alignedOffset (d : Device) : Nat := (d.nextOffset + 63) / 64 * 64

def newRecord (alloc : Allocator) (d : Device) (canonicalKey : BufferKey) (sizeBytes : Nat) :
    Except String (BufferRecord × Nat) :=
  match d.placement canonicalKey with
  | some region =>
    let allocBytes := max sizeBytes 1
    match alloc d.live allocBytes region with
    | some address =>
      .ok (⟨sizeBytes, allocBytes, .mem ⟨address, allocBytes, region⟩⟩, d.nextOffset)
    | none => .error "std::bad_alloc"
  | none =>
    let last := d.alignedOffset + sizeBytes
    if windowSize < last then
      .error ("FpgaDevice: BAR-backed buffer arena exhausted while allocating '" ++
        canonicalKey ++ "' (" ++ toString sizeBytes ++ " bytes)")
    else .ok (⟨sizeBytes, sizeBytes, .offset d.alignedOffset⟩, last)

/-- `ensureBufferByKey` once the canonical key is known and the region is requested. -/
def ensureCanonical (alloc : Allocator) (d : Device) (canonicalKey : BufferKey) (sizeBytes : Nat) :
    Except String BufferRecord × Device :=
  match d.reusable canonicalKey sizeBytes with
  | some r => (.ok r, { d with buffers := d.buffers.insert canonicalKey r })
  | none =>
    match newRecord alloc d canonicalKey sizeBytes with
    | .ok (r, next) =>
      (.ok r, { d with buffers := d.buffers.insert canonicalKey r, nextOffset := next })
    | .error e => (.error e, d)

/-- `ensureBufferByKey`: the record, or what was thrown, and the device after. -/
def ensureBufferByKey (alloc : Allocator) (d : Device) (key : BufferKey) (sizeBytes : Nat) :
    Except String BufferRecord × Device :=
  match d.canonicalBufferKey key with
  | .ok canonicalKey =>
    (d.requestRegion key canonicalKey).ensureCanonical alloc canonicalKey sizeBytes
  | .error e => (.error e, d)

/-- `setInputBuffer`; a null pointer stages zeros. -/
def setInputBuffer (alloc : Allocator) (d : Device) (bufferName : String) (bytes : List UInt8) :
    Except String Unit × Device :=
  match d.ensureBufferByKey alloc (normalizeBufferKey bufferName) bytes.length with
  | (.ok r, d) => (.ok (), { d with memory := d.memory.write r.backing bytes })
  | (.error e, d) => (.error e, d)

def hasBuffer (d : Device) (bufferName : String) : Except String Bool := do
  let canonicalKey ← d.canonicalBufferKey (normalizeBufferKey bufferName)
  pure (d.buffers.contains canonicalKey)

/-- The regions after an alias: whichever end knows one tells the other. -/
def aliasRegions (d : Device) (canonicalTarget canonicalSource : BufferKey) :
    OrderedMap BufferKey MemoryConfig :=
  match d.regions.find? canonicalSource, d.regions.find? canonicalTarget with
  | some region, _ => d.regions.insert canonicalTarget region
  | none, some region => d.regions.insert canonicalSource region
  | none, none => d.regions

/-- `aliasBufferKey` once both canonical keys are known. -/
def aliasCanonical (d : Device) (canonicalTarget canonicalSource : BufferKey)
    (targetName sourceName : String) : Except String Device :=
  if canonicalTarget = canonicalSource then .ok d
  else if !d.buffers.contains canonicalSource then
    .error ("FpgaDevice: cannot alias buffer '" ++ targetName ++ "' to unallocated source '" ++
      sourceName ++ "' (carried-buffer boundary expects the source staged first)")
  else
    match d.regions.find? canonicalSource, d.regions.find? canonicalTarget with
    | some a, some b =>
      if a = b then
        .ok { d with
          aliases := d.aliases.insert canonicalTarget canonicalSource
          regions := d.aliasRegions canonicalTarget canonicalSource }
      else
        .error ("FpgaDevice: cannot alias buffers '" ++ targetName ++ "' and '" ++ sourceName ++
          "' across incompatible memory regions")
    | _, _ =>
      .ok { d with
        aliases := d.aliases.insert canonicalTarget canonicalSource
        regions := d.aliasRegions canonicalTarget canonicalSource }

def aliasBufferKey (d : Device) (targetName sourceName : String) : Except String Device := do
  let target := normalizeBufferKey targetName
  let source := normalizeBufferKey sourceName
  if target = source then pure d
  else
    let canonicalSource ← d.canonicalBufferKey source
    let canonicalTarget ← d.canonicalBufferKey target
    d.aliasCanonical canonicalTarget canonicalSource targetName sourceName

end Device

end Slash.Fpga
