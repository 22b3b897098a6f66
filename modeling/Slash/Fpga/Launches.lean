import Slash.Fpga.Regions
import Slash.Lib.Run

/-!
# Launches on a device

The history of a device: programs are compiled, buffers are staged, and a plan is launched over and
over. A launch first resolves its buffer aliases (in passes, because a chain may arrive out of
order), then the address of one kernel argument after the other, and then submits the image. Each
step below is one section under `bufferMutex_`, so that staging by other threads can come between
any two of them.

What has been staged under a canonical key is written down beside the device (`staged`): the bytes
that the next launch should find. A launch that ran leaves its own buffers to its kernels.
-/

namespace Slash.Fpga

open Lib (OrderedMap)
open Host (QueueProgram)

/-! ## Launches -/

/-- `DeferredBufferAlias`, with the size its token has at this launch. -/
structure DeferredAlias where
  sourceKey : BufferKey
  targetKey : BufferKey
  bytes : Except String Nat
  deriving DecidableEq

/-- `DeferredBufferAddress`, with the size of the token at this launch. -/
structure DeferredAddress where
  argument : BufferPort
  bytes : Except String Nat
  deriving DecidableEq

def DeferredAddress.key (a : DeferredAddress) : BufferKey := keyOf a.argument.buffer

/-- A patched argument: its size and the record it was given. -/
structure Patched where
  address : DeferredAddress
  bytes : Nat
  record : BufferRecord
  deriving DecidableEq

inductive Phase where
  /-- A pass of `resolveDeferredBufferAliases`: what is left of it, what could not be resolved so
  far, whether any alias was made, and the alias that is about to be made. -/
  | aliasing (pending unresolved : List DeferredAlias) (madeProgress : Bool)
      (chosen : Option (BufferKey × BufferKey))
  /-- The aliases without storage on either side: the source is seeded, then aliased. -/
  | seeding (rest : List DeferredAlias) (seeded : Bool)
  /-- `resolveDeferredBufferAddresses`; the image is submitted when nothing is left. -/
  | addressing (rest : List DeferredAddress) (patched : List Patched)
  deriving DecidableEq

/-- A launch in progress. -/
structure Launch where
  aliases : List DeferredAlias
  addresses : List DeferredAddress
  phase : Phase
  deriving DecidableEq

/-- A device and its history so far. -/
structure Session where
  device : Device := {}
  activeImage : String := ""
  program : Option QueueProgram := none
  launch : Option Launch := none
  staged : BufferKey → Option (List UInt8) := fun _ => none

/-- The memory of the arguments of a launch that is ready to be submitted. -/
def Session.submitted (s : Session) : Option (List Backing) :=
  match s.launch with
  | some ⟨_, _, .addressing [] patched⟩ => some (patched.map fun p => p.record.backing)
  | _ => none

def deferredAliases (dg : QueueProgram) : List (BufferKey × BufferKey) :=
  (kernels dg).flatMap inoutAliases ++ boundaryAliases dg

def deferredArguments (dg : QueueProgram) : List BufferPort := (kernels dg).flatMap argumentPorts

/-- `awaitingRootInput`: a bridge may still stage the source of one of the aliases. -/
def awaitingRootInput (d : Device) (unresolved : List DeferredAlias) : Bool :=
  unresolved.any fun a =>
    startsWith a.sourceKey "scope:0:" && !startsWith a.targetKey "scope:0:" &&
      match d.hasBuffer a.sourceKey with
      | .ok found => !found
      | .error _ => false

namespace Session

variable (alloc : Allocator) (s : Session)

def close : Session := { s with launch := none, device := { s.device with pins := [] } }

def go (l : Launch) (phase : Phase) : Session := { s with launch := some { l with phase } }

/-- `setInputBuffer`, and whether it succeeded. -/
def setInputBuffer (bufferName : String) (bytes : List UInt8) : Bool × Session :=
  match s.device.setInputBuffer alloc bufferName bytes with
  | (.ok (), d) =>
    let key := s.device.canonicalBufferKey (normalizeBufferKey bufferName)
    (true, { s with
      device := d
      staged := fun k => if key.toOption = some k then some bytes else s.staged k })
  | (.error _, d) => (false, { s with device := d })

/-- What was staged for a target counts for its source once the two are one, unless the source has
bytes of its own. -/
def mergeStaged (target source : BufferKey) : BufferKey → Option (List UInt8) :=
  match (s.device.canonicalBufferKey target).toOption,
      (s.device.canonicalBufferKey source).toOption with
  | some t, some c =>
    if t = c then s.staged
    else fun k => if k = t then none else if k = c then s.staged c <|> s.staged t else s.staged k
  | _, _ => s.staged

/-- `aliasBufferKey` on keys that are scoped already, and whether it succeeded. -/
def aliasBufferKey (target source : BufferKey) : Bool × Session :=
  match s.device.aliasBufferKey target source with
  | .ok d => (true, { s with device := d, staged := s.mergeStaged target source })
  | .error _ => (false, s)

/-- The next alias of a pass: existing storage wins in either direction. -/
def chooseAlias (l : Launch) (a : DeferredAlias) (pending unresolved : List DeferredAlias)
    (madeProgress : Bool) : Session :=
  match s.device.hasBuffer a.sourceKey, s.device.hasBuffer a.targetKey with
  | .ok true, _ =>
    s.go l (.aliasing pending unresolved madeProgress (some (a.targetKey, a.sourceKey)))
  | .ok false, .ok true =>
    s.go l (.aliasing pending unresolved madeProgress (some (a.sourceKey, a.targetKey)))
  | .ok false, .ok false => s.go l (.aliasing pending (unresolved ++ [a]) madeProgress none)
  | _, _ => s.close

def endPass (l : Launch) (unresolved : List DeferredAlias) (madeProgress : Bool) : Session :=
  if unresolved.isEmpty then s.go l (.addressing l.addresses [])
  else if madeProgress || awaitingRootInput s.device unresolved then
    s.go l (.aliasing unresolved [] false none)
  else s.go l (.seeding unresolved false)

/-- One argument of `resolveDeferredBufferAddresses`. -/
def resolveAddress (l : Launch) (a : DeferredAddress) (rest : List DeferredAddress)
    (patched : List Patched) : Session :=
  match a.bytes with
  | .error _ => s.close
  | .ok n =>
    match s.device.ensureBufferByKey alloc a.key n with
    | (.ok r, d) =>
      let s := { s with device := { d with pins := d.pins ++ r.backing.allocations } }
      s.go l (.addressing rest (patched ++ [⟨a, n, r⟩]))
    | (.error _, d) =>
      let s := { s with device := d }
      s.close

def tick : Session :=
  match s.launch with
  | none => s
  | some l =>
    match l.phase with
    | .aliasing pending unresolved _ (some (target, source)) =>
      match s.aliasBufferKey target source with
      | (true, s) => s.go l (.aliasing pending unresolved true none)
      | (false, s) => s.close
    | .aliasing (a :: pending) unresolved madeProgress none =>
      s.chooseAlias l a pending unresolved madeProgress
    | .aliasing [] unresolved madeProgress none => s.endPass l unresolved madeProgress
    | .seeding [] _ => s.go l (.addressing l.addresses [])
    | .seeding (a :: rest) false =>
      match a.bytes with
      | .error _ => s.close
      | .ok n =>
        match s.setInputBuffer alloc a.sourceKey (List.replicate n 0) with
        | (true, s) => s.go l (.seeding (a :: rest) true)
        | (false, s) => s.close
    | .seeding (a :: rest) true =>
      match s.aliasBufferKey a.targetKey a.sourceKey with
      | (true, s) => s.go l (.seeding rest false)
      | (false, s) => s.close
    | .addressing (a :: rest) patched => s.resolveAddress alloc l a rest patched
    | .addressing [] _ => s

end Session

/-- A byte of the memory a patched argument was given. -/
def Patched.covers (p : Patched) (space : Space) (n : Nat) : Bool :=
  space = p.record.backing.space ∧ p.record.backing.base ≤ n ∧
    n < p.record.backing.base + p.record.capacity

/-- The kernels of a submitted launch have run and left `m` in their buffers. -/
def Session.finish (s : Session) (m : Memory) : Session :=
  match s.launch with
  | some ⟨_, _, .addressing [] patched⟩ =>
    let s := { s with
      device := { s.device with
        memory := fun space n =>
          if patched.any fun p => p.covers space n then m space n else s.device.memory space n }
      staged := fun k =>
        if patched.any fun p => (s.device.canonicalBufferKey p.address.key).toOption = some k then
          none
        else s.staged k }
    s.close
  | _ => s

/-- What can happen to a device. -/
inductive Act where
  | setPdiStagingDevice
  | activate (imageId : String)
  | compileProgram (dg : QueueProgram)
  | projectProgram (dg : QueueProgram)
  | setInputBuffer (bufferName : String) (bytes : List UInt8)
  | launch (aliases : List DeferredAlias) (addresses : List DeferredAddress)
  | tick
  | timeout
  | finish (m : Memory)

/-- One step of the history. A plan can be launched while it is the one compiled last and no other
launch is under way. A program whose compilation fails after its regions were published acts as a
projection. -/
def Session.step (alloc : Allocator) (resolve : String → RegionOf) (s : Session) : Act → Session
  | .setPdiStagingDevice => { s with device := { s.device with staging := true } }
  | .activate imageId => { s with activeImage := imageId }
  | .compileProgram dg =>
    match s.launch, populateBufferRegions (resolve s.activeImage) s.device dg with
    | none, .ok d => { s with device := d, program := some dg }
    | _, _ => s
  | .projectProgram dg =>
    match populateBufferRegions (resolve s.activeImage) s.device dg with
    | .ok d => { s with device := d }
    | .error _ => s
  | .setInputBuffer bufferName bytes => (s.setInputBuffer alloc bufferName bytes).2
  | .launch aliases addresses =>
    match s.program, s.launch with
    | some dg, none =>
      if (∀ a ∈ aliases, (a.sourceKey, a.targetKey) ∈ deferredAliases dg) ∧
          ∀ a ∈ addresses, a.argument ∈ deferredArguments dg then
        { s with launch := some ⟨aliases, addresses, .aliasing aliases [] false none⟩ }
      else s
    | _, _ => s
  | .tick => s.tick alloc
  | .timeout => s.close
  | .finish m => s.finish m

end Slash.Fpga
