import Slash.Fpga.Buffers
import Slash.Host.Program

/-!
# Memory regions of a program

`populateBufferRegions`: the region of every buffer bound to a kernel port, spread over the copies
of the boundaries, and written into the device's own map. Which region a port is wired to
(`resolveBufferRegion`) comes from the metadata of the kernel's image, or of the active image when
the kernel names none, and is a parameter.
-/

namespace Slash.Fpga

open Lib (OrderedMap)
open Host

/-- `resolveBufferRegion` under one active image. -/
abbrev RegionOf := KernelDescriptor → String → Option MemoryConfig

abbrev Regions := OrderedMap BufferKey MemoryConfig

def keyOf (b : GraphBuffer) : BufferKey := scopedBufferKey b.scope b.name

structure BufferPort where
  kernel : KernelDescriptor
  port : String
  buffer : GraphBuffer
  deriving DecidableEq, Repr

/-- The bound ports of one side, in the order they are declared. -/
def boundPorts (k : KernelCommand) (ports : List String) (bindings : List (String × GraphBuffer)) :
    List BufferPort :=
  ports.filterMap fun port => (bindings.lookup port).map fun b => ⟨k.kernel, port, b⟩

/-- The ports whose regions `populateBufferRegions` records. -/
def regionPorts (k : KernelCommand) : List BufferPort :=
  boundPorts k k.kernel.inputs k.ioMap.inputs ++
  boundPorts k k.kernel.outputs k.ioMap.outputs ++
  k.kernel.inouts.flatMap fun port =>
    (k.ioMap.inouts.filter fun b => b.inPort = port.1 ∧ b.outPort = port.2).flatMap fun b =>
      [⟨k.kernel, port.1, b.inBuffer⟩, ⟨k.kernel, port.2, b.outBuffer⟩]

/-- The ports whose addresses `packKernelArgs` defers: a read-write pair is one pointer, at its
input port. -/
def argumentPorts (k : KernelCommand) : List BufferPort :=
  boundPorts k k.kernel.inputs k.ioMap.inputs ++
  boundPorts k k.kernel.outputs k.ioMap.outputs ++
  k.kernel.inouts.filterMap fun port =>
    (k.ioMap.inouts.find? fun b => b.inPort = port.1 ∧ b.outPort = port.2).map fun b =>
      ⟨k.kernel, port.1, b.inBuffer⟩

/-- The aliases `packKernelArgs` defers, as source and target. -/
def inoutAliases (k : KernelCommand) : List (BufferKey × BufferKey) :=
  k.kernel.inouts.filterMap fun port =>
    (k.ioMap.inouts.find? fun b => b.inPort = port.1 ∧ b.outPort = port.2).map fun b =>
      (keyOf b.inBuffer, keyOf b.outBuffer)

def allCommands (dg : QueueProgram) : List Command :=
  dg.commands ++ dg.children.flatMap fun child => child.programs.flatten

def kernels (dg : QueueProgram) : List KernelCommand :=
  (allCommands dg).filterMap fun
    | .kernel k => some k
    | _ => none

/-- The copies of the boundaries, as source and target. -/
def boundaryAliases (dg : QueueProgram) : List (BufferKey × BufferKey) :=
  (allCommands dg).flatMap fun
    | .boundary b => b.bufferCopies.map fun copy =>
      (scopedBufferKey copy.sourceScope copy.sourceName,
        scopedBufferKey copy.targetScope copy.targetName)
    | _ => []

/-- `record` of `populateBufferRegions`. -/
def recordRegion (resolve : RegionOf) (regions : Regions) (p : BufferPort) :
    Except String Regions :=
  match resolve p.kernel p.port with
  | none => .ok regions
  | some region =>
    match regions.find? (keyOf p.buffer) with
    | none => .ok (regions.insert (keyOf p.buffer) region)
    | some known =>
      if known = region then .ok regions
      else .error ("FpgaDevice: buffer '" ++ keyOf p.buffer ++
        "' is bound to incompatible memory regions; kernel '" ++ p.kernel.name ++ "' port '" ++
        p.port ++ "' must use the same region as every other producer and consumer")

/-- One alias of the fixed point; the flag says that something changed. -/
def spreadRegion (acc : Regions × Bool) (edge : BufferKey × BufferKey) :
    Except String (Regions × Bool) :=
  match acc.1.find? edge.1, acc.1.find? edge.2 with
  | some a, some b =>
    if a = b then .ok acc
    else .error ("FpgaDevice: boundary alias '" ++ edge.1 ++ "' -> '" ++ edge.2 ++
      "' spans incompatible memory regions")
  | some a, none => .ok (acc.1.insert edge.2 a, true)
  | none, some b => .ok (acc.1.insert edge.1 b, true)
  | none, none => .ok acc

/-- The rounds of the fixed point. A round that changes something gives a region to one more end
of an alias, so twice as many rounds as aliases and one more are enough. -/
def spreadRegions (edges : List (BufferKey × BufferKey)) : Nat → Regions → Except String Regions
  | 0, regions => .ok regions
  | rounds + 1, regions => do
    let (regions, changed) ← edges.foldlM spreadRegion (regions, false)
    if changed then spreadRegions edges rounds regions else pure regions

def resolvedRegions (resolve : RegionOf) (dg : QueueProgram) : Except String Regions := do
  let direct ← ((kernels dg).flatMap regionPorts).foldlM (recordRegion resolve) .empty
  spreadRegions (boundaryAliases dg) (2 * (boundaryAliases dg).length + 1) direct

def populateBufferRegions (resolve : RegionOf) (d : Device) (dg : QueueProgram) :
    Except String Device := do
  let resolved ← resolvedRegions resolve dg
  pure { d with regions := resolved.entries.foldl (fun m e => m.insert e.1 e.2) d.regions }

theorem populateBufferRegions_eq {resolve : RegionOf} {d d' : Device} {dg : QueueProgram}
    (h : populateBufferRegions resolve d dg = .ok d') :
    ∃ resolved, resolvedRegions resolve dg = .ok resolved ∧
      d' = { d with regions := resolved.entries.foldl (fun m e => m.insert e.1 e.2) d.regions } := by
  unfold populateBufferRegions at h
  cases hresolved : resolvedRegions resolve dg with
  | error e =>
    rw [hresolved] at h
    cases h
  | ok resolved =>
    rw [hresolved] at h
    exact ⟨resolved, rfl, (Except.ok.inj h).symm⟩

end Slash.Fpga
