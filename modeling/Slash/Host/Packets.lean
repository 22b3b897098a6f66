import Mathlib.Data.List.Sort
import Slash.Host.Program
import Slash.Lib.Wlp

/-!
# Image building

What both image builders share: the image under construction, signal-slot acquisition, argument
packing, and the kernel and reprogram packets. A builder is a program in `LowerM`: `Lowering` is
the plan's state while it compiles, an exception is the `std::logic_error` or
`std::runtime_error` the source throws.

The device is what compilation asks of it: where a kernel sits, its register offsets, the
numeric id of an image. `device_->scalarSlotAlloc_` is shared by every plan of the device, so
the lowering starts from arbitrary reservations. The image-local `slotAlloc` is only ever
reserved into and never asked, and is left out.
-/

namespace Slash.Host

open Lib
open Rp1

/-- `FpgaKernelLocation`. -/
structure KernelLocation where
  r5BaseAddr : U32
  timeoutCycles : U32
  deriving DecidableEq, Repr

/-- What compilation asks of `FpgaDevice`. -/
structure Device where
  resolveKernelLocation : KernelDescriptor → Except String KernelLocation
  kernelArgOffsets : KernelDescriptor → List (String × U32)
  outputScalarRegOffset : KernelDescriptor → String → Except String U32
  imageNumericId : String → U32
  sentinelSlot : U32
  sentinelValue : U32

/-- `BarrierRef`: a mask inside one bucket. -/
structure BarrierRef where
  bucket : U8 := 0
  mask : U32 := 0
  deriving DecidableEq, Repr

structure DeferredScalar where
  key : ScalarKey
  type : ScalarType
  argWordOffset : Nat
  diagnostic : String
  deriving DecidableEq, Repr

structure DeferredLoopTripCount where
  nodeIndex : Nat
  gateNodeIndex : Nat
  key : ScalarKey
  type : ScalarType
  diagnostic : String
  deriving DecidableEq, Repr

structure DeferredBufferAddress where
  buffer : GraphBuffer
  argWordOffset : Nat
  diagnostic : String
  deriving DecidableEq, Repr

structure DeferredBufferAlias where
  source : Nat × String
  target : Nat × String
  sizeToken : GraphBuffer
  diagnostic : String
  deriving DecidableEq, Repr

structure DeferredPdi where
  nodeIndex : Nat
  imageId : String
  pdiPath : String
  deriving DecidableEq, Repr

/-- `MainlineScalarReady`. -/
structure ScalarReady where
  slot : U32
  ref : BarrierRef
  deriving DecidableEq, Repr

/-- `ResetDomainEmitter`. -/
structure Domain where
  events : List (String × BarrierRef) := []
  consumed : List String := []
  rootGate : Option String := none
  currentBucket : Nat := 0
  nextBit : Nat := 0
  startBucket : Nat := 0
  endBucket : Nat := 0
  haveBucket : Bool := false

/-- Where a kernel, reprogram, signal or wait command was placed: the packet that carries it and,
for a kernel, the SCALAR_READs of its output scalars. -/
structure Placed where
  /-- the loop whose body the command belongs to, `none` on the main line -/
  region : Option String
  id : String
  dependsOn : List String
  index : Nat
  reads : List Nat
  deriving DecidableEq, Repr

/-- Where a loop was placed; its body is `gate .. rerun`. -/
structure PlacedLoop where
  id : String
  dependsOn : List String
  loop : Nat
  gate : Nat
  rerun : Nat
  exitBit : U32
  /-- the buckets of the body's reset domain -/
  startBucket : Nat
  endBucket : Nat
  deriving DecidableEq, Repr

/-- Where one arm of a conditional was placed: its COND packet and the join that ends its body,
if it has one. -/
structure PlacedArm where
  cond : Nat
  join : Option Nat
  deriving DecidableEq, Repr

/-- Where a conditional was placed. -/
structure PlacedConditional where
  id : String
  dependsOn : List String
  slot : U32
  doneBit : U32
  thenArm : PlacedArm
  elseArm : PlacedArm
  deriving DecidableEq, Repr

/-- The plan while it compiles. The first group belongs to both builders, the second to
`buildMainlineImage`, the third to `buildControlImage`. The last group keeps what the source
has in local variables: where commands were placed. -/
structure Lowering where
  nodes : List Node := []
  argBuf : List U32 := []
  deferred : List DeferredScalar := []
  deferredTripCounts : List DeferredLoopTripCount := []
  deferredBufferAddresses : List DeferredBufferAddress := []
  deferredBufferAliases : List DeferredBufferAlias := []
  deferredPdis : List DeferredPdi := []
  scalarSlots : List (ScalarKey × U32) := []
  reservations : Nat → Nat := fun _ => 0
  ownedSignalSlots : List U32 := []
  clearSignalSlots : List U32 := []
  aggregators : List Node := []
  scalarReady : List (ScalarKey × ScalarReady) := []
  extraLeaves : List BarrierRef := []
  nextExtraPos : Nat := 0
  joinBucket : Nat := 0
  joinBit : Nat := 0
  mainBit : List (String × U32) := []
  nextMainBit : Nat := 0
  nextBodyBkt : Nat := 1
  consumedMain : List String := []
  nextLoopId : Nat := 0
  domain : Domain := {}
  placed : List Placed := []
  loops : List PlacedLoop := []
  conditionals : List PlacedConditional := []

abbrev LowerM := StateT Lowering (Except String)

/-- `kArgBufferWords`: the words between the argument and the signal region. -/
def argBufferWords : Nat := (Rp1.defaultSigArrayOffset - Rp1.defaultArgBufOffset).toNat / 4

/-- `image.nodes.push_back`; returns the new packet's index. -/
def emit (n : Node) : LowerM Nat := do
  let s ← get
  set { s with nodes := s.nodes ++ [n] }
  pure s.nodes.length

def packet (await done : BarrierRef) (payload : Payload) (flags : U16 := 0) : Node where
  flags := flags
  barrierAwaitMask := await.mask
  barrierSetMask := done.mask
  barrierAwaitBucket := await.bucket
  barrierSetBucket := done.bucket
  payload := payload

def nodeAt (nodes : List Node) (i : Nat) : Node := nodes.getD i (packet {} {} .nop)

/-! ## Signal slots -/

/-- `SignalSlotAllocator::alloc`: the lowest slot without a reservation. -/
def allocSlot : LowerM U32 := do
  let s ← get
  match (List.range Rp1.maxSignals).find? fun k => s.reservations k == 0 with
  | none => throw "SignalSlotAllocator: RP1 signal array exhausted"
  | some k =>
    set { s with
      reservations := upd s.reservations k 1
      ownedSignalSlots := BitVec.ofNat 32 k :: s.ownedSignalSlots }
    pure (BitVec.ofNat 32 k)

/-- The text of `scopedScalarKey`; empty for an unbound port. -/
def scalarKeyText : Option ScalarKey → String
  | some k => "scope:" ++ toString k.scope ++ ":" ++ k.name
  | none => ""

/-- `acquireScalarSlot`; an unbound port has no key. -/
def acquireScalarSlot (dg : QueueProgram) (key : Option ScalarKey) : LowerM U32 :=
  match key.bind (fun k => dg.scalarResources.lookup k) with
  | some slot => pure slot
  | none =>
    if dg.resourcesLeased then throw ("FpgaDevice: plan has no leased scalar slot for '" ++ scalarKeyText key ++ "'")
    else allocSlot

/-- The slots a command refers to. -/
def Command.signalSlots : Command → List U32
  | signal c => [c.slot]
  | wait c => [c.slot]
  | loop c =>
    if c.broadcastRole = .none then []
    else [c.conditionBroadcastSlot, c.broadcastReadySlot, c.broadcastAckSlot]
  | _ => []

/-! ## Kernel arguments -/

structure ArgLayout where
  offsets : List (String × U32)
  kernelName : String
  fallback : U32

/-- `ArgLayout::baseFor`: a read-write buffer's `<name>_out` port shares the register of
`<name>`. -/
def ArgLayout.baseFor (l : ArgLayout) (port : String) : Except String U32 :=
  match l.offsets.lookup port with
  | some off => .ok off
  | none =>
    let chars := port.toList
    let stem := chars.take (chars.length - 4)
    let missing := .error ("FpgaDevice: kernel '" ++ l.kernelName ++ "' port '" ++ port ++
      "' has no s_axilite register offset in the system_map")
    if chars.length > 4 ∧ chars.drop (chars.length - 4) = "_out".toList then
      match l.offsets.lookup (String.ofList stem) with
      | some off => .ok off
      | none => missing
    else missing

def ArgLayout.take (l : ArgLayout) (port : String) (words : Nat) :
    Except String (U32 × ArgLayout) :=
  if l.offsets ≠ [] then do
    let base ← l.baseFor port
    pure (base, l)
  else .ok (l.fallback, { l with fallback := l.fallback + BitVec.ofNat 32 (words * 4) })

/-- `appendArgWordsAsPairs` with zero values; returns the index of the first value word. -/
def appendArgWordsAsPairs (base : U32) (width : Nat) (kernel port : String) : LowerM Nat := do
  let s ← get
  if s.argBuf.length + width * 2 > argBufferWords then
    throw ("FpgaDevice: argument buffer overflow while packing kernel '" ++ kernel ++
      "' port '" ++ port ++ "'")
  let pairs := (List.range width).flatMap fun w => [base + BitVec.ofNat 32 (4 * w), 0]
  set { s with argBuf := s.argBuf ++ pairs }
  pure (s.argBuf.length + 1)

/-- `appendBufferAddress`; returns the advanced layout. -/
def appendBufferAddress (node : KernelCommand) (layout : ArgLayout) (port : String)
    (buffer : GraphBuffer) : LowerM ArgLayout := do
  let (base, layout) ← liftM (layout.take port 2)
  let first ← appendArgWordsAsPairs base 2 node.kernel.name port
  modify fun s => { s with deferredBufferAddresses := s.deferredBufferAddresses ++
    [⟨buffer, first, node.id ++ "." ++ port⟩] }
  pure layout

def missingBinding (node : KernelCommand) (what : String) : String :=
  "FpgaDevice: kernel '" ++ node.kernel.name ++ "' " ++ what ++
    " no detail::PortBindings binding"

/-- The input-scalar loop of `packKernelArgs`; carries the layout and the pair count. -/
def packScalar (node : KernelCommand) (skip : List String) (acc : ArgLayout × Nat)
    (port : ScalarPort) : LowerM (ArgLayout × Nat) := do
  let width := scalarWidthInWords port.type
  let (base, layout) ← liftM (acc.1.take port.name width)
  if port.name ∈ skip then pure (layout, acc.2)
  else
    match node.ioMap.inputScalars.lookup port.name with
    | none => throw (missingBinding node ("input scalar port '" ++ port.name ++ "' has"))
    | some key => do
      let first ← appendArgWordsAsPairs base width node.kernel.name port.name
      modify fun s => { s with deferred := s.deferred ++
        [⟨key, port.type, first, node.id ++ "." ++ port.name⟩] }
      pure (layout, acc.2 + width)

/-- The buffer loops of `packKernelArgs`; `side` is `input` or `output`. -/
def packBuffer (node : KernelCommand) (side : String) (bindings : List (String × GraphBuffer))
    (acc : ArgLayout × Nat) (port : String) : LowerM (ArgLayout × Nat) :=
  match bindings.lookup port with
  | none => throw (missingBinding node (side ++ " buffer port '" ++ port ++ "' has"))
  | some buffer => do
    let layout ← appendBufferAddress node acc.1 port buffer
    pure (layout, acc.2 + 2)

/-- The read-write loop of `packKernelArgs`: one pointer register, and an alias for the
out-port. -/
def packInout (node : KernelCommand) (acc : ArgLayout × Nat) (port : String × String) :
    LowerM (ArgLayout × Nat) :=
  match node.ioMap.inouts.find? fun b => b.inPort == port.1 && b.outPort == port.2 with
  | none => throw (missingBinding node ("RW buffer ports '" ++ port.1 ++ "'/'" ++ port.2 ++
      "' have"))
  | some b => do
    let layout ← appendBufferAddress node acc.1 port.1 b.inBuffer
    modify fun s => { s with deferredBufferAliases := s.deferredBufferAliases ++
      [⟨(b.inBuffer.scope, b.inBuffer.name), (b.outBuffer.scope, b.outBuffer.name), b.inBuffer,
        node.id ++ "." ++ port.2⟩] }
    pure (layout, acc.2 + 2)

/-- `packKernelArgs`: the number of argument pairs. -/
def packKernelArgs (dev : Device) (node : KernelCommand) (skip : List String) : LowerM Nat := do
  let layout : ArgLayout := ⟨dev.kernelArgOffsets node.kernel, node.kernel.name, 0x10⟩
  let acc ← node.kernel.inputScalars.foldlM (packScalar node skip) (layout, 0)
  let acc ← node.kernel.inputs.foldlM (packBuffer node "input" node.ioMap.inputs) acc
  let acc ← node.kernel.outputs.foldlM (packBuffer node "output" node.ioMap.outputs) acc
  let acc ← node.kernel.inouts.foldlM (packInout node) acc
  if acc.2 > 0xFFFF then
    throw ("FpgaDevice: kernel '" ++ node.kernel.name ++ "' has " ++ toString acc.2 ++
      " arg pairs, exceeds uint16_t cap")
  pure acc.2

/-! ## Kernel and reprogram packets -/

def emitKernelPacket (dev : Device) (k : KernelCommand) (await done : BarrierRef)
    (skip : List String := []) : LowerM Nat := do
  let loc ← liftM (dev.resolveKernelLocation k.kernel)
  let argOffset := (← get).argBuf.length * 4
  let argCount ← packKernelArgs dev k skip
  emit <| packet await done (.kernelDispatch {
    kernelBaseAddr := loc.r5BaseAddr
    argBufferOffset := BitVec.ofNat 32 argOffset
    argCount := BitVec.ofNat 16 argCount
    timeoutCycles := loc.timeoutCycles
    expectedImageId := match k.kernel.image with
      | some image => dev.imageNumericId image
      | none => 0 }) Rp1.flagHaltOnError

end Slash.Host
