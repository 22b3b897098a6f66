import Slash.Host.Control
import Slash.Lib.OrderedMap
import Slash.Lib.Pool

/-!
# The signal slots of a device

Rendezvous, scalars and the lifecycle sentinel share RP1's signal array, and `FpgaDevice` counts the
reservations of every slot. Two kinds of owner take slots from it. `leaseResources` allocates one
slot for each logical resource and gives all of them back if it runs out. A plan for a direct program
reserves the slots its program names, in the program and in every program below it, and allocates
one for each output scalar it reads; it does so while its constructor builds the image, between
steps that can throw.

What an image builder asks of the slots is a list of requests (`slotRequests`); where the lowering of
the packets throws is given by the number of requests before it. The device is not poisoned.
-/

namespace Slash.Fpga

open Lib (OrderedMap)
open Host

/-- `RP1_MAX_SIGNALS` slots. -/
abbrev maxSignals : Nat := Rp1.maxSignals

/-! ## Leases -/

abbrev RendezvousId := Nat
abbrev ScalarResourceId := Nat

/-- `FpgaRendezvousLease`. -/
structure RendezvousLease where
  rendezvous : OrderedMap RendezvousId Nat := .empty
  scalars : OrderedMap ScalarResourceId Nat := .empty

/-- The slots in the order the destructor releases them. -/
def RendezvousLease.slots (l : RendezvousLease) : List Nat := l.rendezvous.values ++ l.scalars.values

/-- One of the two loops of `leaseResources`: the map of the slots and `allocated`, up to the end
or to the first allocation that throws. -/
def leaseLoop : List Nat → (Nat → Nat) → OrderedMap Nat Nat → List Nat →
    Bool × (Nat → Nat) × OrderedMap Nat Nat × List Nat
  | [], r, slots, allocated => (true, r, slots, allocated)
  | id :: ids, r, slots, allocated =>
    match Lib.Pool.alloc maxSignals r with
    | none => (false, r, slots, allocated)
    | some (slot, r) => leaseLoop ids r (slots.emplace id slot) (allocated ++ [slot])

/-- `leaseResources`; `none` if it throws. -/
def leaseResources (r : Nat → Nat) (rendezvous : List RendezvousId)
    (scalars : List ScalarResourceId) : Option RendezvousLease × (Nat → Nat) :=
  match leaseLoop rendezvous r .empty [] with
  | (false, r, _, allocated) => (none, allocated.foldl (Lib.Pool.release maxSignals) r)
  | (true, r, rendezvousSlots, allocated) =>
    match leaseLoop scalars r .empty allocated with
    | (false, r, _, allocated) => (none, allocated.foldl (Lib.Pool.release maxSignals) r)
    | (true, r, scalarSlots, _) => (some ⟨rendezvousSlots, scalarSlots⟩, r)

/-! ## Direct programs -/

mutual

/-- `Rp1QueueProgram` with the programs below it. -/
inductive QueueTree where
  | mk (commands : List Command) (children : List ChildTree)

/-- `Rp1ChildProgram`. -/
inductive ChildTree where
  | mk (parentCommandId : String) (role : ChildRole) (programs : List QueueTree)

end

mutual

/-- The slots `reserveReferencedSignalSlots` reserves, in its order. -/
def QueueTree.referenced : QueueTree → List Nat
  | .mk commands children =>
    ((commands.flatMap Command.signalSlots).map BitVec.toNat) ++ referencedBelow children

def ChildTree.referenced : ChildTree → List Nat
  | .mk _ _ programs => referencedIn programs

def referencedBelow : List ChildTree → List Nat
  | [] => []
  | child :: children => child.referenced ++ referencedBelow children

def referencedIn : List QueueTree → List Nat
  | [] => []
  | program :: programs => program.referenced ++ referencedIn programs

end

def QueueTree.commands : QueueTree → List Command
  | .mk commands _ => commands

def ChildTree.flat : ChildTree → Host.ChildProgram
  | .mk parentCommandId role programs => ⟨parentCommandId, role, programs.map QueueTree.commands⟩

/-- A program handed to `compileProgram` or `projectProgram`. -/
structure DirectProgram where
  tree : QueueTree
  scalarResources : List (ScalarKey × Nat) := []
  resourcesLeased : Bool := false

def QueueTree.flat : QueueTree → Host.QueueProgram
  | .mk commands children => { commands := commands, children := children.map ChildTree.flat }

/-! ## Requests -/

/-- What an image builder asks of the slots. -/
inductive SlotRequest where
  /-- `reserveSignalSlot`. -/
  | reserve (slot : Nat)
  /-- An output scalar: `acquireScalarSlot`, remembered under its key if the port is bound. -/
  | read (key : Option ScalarKey)
  /-- A carried input: `carriedSlot`. -/
  | carried (parent : ScalarKey)
  /-- An exported output: `carriedSlot`, remembered under the local key too. -/
  | exported (key parent : ScalarKey)
  deriving DecidableEq

/-- The output scalars of a main-line kernel. -/
def kernelRequests (k : KernelCommand) : List SlotRequest :=
  k.kernel.outputScalars.map fun port => .read (k.ioMap.outputScalars.lookup port.name)

/-- `emitLoopKernel`. -/
def loopKernelRequests (imports exports : List (ScalarKey × ScalarKey)) (k : KernelCommand) :
    List SlotRequest :=
  (k.kernel.inputScalars.filterMap fun port =>
    ((k.ioMap.inputScalars.lookup port.name).bind fun key => imports.lookup key).map .carried) ++
  k.kernel.outputScalars.map fun port =>
    match k.ioMap.outputScalars.lookup port.name with
    | none => .read none
    | some key =>
      match exports.lookup key with
      | some parent => .exported key parent
      | none => .read (some key)

/-- `lowerLoop`. -/
def loopRequests (dg : Host.QueueProgram) (loop : LoopCommand) : List SlotRequest :=
  let body := Host.collectControlBody dg loop.id .loopBody
  body.flatMap fun
    | .kernel k => loopKernelRequests (Host.scalarAliases body true) (Host.scalarAliases body false) k
    | _ => []

/-- The requests behind the reservations: of `emitMainlineCommands`, which has no loops, or of
`buildControlImage`. -/
def emissionRequests (dg : Host.QueueProgram) : List SlotRequest :=
  dg.commands.flatMap fun
    | .kernel k => kernelRequests k
    | .loop loop => loopRequests dg loop
    | _ => []

/-- Everything the constructor of a plan asks for, in order. -/
def DirectProgram.slotRequests (p : DirectProgram) : List SlotRequest :=
  p.tree.referenced.map .reserve ++ emissionRequests p.tree.flat

/-! ## The constructor of a plan -/

/-- The slots of a plan under construction, with the device's counts. `allocated` are those of
`ownedSignalSlots` that came from `alloc`. -/
structure PlanSlots where
  reservations : Nat → Nat
  ownedSignalSlots : List Nat := []
  allocated : List Nat := []
  scalarSlots : List (ScalarKey × Nat) := []

/-- `reserveSignalSlot`, with `reserveDeviceSignalSlot`. -/
def reserveSignalSlot (sentinelSlot : Nat) (p : DirectProgram) (slot : Nat) (s : PlanSlots) :
    Option PlanSlots :=
  if slot = sentinelSlot then none
  else if p.resourcesLeased ∨ slot ∈ s.ownedSignalSlots then some s
  else some { s with
    ownedSignalSlots := slot :: s.ownedSignalSlots
    reservations := Lib.Pool.reserve maxSignals s.reservations slot }

def acquireScalarSlot (p : DirectProgram) (key : Option ScalarKey) (s : PlanSlots) :
    Option (Nat × PlanSlots) :=
  match key.bind fun k => p.scalarResources.lookup k with
  | some slot => some (slot, s)
  | none =>
    if p.resourcesLeased then none
    else
      (Lib.Pool.alloc maxSignals s.reservations).map fun a =>
        (a.1, { s with
          reservations := a.2
          ownedSignalSlots := a.1 :: s.ownedSignalSlots
          allocated := a.1 :: s.allocated })

/-- `scalarSlots_[key] = slot`. -/
def PlanSlots.remember (s : PlanSlots) (key : ScalarKey) (slot : Nat) : PlanSlots :=
  { s with scalarSlots := (key, slot) :: s.scalarSlots }

def carriedSlot (p : DirectProgram) (parent : ScalarKey) (s : PlanSlots) :
    Option (Nat × PlanSlots) :=
  match s.scalarSlots.lookup parent with
  | some slot => some (slot, s)
  | none =>
    (acquireScalarSlot p (some parent) s).map fun a => (a.1, a.2.remember parent a.1)

/-- One request; `none` if it throws, which leaves the slots as they were. -/
def request (sentinelSlot : Nat) (p : DirectProgram) (s : PlanSlots) :
    SlotRequest → Option PlanSlots
  | .reserve slot => reserveSignalSlot sentinelSlot p slot s
  | .read none => (acquireScalarSlot p none s).map Prod.snd
  | .read (some key) => (acquireScalarSlot p (some key) s).map fun a => a.2.remember key a.1
  | .carried parent => (carriedSlot p parent s).map Prod.snd
  | .exported key parent => (carriedSlot p parent s).map fun a => a.2.remember key a.1

/-- The requests one after the other, up to the first that throws. -/
def requests (sentinelSlot : Nat) (p : DirectProgram) : List SlotRequest → PlanSlots →
    Bool × PlanSlots
  | [], s => (true, s)
  | q :: qs, s =>
    match request sentinelSlot p s q with
    | none => (false, s)
    | some s => requests sentinelSlot p qs s

/-- The constructor: all requests, or those before the lowering error. -/
def construct (sentinelSlot : Nat) (p : DirectProgram) (error : Option Nat) (r : Nat → Nat) :
    Bool × PlanSlots :=
  match error with
  | none => requests sentinelSlot p p.slotRequests { reservations := r }
  | some n => (false, (requests sentinelSlot p (p.slotRequests.take n) { reservations := r }).2)

/-! ## The device -/

inductive SlotOwner where
  | lease (l : RendezvousLease)
  | plan (ownedSignalSlots allocated : List Nat)

def SlotOwner.releases : SlotOwner → List Nat
  | lease l => l.slots
  | plan ownedSignalSlots _ => ownedSignalSlots

def SlotOwner.held : SlotOwner → List Nat
  | lease l => l.slots
  | plan _ allocated => allocated

def SlotOwner.isPlan : SlotOwner → Bool
  | lease _ => false
  | plan .. => true

/-- The part of `FpgaDevice` that deals in slots, with the live owners. -/
structure SlotDevice where
  sentinelSlot : Nat
  reservations : Nat → Nat
  executionLeased : Bool := false
  owners : List SlotOwner := []

def SlotDevice.init (sentinelSlot : Nat) : SlotDevice where
  sentinelSlot := sentinelSlot
  reservations := Lib.Pool.reserve maxSignals (fun _ => 0) sentinelSlot

/-- The calls. `rejected`: a check before the constructor throws; `error`: the packet lowering
throws after that many slot requests. -/
inductive SlotCall where
  | leaseResources (rendezvous : List RendezvousId) (scalars : List ScalarResourceId)
  | compileProgram (p : DirectProgram) (rejected : Bool) (error : Option Nat)
  | projectProgram (p : DirectProgram) (rejected : Bool) (error : Option Nat)
  | destroy (owner : Nat)

/-- A call, and whether it returns. When the constructor of a plan throws, its destructor does not
run, so the counts stay as the constructor left them. -/
def SlotDevice.call (d : SlotDevice) : SlotCall → SlotDevice × Bool
  | .leaseResources rendezvous scalars =>
    match leaseResources d.reservations rendezvous scalars with
    | (none, r) => ({ d with reservations := r }, false)
    | (some l, r) => ({ d with reservations := r, owners := d.owners ++ [.lease l] }, true)
  | .compileProgram p rejected error =>
    if d.executionLeased ∨ rejected then (d, false)
    else
      match construct d.sentinelSlot p error d.reservations with
      | (false, s) => ({ d with reservations := s.reservations }, false)
      | (true, s) =>
        ({ d with
            reservations := s.reservations
            executionLeased := true
            owners := d.owners ++ [.plan s.ownedSignalSlots s.allocated] }, true)
  | .projectProgram p rejected error =>
    if rejected then (d, false)
    else
      match construct d.sentinelSlot p error d.reservations with
      | (false, s) => ({ d with reservations := s.reservations }, false)
      | (true, s) =>
        ({ d with
            reservations :=
              s.ownedSignalSlots.foldl (Lib.Pool.release maxSignals) s.reservations }, true)
  | .destroy i =>
    match d.owners[i]? with
    | none => (d, true)
    | some o =>
      ({ d with
          reservations := o.releases.foldl (Lib.Pool.release maxSignals) d.reservations
          executionLeased := d.executionLeased && !o.isPlan
          owners := d.owners.eraseIdx i }, true)

def SlotDevice.step (d : SlotDevice) (c : SlotCall) : SlotDevice := (d.call c).1

end Slash.Fpga
