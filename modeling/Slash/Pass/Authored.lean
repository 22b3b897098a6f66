import Mathlib.Data.List.Dedup
import Mathlib.Data.List.Sort
import Mathlib.Data.Prod.Lex
import Mathlib.Data.String.Basic
import Slash.Host.Program
import Slash.Lib.OrderedMap

/-!
# Authored graphs

The immutable tree `AuthoredGraph::snapshot` hands to the passes: a region is its declarations and
its operations, and a loop or a conditional holds the regions of its arms. A `std::map` of the
source is the list of its entries in key order. Fields that no modelled pass reads (PDI paths,
time-outs, the kind of a loop, the comparison of a condition, placement hints) are left out, and
a region's `parent` is replaced by a flag of the functions that read it: only the root has none.

The support functions of `resolve_graph_support.cpp` follow: what an operation reads, what it
produces, what a loop carries.
-/

namespace Slash.Pass

open Host (ScalarType)

abbrev NodeId := Nat
abbrev RegionId := Nat
abbrev ValueId := Nat
abbrev AuthoredScopeId := Nat

/-- `BufferType`: the same ten element types. -/
abbrev BufferType := ScalarType

structure GraphScalar where
  type : ScalarType
  varName : String
  scopeId : Nat
  graphId : Nat
  deriving DecidableEq, Repr

structure GraphBuffer where
  type : BufferType
  name : String
  scopeId : Nat
  size : Option GraphScalar
  graphId : Nat
  deriving DecidableEq, Repr

def GraphBuffer.valid (b : GraphBuffer) : Bool := b.name ≠ ""

/-- `ResolvedToken`: a buffer or a scalar. -/
inductive Token where
  | buffer (b : GraphBuffer)
  | scalar (s : GraphScalar)
  deriving DecidableEq, Repr

inductive ValueKind where
  | buffer | scalar
  deriving DecidableEq, Repr

structure ValueType where
  kind : ValueKind
  element : ScalarType
  deriving DecidableEq, Repr

/-! ## Token keys -/

/-- `TokenKey`: what names a value within the graph. -/
structure TokenKey where
  kind : ValueKind
  scope : AuthoredScopeId
  name : String
  deriving DecidableEq, Repr

/-- `std::tie(kind, scope, name)`. -/
def TokenKey.tie (k : TokenKey) : Bool ×ₗ Nat ×ₗ String :=
  toLex (k.kind = .scalar, toLex (k.scope, k.name))

theorem TokenKey.tie_injective : Function.Injective TokenKey.tie := by
  rintro ⟨a, b, c⟩ ⟨a', b', c'⟩ h
  cases a <;> cases a' <;> simp_all [TokenKey.tie]

/-- `TokenKey::operator<`. -/
instance : LinearOrder TokenKey := LinearOrder.lift' TokenKey.tie TokenKey.tie_injective

/-- `keyOf` of a scalar. -/
def GraphScalar.key (s : GraphScalar) : TokenKey := ⟨.scalar, s.scopeId, s.varName⟩

/-- `keyOf` of a buffer. -/
def GraphBuffer.key (b : GraphBuffer) : TokenKey := ⟨.buffer, b.scopeId, b.name⟩

/-- `keyOf`. -/
def Token.key : Token → TokenKey
  | .buffer b => b.key
  | .scalar s => s.key

def Token.type : Token → ValueType
  | .buffer b => ⟨.buffer, b.type⟩
  | .scalar s => ⟨.scalar, s.type⟩

/-- The size a `TokenRef` records: `maybeSizeScalar` of a buffer. -/
def Token.size : Token → Option GraphScalar
  | .buffer b => b.size
  | .scalar _ => none

inductive ValueAccess where
  | input | output | inoutInput | inoutOutput | condition | tripCount
  | boundarySource | boundaryTarget
  deriving DecidableEq, Repr

/-- `TokenRef`: a token at a port. Its key, type and size are those of the token. -/
structure TokenRef where
  token : Token
  port : String
  access : ValueAccess := .input
  deriving DecidableEq, Repr

def TokenRef.key (t : TokenRef) : TokenKey := t.token.key

def TokenRef.type (t : TokenRef) : ValueType := t.token.type

/-! ## Ports -/

structure RWBufferPort where
  inName : String
  inType : BufferType
  outName : String
  outType : BufferType
  deriving DecidableEq, Repr

/-- `IOTypeMap`: the declared ports, scalars and buffers as name and type. -/
structure IOTypeMap where
  inputScalars : List (String × ScalarType) := []
  outputScalars : List (String × ScalarType) := []
  inputs : List (String × BufferType) := []
  outputs : List (String × BufferType) := []
  inouts : List RWBufferPort := []
  deriving DecidableEq, Repr

structure InoutBinding where
  inPort : String
  outPort : String
  input : GraphBuffer
  output : GraphBuffer
  deriving DecidableEq, Repr

/-- `PortBindings`: the bound ports, each map as its entries in the order of the names. -/
structure PortBindings where
  inputScalars : List (String × GraphScalar) := []
  outputScalars : List (String × GraphScalar) := []
  inputs : List (String × GraphBuffer) := []
  outputs : List (String × GraphBuffer) := []
  inouts : List InoutBinding := []
  deriving DecidableEq, Repr

inductive ConditionOperand where
  | scalar (s : GraphScalar)
  | constant (type : ScalarType) (bits : Host.U64)
  deriving DecidableEq, Repr

/-- The operands of a `Condition`. -/
structure Condition where
  lhs : Option ConditionOperand
  rhs : Option ConditionOperand
  epsilon : Option ConditionOperand
  deriving DecidableEq, Repr

inductive DeviceType where
  | cpu | gpu | fpga | mockCpu
  deriving DecidableEq, Repr

structure KernelDescriptor where
  name : String
  type : DeviceType
  image : Option String
  ioType : IOTypeMap
  deriving DecidableEq, Repr

/-! ## The region tree -/

/-- `AuthoredDependency`: `target` is missing when no sibling has the authored name. -/
structure AuthoredDependency where
  authoredId : String
  target : Option NodeId
  deriving DecidableEq, Repr

structure AuthoredKernel where
  id : NodeId
  authoredId : String
  kernel : KernelDescriptor
  device : String
  ioMap : PortBindings
  after : List AuthoredDependency
  deriving DecidableEq, Repr

structure AuthoredReprogram where
  id : NodeId
  authoredId : String
  imageId : String
  device : String
  after : List AuthoredDependency
  deriving DecidableEq, Repr

inductive BoundarySide where
  | start | finish
  deriving DecidableEq, Repr

structure ScalarBoundaryMapping where
  source : GraphScalar
  target : GraphScalar
  deriving DecidableEq, Repr

structure BufferBoundaryMapping where
  source : GraphBuffer
  target : GraphBuffer
  deriving DecidableEq, Repr

structure AuthoredBoundary where
  id : NodeId
  authoredId : String
  side : BoundarySide
  sourceParentScope : AuthoredScopeId
  sourceLocalScope : AuthoredScopeId
  scalarMappings : List ScalarBoundaryMapping
  bufferMappings : List BufferBoundaryMapping
  after : List AuthoredDependency
  deriving DecidableEq, Repr

/-- `AuthoredLoop` without its body. A trip count is a scalar. -/
structure AuthoredLoop where
  id : NodeId
  authoredId : String
  ioType : IOTypeMap
  ioMap : PortBindings
  tripCount : Option GraphScalar
  condition : Option Condition
  namedOutputBuffers : List (String × GraphBuffer)
  after : List AuthoredDependency
  deriving DecidableEq, Repr

/-- `AuthoredConditional` without its regions. -/
structure AuthoredConditional where
  id : NodeId
  authoredId : String
  ioType : IOTypeMap
  ioMap : PortBindings
  condition : Condition
  namedOutputBuffers : List (String × GraphBuffer)
  after : List AuthoredDependency
  deriving DecidableEq, Repr

/-- What an `AuthoredRegion` holds beside its operations. -/
structure RegionInfo where
  id : RegionId
  sourceGraph : Nat
  sourceScope : AuthoredScopeId
  sourceParentScope : AuthoredScopeId
  declaredInputBuffers : List (String × GraphBuffer) := []
  declaredOutputBuffers : List (String × GraphBuffer) := []
  declaredScalars : List (String × ScalarType) := []
  declaredInputScalars : List (String × ScalarType) := []
  declaredOutputScalars : List (String × ScalarType) := []
  deriving DecidableEq, Repr

mutual

inductive AuthoredOperation where
  | kernel (k : AuthoredKernel)
  | reprogram (r : AuthoredReprogram)
  | boundary (b : AuthoredBoundary)
  | loop (l : AuthoredLoop) (body : AuthoredRegion)
  | conditional (c : AuthoredConditional) (thenRegion elseRegion : AuthoredRegion)

inductive AuthoredRegion where
  | mk (info : RegionInfo) (operations : List AuthoredOperation)

end

namespace AuthoredRegion

def info : AuthoredRegion → RegionInfo
  | mk info _ => info

def operations : AuthoredRegion → List AuthoredOperation
  | mk _ operations => operations

end AuthoredRegion

/-- `ControlArm`, which the role of a child region gives (`armFor`). -/
inductive ControlArm where
  | loopInitial | loopBackedge | thenBranch | elseBranch
  deriving DecidableEq, Repr

namespace AuthoredOperation

/-- `authoredNodeId`. -/
def id : AuthoredOperation → NodeId
  | kernel k => k.id
  | reprogram r => r.id
  | boundary b => b.id
  | loop l _ => l.id
  | conditional c _ _ => c.id

/-- `authoredSourceId`. -/
def sourceId : AuthoredOperation → String
  | kernel k => k.authoredId
  | reprogram r => r.authoredId
  | boundary b => b.authoredId
  | loop l _ => l.authoredId
  | conditional c _ _ => c.authoredId

/-- `operationAfter`. -/
def after : AuthoredOperation → List AuthoredDependency
  | kernel k => k.after
  | reprogram r => r.after
  | boundary b => b.after
  | loop l _ => l.after
  | conditional c _ _ => c.after

/-- `operationIoMap`. -/
def ioMap : AuthoredOperation → Option PortBindings
  | kernel k => some k.ioMap
  | loop l _ => some l.ioMap
  | conditional c _ _ => some c.ioMap
  | _ => none

/-- `operationIoType`. -/
def ioType : AuthoredOperation → Option IOTypeMap
  | kernel k => some k.kernel.ioType
  | loop l _ => some l.ioType
  | conditional c _ _ => some c.ioType
  | _ => none

def isControl : AuthoredOperation → Bool
  | loop .. => true
  | conditional .. => true
  | _ => false

/-- A boundary, which only moves values between regions, is structural. -/
def isStructural : AuthoredOperation → Bool
  | boundary _ => true
  | _ => false

/-- The child entries of the index, each with its arm. -/
def arms : AuthoredOperation → List (ControlArm × AuthoredRegion)
  | loop _ body => [(.loopBackedge, body)]
  | conditional _ thenRegion elseRegion => [(.thenBranch, thenRegion), (.elseBranch, elseRegion)]
  | _ => []

def childRegions (o : AuthoredOperation) : List AuthoredRegion := o.arms.map Prod.snd

def namedOutputBuffers : AuthoredOperation → List (String × GraphBuffer)
  | loop l _ => l.namedOutputBuffers
  | conditional c _ _ => c.namedOutputBuffers
  | _ => []

end AuthoredOperation

namespace AuthoredRegion

def ids (ρ : AuthoredRegion) : List NodeId := ρ.operations.map AuthoredOperation.id

/-- `RegionTreeIndex::children`: the arms of the region's controls, in the order of the
operations. -/
def children (ρ : AuthoredRegion) : List (AuthoredOperation × ControlArm × AuthoredRegion) :=
  ρ.operations.flatMap fun o => o.arms.map fun arm => (o, arm)

def boundaries (ρ : AuthoredRegion) (side : BoundarySide) : List AuthoredBoundary :=
  ρ.operations.filterMap fun
    | .boundary b => if b.side = side then some b else none
    | _ => none

end AuthoredRegion

mutual

/-- The region and every region below it, in the order of their ids. -/
def AuthoredRegion.regions : AuthoredRegion → List AuthoredRegion
  | .mk info operations => .mk info operations :: regionsBelow operations

def AuthoredOperation.regions : AuthoredOperation → List AuthoredRegion
  | .loop _ body => body.regions
  | .conditional _ thenRegion elseRegion => thenRegion.regions ++ elseRegion.regions
  | _ => []

def regionsBelow : List AuthoredOperation → List AuthoredRegion
  | [] => []
  | o :: os => o.regions ++ regionsBelow os

end

/-- The node ids of a region and of every region below it. -/
def AuthoredRegion.nodes (ρ : AuthoredRegion) : List NodeId :=
  ρ.regions.flatMap AuthoredRegion.ids

/-- `AuthoredGraph`: `snapshot` is its only constructor and numbers the operations and the
regions of the tree one after the other. -/
structure AuthoredGraph where
  root : AuthoredRegion
  nodup : root.nodes.Nodup

def AuthoredGraph.regions (g : AuthoredGraph) : List AuthoredRegion := g.root.regions

def AuthoredGraph.findOperation (g : AuthoredGraph) (n : NodeId) : Option AuthoredOperation :=
  (g.regions.flatMap AuthoredRegion.operations).find? fun o => o.id = n

/-! ## Boundary mappings -/

/-- One mapping of a boundary, with the port its position gives it. -/
structure Mapping where
  port : String
  source : Token
  target : Token
  deriving DecidableEq, Repr

namespace AuthoredBoundary

/-- The scalar mappings, at the ports `scalar.0`, `scalar.1` and so on. -/
def scalars (b : AuthoredBoundary) : List Mapping :=
  b.scalarMappings.mapIdx fun i m => ⟨"scalar." ++ toString i, .scalar m.source, .scalar m.target⟩

/-- The buffer mappings, at the ports `buffer.0`, `buffer.1` and so on. -/
def buffers (b : AuthoredBoundary) : List Mapping :=
  b.bufferMappings.mapIdx fun i m => ⟨"buffer." ++ toString i, .buffer m.source, .buffer m.target⟩

def mappings (b : AuthoredBoundary) : List Mapping := b.scalars ++ b.buffers

end AuthoredBoundary

/-- The mappings of the boundaries of one side, in order. -/
def AuthoredRegion.mappings (ρ : AuthoredRegion) (side : BoundarySide) : List Mapping :=
  (ρ.boundaries side).flatMap AuthoredBoundary.mappings

/-! ## What an operation reads and produces -/

def PortBindings.ioInputs (io : PortBindings) : List TokenRef :=
  (io.inputScalars.map fun p => ⟨.scalar p.2, "scalar." ++ p.1, .input⟩) ++
  (io.inputs.map fun p => ⟨.buffer p.2, "buffer." ++ p.1, .input⟩) ++
  (io.inouts.map fun p => ⟨.buffer p.input, "buffer." ++ p.inPort, .inoutInput⟩)

def PortBindings.ioOutputs (io : PortBindings) : List TokenRef :=
  (io.outputScalars.map fun p => ⟨.scalar p.2, "scalar." ++ p.1, .output⟩) ++
  (io.outputs.map fun p => ⟨.buffer p.2, "buffer." ++ p.1, .output⟩) ++
  (io.inouts.map fun p => ⟨.buffer p.output, "buffer." ++ p.outPort, .inoutOutput⟩)

namespace AuthoredOperation

/-- `ioInputs` of the operation's port map, if it has one. -/
def ioInputs (o : AuthoredOperation) : List TokenRef :=
  (o.ioMap.map PortBindings.ioInputs).getD []

/-- `ioOutputs` of the operation's port map, if it has one. -/
def ioOutputs (o : AuthoredOperation) : List TokenRef :=
  (o.ioMap.map PortBindings.ioOutputs).getD []

def controlBoundaryInputs (o : AuthoredOperation) : List TokenRef :=
  o.childRegions.flatMap fun child =>
    (child.mappings .start).map fun m => ⟨m.source, "boundary." ++ m.port, .input⟩

def controlOutputPort (o : AuthoredOperation) (target : GraphBuffer) (fallback : String) : String :=
  match o.namedOutputBuffers.find? fun p =>
      p.2.scopeId = target.scopeId ∧ p.2.name = target.name with
  | some (port, _) => "buffer." ++ port
  | none => fallback

/-- The port of an exported token: a scalar keeps its position. -/
def exportPort (o : AuthoredOperation) (m : Mapping) : String :=
  match m.target with
  | .scalar _ => "boundary." ++ m.port
  | .buffer b => o.controlOutputPort b ("boundary." ++ m.port)

def controlBoundaryOutputs (o : AuthoredOperation) : List TokenRef :=
  o.childRegions.flatMap fun child =>
    (child.mappings .finish).map fun m => ⟨m.target, o.exportPort m, .output⟩

/-- `producedValues`: one reference for each key, in key order; the first one wins. -/
def producedValues (o : AuthoredOperation) : List TokenRef :=
  (Lib.OrderedMap.emplaceAll TokenRef.key (o.ioOutputs ++ o.controlBoundaryOutputs)).values

/-- `loopCarriedValues`: the keys a loop imports and exports. -/
def loopCarriedValues : AuthoredOperation → List TokenKey
  | loop _ body =>
    ((body.mappings .start).map fun m => m.source.key).filter fun k =>
      k ∈ (body.mappings .finish).map fun m => m.target.key
  | _ => []

/-- The scalar operands of a condition at their ports. -/
def conditionScalars (c : Condition) : List (GraphScalar × String) :=
  [(c.lhs, "condition.lhs"), (c.rhs, "condition.rhs"), (c.epsilon, "condition.epsilon")].filterMap
    fun
      | (some (.scalar s), port) => some (s, port)
      | _ => none

/-- The trip count and the condition scalars of a control, which are not ordinary ports. -/
def controlScalars : AuthoredOperation → List TokenRef
  | loop l _ =>
    (l.tripCount.toList.map fun s => ⟨.scalar s, "trip_count", .tripCount⟩) ++
    ((l.condition.map conditionScalars).getD []).map fun p => ⟨.scalar p.1, p.2, .condition⟩
  | conditional c _ _ => (conditionScalars c.condition).map fun p => ⟨.scalar p.1, p.2, .condition⟩
  | _ => []

end AuthoredOperation

end Slash.Pass
