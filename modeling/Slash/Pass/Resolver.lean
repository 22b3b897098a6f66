import Slash.Pass.Validation

/-!
# The resolver

`resolveGraph`: validation, then `GraphResolver::resolve`, which walks the region tree and fills
one table of values, one of operations, and the lists of boundary aliases and control results.
A region is resolved in four steps: its values are defined (`defineRegionValues`), its operations
are bound to them (`resolveOperations`), orderings are derived and the region is sorted
(`addOrdering`, `order`), and then its arms are resolved one after the other, each in a context
that carries the parent's values in and its results out (`resolveArms`).

A value id is the value's position in the table. A loop of the source that fills two tables at
once is written as one fold for each. Diagnostics only accumulate, and a graph is accepted when
there is none at the end.
-/

namespace Slash.Pass

open Lib (OrderedMap)

/-! ## Resolved tables -/

inductive ValueOrigin where
  | graphInput (token : Token)
  | operationOutput (operation : NodeId) (port : String) (token : Token)
  | regionParameter (region : RegionId) (port : String) (token : Token)
  | controlResult (control : NodeId) (port : String) (token : Token)
  deriving DecidableEq, Repr

/-- `originToken`. -/
def ValueOrigin.token : ValueOrigin → Token
  | graphInput t => t
  | operationOutput _ _ t => t
  | regionParameter _ _ t => t
  | controlResult _ _ t => t

/-- `valueProducer`. -/
def ValueOrigin.producer : ValueOrigin → Option NodeId
  | operationOutput n _ _ => some n
  | controlResult n _ _ => some n
  | _ => none

structure ResolvedValue where
  region : RegionId
  type : ValueType
  sourceName : String
  origin : ValueOrigin
  size : Option ValueId
  graphOutput : Bool := false
  deriving DecidableEq, Repr

structure ResolvedBinding where
  port : String
  localPort : String
  value : ValueId
  access : ValueAccess
  deriving DecidableEq, Repr

structure ResolvedInoutBinding where
  operation : NodeId
  port : String
  input : ValueId
  output : ValueId
  deriving DecidableEq, Repr

inductive DependencyReason where
  | data | userOrdering | reprogramDrain | readersBeforeMutator | boundaryOrdering
  deriving DecidableEq, Repr

structure ResolvedDependency where
  predecessor : NodeId
  reason : DependencyReason
  value : Option ValueId
  deriving DecidableEq, Repr

/-- `ResolvedDependency::operator<`, as its reflexive closure; an absent value comes first. -/
def ResolvedDependency.le (a b : ResolvedDependency) : Bool :=
  if a.predecessor ≠ b.predecessor then a.predecessor < b.predecessor
  else if a.reason ≠ b.reason then a.reason.ctorIdx < b.reason.ctorIdx
  else
    match a.value, b.value with
    | none, _ => true
    | some _, none => false
    | some x, some y => x ≤ y

inductive ResolvedOperationKind where
  | kernel | reprogram | boundary | loop | conditional
  deriving DecidableEq, Repr

/-- `operationKind`. -/
def AuthoredOperation.kind : AuthoredOperation → ResolvedOperationKind
  | kernel _ => .kernel
  | reprogram _ => .reprogram
  | boundary _ => .boundary
  | loop .. => .loop
  | conditional .. => .conditional

structure ResolvedOperation where
  id : NodeId
  region : RegionId
  kind : ResolvedOperationKind
  structural : Bool
  dependencies : List ResolvedDependency
  bindings : List ResolvedBinding
  deriving DecidableEq, Repr

/-- `finishDependencies`: sort and drop duplicates. -/
def ResolvedOperation.finishDependencies (o : ResolvedOperation) : ResolvedOperation :=
  { o with
    dependencies :=
      (o.dependencies.insertionSort fun a b => ResolvedDependency.le a b = true).dedup }

structure ControlIncoming where
  arm : ControlArm
  region : RegionId
  value : ValueId
  deriving DecidableEq, Repr

structure ResolvedControlResult where
  control : NodeId
  port : String
  result : ValueId
  incoming : List ControlIncoming
  deriving DecidableEq, Repr

structure BoundaryAlias where
  boundary : NodeId
  port : String
  source : ValueId
  target : ValueId
  deriving DecidableEq, Repr

inductive ResolvedRegion where
  | mk (id : RegionId) (topologicalOrder : List NodeId) (parameters results : List ValueId)
      (children : List ResolvedRegion)

structure ResolvedGraph where
  root : ResolvedRegion
  values : List ResolvedValue
  operations : OrderedMap NodeId ResolvedOperation
  inouts : List ResolvedInoutBinding
  aliases : List BoundaryAlias
  controlResults : List ResolvedControlResult

/-! ## The state of the resolver -/

structure ResolutionState where
  diagnostics : List Diagnostic := []
  rootSourceScope : AuthoredScopeId
  rootInputValues : OrderedMap TokenKey ValueId := .empty
  values : List ResolvedValue := []
  operations : OrderedMap NodeId ResolvedOperation := .empty
  inoutBindings : List ResolvedInoutBinding := []
  boundaryAliases : List BoundaryAlias := []
  controlResults : List ResolvedControlResult := []

/-- `ValueDefinitionKind` with the producer the two producing kinds need. -/
inductive Definition where
  | graphInput
  | operationOutput (producer : NodeId)
  | regionParameter
  | controlResult (producer : NodeId)
  deriving DecidableEq, Repr

/-- The public port of a control result: a positional boundary port takes the token's name, any
other loses what stands before its first dot. -/
def TokenRef.resultPort (t : TokenRef) : String :=
  if "boundary.".toList.isPrefixOf t.port.toList then t.key.name
  else if '.' ∈ t.port.toList then String.ofList ((t.port.toList.dropWhile (· ≠ '.')).drop 1)
  else t.port

/-- The origin `createValue` records. -/
def TokenRef.origin (t : TokenRef) (region : RegionId) : Definition → ValueOrigin
  | .graphInput => .graphInput t.token
  | .operationOutput n => .operationOutput n t.port t.token
  | .regionParameter => .regionParameter region t.port t.token
  | .controlResult n => .controlResult n t.resultPort t.token

namespace ResolutionState

/-- `diagnostics.error`, for several at once. -/
def report (s : ResolutionState) (ds : List Diagnostic) : ResolutionState :=
  { s with diagnostics := s.diagnostics ++ ds }

def newValue (s : ResolutionState) (t : TokenRef) (region : RegionId) (d : Definition) :
    ResolvedValue where
  region := region
  type := t.type
  sourceName := t.key.name
  origin := t.origin region d
  size := t.token.size.bind fun size => s.rootInputValues.find? size.key

/-- `createValue`; the new value's id is `s.values.length`. -/
def createValue (s : ResolutionState) (t : TokenRef) (region : RegionId) (d : Definition) :
    ResolutionState :=
  { s with values := s.values ++ [s.newValue t region d] }

def producer (s : ResolutionState) (v : ValueId) : Option NodeId :=
  s.values[v]?.bind fun value => value.origin.producer

/-- `addDependency`: what it adds to operation `n`. -/
def dependencyOn (s : ResolutionState) (n : NodeId) (v : ValueId) (reason : DependencyReason) :
    List ResolvedDependency :=
  match s.producer v with
  | some p => if p ≠ n then [⟨p, reason, some v⟩] else []
  | none => []

/-- The port a new control result takes from its value. -/
def resultPort (s : ResolutionState) (v : ValueId) : String :=
  match s.values[v]?.map ResolvedValue.origin with
  | some (.controlResult _ port _) => port
  | _ => ""

/-- `controlResult`: the record of a control and a result, made if it is missing, with `f` applied
to its incoming values. -/
def updateControlResult (s : ResolutionState) (control : NodeId) (result : ValueId)
    (f : List ControlIncoming → List ControlIncoming) : ResolutionState :=
  if s.controlResults.any fun r => r.control = control ∧ r.result = result then
    { s with
      controlResults := s.controlResults.map fun r =>
        if r.control = control ∧ r.result = result then { r with incoming := f r.incoming } else r }
  else
    { s with
      controlResults := s.controlResults ++ [⟨control, s.resultPort result, result, f []⟩] }

end ResolutionState

/-! ## Defining the values of a region -/

abbrev OutputKey := NodeId ×ₗ TokenKey

def outputKey (n : NodeId) (k : TokenKey) : OutputKey := toLex (n, k)

structure ParameterLink where
  source : ValueId
  target : TokenRef

/-- `RegionContext`, without the control and the arm, which the caller keeps. -/
structure RegionContext where
  parameters : OrderedMap TokenKey ParameterLink := .empty
  resultTargets : OrderedMap TokenKey ValueId := .empty

/-- `RegionValues`, without the tables that only repeat what the operations of the region carry
and produce. -/
structure RegionValues where
  initialValues : OrderedMap TokenKey ValueId
  outputValues : OrderedMap OutputKey ValueId
  finalValues : OrderedMap TokenKey ValueId
  controlInitialValues : OrderedMap OutputKey ValueId

/-- The tables being filled, with the state. -/
structure Defining where
  initialValues : OrderedMap TokenKey ValueId := .empty
  outputValues : OrderedMap OutputKey ValueId := .empty
  parameters : List ValueId := []
  state : ResolutionState

namespace Defining

/-- One parameter of `createRegionParameters`. -/
def parameter (region : RegionId) (d : Defining) (p : TokenKey × ParameterLink) : Defining :=
  let v := d.state.values.length
  { d with
    initialValues := d.initialValues.insert p.1 v
    parameters := d.parameters ++ [v]
    state := d.state.createValue p.2.target region .regionParameter }

/-- One input of `createRootInputs`. -/
def rootInput (region : RegionId) (d : Defining) (t : TokenRef) : Defining :=
  let v := d.state.values.length
  let s := d.state.createValue t region .graphInput
  { d with
    initialValues := d.initialValues.insert t.key v
    state := { s with rootInputValues := s.rootInputValues.insert t.key v } }

/-- One output of `createOperationOutputs`. -/
def output (region : RegionId) (d : Defining) (p : AuthoredOperation × TokenRef) : Defining :=
  let v := d.state.values.length
  { d with
    outputValues := d.outputValues.insert (outputKey p.1.id p.2.key) v
    state := d.state.createValue p.2 region
      (if p.1.isControl then .controlResult p.1.id else .operationOutput p.1.id) }

end Defining

namespace AuthoredRegion

variable (ρ : AuthoredRegion)

/-- The scalars `createRootInputs` makes inputs: those declared as inputs, those no operation
produces and that are not declared as outputs, and those a loop carries. -/
def rootScalars : List TokenRef :=
  ρ.info.declaredScalars.filterMap fun p =>
    let key : TokenKey := ⟨.scalar, ρ.info.sourceScope, p.1⟩
    let producers := ρ.producers key
    let carried := producers.any fun o => key ∈ o.loopCarriedValues
    let explicitInput := (ρ.info.declaredInputScalars.lookup p.1).isSome
    let declaredOutput := (ρ.info.declaredOutputScalars.lookup p.1).isSome
    if (!declaredOutput && producers.isEmpty) || explicitInput || carried then
      some ⟨.scalar ⟨p.2, p.1, ρ.info.sourceScope, 0⟩, p.1, .input⟩
    else none

/-- The inputs `createRootInputs` makes, scalars first. -/
def rootInputs : List TokenRef :=
  ρ.rootScalars ++ ρ.info.declaredInputBuffers.map fun p => ⟨.buffer p.2, p.1, .input⟩

/-- Every output of every operation of the region. -/
def outputs : List (AuthoredOperation × TokenRef) :=
  ρ.operations.flatMap fun o => o.producedValues.map fun t => (o, t)

/-- The producers of `k` that carry it. -/
def carriedProducers (k : TokenKey) : List AuthoredOperation :=
  (ρ.producers k).filter fun o => k ∈ o.loopCarriedValues

/-- The producer `selectFinalProducers` chooses: a carrying control wins over the one other
producer. -/
def finalProducer (k : TokenKey) : Option AuthoredOperation :=
  match ρ.carriedProducers k, ρ.producers k with
  | [c], [_, _] => some c
  | _, candidates => candidates.head?

/-- The initial value of a carrying control: the output of the other producer, or the region's own
initial value when the control is the only one. -/
def seed (initialValues : OrderedMap TokenKey ValueId) (outputValues : OrderedMap OutputKey ValueId)
    (k : TokenKey) : Option (NodeId × ValueId) :=
  match ρ.carriedProducers k, ρ.producers k with
  | [c], [_] => (initialValues.find? k).map fun v => (c.id, v)
  | [c], [a, b] =>
    (outputValues.find? (outputKey (if a.id = c.id then b.id else a.id) k)).map fun v => (c.id, v)
  | _, _ => none

/-- The reports of `selectFinalProducers`. -/
def duplicateProducers : List Diagnostic :=
  ρ.producedKeys.flatMap fun k =>
    expect ((ρ.producers k).length ≤ 1 ||
        ((ρ.producers k).length = 2 && (ρ.carriedProducers k).length = 1))
      { code := .duplicateProducer
        message := "GraphCompiler: multiple operations produce value '" ++ k.name ++
          "' in one region" }

/-- `validateProducerTypes`: every description of a key has the type of the first. -/
def producerTypes : List Diagnostic :=
  ρ.producedKeys.flatMap fun k =>
    let types := (ρ.producers k).filterMap fun o =>
      (o.producedValues.find? fun t => t.key = k).map TokenRef.type
    types.flatMap fun type =>
      expect (types.head? = some type)
        { code := .typeMismatch
          message := "GraphCompiler: producers of value '" ++ k.name ++ "' disagree on its type" }

end AuthoredRegion

def selectFinalProducers (ρ : AuthoredRegion) (initialValues : OrderedMap TokenKey ValueId)
    (outputValues : OrderedMap OutputKey ValueId) : RegionValues where
  initialValues := initialValues
  outputValues := outputValues
  finalValues := ρ.producedKeys.foldl (fun m k =>
    match (ρ.finalProducer k).bind fun o => outputValues.find? (outputKey o.id k) with
    | some v => m.insert k v
    | none => m) initialValues
  controlInitialValues := ρ.producedKeys.foldl (fun m k =>
    match ρ.seed initialValues outputValues k with
    | some (n, v) => m.insert (outputKey n k) v
    | none => m) .empty

/-- The creating loops of `defineRegionValues`. -/
def createValues (ρ : AuthoredRegion) (context : RegionContext) (root : Bool)
    (s : ResolutionState) : Defining :=
  let d := context.parameters.entries.foldl (Defining.parameter ρ.info.id) { state := s }
  let d := if root then ρ.rootInputs.foldl (Defining.rootInput ρ.info.id) d else d
  ρ.outputs.foldl (Defining.output ρ.info.id) d

/-- `defineRegionValues`: the region's values, its parameters and the state after. -/
def defineRegionValues (ρ : AuthoredRegion) (context : RegionContext) (root : Bool)
    (s : ResolutionState) : RegionValues × List ValueId × ResolutionState :=
  let d := createValues ρ context root s
  (selectFinalProducers ρ d.initialValues d.outputValues, d.parameters,
    d.state.report (ρ.duplicateProducers ++ ρ.producerTypes))

/-! ## Looking values up -/

/-- Whether a key's name is declared as a graph input of its kind. -/
def RegionInfo.declaresInput (info : RegionInfo) (k : TokenKey) : Bool :=
  match k.kind with
  | .buffer => (info.declaredInputBuffers.lookup k.name).isSome
  | .scalar => (info.declaredInputScalars.lookup k.name).isSome

/-- The root scalar under a key: visible in every region. -/
def ResolutionState.rootScalar (s : ResolutionState) (k : TokenKey) : Option ValueId :=
  if k.kind = .scalar ∧ k.scope = s.rootSourceScope then s.rootInputValues.find? k else none

def valueForUse (s : ResolutionState) (ρ : AuthoredRegion) (root : Bool) (values : RegionValues)
    (o : AuthoredOperation) (t : TokenRef) : Except Diagnostic ValueId :=
  if t.key ∈ o.loopCarriedValues then
    match values.controlInitialValues.find? (outputKey o.id t.key) with
    | some v => .ok v
    | none => .error <|
      errorAt ρ o (some t.port) .invalidControlResult <| "GraphCompiler: loop op '" ++
        o.sourceId ++ "' has no initial value for carried token '" ++ t.key.name ++ "'"
  else
    -- an inout reads the value before its own write
    let inoutInitial :=
      if t.access = .inoutInput ∧ (values.outputValues.contains (outputKey o.id t.key)) then
        values.initialValues.find? t.key
      else none
    let declaredInitial :=
      if root ∧ ρ.info.declaresInput t.key then values.initialValues.find? t.key else none
    match inoutInitial <|> declaredInitial <|> values.finalValues.find? t.key <|>
        s.rootScalar t.key with
    | some v => .ok v
    | none => .error <|
      errorAt ρ o (some t.port) .invalidScope <| opText o <|
        "consumes " ++ t.key.kind.word ++ t.key.name ++ "' with no producer"

def parentValue (s : ResolutionState) (parent : AuthoredRegion) (values : RegionValues)
    (o : AuthoredOperation) (t : TokenRef) : Except Diagnostic ValueId :=
  let carried :=
    if t.key ∈ o.loopCarriedValues then
      values.controlInitialValues.find? (outputKey o.id t.key)
    else none
  match carried <|> values.finalValues.find? t.key <|> s.rootScalar t.key with
  | some v => .ok v
  | none => .error <|
    errorAt parent o (some t.port) .invalidScope <| "GraphCompiler: control op '" ++ o.sourceId ++
      "' cannot resolve child input '" ++ t.key.name ++ "'"

/-! ## Binding operations -/

/-- What binding one operation adds to the tables. -/
structure Bound where
  dependencies : List ResolvedDependency := []
  bindings : List ResolvedBinding := []
  aliases : List BoundaryAlias := []
  results : List ValueId := []
  diagnostics : List Diagnostic := []

namespace Bound

def append (a b : Bound) : Bound where
  dependencies := a.dependencies ++ b.dependencies
  bindings := a.bindings ++ b.bindings
  aliases := a.aliases ++ b.aliases
  results := a.results ++ b.results
  diagnostics := a.diagnostics ++ b.diagnostics

instance : Append Bound := ⟨append⟩

/-- A loop whose rounds each add something. -/
def each {α : Type} (f : α → Bound) : List α → Bound
  | [] => {}
  | a :: as => f a ++ each f as

end Bound

def TokenRef.localPort (t : TokenRef) : String :=
  let head := if t.key.kind = .buffer then "buffer." else "scalar."
  if head.toList.isPrefixOf t.port.toList then
    String.ofList (t.port.toList.drop head.toList.length)
  else t.port

section Binding

variable (s : ResolutionState) (ρ : AuthoredRegion) (context : RegionContext) (root : Bool)
  (values : RegionValues) (o : AuthoredOperation)

/-- A use of a token: its binding and the dependency on its producer. -/
def bindUse (localPort : String) (access : ValueAccess) (t : TokenRef) : Bound :=
  match valueForUse s ρ root values o t with
  | .ok v =>
    { bindings := [⟨t.port, localPort, v, access⟩]
      dependencies := s.dependencyOn o.id v .data }
  | .error d => { diagnostics := [d] }

def bindOutput (localPort : String) (access : ValueAccess) (t : TokenRef) : Bound :=
  match values.outputValues.find? (outputKey o.id t.key) with
  | some v => { bindings := [⟨t.port, localPort, v, access⟩] }
  | none => {}

/-- `bindDataOperation`, without the inout pairs. -/
def bindDataOperation : Bound :=
  Bound.each (fun t => bindUse s ρ root values o t.localPort t.access t) o.ioInputs ++
  Bound.each (fun t => bindOutput values o t.localPort t.access t) o.ioOutputs

/-- `bindInouts`: the inout pairs both sides of which are bound. -/
def bindInouts (bindings : List ResolvedBinding) : List ResolvedInoutBinding :=
  ((o.ioMap.map PortBindings.inouts).getD []).filterMap fun inout => do
    let input ← bindings.find? fun b => b.port = "buffer." ++ inout.inPort ∧ b.access = .inoutInput
    let output ← bindings.find? fun b =>
      b.port = "buffer." ++ inout.outPort ∧ b.access = .inoutOutput
    pure ⟨o.id, inout.inPort, input.value, output.value⟩

def bindControlOperation : Bound :=
  Bound.each (fun t => bindUse s ρ root values o t.port .boundarySource t)
    o.controlBoundaryInputs ++
  Bound.each (fun t => bindOutput values o t.port .boundaryTarget t) o.controlBoundaryOutputs ++
  Bound.each (fun t => bindUse s ρ root values o t.port t.access t) o.controlScalars

def bindBoundaryParameter (b : AuthoredBoundary) (m : Mapping) : Bound :=
  match context.parameters.find? m.target.key, values.initialValues.find? m.target.key with
  | some link, some v =>
    { bindings := [⟨m.port, m.port, link.source, .boundarySource⟩,
        ⟨m.port, m.port, v, .boundaryTarget⟩]
      aliases := [⟨b.id, m.port, link.source, v⟩] }
  | _, _ =>
    { diagnostics := [errorAt ρ o none .invalidBoundary <| boundaryText b
        "has no parent parameter binding"] }

def bindBoundaryResult (b : AuthoredBoundary) (m : Mapping) : Bound :=
  match values.finalValues.find? m.source.key, context.resultTargets.find? m.target.key with
  | some source, some target =>
    { bindings := [⟨m.port, m.port, source, .boundarySource⟩,
        ⟨m.port, m.port, target, .boundaryTarget⟩]
      dependencies := s.dependencyOn b.id source .boundaryOrdering
      results := [source] }
  | _, _ =>
    { diagnostics := [errorAt ρ o (some m.port) .invalidControlResult <| boundaryText b
        "cannot resolve its result mapping"] }

def bindBoundary (b : AuthoredBoundary) : Bound :=
  match b.side with
  | .start => Bound.each (bindBoundaryParameter ρ context values o b) b.mappings
  | .finish => Bound.each (bindBoundaryResult s ρ context values o b) b.mappings

/-- The explicit orderings `makeOperation` starts from. -/
def userOrdering : List ResolvedDependency :=
  o.after.filterMap fun d => d.target.map fun target => ⟨target, .userOrdering, none⟩

/-- Everything that binding the operation adds. -/
def bindOperation : Bound :=
  match o with
  | .boundary b => bindBoundary s ρ context values o b
  | _ => bindDataOperation s ρ root values o ++ bindControlOperation s ρ root values o

/-- The operation as `resolveOperations` stores it. -/
def resolvedOperation : ResolvedOperation :=
  let bound := bindOperation s ρ context root values o
  ResolvedOperation.finishDependencies
    { id := o.id
      region := ρ.info.id
      kind := o.kind
      structural := o.isStructural
      dependencies := userOrdering o ++ bound.dependencies
      bindings := bound.bindings }

/-- One round of `resolveOperations`. -/
def resolveOperation : ResolutionState :=
  let bound := bindOperation s ρ context root values o
  { s with
    operations := s.operations.insert o.id (resolvedOperation s ρ context root values o)
    inoutBindings := s.inoutBindings ++
      bindInouts o (bindDataOperation s ρ root values o).bindings
    boundaryAliases := s.boundaryAliases ++ bound.aliases
    diagnostics := s.diagnostics ++ bound.diagnostics }

end Binding

def resolveOperations (ρ : AuthoredRegion) (context : RegionContext) (root : Bool)
    (values : RegionValues) (s : ResolutionState) : ResolutionState :=
  ρ.operations.foldl (fun s o => resolveOperation s ρ context root values o) s

/-- The results the end boundaries of the region push. -/
def regionResults (ρ : AuthoredRegion) (context : RegionContext) (root : Bool)
    (values : RegionValues) (s : ResolutionState) : List ValueId :=
  ρ.operations.flatMap fun o => (bindOperation s ρ context root values o).results

/-! ## Derived ordering and topology -/

def AuthoredOperation.hasAfter (o : AuthoredOperation) (n : NodeId) : Bool :=
  o.after.any fun d => d.target = some n

/-- `addReprogramDrain`: what it adds to operation `o`. -/
def reprogramDrain (g : AuthoredGraph) (ρ : AuthoredRegion) (o : AuthoredOperation) :
    List ResolvedDependency :=
  match o with
  | .reprogram r =>
    (r.after.filterMap AuthoredDependency.target).flatMap fun target =>
      match g.findOperation target with
      | some (.reprogram _) =>
        (ρ.operations.filter fun c => c.id ≠ r.id ∧ c.hasAfter target).map fun c =>
          ⟨c.id, .reprogramDrain, none⟩
      | _ => []
  | _ => []

/-- `addReadersBeforeMutator`: what it adds to operation `o`. -/
def readersBeforeMutator (ρ : AuthoredRegion) (o : AuthoredOperation) : List ResolvedDependency :=
  ((o.ioMap.map PortBindings.inouts).getD []).flatMap fun inout =>
    (ρ.operations.filter fun c =>
      c.id ≠ o.id ∧
        ((c.ioMap.map PortBindings.inputs).getD []).any fun p => p.2.key = inout.input.key).map
      fun c => ⟨c.id, .readersBeforeMutator, none⟩

def ResolvedOperation.addOrdering (r : ResolvedOperation) (g : AuthoredGraph) (ρ : AuthoredRegion)
    (o : AuthoredOperation) : ResolvedOperation :=
  ResolvedOperation.finishDependencies
    { r with
      dependencies := r.dependencies ++ reprogramDrain g ρ o ++ readersBeforeMutator ρ o }

/-- The stored operation of `o` with its derived orderings. -/
def orderOperation (g : AuthoredGraph) (ρ : AuthoredRegion)
    (ops : OrderedMap NodeId ResolvedOperation) (o : AuthoredOperation) :
    OrderedMap NodeId ResolvedOperation :=
  match ops.find? o.id with
  | some r => ops.insert o.id (r.addOrdering g ρ o)
  | none => ops

/-- `DerivedOrdering::add`. -/
def addOrdering (g : AuthoredGraph) (ρ : AuthoredRegion) (s : ResolutionState) : ResolutionState :=
  { s with operations := ρ.operations.foldl (orderOperation g ρ) s.operations }

/-- The local predecessors of a node, one for each dependency. -/
def localPredecessors (s : ResolutionState) (ids : List NodeId) (n : NodeId) : List NodeId :=
  match s.operations.find? n with
  | some r => (r.dependencies.map ResolvedDependency.predecessor).filter (· ∈ ids)
  | none => []

/-- Kahn's algorithm: take the least ready node, release its successors. Each round emits one
node, so the number of nodes bounds the rounds. -/
def emit (predecessors : NodeId → List NodeId) :
    Nat → List (NodeId × Nat) → List NodeId → List NodeId → List NodeId
  | 0, _, _, result => result
  | fuel + 1, indegree, ready, result =>
    match ready.min? with
    | none => result
    | some node =>
      let indegree' := indegree.map fun e => (e.1, e.2 - (predecessors e.1).count node)
      let released := (indegree.filter fun e =>
        0 < (predecessors e.1).count node ∧ e.2 - (predecessors e.1).count node = 0).map Prod.fst
      emit predecessors fuel indegree' (ready.erase node ++ released) (result ++ [node])

/-- `DeterministicTopology::order`, as far as it can be emitted. -/
def emitted (s : ResolutionState) (ρ : AuthoredRegion) : List NodeId :=
  let predecessors := localPredecessors s ρ.ids
  let indegree := ρ.ids.map fun n => (n, (predecessors n).length)
  emit predecessors ρ.ids.length indegree
    ((indegree.filter fun e => e.2 = 0).map Prod.fst) []

/-- The report of `DeterministicTopology::order`. -/
def reportCycle (ρ : AuthoredRegion) (s : ResolutionState) : ResolutionState :=
  s.report <| expect ((emitted s ρ).length = ρ.ids.length)
    { code := .cycle
      message := "GraphCompiler: cycle detected in region " ++ toString ρ.info.id }

/-! ## Arms -/

/-- One import of `addStartBoundaryParameters`. -/
def addParameter (s : ResolutionState) (parent : AuthoredRegion) (values : RegionValues)
    (o : AuthoredOperation) (parameters : OrderedMap TokenKey ParameterLink) (m : Mapping) :
    OrderedMap TokenKey ParameterLink :=
  match parentValue s parent values o ⟨m.source, "boundary." ++ m.port, .input⟩ with
  | .ok v => parameters.insert m.target.key ⟨v, ⟨m.target, "boundary." ++ m.port, .boundaryTarget⟩⟩
  | .error _ => parameters

/-- The reports of `addStartBoundaryParameters`. -/
def parameterErrors (s : ResolutionState) (parent : AuthoredRegion) (values : RegionValues)
    (o : AuthoredOperation) (child : AuthoredRegion) : List Diagnostic :=
  (child.mappings .start).flatMap fun m =>
    match parentValue s parent values o ⟨m.source, "boundary." ++ m.port, .input⟩ with
    | .ok _ => []
    | .error d => [d]

/-- The targets `addResultTargets` enters, exports first. -/
def resultKeys (o : AuthoredOperation) (child : AuthoredRegion) : List TokenKey :=
  ((child.mappings .finish).map fun m => m.target.key) ++ o.ioOutputs.map TokenRef.key

/-- One target of `addResultTargets`. -/
def addTarget (values : RegionValues) (o : AuthoredOperation)
    (targets : OrderedMap TokenKey ValueId) (k : TokenKey) : OrderedMap TokenKey ValueId :=
  match values.outputValues.find? (outputKey o.id k) with
  | some v => targets.insert k v
  | none => targets

def makeChildContext (s : ResolutionState) (parent : AuthoredRegion) (values : RegionValues)
    (o : AuthoredOperation) (child : AuthoredRegion) : RegionContext where
  parameters := (child.mappings .start).foldl (addParameter s parent values o) .empty
  resultTargets := (resultKeys o child).foldl (addTarget values o) .empty

/-- `initialFor` of `addExplicitIncoming`: the seed of the target, or of another target that the
same source is exported to. -/
def initialFor (values : RegionValues) (control : NodeId) (child : AuthoredRegion)
    (source target : TokenKey) : Option ValueId :=
  values.controlInitialValues.find? (outputKey control target) <|>
    (child.mappings .finish).findSome? fun m =>
      if m.source.key = source then
        values.controlInitialValues.find? (outputKey control m.target.key)
      else none

/-- The incoming values of a result after one export of an arm. -/
def addArm (s : ResolutionState) (arm : ControlArm) (child : AuthoredRegion) (source : ValueId)
    (initial : Option ValueId) (incoming : List ControlIncoming) : List ControlIncoming :=
  let incoming := incoming ++ [⟨arm, child.info.id, source⟩]
  if arm ≠ .loopBackedge ∨ incoming.any fun i => i.arm = .loopInitial then incoming
  else
    incoming ++ initial.toList.map fun v =>
      ⟨.loopInitial, (s.values[v]?.map ResolvedValue.region).getD 0, v⟩

/-- `add` of `addExplicitIncoming`. -/
def addExport (values : RegionValues) (control : NodeId) (child : AuthoredRegion)
    (finalValues : OrderedMap TokenKey ValueId) (context : RegionContext) (arm : ControlArm)
    (s : ResolutionState) (m : Mapping) : ResolutionState :=
  match finalValues.find? m.source.key, context.resultTargets.find? m.target.key with
  | some source, some result =>
    s.updateControlResult control result <|
      addArm s arm child source (initialFor values control child m.source.key m.target.key)
  | _, _ => s

/-- The child tokens that `addImplicitPortIncoming` finds at a port. -/
def portCandidates (child : AuthoredRegion) (port : String) (kind : ValueKind) : List TokenKey :=
  (child.operations.flatMap fun o =>
    match o.ioMap with
    | none => []
    | some io =>
      match kind with
      | .buffer =>
        ((io.outputs.lookup port).toList.map GraphBuffer.key) ++
          (io.inouts.filter fun b => b.outPort = port).map fun b => b.output.key
      | .scalar => (io.outputScalars.lookup port).toList.map GraphScalar.key).dedup

def addImplicitPortIncoming (control : NodeId) (child : AuthoredRegion)
    (finalValues : OrderedMap TokenKey ValueId) (context : RegionContext) (arm : ControlArm)
    (s : ResolutionState) (p : String × TokenKey) : ResolutionState :=
  match portCandidates child p.1 p.2.kind with
  | [k] =>
    match finalValues.find? k, context.resultTargets.find? p.2 with
    | some source, some result =>
      s.updateControlResult control result fun incoming =>
        if incoming.any fun i => i.arm = arm then incoming
        else incoming ++ [⟨arm, child.info.id, source⟩]
    | _, _ => s
  | candidates =>
    s.report [{
      code := .invalidControlResult
      message := "GraphCompiler: control output port '" ++ p.1 ++ "' has " ++
        if candidates.isEmpty then "no body producer" else "multiple body producers" }]

/-- The output ports of a control with the keys they expose. -/
def PortBindings.outputPorts (io : PortBindings) : List (String × TokenKey) :=
  (io.outputScalars.map fun p => (p.1, p.2.key)) ++ (io.outputs.map fun p => (p.1, p.2.key)) ++
    io.inouts.map fun b => (b.outPort, b.output.key)

/-- `addControlIncoming`: the explicit exports first, then the output ports. -/
def addControlIncoming (values : RegionValues) (o : AuthoredOperation) (child : AuthoredRegion)
    (finalValues : OrderedMap TokenKey ValueId) (context : RegionContext) (arm : ControlArm)
    (s : ResolutionState) : ResolutionState :=
  let s := (child.mappings .finish).foldl
    (addExport values o.id child finalValues context arm) s
  ((o.ioMap.map PortBindings.outputPorts).getD []).foldl
    (addImplicitPortIncoming o.id child finalValues context arm) s

/-! ## Regions -/

/-- The keys `markRootOutputs` marks, with the word for their kind. -/
def RegionInfo.graphOutputs (info : RegionInfo) : List (TokenKey × String) :=
  (info.declaredOutputBuffers.map fun p => (p.2.key, "buffer")) ++
  (info.declaredOutputScalars.map fun p => (⟨.scalar, info.sourceScope, p.1⟩, "scalar"))

/-- One output of `markRootOutputs`. -/
def markOutput (finalValues : OrderedMap TokenKey ValueId) (s : ResolutionState)
    (p : TokenKey × String) : ResolutionState :=
  match finalValues.find? p.1 with
  | none =>
    s.report [{
      code := .missingProducer
      message := "GraphCompiler: graph output " ++ p.2 ++ " '" ++ p.1.name ++
        "' has no producer" }]
  | some v => { s with values := s.values.modify v fun value => { value with graphOutput := true } }

/-- The part of `resolveRegion` before the arms: define, bind, order, sort. -/
def resolveLocal (g : AuthoredGraph) (ρ : AuthoredRegion) (context : RegionContext) (root : Bool)
    (s : ResolutionState) : RegionValues × ResolutionState :=
  let (values, _, s) := defineRegionValues ρ context root s
  (values, reportCycle ρ (addOrdering g ρ (resolveOperations ρ context root values s)))

def resolvedRegion (g : AuthoredGraph) (ρ : AuthoredRegion) (context : RegionContext) (root : Bool)
    (s : ResolutionState) (children : List ResolvedRegion) : ResolvedRegion :=
  let (values, parameters, s) := defineRegionValues ρ context root s
  let ordered := addOrdering g ρ (resolveOperations ρ context root values s)
  .mk ρ.info.id (emitted ordered ρ) parameters (regionResults ρ context root values s) children

mutual

/-- `resolveRegion`: the region's final values, its resolved region and the state after. -/
def resolveRegion (g : AuthoredGraph) :
    AuthoredRegion → RegionContext → Bool → ResolutionState →
      OrderedMap TokenKey ValueId × ResolvedRegion × ResolutionState
  | .mk info operations, context, root, s =>
    let ρ := AuthoredRegion.mk info operations
    let (values, after) := resolveLocal g ρ context root s
    let (children, after) := resolveArms g ρ values operations after
    let after := if root then info.graphOutputs.foldl (markOutput values.finalValues) after
      else after
    (values.finalValues, resolvedRegion g ρ context root s children, after)

/-- `resolveChildren`, over the operations that are left. -/
def resolveArms (g : AuthoredGraph) (ρ : AuthoredRegion) (values : RegionValues) :
    List AuthoredOperation → ResolutionState → List ResolvedRegion × ResolutionState
  | [], s => ([], s)
  | o :: os, s =>
    let (children, s) := resolveArmsOf g ρ values o s
    let (rest, s) := resolveArms g ρ values os s
    (children ++ rest, s)

def resolveArmsOf (g : AuthoredGraph) (ρ : AuthoredRegion) (values : RegionValues) :
    AuthoredOperation → ResolutionState → List ResolvedRegion × ResolutionState
  | .loop l body, s =>
    let o := AuthoredOperation.loop l body
    let context := makeChildContext s ρ values o body
    let s := s.report (parameterErrors s ρ values o body)
    let (finalValues, region, s) := resolveRegion g body context false s
    ([region], addControlIncoming values o body finalValues context .loopBackedge s)
  | .conditional c thenRegion elseRegion, s =>
    let o := AuthoredOperation.conditional c thenRegion elseRegion
    let context := makeChildContext s ρ values o thenRegion
    let s := s.report (parameterErrors s ρ values o thenRegion)
    let (finalValues, region, s) := resolveRegion g thenRegion context false s
    let s := addControlIncoming values o thenRegion finalValues context .thenBranch s
    let context := makeChildContext s ρ values o elseRegion
    let s := s.report (parameterErrors s ρ values o elseRegion)
    let (finalValues, region', s) := resolveRegion g elseRegion context false s
    ([region, region'], addControlIncoming values o elseRegion finalValues context .elseBranch s)
  | _, s => ([], s)

end

/-- The state `GraphResolver` starts from. -/
def ResolutionState.init (g : AuthoredGraph) : ResolutionState :=
  { rootSourceScope := g.root.info.sourceScope }

def resolveValidatedGraph (g : AuthoredGraph) : Except (List Diagnostic) ResolvedGraph :=
  let (_, region, s) := resolveRegion g g.root {} true (.init g)
  if s.diagnostics.isEmpty then
    .ok ⟨region, s.values, s.operations, s.inoutBindings, s.boundaryAliases, s.controlResults⟩
  else .error s.diagnostics

def resolveGraph (g : AuthoredGraph) : Except (List Diagnostic) ResolvedGraph :=
  match validateAuthoredGraph g with
  | [] => resolveValidatedGraph g
  | ds => .error ds

end Slash.Pass
