import Slash.Pass.Authored

/-!
# Validation of authored graphs

`validateAuthoredGraph`: the structural checks of `GraphValidator` and the producer checks of
`AuthoredProducerValidator`, over every region of the tree. Each check is the list of the
diagnostics it reports; a graph passes when there is none, since nothing here reports anything
milder than an error.

`AuthoredProducerValidator` also has a method `validateControlOutputs`, which would check that
every arm of a control exports each of the control's buffer outputs. Nothing calls it, so it is
not part of this model.
-/

namespace Slash.Pass

open Host

/-- `DiagCode`, as far as validation and resolution use it. -/
inductive DiagCode where
  | emptyGraph | unknownDependency | cycle | missingProducer | duplicateProducer | typeMismatch
  | sizeMismatch | unboundPort | invalidScope | invalidBoundary | invalidControlResult
  | imageSafetyViolation
  deriving DecidableEq, Repr

structure DiagnosticLocation where
  region : Option RegionId := none
  node : Option NodeId := none
  authoredId : Option String := none
  port : Option String := none
  deriving DecidableEq, Repr

/-- `Diagnostic`: all of them are errors. -/
structure Diagnostic where
  code : DiagCode
  message : String
  location : Option DiagnosticLocation := none
  suggestion : Option String := none
  deriving DecidableEq, Repr

def location (ρ : AuthoredRegion) (o : AuthoredOperation) (port : Option String) :
    DiagnosticLocation :=
  ⟨some ρ.info.id, some o.id, some o.sourceId, port⟩

def errorAt (ρ : AuthoredRegion) (o : AuthoredOperation) (port : Option String) (code : DiagCode)
    (message : String) : Diagnostic :=
  { code, message, location := some (location ρ o port) }

def expect (p : Bool) (d : Diagnostic) : List Diagnostic := if p then [] else [d]

@[simp] theorem expect_eq_nil {p : Bool} {d : Diagnostic} : expect p d = [] ↔ p = true := by
  cases p <;> simp [expect]

def opText (o : AuthoredOperation) (text : String) : String :=
  "GraphCompiler: op '" ++ o.sourceId ++ "' " ++ text

/-! ## Ports -/

def IOTypeMap.hasDeclaredPorts (t : IOTypeMap) : Bool :=
  !t.inputScalars.isEmpty || !t.outputScalars.isEmpty || !t.inputs.isEmpty || !t.outputs.isEmpty ||
    !t.inouts.isEmpty

section Ports

variable (ρ : AuthoredRegion) (o : AuthoredOperation)

/-- The `mismatch` report: scalar and buffer types are spelled alike. -/
def portMismatch (port description : String) (expected actual : ScalarType) : List Diagnostic :=
  expect (expected = actual) <|
    errorAt ρ o (some port) .typeMismatch <| opText o <| description ++ " '" ++ port ++
      "' type mismatch: declared " ++ scalarTypeName expected ++ ", bound " ++
      scalarTypeName actual

def portMissing (port description : String) : Diagnostic :=
  errorAt ρ o (some port) .unboundPort <| opText o <|
    "missing mandatory " ++ description ++ " port '" ++ port ++ "'"

def portUnknown (port description : String) : Diagnostic :=
  errorAt ρ o (some port) .unboundPort <| opText o <|
    "binds unknown " ++ description ++ " port '" ++ port ++ "'"

/-- One loop of `validateRequiredPorts`: every declared port is bound, with its type. -/
def requiredPorts {α : Type} (description : String) (type : α → ScalarType)
    (declared : List (String × ScalarType)) (bound : List (String × α)) : List Diagnostic :=
  declared.flatMap fun port =>
    match bound.lookup port.1 with
    | none => [portMissing ρ o port.1 description]
    | some a => portMismatch ρ o port.1 description port.2 (type a)

/-- One loop of `validateBoundPorts`: every bound port is declared, with its type. -/
def boundPorts {α : Type} (description : String) (type : α → ScalarType)
    (declared : List (String × ScalarType)) (bound : List (String × α)) : List Diagnostic :=
  bound.flatMap fun port =>
    match declared.lookup port.1 with
    | none => [portUnknown ρ o port.1 description]
    | some expected => portMismatch ρ o port.1 description expected (type port.2)

def validateRequiredPorts (t : IOTypeMap) (io : PortBindings) : List Diagnostic :=
  requiredPorts ρ o "input scalar" GraphScalar.type t.inputScalars io.inputScalars ++
  requiredPorts ρ o "output scalar" GraphScalar.type t.outputScalars io.outputScalars ++
  requiredPorts ρ o "input buffer" GraphBuffer.type t.inputs io.inputs ++
  requiredPorts ρ o "output buffer" GraphBuffer.type t.outputs io.outputs ++
  t.inouts.flatMap fun port =>
    match io.inouts.find? fun b => b.inPort = port.inName ∧ b.outPort = port.outName with
    | none => [portMissing ρ o (port.inName ++ "/" ++ port.outName) "RW buffer"]
    | some b =>
      portMismatch ρ o port.inName "RW input buffer" port.inType b.input.type ++
      portMismatch ρ o port.outName "RW output buffer" port.outType b.output.type

def validateBoundPorts (t : IOTypeMap) (io : PortBindings) : List Diagnostic :=
  boundPorts ρ o "input scalar" GraphScalar.type t.inputScalars io.inputScalars ++
  boundPorts ρ o "output scalar" GraphScalar.type t.outputScalars io.outputScalars ++
  boundPorts ρ o "input buffer" GraphBuffer.type t.inputs io.inputs ++
  boundPorts ρ o "output buffer" GraphBuffer.type t.outputs io.outputs ++
  io.inouts.flatMap fun b =>
    expect (t.inouts.any fun port => port.inName = b.inPort ∧ port.outName = b.outPort) <|
      errorAt ρ o (some b.inPort) .unboundPort <| opText o <|
        "binds unknown RW buffer ports '" ++ b.inPort ++ "'/'" ++ b.outPort ++ "'"

def validateIoPorts : List Diagnostic :=
  match o.ioType, o.ioMap with
  | some t, some io =>
    if t.hasDeclaredPorts then validateRequiredPorts ρ o t io ++ validateBoundPorts ρ o t io
    else []
  | _, _ => []

end Ports

/-! ## Boundaries -/

section Boundaries

variable (ρ : AuthoredRegion) (o : AuthoredOperation) (b : AuthoredBoundary)

def boundaryText (text : String) : String :=
  "GraphCompiler: boundary op '" ++ b.authoredId ++ "' " ++ text

def mappingGraph (kind : String) (source target : Nat) : List Diagnostic :=
  expect ((source = 0 || source = ρ.info.sourceGraph) &&
      (target = 0 || target = ρ.info.sourceGraph)) <|
    errorAt ρ o none .invalidScope <| boundaryText b <|
      kind ++ " mapping uses a token from a different graph"

def mappingType (kind : String) (source target : ScalarType) : List Diagnostic :=
  expect (source = target) <|
    errorAt ρ o none .typeMismatch <| boundaryText b <| kind ++ " mapping type mismatch"

/-- `validateScopes` of `validateBoundary`. -/
def mappingScopes (kind name : String) (source target : AuthoredScopeId) : List Diagnostic :=
  let expectedSource := if b.side = .start then b.sourceParentScope else b.sourceLocalScope
  let expectedTarget := if b.side = .start then b.sourceLocalScope else b.sourceParentScope
  expect (source = expectedSource && target = expectedTarget) <|
    errorAt ρ o none .invalidBoundary <| boundaryText b <|
      kind ++ " mapping '" ++ name ++ "' has invalid source/target scopes"

def validateBoundary : List Diagnostic :=
  (b.scalarMappings.flatMap fun m =>
    mappingGraph ρ o b "scalar" m.source.graphId m.target.graphId ++
    mappingType ρ o b "scalar" m.source.type m.target.type ++
    mappingScopes ρ o b "scalar" m.source.varName m.source.scopeId m.target.scopeId) ++
  b.bufferMappings.flatMap fun m =>
    mappingGraph ρ o b "buffer" m.source.graphId m.target.graphId ++
    if !m.source.valid || !m.target.valid then
      [errorAt ρ o none .invalidBoundary <| boundaryText b <|
        "buffer mapping contains an invalid token"]
    else
      mappingType ρ o b "buffer" m.source.type m.target.type ++
      (expect (m.source.size.isSome || m.target.size.isSome) <|
        errorAt ρ o none .sizeMismatch <| boundaryText b <|
          "buffer mapping has no size scalar on either side") ++
      mappingScopes ρ o b "buffer" m.source.name m.source.scopeId m.target.scopeId

end Boundaries

/-! ## Scopes and sizes -/

section Scopes

variable (g : AuthoredGraph) (ρ : AuthoredRegion) (o : AuthoredOperation)

def validateBufferSize (buffer : GraphBuffer) (port : String) : List Diagnostic :=
  if !buffer.valid then [] else
  match buffer.size with
  | none =>
    [errorAt ρ o (some port) .sizeMismatch <| opText o <|
      "buffer '" ++ buffer.name ++ "' has no size scalar"]
  | some size =>
    expect (size.scopeId = g.root.info.sourceScope &&
        g.root.info.declaredInputScalars.lookup size.varName = some .u64) <|
      errorAt ρ o (some port) .sizeMismatch <| opText o <|
        "buffer '" ++ buffer.name ++ "' size scalar must be a root U64 graph input"

/-- `scalarScopeAllowed` of `validateScopesAndSizes`. -/
def scalarScopeAllowed (output : Bool) (port : String) (scalar : GraphScalar) : List Diagnostic :=
  (expect (scalar.graphId = 0 || scalar.graphId = ρ.info.sourceGraph) <|
    errorAt ρ o (some port) .invalidScope <| opText o <|
      "uses scalar '" ++ scalar.varName ++ "' from a different graph") ++
  (expect (scalar.scopeId = ρ.info.sourceScope ||
      (!output && scalar.scopeId = g.root.info.sourceScope)) <|
    errorAt ρ o (some port) .invalidScope <| opText o <|
      "uses scalar '" ++ scalar.varName ++ "' from an invalid scope") ++
  if scalar.scopeId = g.root.info.sourceScope then
    match g.root.info.declaredScalars.lookup scalar.varName with
    | none =>
      [errorAt ρ o (some port) .invalidScope <|
        "GraphCompiler: global scalar '" ++ scalar.varName ++ "' is not declared"]
    | some type =>
      expect (type = scalar.type) <|
        errorAt ρ o (some port) .typeMismatch <|
          "GraphCompiler: global scalar '" ++ scalar.varName ++
            "' does not match its declared type"
  else []

/-- `bufferScopeAllowed` of `validateScopesAndSizes`. -/
def bufferScopeAllowed (port : String) (buffer : GraphBuffer) : List Diagnostic :=
  (expect (buffer.graphId = 0 || buffer.graphId = ρ.info.sourceGraph) <|
    errorAt ρ o (some port) .invalidScope <| opText o <|
      "uses buffer '" ++ buffer.name ++ "' from a different graph") ++
  (expect (buffer.scopeId = ρ.info.sourceScope) <|
    errorAt ρ o (some port) .invalidScope <| opText o <|
      "uses buffer '" ++ buffer.name ++ "' from an invalid scope") ++
  validateBufferSize g ρ o buffer port

/-- `validateScalar` of `validateConditionScopes`. -/
def controlScalarAllowed (port description : String) (scalar : GraphScalar) : List Diagnostic :=
  let text := description ++ " '" ++ scalar.varName ++ "' "
  (expect (scalar.graphId = ρ.info.sourceGraph) <|
    errorAt ρ o (some port) .invalidScope <| opText o <| text ++ "belongs to a different graph") ++
  if scalar.scopeId ≠ ρ.info.sourceScope then
    [errorAt ρ o (some port) .invalidScope <| opText o <| text ++ "is not in the control region"]
  else
    match ρ.info.declaredScalars.lookup scalar.varName with
    | none => [errorAt ρ o (some port) .invalidScope <| opText o <| text ++ "is not declared"]
    | some type =>
      expect (type = scalar.type) <|
        errorAt ρ o (some port) .typeMismatch <| opText o <|
          text ++ "does not match its declared type"

/-- `conditionScope` of `validateConditionScopes`. -/
def conditionScope (c : Condition) : List Diagnostic :=
  (AuthoredOperation.conditionScalars c).flatMap fun p =>
    controlScalarAllowed ρ o "condition" "condition scalar" p.1

def validateConditionScopes : List Diagnostic :=
  match o with
  | .loop l _ =>
    (l.tripCount.toList.flatMap fun trip =>
      (expect (isIntegerScalarType trip.type) <|
        errorAt ρ o (some "trip_count") .typeMismatch <|
          "GraphCompiler: loop op '" ++ l.authoredId ++
            "' trip-count scalar must have an integer type") ++
      controlScalarAllowed ρ o "trip_count" "trip-count scalar" trip) ++
    (l.condition.map (conditionScope ρ o)).getD []
  | .conditional c _ _ => conditionScope ρ o c.condition
  | _ => []

def validateScopesAndSizes : List Diagnostic :=
  match o.ioMap with
  | none => []
  | some io =>
    (io.inputScalars.flatMap fun p => scalarScopeAllowed g ρ o false p.1 p.2) ++
    (io.outputScalars.flatMap fun p => scalarScopeAllowed g ρ o true p.1 p.2) ++
    (io.inputs.flatMap fun p => bufferScopeAllowed g ρ o p.1 p.2) ++
    (io.outputs.flatMap fun p => bufferScopeAllowed g ρ o p.1 p.2) ++
    (io.inouts.flatMap fun b =>
      bufferScopeAllowed g ρ o b.inPort b.input ++ bufferScopeAllowed g ρ o b.outPort b.output) ++
    validateConditionScopes ρ o

end Scopes

/-! ## Operations and regions -/

def validateDependency (ρ : AuthoredRegion) (o : AuthoredOperation) (d : AuthoredDependency) :
    List Diagnostic :=
  match d.target with
  | none =>
    [errorAt ρ o none .unknownDependency <| opText o <|
      "references unknown afterOps id '" ++ d.authoredId ++ "'"]
  | some target => expect (target ≠ o.id) <|
      errorAt ρ o none .cycle <| opText o "cannot depend on itself"

def validateOperation (g : AuthoredGraph) (ρ : AuthoredRegion) (o : AuthoredOperation) :
    List Diagnostic :=
  validateIoPorts ρ o ++ validateScopesAndSizes g ρ o ++
  (match o with
    | .boundary b => validateBoundary ρ o b
    | _ => []) ++
  o.after.flatMap (validateDependency ρ o) ++
  o.childRegions.flatMap fun child =>
    expect (child.info.sourceParentScope = ρ.info.sourceScope) <|
      errorAt ρ o none .invalidBoundary <| "GraphCompiler: control op '" ++ o.sourceId ++
        "' references a child with the wrong parent scope"

/-- A dependency on a reprogram of `image`, whatever its device. -/
def reprogramsTo (g : AuthoredGraph) (image : String) (d : AuthoredDependency) : Bool :=
  match d.target.bind g.findOperation with
  | some (.reprogram r) => r.imageId = image
  | _ => false

def validateImageSafety (g : AuthoredGraph) (ρ : AuthoredRegion) : List Diagnostic :=
  ρ.operations.flatMap fun o =>
    match o with
    | .kernel k =>
      match k.kernel.type, k.kernel.image with
      | .fpga, some image =>
        expect (k.after.any (reprogramsTo g image)) <|
          errorAt ρ o none .imageSafetyViolation <| "GraphCompiler: FPGA kernel '" ++
            k.kernel.name ++ "' (op '" ++ k.authoredId ++
            "') is not gated behind reprogram of image '" ++ image ++ "'"
      | _, _ => []
    | _ => []

def validateRegion (g : AuthoredGraph) (ρ : AuthoredRegion) : List Diagnostic :=
  validateImageSafety g ρ ++ ρ.operations.flatMap (validateOperation g ρ)

/-! ## Producers and consumers -/

/-- The operations of the region that produce `k`, in the order of their ids. -/
def AuthoredRegion.producers (ρ : AuthoredRegion) (k : TokenKey) : List AuthoredOperation :=
  ρ.operations.filter fun o => k ∈ o.producedValues.map TokenRef.key

def AuthoredRegion.carriers (ρ : AuthoredRegion) (k : TokenKey) : List AuthoredOperation :=
  ρ.operations.filter fun o => k ∈ o.loopCarriedValues

/-- The keys produced in the region, in key order. -/
def AuthoredRegion.producedKeys (ρ : AuthoredRegion) : List TokenKey :=
  (Lib.OrderedMap.emplaceAll id
    (ρ.operations.flatMap fun o => o.producedValues.map TokenRef.key)).keys

def RegionInfo.graphInputs (info : RegionInfo) : List TokenKey :=
  (info.declaredInputBuffers.map fun p => p.2.key) ++
  (info.declaredInputScalars.map fun p => ⟨.scalar, info.sourceScope, p.1⟩)

section Producers

variable (g : AuthoredGraph) (ρ : AuthoredRegion) (root : Bool)

def validateDuplicateProducers : List Diagnostic :=
  let graphInputs := if root then ρ.info.graphInputs else []
  ρ.producedKeys.flatMap fun key =>
    let candidates := ρ.producers key
    let carried := ρ.carriers key
    let legalCarriedInput := candidates.length = 1 ∧ ∀ o ∈ candidates, key ∈ o.loopCarriedValues
    if key ∈ graphInputs then
      expect legalCarriedInput
        { code := .duplicateProducer
          message := "GraphCompiler: operation redefines graph input '" ++ key.name ++ "'"
          location := some { region := some ρ.info.id } }
    else if candidates.length ≤ 1 then []
    else expect (candidates.length = 2 ∧ carried.length = 1)
      { code := .duplicateProducer
        message := "GraphCompiler: multiple operations produce value '" ++ key.name ++
          "' in one region"
        location := some { region := some ρ.info.id } }

def regionParameters : List TokenKey :=
  (if root then ρ.info.graphInputs else []) ++
    (ρ.mappings .start).map fun m => m.target.key

def validateGraphOutputScalars : List Diagnostic :=
  if !root then [] else
  ρ.info.declaredOutputScalars.flatMap fun p =>
    expect (!(ρ.producers ⟨.scalar, ρ.info.sourceScope, p.1⟩).isEmpty)
      { code := .missingProducer
        message := "GraphCompiler: graph output scalar '" ++ p.1 ++ "' has no producer"
        location := some { region := some ρ.info.id } }

/-- `consumers`: ordinary ports, imports of a control's arms, the sources of an end boundary, and
the control-only scalars. -/
def AuthoredOperation.consumers (o : AuthoredOperation) : List TokenRef :=
  o.ioInputs ++ o.controlBoundaryInputs ++
  (match o with
    | .boundary b =>
      if b.side = .finish then
        (b.buffers ++ b.scalars).map fun m => ⟨m.source, "boundary." ++ m.port, .input⟩
      else []
    | _ => []) ++
  o.controlScalars

def ValueKind.word : ValueKind → String
  | .buffer => "buffer '"
  | .scalar => "scalar '"

def validateConsumers : List Diagnostic :=
  let rootScalars := g.root.info.declaredScalars.map fun p =>
    (⟨.scalar, g.root.info.sourceScope, p.1⟩ : TokenKey)
  ρ.operations.flatMap fun o =>
    o.consumers.flatMap fun token =>
      let hasProducer := (ρ.producers token.key).any fun p => p.id ≠ o.id
      expect (hasProducer || token.key ∈ regionParameters ρ root || token.key ∈ rootScalars)
        { code := .missingProducer
          message := opText o ("consumes " ++ token.key.kind.word ++ token.key.name ++
            "' with no producer")
          location := some (location ρ o (some token.port))
          suggestion := some ("Declare it as a graph input or bind an output producer; " ++
            "forward references are allowed") }

/-- `AuthoredProducerValidator::validate`. -/
def validateProducers : List Diagnostic :=
  validateDuplicateProducers ρ root ++ validateGraphOutputScalars ρ root ++
    validateConsumers g ρ root

end Producers

/-- `validateAuthoredGraph`, as the diagnostics it collects. The regions come in the order of
their ids: the root first, then those below it. -/
def validateAuthoredGraph (g : AuthoredGraph) : List Diagnostic :=
  (expect (!g.root.operations.isEmpty)
    { code := .emptyGraph, message := "GraphCompiler::compile: graph has no ops" }) ++
  (validateRegion g g.root ++ validateProducers g g.root true) ++
  (regionsBelow g.root.operations).flatMap fun ρ =>
    validateRegion g ρ ++ validateProducers g ρ false

end Slash.Pass
