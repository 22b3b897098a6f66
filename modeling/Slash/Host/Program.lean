import Slash.Rp1.Words

/-!
# Queue programs

`Rp1QueueProgram` as the image builders receive it: typed commands with symbolic dependencies,
and the bodies of loops and conditionals as child programs. A scalar is named by its scope and
its name (`scopedScalarKey` joins the two injectively); command ids and the names the builders
derive from them (`k.sread.p`, `l.body_gate`) are strings, as in the source, because a
`dependsOn` list may name either.

A child program is its command list. Its own children could only belong to nested control,
which both builders reject; the signal slots they would reserve are part of the device's
allocator state the lowering starts from.
-/

namespace Slash.Host

open Rp1 (U8 U16 U32 CondOp SigOp)

abbrev U64 := BitVec 64

inductive ScalarType where
  | u8 | u16 | u32 | u64 | i8 | i16 | i32 | i64 | f32 | f64
  deriving DecidableEq, Repr

def scalarWidthInWords : ScalarType → Nat
  | .u64 | .i64 | .f64 => 2
  | _ => 1

def isSignedIntegerScalarType : ScalarType → Bool
  | .i8 | .i16 | .i32 | .i64 => true
  | _ => false

def isIntegerScalarType : ScalarType → Bool
  | .f32 | .f64 => false
  | _ => true

def scalarBitWidth : ScalarType → Nat
  | .u8 | .i8 => 8
  | .u16 | .i16 => 16
  | .u32 | .i32 | .f32 => 32
  | .u64 | .i64 | .f64 => 64

def scalarTypeName : ScalarType → String
  | .u8 => "U8" | .u16 => "U16" | .u32 => "U32" | .u64 => "U64"
  | .i8 => "I8" | .i16 => "I16" | .i32 => "I32" | .i64 => "I64"
  | .f32 => "F32" | .f64 => "F64"

/-- A scoped scalar: the pair `scopedScalarKey` turns into `scope:<id>:<name>`. -/
structure ScalarKey where
  scope : Nat
  name : String
  deriving DecidableEq, Repr

/-- A buffer token: `scopedBufferKey` of its scope and name. -/
structure GraphBuffer where
  scope : Nat
  name : String
  sized : Bool
  deriving DecidableEq, Repr

structure ScalarPort where
  name : String
  type : ScalarType
  deriving DecidableEq, Repr

/-- `KernelDescriptor`; `inouts` pairs the in-port and out-port of a read-write buffer. -/
structure KernelDescriptor where
  name : String
  fpga : Bool := true
  image : Option String := none
  inputScalars : List ScalarPort := []
  outputScalars : List ScalarPort := []
  inputs : List String := []
  outputs : List String := []
  inouts : List (String × String) := []
  deriving DecidableEq, Repr

structure InoutBinding where
  inPort : String
  outPort : String
  inBuffer : GraphBuffer
  outBuffer : GraphBuffer
  deriving DecidableEq, Repr

structure PortBindings where
  inputScalars : List (String × ScalarKey) := []
  outputScalars : List (String × ScalarKey) := []
  inputs : List (String × GraphBuffer) := []
  outputs : List (String × GraphBuffer) := []
  inouts : List InoutBinding := []
  deriving DecidableEq, Repr

/-! ## Conditions -/

/-- `CompareOp` without the epsilon and constant predicates, which are forms of `Condition`. -/
inductive CompareOp where
  | eq | ne | lt | le | gt | ge
  deriving DecidableEq, Repr

/-- `ConditionOperand`. -/
inductive Operand where
  | scalar (key : ScalarKey) (type : ScalarType)
  | constant (type : ScalarType) (bits : U64)
  deriving DecidableEq, Repr

def Operand.type : Operand → ScalarType
  | .scalar _ type | .constant type _ => type

/-- `Condition`: a constant predicate, an epsilon comparison (EQE when `equal`, NEE otherwise),
or a comparison. -/
inductive Condition where
  | always (value : Bool)
  | epsilon (equal : Bool) (lhs rhs tolerance : Operand)
  | compare (op : CompareOp) (lhs rhs : Operand)
  deriving DecidableEq, Repr

/-! ## Commands -/

structure KernelCommand where
  id : String
  kernel : KernelDescriptor
  ioMap : PortBindings := {}
  dependsOn : List String := []
  deriving DecidableEq, Repr

structure ReprogramCommand where
  id : String
  imageId : String
  pdiPath : String
  timeoutCycles : U32 := 0
  dependsOn : List String := []
  deriving DecidableEq, Repr

structure BoundaryCopy where
  sourceName : String
  sourceScope : Nat
  targetName : String
  targetScope : Nat
  deriving DecidableEq, Repr

structure BoundaryCommand where
  id : String
  atStart : Bool
  scalarCopies : List BoundaryCopy := []
  bufferCopies : List BoundaryCopy := []
  dependsOn : List String := []
  deriving DecidableEq, Repr

inductive LoopKind where
  | fixedCount | whileCondition
  deriving DecidableEq, Repr

inductive SplitRole where
  | none | authority | follower
  deriving DecidableEq, Repr

structure TripCount where
  key : ScalarKey
  type : ScalarType
  deriving DecidableEq, Repr

structure LoopCommand where
  id : String
  dependsOn : List String := []
  loopKind : LoopKind := .fixedCount
  tripCount : Option TripCount := none
  condition : Option Condition := none
  broadcastRole : SplitRole := .none
  conditionBroadcastSlot : U32 := 0
  broadcastReadySlot : U32 := 0
  broadcastAckSlot : U32 := 0
  deriving DecidableEq, Repr

structure ConditionalCommand where
  id : String
  dependsOn : List String := []
  condition : Condition := .always false
  deriving DecidableEq, Repr

structure SignalCommand where
  id : String
  dependsOn : List String := []
  slot : U32
  value : U32
  operation : SigOp
  deriving DecidableEq, Repr

structure WaitCommand where
  id : String
  dependsOn : List String := []
  slot : U32
  value : U32
  conditionOp : CondOp
  deriving DecidableEq, Repr

inductive Command where
  | kernel (k : KernelCommand)
  | reprogram (r : ReprogramCommand)
  | boundary (b : BoundaryCommand)
  | loop (l : LoopCommand)
  | conditional (c : ConditionalCommand)
  | signal (s : SignalCommand)
  | wait (w : WaitCommand)
  deriving DecidableEq, Repr

/-- `rp1CommandId`. -/
def Command.id : Command → String
  | kernel c => c.id | reprogram c => c.id | boundary c => c.id | loop c => c.id
  | conditional c => c.id | signal c => c.id | wait c => c.id

/-- `rp1CommandDependsOn`. -/
def Command.dependsOn : Command → List String
  | kernel c => c.dependsOn | reprogram c => c.dependsOn | boundary c => c.dependsOn
  | loop c => c.dependsOn | conditional c => c.dependsOn | signal c => c.dependsOn
  | wait c => c.dependsOn

/-- The map from ids to positions that later positions overwrite: `posOf` of the main line,
`idxById` of a body. -/
def posOf (commands : List Command) (id : String) : Option Nat :=
  (List.range commands.length).reverse.find? fun p => commands[p]?.map Command.id = some id

inductive ChildRole where
  | loopBody | conditionalThen | conditionalElse
  deriving DecidableEq, Repr

structure ChildProgram where
  parentCommandId : String
  role : ChildRole
  programs : List (List Command)
  deriving DecidableEq, Repr

/-- `Rp1QueueProgram`; `scalarResources` are the slots a plan leased. -/
structure QueueProgram where
  commands : List Command
  scalarResources : List (ScalarKey × U32) := []
  resourcesLeased : Bool := false
  children : List ChildProgram := []
  deriving DecidableEq, Repr

/-! ## Condition mapping -/

structure Rp1Compare where
  op : CondOp
  value : U32
  key : ScalarKey
  deriving DecidableEq, Repr

def flipOperands : CompareOp → CompareOp
  | .lt => .gt | .le => .ge | .gt => .lt | .ge => .le | op => op

/-- `splitScalarConstant`, with the operator normalised to `scalar OP constant`. -/
def splitScalarConstant : Condition → Option (ScalarKey × ScalarType × CompareOp × U64)
  | .compare op (.scalar k t) (.constant _ v) => some (k, t, op, v)
  | .compare op (.constant _ v) (.scalar k t) => some (k, t, flipOperands op, v)
  | _ => none

def isOrderingCompare : CompareOp → Bool
  | .eq | .ne => false
  | _ => true

def isRp1EvaluableCondition (cond : Condition) : Bool :=
  match splitScalarConstant cond with
  | none => false
  | some (_, type, op, bits) =>
    isIntegerScalarType type && scalarBitWidth type ≤ 32 &&
      !(isOrderingCompare op && isSignedIntegerScalarType type) &&
      bits ≤ 0xFFFFFFFF#64 && !((op == .le || op == .gt) && bits == 0xFFFFFFFF#64)

/-- `mapRp1Condition`: LE and GT become LT and GE of the next value. -/
def mapRp1Condition (cond : Condition) : Except String Rp1Compare :=
  if isRp1EvaluableCondition cond then
    match splitScalarConstant cond with
    | none => .error "mapRp1Condition: condition is not RP1-evaluable"
    | some (key, _, op, bits) =>
      let value : U32 := bits.setWidth 32
      .ok <| match op with
        | .eq => ⟨.eq, value, key⟩
        | .ne => ⟨.ne, value, key⟩
        | .lt => ⟨.lt, value, key⟩
        | .ge => ⟨.ge, value, key⟩
        | .le => ⟨.lt, value + 1, key⟩
        | .gt => ⟨.ge, value + 1, key⟩
  else .error "mapRp1Condition: condition is not RP1-evaluable"

def invertRp1Op : CondOp → CondOp
  | .eq => .ne | .ne => .eq | .lt => .ge | .ge => .lt
  | .andNz => .andZ | .andZ => .andNz | .bad c => .bad c

end Slash.Host
