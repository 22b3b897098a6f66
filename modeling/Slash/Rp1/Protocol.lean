import Slash.Lib.Mask
import Slash.Lib.Update

/-!
# The host/RP1 shared-memory protocol

The types of `rp1_protocol.h`: the node packet with its payload union, the completion-queue
entry, the in-flight table entry and the control block. A packet is 64 bytes; the union is a
sum type over the opcodes the protocol defines, with `other` for the ones it does not, so a
packet here is what the firmware sees through the active union member. Reserved bytes and the
`status` mirror (written by the firmware, read by nobody) are left out.

Nothing keeps a DMA packet from writing over the node array or the control block, so both also
have a word layout (`Words`).
-/

namespace Slash.Rp1

abbrev U8 := BitVec 8
abbrev U16 := BitVec 16
abbrev U32 := BitVec 32

/-! ## Constants -/

def ctrlPhysAddr : U32 := 0x30000000#32
def ctrlWindowSize : U32 := 0x04000000#32

def defaultNodeArrayOffset : U32 := 0x00001000#32
def defaultCqOffset : U32 := 0x00041000#32
def defaultArgBufOffset : U32 := 0x00051000#32
def defaultSigArrayOffset : U32 := 0x00151000#32
def defaultTraceOffset : U32 := 0x00152000#32

def maxNodes : Nat := 4096
def maxCqEntries : Nat := 4096
def maxTraceEntries : Nat := 4096
def maxLoops : Nat := 64
def maxInflight : Nat := 32
def maxSignals : Nat := 256
def maxBuckets : Nat := 32

def scalarWriteMax : Nat := 6

def terminalErrorNodeNone : U32 := 0xFFFFFFFF#32

/-- `RP1_ERR_*`: the base error codes; `other` is one no firmware path latches. -/
inductive Err where
  | inflightFull | kernelTimeout | pdiTimeout | imageMismatch | pdiFailed
  | invalidConfig | invalidNode | cqCorrupt
  | other (code : U32)
  deriving DecidableEq, Repr

/-- `terminal_error_detail` of an `invalidConfig`. -/
inductive ConfigDetail where
  | nodeCount | nodeBase | cqSize | cqBase | cqCursors | argBase | signalBase | trace
  deriving DecidableEq, Repr

/-- `terminal_error_detail` of an `invalidNode`. -/
inductive NodeDetail where
  | badBarrier | badSignalSlot | badLoopConfig | badTarget | badOperation | badArguments
  | pdiWithoutCq
  deriving DecidableEq, Repr

/-- The numeric `RP1_CONFIG_*` value. -/
def ConfigDetail.code : ConfigDetail → U32
  | nodeCount => 1 | nodeBase => 2 | cqSize => 3 | cqBase => 4
  | cqCursors => 5 | argBase => 6 | signalBase => 7 | trace => 8

/-- The numeric `RP1_NODE_BAD_*` value. -/
def NodeDetail.code : NodeDetail → U32
  | badBarrier => 1 | badSignalSlot => 2 | badLoopConfig => 3 | badTarget => 4
  | badOperation => 5 | badArguments => 6 | pdiWithoutCq => 7

/-- `rp1_condop_t`; `bad` is a code the protocol does not define. -/
inductive CondOp where
  | eq | ne | lt | ge | andNz | andZ
  | bad (code : U16)
  deriving DecidableEq, Repr

/-- `rp1_sigop_t`; `bad` is a code the protocol does not define. -/
inductive SigOp where
  | set | add | or | and
  | bad (code : U16)
  deriving DecidableEq, Repr

/-- `rp1_node_status_t`. -/
inductive Status where
  | pending | dispatched | done | waiting | error
  deriving DecidableEq, Repr

/-- `rp1_cq_status_t`; `other` is a word no firmware path publishes. -/
inductive CqStatus where
  | ok | error | timeout
  | other (code : U32)
  deriving DecidableEq, Repr

/-- `rp1_state_t`; `other` is a word no firmware path publishes. -/
inductive FwState where
  | init | ready | running | error | halted
  | other (code : U32)
  deriving DecidableEq, Repr

/-! ## Payloads -/

structure KernelDispatch where
  kernelBaseAddr : U32
  argBufferOffset : U32
  argCount : U16
  timeoutCycles : U32
  expectedImageId : U32
  deriving DecidableEq, Repr

structure WritePair where
  addr : U32
  value : U32
  deriving DecidableEq, Repr

structure ScalarRead where
  sourceAddr : U32
  targetSlot : U32
  deriving DecidableEq, Repr

structure ScalarCopy where
  sourceSlot : U32
  destAddr : U32
  deriving DecidableEq, Repr

structure Signal where
  targetSlot : U32
  value : U32
  operation : SigOp
  deriving DecidableEq, Repr

structure Wait where
  conditionSignal : U32
  conditionValue : U32
  conditionOp : CondOp
  deriving DecidableEq, Repr

structure DmaCopy where
  srcAddrLo : U32
  dstAddrLo : U32
  length : U32
  deriving DecidableEq, Repr

structure DmaFill where
  dstAddrLo : U32
  length : U32
  pattern : U32
  deriving DecidableEq, Repr

structure PdiLoad where
  pdiAddrLo : U32
  pdiAddrHi : U32
  timeoutCycles : U32
  imageId : U32
  deriving DecidableEq, Repr

structure Loop where
  bodyStart : U32
  bodyEnd : U32
  maxIterations : U32
  conditionSignal : U32
  conditionValue : U32
  conditionOp : CondOp
  bucketClearStart : U8
  bucketClearEnd : U8
  loopId : U8
  deriving DecidableEq, Repr

structure Cond where
  conditionSignal : U32
  conditionValue : U32
  conditionOp : CondOp
  bucketClearStart : U8
  bucketClearEnd : U8
  bodyStart : U32
  bodyEnd : U32
  doneBucket : U8
  doneMask : U32
  deriving DecidableEq, Repr

structure Rerun where
  targetNode : U32
  rerunFlags : U16
  loopId : U8
  deriving DecidableEq, Repr

inductive Payload where
  | nop
  | wait (p : Wait)
  | signal (p : Signal)
  | kernelDispatch (p : KernelDispatch)
  | scalarWrite (writes : List WritePair)
  | scalarRead (p : ScalarRead)
  | scalarCopy (p : ScalarCopy)
  | dmaCopy (p : DmaCopy)
  | dmaFill (p : DmaFill)
  | pdiLoad (p : PdiLoad)
  | loop (p : Loop)
  | cond (p : Cond)
  | rerun (p : Rerun)
  | halt
  | other (opcode : U16)
  deriving DecidableEq, Repr

/-- `rp1_node_t`. -/
structure Node where
  flags : U16
  barrierAwaitMask : U32
  barrierSetMask : U32
  barrierAwaitBucket : U8
  barrierSetBucket : U8
  payload : Payload
  deriving DecidableEq, Repr

def flagHaltOnError : U16 := 1#16

def flagSilent : U16 := 2#16

def flagInfinite : U16 := 4#16

/-- `flags & flag` as a C condition. -/
def hasFlag (flags flag : U16) : Bool := flags &&& flag != 0#16

def rerunClearState : U16 := 1#16

/-- `rp1_cq_entry_t`. -/
structure CqEntry where
  nodeIndex : U32
  status : CqStatus
  errorDetail : U32
  timestamp : U32
  deriving DecidableEq, Repr

/-- `rp1_inflight_t`, without `settle_polls`, which is written and never read. -/
structure Inflight where
  baseAddr : U32
  nodeIndex : Nat
  setMask : U32
  timeoutStart : U32
  timeoutCycles : U32
  setBucket : U8
  infinite : Bool
  deriving DecidableEq, Repr

/-! ## Control block -/

/-- `rp1_error_code` with the recovery bit apart from the base code. -/
structure ErrorLatch where
  code : Option Err
  recoveryRequired : Bool
  node : U32
  detail : U32
  aux : U32
  deriving DecidableEq, Repr

/-- `rp1_clear_error_latch`. -/
def ErrorLatch.clear : ErrorLatch :=
  ⟨none, false, terminalErrorNodeNone, 0, 0⟩

/-- `rp1_latch_error`: the first base error owns node, detail and aux. -/
def ErrorLatch.latch (l : ErrorLatch) (code : Err) (node detail aux : U32) : ErrorLatch :=
  if l.code.isSome then l else ⟨some code, l.recoveryRequired, node, detail, aux⟩

/-- `rp1_mark_recovery_required`. -/
def ErrorLatch.markRecovery (l : ErrorLatch) : ErrorLatch := { l with recoveryRequired := true }

/-- `rp1_ctrl_t`: the fields the outer loop, the scanner and the host protocol read. -/
structure Ctrl where
  nodeCount : U32
  cqSize : U32
  nodeBaseLo : U32
  nodeBaseHi : U32
  cqBaseLo : U32
  cqBaseHi : U32
  graphSeq : U32
  graphDoneSeq : U32
  cqWriteIdx : U32
  cqReadIdx : U32
  state : FwState
  error : ErrorLatch
  argBufBaseLo : U32
  argBufBaseHi : U32
  sigArrayBaseLo : U32
  sigArrayBaseHi : U32
  traceEnable : U32
  traceBaseLo : U32
  traceBaseHi : U32
  traceSize : U32
  deriving DecidableEq, Repr

end Slash.Rp1
