import Slash.Rp1.Store

/-!
# Packet validation

`validate_nodes` runs over the whole graph before any packet is activated. `Node.invalid` is the
body of its loop: the detail and aux word it reports for a packet, or `none` when the packet is
accepted. The checks read 32-bit arithmetic as the firmware does: `argAvailable` is the distance
from the argument base to the end of the window.
-/

namespace Slash.Rp1

def validCondition : CondOp → Bool
  | .bad _ => false
  | _ => true

/-- `operation > RP1_SIGOP_AND` fails. -/
def validSigOp : SigOp → Bool
  | .bad _ => false
  | _ => true

def validSignalSlot (slot : U32) : Bool := slot < BitVec.ofNat 32 maxSignals

/-- `bytes` of a KERNEL_DISPATCH: its argument pairs are eight bytes each. -/
def KernelDispatch.argBytes (kd : KernelDispatch) : U32 := kd.argCount.setWidth 32 * 8

/-- Phase 2 of `validate_nodes`: the checks of the active union member. -/
def Payload.invalid (flags : U16) (nodeCount argAvailable : U32) :
    Payload → Option (NodeDetail × U32)
  | .nop | .scalarWrite _ | .dmaCopy _ | .dmaFill _ | .halt => none
  | .signal p =>
    if ¬ validSignalSlot p.targetSlot then some (.badSignalSlot, p.targetSlot)
    else if ¬ validSigOp p.operation then
      some (.badOperation, p.operation.code.setWidth 32)
    else none
  | .wait p =>
    if ¬ validSignalSlot p.conditionSignal then some (.badSignalSlot, p.conditionSignal)
    else if ¬ validCondition p.conditionOp then
      some (.badOperation, p.conditionOp.code.setWidth 32)
    else none
  | .scalarRead p =>
    if validSignalSlot p.targetSlot then none else some (.badSignalSlot, p.targetSlot)
  | .scalarCopy p =>
    if validSignalSlot p.sourceSlot then none else some (.badSignalSlot, p.sourceSlot)
  | .kernelDispatch kd =>
    if kd.kernelBaseAddr ≠ 0 ∧ kd.argBufferOffset &&& 7 = 0 ∧
        kd.argBufferOffset ≤ argAvailable ∧
        kd.argBytes ≤ argAvailable - kd.argBufferOffset then none
    else some (.badArguments, kd.argBufferOffset)
  | .pdiLoad _ => if hasFlag flags flagSilent then some (.pdiWithoutCq, 0) else none
  | .loop p =>
    if validSignalSlot p.conditionSignal ∧ validCondition p.conditionOp ∧
        p.loopId.toNat < maxLoops ∧ p.bodyStart ≤ p.bodyEnd ∧ p.bodyEnd < nodeCount ∧
        p.bucketClearStart ≤ p.bucketClearEnd ∧ p.bucketClearEnd.toNat < maxBuckets then none
    else if validSignalSlot p.conditionSignal then some (.badLoopConfig, p.bodyEnd)
    else some (.badSignalSlot, p.conditionSignal)
  | .cond p =>
    if validSignalSlot p.conditionSignal ∧ validCondition p.conditionOp ∧
        p.doneBucket.toNat < maxBuckets ∧
        (p.bodyStart > p.bodyEnd ∨ p.bodyEnd < nodeCount) ∧
        (p.bucketClearStart > p.bucketClearEnd ∨ p.bucketClearEnd.toNat < maxBuckets) then none
    else if validSignalSlot p.conditionSignal then some (.badLoopConfig, p.bodyEnd)
    else some (.badSignalSlot, p.conditionSignal)
  | .rerun p =>
    if p.targetNode < nodeCount ∧
        (¬ hasFlag p.rerunFlags rerunClearState ∨ p.loopId.toNat < maxLoops) then none
    else some (.badTarget, p.targetNode)
  | .other op => some (.badOperation, op.setWidth 32)

/-- What `validate_nodes` finds wrong with one packet: the common header first, then the
payload. -/
def Node.invalid (nodeCount argAvailable : U32) (n : Node) : Option (NodeDetail × U32) :=
  if n.barrierAwaitBucket.toNat ≥ maxBuckets ∨ n.barrierSetBucket.toNat ≥ maxBuckets then
    some (.badBarrier, n.barrierAwaitBucket.setWidth 32 <<< 8 ||| n.barrierSetBucket.setWidth 32)
  else n.payload.invalid n.flags nodeCount argAvailable

def Ctrl.argAvailable (c : Ctrl) : U32 := ctrlPhysAddr + ctrlWindowSize - c.argBufBaseLo

/-- `validate_nodes`: the first packet rejected, with detail and aux. -/
def St.validateNodes (s : St) : Option (Nat × NodeDetail × U32) :=
  (List.range s.nodeCount).findSome? fun i =>
    ((s.nodes i).invalid (BitVec.ofNat 32 s.nodeCount) s.ctrl.argAvailable).map fun e => (i, e)

end Slash.Rp1
