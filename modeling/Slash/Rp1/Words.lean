import Slash.Rp1.Protocol

/-!
# Packets and control block as words

The firmware dereferences a packet through the payload union, so a 32-bit store into the node
array changes whatever fields share that word. `Node.words` lays a packet out as its sixteen
little-endian words, `Node.ofWords` reads one back, and `Node.poke` is a store of one word.
`Ctrl.poke` is the same for the control block.
-/

namespace Slash.Rp1

open Lib

def pack16 (hi lo : U16) : U32 := hi.setWidth 32 <<< 16 ||| lo.setWidth 32
def lo16 (w : U32) : U16 := w.setWidth 16
def hi16 (w : U32) : U16 := (w >>> 16).setWidth 16
def pack8 (b1 b0 : U8) : U16 := b1.setWidth 16 <<< 8 ||| b0.setWidth 16
def lo8 (h : U16) : U8 := h.setWidth 8
def hi8 (h : U16) : U8 := (h >>> 8).setWidth 8

def CondOp.code : CondOp → U16
  | eq => 0 | ne => 1 | lt => 2 | ge => 3 | andNz => 4 | andZ => 5 | bad c => c

def CondOp.ofCode (c : U16) : CondOp :=
  if c = 0 then eq else if c = 1 then ne else if c = 2 then lt else if c = 3 then ge
  else if c = 4 then andNz else if c = 5 then andZ else bad c

def SigOp.code : SigOp → U16
  | set => 0 | add => 1 | or => 2 | and => 3 | bad c => c

def SigOp.ofCode (c : U16) : SigOp :=
  if c = 0 then set else if c = 1 then add else if c = 2 then or else if c = 3 then and
  else bad c

/-- `rp1_opcode_t`. -/
def Payload.opcode : Payload → U16
  | nop => 0x0000 | wait _ => 0x0001 | signal _ => 0x0002
  | kernelDispatch _ => 0x0010 | scalarWrite _ => 0x0011 | scalarRead _ => 0x0012
  | scalarCopy _ => 0x0013 | dmaCopy _ => 0x0020 | dmaFill _ => 0x0021
  | pdiLoad _ => 0x0030 | loop _ => 0x0040 | cond _ => 0x0041 | rerun _ => 0x0042
  | halt => 0x00FF | other c => c

/-- The payload words; those past the end of the list are reserved and zero. -/
def Payload.words : Payload → List U32
  | nop | halt | other _ => []
  | wait p => [p.conditionSignal, p.conditionValue, pack16 0 p.conditionOp.code]
  | signal p => [p.targetSlot, p.value, pack16 0 p.operation.code]
  | kernelDispatch p =>
    [p.kernelBaseAddr, p.argBufferOffset, pack16 0 p.argCount, p.timeoutCycles,
      p.expectedImageId]
  | scalarWrite ws => ws.flatMap fun p => [p.addr, p.value]
  | scalarRead p => [p.sourceAddr, p.targetSlot]
  | scalarCopy p => [p.sourceSlot, p.destAddr]
  | dmaCopy p => [p.srcAddrLo, 0, p.dstAddrLo, 0, p.length]
  | dmaFill p => [p.dstAddrLo, 0, p.length, p.pattern]
  | pdiLoad p => [p.pdiAddrLo, p.pdiAddrHi, p.timeoutCycles, p.imageId]
  | loop p =>
    [p.bodyStart, p.bodyEnd, p.maxIterations, p.conditionSignal, p.conditionValue,
      pack16 (pack8 p.bucketClearEnd p.bucketClearStart) p.conditionOp.code,
      pack16 0 (pack8 0 p.loopId)]
  | cond p =>
    [p.conditionSignal, p.conditionValue,
      pack16 (pack8 p.bucketClearEnd p.bucketClearStart) p.conditionOp.code,
      p.bodyStart, p.bodyEnd, pack16 0 (pack8 0 p.doneBucket), p.doneMask]
  | rerun p => [p.targetNode, pack16 (pack8 0 p.loopId) p.rerunFlags]

/-- The sixteen words of a packet: a four-word header, then the payload. -/
def Node.words (n : Node) : List U32 :=
  [pack16 n.flags n.payload.opcode, n.barrierAwaitMask, n.barrierSetMask,
    pack16 0 (pack8 n.barrierSetBucket n.barrierAwaitBucket)] ++ n.payload.words

/-- The active union member of opcode `op`, read from the payload words `w`. -/
def Payload.ofWords (op : U16) (w : Nat → U32) : Payload :=
  if op = 0x0000 then nop
  else if op = 0x0001 then wait ⟨w 0, w 1, CondOp.ofCode (lo16 (w 2))⟩
  else if op = 0x0002 then signal ⟨w 0, w 1, SigOp.ofCode (lo16 (w 2))⟩
  else if op = 0x0010 then kernelDispatch ⟨w 0, w 1, lo16 (w 2), w 3, w 4⟩
  else if op = 0x0011 then
    scalarWrite ((List.range scalarWriteMax).map fun k => ⟨w (2 * k), w (2 * k + 1)⟩)
  else if op = 0x0012 then scalarRead ⟨w 0, w 1⟩
  else if op = 0x0013 then scalarCopy ⟨w 0, w 1⟩
  else if op = 0x0020 then dmaCopy ⟨w 0, w 2, w 4⟩
  else if op = 0x0021 then dmaFill ⟨w 0, w 2, w 3⟩
  else if op = 0x0030 then pdiLoad ⟨w 0, w 1, w 2, w 3⟩
  else if op = 0x0040 then
    loop ⟨w 0, w 1, w 2, w 3, w 4, CondOp.ofCode (lo16 (w 5)), lo8 (hi16 (w 5)),
      hi8 (hi16 (w 5)), lo8 (lo16 (w 6))⟩
  else if op = 0x0041 then
    cond ⟨w 0, w 1, CondOp.ofCode (lo16 (w 2)), lo8 (hi16 (w 2)), hi8 (hi16 (w 2)), w 3, w 4,
      lo8 (lo16 (w 5)), w 6⟩
  else if op = 0x0042 then rerun ⟨w 0, lo16 (w 1), lo8 (hi16 (w 1))⟩
  else if op = 0x00FF then halt
  else other op

/-- The payload read through the WAIT member of the union, whatever the opcode is. -/
def Payload.asWait : Payload → Wait
  | wait p => p
  | p => ⟨p.words.getD 0 0, p.words.getD 1 0, CondOp.ofCode (lo16 (p.words.getD 2 0))⟩

/-- The packet the firmware sees in sixteen words. -/
def Node.ofWords (w : Nat → U32) : Node where
  flags := hi16 (w 0)
  barrierAwaitMask := w 1
  barrierSetMask := w 2
  barrierAwaitBucket := lo8 (lo16 (w 3))
  barrierSetBucket := hi8 (lo16 (w 3))
  payload := Payload.ofWords (lo16 (w 0)) fun k => w (4 + k)

/-- A 32-bit store of `v` to word `k` of a packet. -/
def Node.poke (n : Node) (k : Nat) (v : U32) : Node :=
  Node.ofWords (upd (fun j => n.words.getD j 0) k v)

def CqStatus.ofCode (c : U32) : CqStatus :=
  if c = 0 then ok else if c = 1 then error else if c = 2 then timeout else other c

/-- A 32-bit store of `v` to word `k` of a completion entry. -/
def CqEntry.poke (e : CqEntry) (k : Nat) (v : U32) : CqEntry :=
  match k with
  | 0 => { e with nodeIndex := v }
  | 1 => { e with status := CqStatus.ofCode v }
  | 2 => { e with errorDetail := v }
  | _ => { e with timestamp := v }

/-- The base code in `rp1_error_code`, recovery bit masked off. -/
def Err.ofCode (c : U32) : Option Err :=
  if c = 0 then none
  else if c = 1 then some inflightFull
  else if c = 2 then some kernelTimeout
  else if c = 3 then some pdiTimeout
  else if c = 4 then some imageMismatch
  else if c = 5 then some pdiFailed
  else if c = 6 then some invalidConfig
  else if c = 7 then some invalidNode
  else if c = 8 then some cqCorrupt
  else some (other c)

def FwState.ofCode (c : U32) : FwState :=
  if c = 0 then init
  else if c = 1 then ready
  else if c = 2 then running
  else if c = 3 then error
  else if c = 4 then halted
  else other c

def errRecoveryRequired : U32 := 0x80000000#32

/-- A 32-bit store of `v` at `offset` of the control block. -/
def Ctrl.poke (c : Ctrl) (offset v : U32) : Ctrl :=
  if offset = 0x08 then { c with nodeCount := v }
  else if offset = 0x0C then { c with cqSize := v }
  else if offset = 0x10 then { c with nodeBaseLo := v }
  else if offset = 0x14 then { c with nodeBaseHi := v }
  else if offset = 0x18 then { c with cqBaseLo := v }
  else if offset = 0x1C then { c with cqBaseHi := v }
  else if offset = 0x20 then { c with graphSeq := v }
  else if offset = 0x24 then { c with graphDoneSeq := v }
  else if offset = 0x28 then { c with cqWriteIdx := v }
  else if offset = 0x2C then { c with cqReadIdx := v }
  else if offset = 0x30 then { c with state := FwState.ofCode v }
  else if offset = 0x34 then
    { c with error := { c.error with
        code := Err.ofCode (v &&& ~~~errRecoveryRequired)
        recoveryRequired := v &&& errRecoveryRequired != 0 } }
  else if offset = 0x40 then { c with argBufBaseLo := v }
  else if offset = 0x44 then { c with argBufBaseHi := v }
  else if offset = 0x48 then { c with sigArrayBaseLo := v }
  else if offset = 0x4C then { c with sigArrayBaseHi := v }
  else if offset = 0x50 then { c with traceEnable := v }
  else if offset = 0x54 then { c with traceBaseLo := v }
  else if offset = 0x58 then { c with traceBaseHi := v }
  else if offset = 0x5C then { c with traceSize := v }
  else if offset = 0x6C then { c with error := { c.error with node := v } }
  else if offset = 0x70 then { c with error := { c.error with detail := v } }
  else if offset = 0x74 then { c with error := { c.error with aux := v } }
  else c

end Slash.Rp1
