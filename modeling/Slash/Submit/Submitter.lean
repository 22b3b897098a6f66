import Slash.Rp1.Scan
import Slash.Submit.Window

/-!
# The submitter

`Rp1Submitter::submitAndWait` up to and past the doorbell. A submission claims the submitter,
checks the image, establishes the firmware contract, drains the completion queue, stages
arguments, signals and nodes, configures the control block, and then writes `graph_seq`.

What the firmware publishes while this happens (its state, its version, the completion cursor and
entries) is `Firmware`, arbitrary in every statement. The words that only the host writes are in
the window. A packet of the image is its sixteen words, so that staging is exact to the byte;
`Packet.node` is what the checks read in them.
-/

namespace Slash.Submit

open Lib Rp1

/-! ## Images -/

/-- `rp1_node_t` as its sixteen words. -/
structure Packet where
  words : List U32
  length : words.length = 16

def Packet.node (p : Packet) : Rp1.Node := Rp1.Node.ofWords fun k => p.words.getD k 0

def bytesOf (words : List U32) : List U8 := words.flatMap wordBytes

/-- `Rp1GraphImage`. -/
structure GraphImage where
  nodes : List Packet
  argBuf : List U32
  clearSignalSlots : List U32
  cqSizeOverride : U32 := 0
  traceEnable : Bool := false
  traceSizeOverride : U32 := 0

def GraphImage.argBytes (image : GraphImage) : List U8 := bytesOf image.argBuf

def GraphImage.nodeBytes (image : GraphImage) : List U8 :=
  bytesOf (image.nodes.flatMap Packet.words)

/-- What `validateImage` finds wrong with one packet. -/
def nodeFault (nodeCount argBytes : Nat) (n : Rp1.Node) : Option String :=
  if n.barrierAwaitBucket.toNat ≥ maxBuckets ∨ n.barrierSetBucket.toNat ≥ maxBuckets then
    some "barrier bucket out of range"
  else
    match n.payload with
    | .nop | .scalarWrite _ | .dmaCopy _ | .dmaFill _ | .halt => none
    | .signal p =>
      if ¬ validSignalSlot p.targetSlot then some "SIGNAL target slot out of range"
      else if ¬ validSigOp p.operation then some "SIGNAL operation out of range"
      else none
    | .wait p =>
      if ¬ validSignalSlot p.conditionSignal then some "WAIT condition slot out of range"
      else if ¬ validCondition p.conditionOp then
        some "WAIT condition operation out of range"
      else none
    | .scalarRead p =>
      if ¬ validSignalSlot p.targetSlot then some "SCALAR_READ target slot out of range"
      else none
    | .scalarCopy p =>
      if ¬ validSignalSlot p.sourceSlot then some "SCALAR_COPY source slot out of range"
      else none
    | .kernelDispatch kd =>
      if kd.kernelBaseAddr = 0 ∨ kd.argBufferOffset &&& 7 ≠ 0 ∨
          kd.argBufferOffset.toNat + kd.argCount.toNat * 8 > argBytes then
        some "KERNEL_DISPATCH argument range is invalid"
      else none
    | .pdiLoad _ =>
      if hasFlag n.flags flagSilent then some "PDI_LOAD must retain CQ evidence"
      else none
    | .loop p =>
      if ¬ validSignalSlot p.conditionSignal then some "LOOP condition slot out of range"
      else if ¬ validCondition p.conditionOp ∨ p.loopId.toNat ≥ maxLoops ∨
          p.bodyStart > p.bodyEnd ∨ p.bodyEnd.toNat ≥ nodeCount ∨
          p.bucketClearStart > p.bucketClearEnd ∨ p.bucketClearEnd.toNat ≥ maxBuckets then
        some "LOOP range or operation is invalid"
      else none
    | .cond p =>
      if ¬ validSignalSlot p.conditionSignal then some "COND condition slot out of range"
      else if ¬ validCondition p.conditionOp ∨ p.doneBucket.toNat ≥ maxBuckets ∨
          (¬ p.bodyStart > p.bodyEnd ∧ p.bodyEnd.toNat ≥ nodeCount) ∨
          (¬ p.bucketClearStart > p.bucketClearEnd ∧
            p.bucketClearEnd.toNat ≥ maxBuckets) then
        some "COND range or operation is invalid"
      else none
    | .rerun p =>
      if p.targetNode.toNat ≥ nodeCount ∨
          (hasFlag p.rerunFlags rerunClearState ∧ p.loopId.toNat ≥ maxLoops) then
        some "RERUN target or loop id is invalid"
      else none
    | .other _ => some "opcode is not defined by protocol v4"

/-- `validateImage`: the first packet that is rejected. -/
def validateImage (image : GraphImage) : Option String :=
  image.nodes.zipIdx.findSome? fun p =>
    (nodeFault image.nodes.length (image.argBuf.length * 4) p.1.node).map fun reason =>
      "Rp1Submitter: invalid node " ++ toString p.2 ++ ": " ++ reason

/-- The defects that phase 1 of a submission looks for. -/
def GraphImage.malformed (image : GraphImage) : Option String :=
  if image.nodes = [] then some "Rp1Submitter: empty graph image"
  else if image.nodes.length > maxNodes then
    some ("Rp1Submitter: graph image has " ++ toString image.nodes.length ++ " nodes, max is " ++
      toString maxNodes)
  else
    (validateImage image).or <|
      (image.clearSignalSlots.find? fun slot => slot.toNat ≥ maxSignals).map fun slot =>
        "Rp1Submitter: signal slot " ++ toString slot.toNat ++ " exceeds RP1_MAX_SIGNALS (" ++
          toString maxSignals ++ ")"

def isValidCqSize (size : U32) : Bool := isPowerOfTwo size && size.toNat ≤ maxCqEntries

/-- `kDefaultTraceSize`. -/
def defaultTraceSize : U32 := 256

/-- `trace_size` of a submission. -/
def GraphImage.traceSize (image : GraphImage) : U32 :=
  if image.traceSizeOverride ≠ 0 then image.traceSizeOverride else defaultTraceSize

/-- `cq_size_override` is absent or a valid size. -/
def GraphImage.cqSizeOk (image : GraphImage) : Bool :=
  image.cqSizeOverride == 0 || isValidCqSize image.cqSizeOverride

/-- The trace ring of the image has a valid size. -/
def GraphImage.traceSizeOk (image : GraphImage) : Bool :=
  isPowerOfTwo image.traceSize && image.traceSize.toNat ≤ maxTraceEntries

/-! ## State -/

/-- How a wait of the submitter ends. -/
inductive Waited where
  | reached
  | late (what : String)
  | terminal (state graphSeq : U32)
  deriving DecidableEq, Repr

/-- How `waitForGraphDone` ends. -/
inductive Finished where
  | done
  | late (what : String)
  | terminal (state graphSeq : U32)
  /-- a drain found the cursors further apart than the ring -/
  | corrupt (what : String)
  deriving DecidableEq, Repr

/-- What the firmware publishes during one submission, as the host reads it. -/
structure Firmware where
  /-- magic and READY are still there on a cached handshake -/
  intact : Bool := true
  magic : Waited := .reached
  boot : Waited := .reached
  version : U32 := 4
  capabilities : U32 := 0x1F
  platform : U32 := 1
  /-- `cq_write_idx` when the handshake ends -/
  cursorAtReady : U32 := 0
  preflightState : U32 := 1
  cqWriteIdx : U32 := 0
  cqEntry : U32 → CqEntry
  finished : Finished := .done

/-- `Rp1Submitter`. -/
structure Submitter where
  window : Window
  cqSize : U32
  ready : Bool := false
  lastGraphSeq : U32 := 0
  lastCqStart : U32 := 0
  lastTraceSize : U32 := defaultTraceSize
  submissionSerial : BitVec 64 := 0
  cqCursor : U32 := 0
  pendingCq : List CqEntry := []
  poisoned : Bool := false
  submissionActive : Bool := false

abbrev SubmitM := EStateM Fault Submitter

def onWindow {α : Type} (m : WindowM α) : SubmitM α := fun s =>
  match m s.window with
  | .ok a w => .ok a { s with window := w }
  | .error e w => .error e { s with window := w }

/-! ## Offsets in the control block -/

def ctrlNodeCount : U32 := 0x08
def ctrlCqSize : U32 := 0x0C
def ctrlGraphSeq : U32 := 0x20
def ctrlCqReadIdx : U32 := 0x2C
def ctrlTraceEnable : U32 := 0x50
def ctrlTraceBaseLo : U32 := 0x54
def ctrlTraceBaseHi : U32 := 0x58
def ctrlTraceSize : U32 := 0x5C

/-! ## The handshake -/

def stateName (s : U32) : String :=
  if s = 0 then "INIT" else if s = 1 then "READY" else if s = 2 then "RUNNING"
  else if s = 3 then "ERROR" else if s = 4 then "HALTED" else "?"

def requireUsable : SubmitM Unit := do
  let s ← get
  if s.poisoned then
    throw (.runtime ("Rp1Submitter: device is poisoned after an indeterminate submission " ++
      "timeout; reset/recover the device and construct a new runtime device before submitting " ++
      "again"))
  else pure ()

/-- `waitForMagic` and `waitForState`. -/
def await : Waited → SubmitM Unit
  | .reached => pure ()
  | .late what => throw (.timeout what)
  | .terminal state graphSeq => throw (.terminal state graphSeq)

def requiredCapabilities : U32 := 0x1F

def requireFirmwareContract (fw : Firmware) : SubmitM Unit :=
  if fw.version ≠ 4 then
    throw (.runtime ("Rp1Submitter: RP1 firmware protocol version mismatch (firmware reports v" ++
      toString fw.version.toNat ++ ", host built for v4); reflash rp1.elf and rebuild libvrt " ++
      "from the same tree before running"))
  else if requiredCapabilities &&& ~~~fw.capabilities ≠ 0 then
    throw (.runtime ("Rp1Submitter: RP1 firmware is missing required protocol-v4 capabilities " ++
      "(firmware mask=" ++ toString fw.capabilities.toNat ++ ", required mask=" ++
      toString requiredCapabilities.toNat ++ ", missing mask=" ++
      toString (requiredCapabilities &&& ~~~fw.capabilities).toNat ++ ")"))
  else if fw.platform = 0 then
    throw (.runtime ("Rp1Submitter: firmware did not publish a generated/fixture PDI IPI " ++
      "platform id"))
  else pure ()

/-- The host-owned words that the handshake programs. -/
def handshakeWords (cqSize : U32) : List (U32 × U32) :=
  [(ctrlCqSize, cqSize),
    (0x10, ctrlPhysAddr + defaultNodeArrayOffset), (0x14, 0),
    (0x18, ctrlPhysAddr + defaultCqOffset), (0x1C, 0),
    (0x40, ctrlPhysAddr + defaultArgBufOffset), (0x44, 0),
    (0x48, ctrlPhysAddr + defaultSigArrayOffset), (0x4C, 0),
    (ctrlTraceBaseLo, ctrlPhysAddr + defaultTraceOffset), (ctrlTraceBaseHi, 0),
    (ctrlTraceSize, defaultTraceSize), (ctrlTraceEnable, 0)]

/-- The full handshake of `ensureReady`. -/
def handshake (fw : Firmware) : SubmitM Unit := do
  await fw.magic
  await fw.boot
  requireFirmwareContract fw
  let s ← get
  onWindow ((handshakeWords s.cqSize).forM fun p => writeU32 p.1 p.2)
  modify fun s => { s with lastTraceSize := defaultTraceSize, cqCursor := fw.cursorAtReady }
  onWindow (writeU32 ctrlCqReadIdx fw.cursorAtReady)
  modify fun s => { s with pendingCq := [], lastCqStart := fw.cursorAtReady }
  let seq ← onWindow (readU32 ctrlGraphSeq)
  modify fun s => { s with lastGraphSeq := seq, ready := true }

def ensureReady (fw : Firmware) : SubmitM Unit := do
  requireUsable
  let s ← get
  if s.ready ∧ fw.intact then requireFirmwareContract fw
  else do
    modify fun s => { s with ready := false }
    handshake fw

def drainAvailableCq (fw : Firmware) : SubmitM Unit := do
  let s ← get
  let delta := fw.cqWriteIdx - s.cqCursor
  if delta > s.cqSize then
    throw (.runtime ("Rp1Submitter::drainCq: corrupt completion queue cursors (" ++
      toString delta.toNat ++ " entries for a " ++ toString s.cqSize.toNat ++ "-entry ring)"))
  else do
    modify fun s => { s with
      pendingCq := s.pendingCq ++ (List.range delta.toNat).map fun i =>
        fw.cqEntry ((s.cqCursor + BitVec.ofNat 32 i) &&& (s.cqSize - 1)) }
    onWindow (writeU32 ctrlCqReadIdx fw.cqWriteIdx)
    modify fun s => { s with cqCursor := fw.cqWriteIdx }

/-! ## A submission -/

/-- Phase 1. -/
def checkImage (image : GraphImage) : SubmitM Unit :=
  match image.malformed with
  | some what => throw (.image what)
  | none => pure ()

/-- The handshake, unless it is cached. -/
def handshakeOnce (fw : Firmware) : SubmitM Unit := do
  let s ← get
  if s.ready then pure () else ensureReady fw

/-- The firmware has to be READY before the submission takes the shared storage. -/
def preflight (fw : Firmware) : SubmitM Unit :=
  if fw.preflightState = 1 then pure ()
  else if fw.preflightState = 3 ∨ fw.preflightState = 4 then do
    let seq ← onWindow (readU32 ctrlGraphSeq)
    throw (.terminal fw.preflightState seq)
  else
    throw (.runtime ("Rp1Submitter: firmware is not READY before submission (state=" ++
      stateName fw.preflightState ++ ")"))

def retireCq (fw : Firmware) : SubmitM Unit := do
  drainAvailableCq fw
  modify fun s => { s with pendingCq := [], lastCqStart := s.cqCursor }

def stageArgs (image : GraphImage) : WindowM Unit :=
  writeAt defaultArgBufOffset image.argBytes

def clearSlots (image : GraphImage) : WindowM Unit := image.clearSignalSlots.forM clearSignal

def stageNodes (image : GraphImage) : WindowM Unit :=
  writeAt defaultNodeArrayOffset image.nodeBytes

/-- The override of the completion ring, which stays for later submissions. -/
def overrideCqSize (image : GraphImage) : SubmitM Unit :=
  if image.cqSizeOverride = 0 then pure ()
  else if ¬ isValidCqSize image.cqSizeOverride then
    throw (.image ("Rp1Submitter: cq_size_override must be a power of 2 in [1, " ++
      toString maxCqEntries ++ "], got " ++ toString image.cqSizeOverride.toNat))
  else do
    modify fun s => { s with cqSize := image.cqSizeOverride }
    onWindow (writeU32 ctrlCqSize image.cqSizeOverride)

def configureTrace (image : GraphImage) : SubmitM Unit :=
  if image.traceSizeOk = false then
    throw (.image ("Rp1Submitter: trace_size must be a power of 2 in [1, " ++
      toString maxTraceEntries ++ "], got " ++ toString image.traceSize.toNat))
  else do
    onWindow (writeU32 ctrlTraceBaseLo (ctrlPhysAddr + defaultTraceOffset))
    onWindow (writeU32 ctrlTraceBaseHi 0)
    onWindow (writeU32 ctrlTraceSize image.traceSize)
    onWindow (writeU32 ctrlTraceEnable (if image.traceEnable then 1 else 0))
    modify fun s => { s with lastTraceSize := image.traceSize }

/-- The words of the control block; the answer is the sequence number to publish. -/
def configure (image : GraphImage) : SubmitM U32 := do
  modify fun s => { s with lastCqStart := s.cqCursor }
  let prevSeq ← onWindow (readU32 ctrlGraphSeq)
  onWindow (writeU32 ctrlNodeCount (BitVec.ofNat 32 image.nodes.length))
  overrideCqSize image
  configureTrace image
  pure (prevSeq + 1)

/-- Phase 3, from the arguments to the last word before the doorbell. -/
def stage (image : GraphImage) : SubmitM U32 := do
  onWindow (stageArgs image)
  onWindow (clearSlots image)
  onWindow (stageNodes image)
  configure image

/-- Everything that comes before the first staging write. -/
def prepare (image : GraphImage) (fw : Firmware) : SubmitM Unit := do
  checkImage image
  handshakeOnce fw
  preflight fw
  retireCq fw

/-- A claimed submission up to and with the doorbell. -/
def publish (image : GraphImage) (fw : Firmware) : SubmitM U32 := do
  prepare image fw
  let wantSeq ← stage image
  onWindow (writeU32 ctrlGraphSeq wantSeq)
  pure wantSeq

/-- Phase 5. -/
def finish (fw : Firmware) : SubmitM Unit :=
  match fw.finished with
  | .done => pure ()
  | .late what => do
    modify fun s => { s with poisoned := true }
    throw (.timeout what)
  | .terminal state graphSeq => throw (.terminal state graphSeq)
  | .corrupt what => throw (.runtime what)

/-- `submission_active_` goes from false to true. -/
def claim : SubmitM Unit := do
  let s ← get
  if s.submissionActive then
    throw (.runtime "Rp1Submitter: a graph submission is already active")
  else modify fun s => { s with submissionActive := true }

/-- `ActiveSubmission`: the claim ends with its scope, however that is left. -/
def releasing {α : Type} (m : SubmitM α) : SubmitM α := fun s =>
  match m s with
  | .ok a s' => .ok a { s' with submissionActive := false }
  | .error e s' => .error e { s' with submissionActive := false }

def submitAndWait (image : GraphImage) (fw : Firmware) : SubmitM Unit := do
  requireUsable
  claim
  releasing do
    let wantSeq ← publish image fw
    modify fun s => { s with
      lastGraphSeq := wantSeq
      submissionSerial := s.submissionSerial + 1 }
    finish fw

/-! ## The two validators -/

/-- The argument pairs of a dispatch are among those that the image brings. -/
def ArgsWithin (argBytes : Nat) (n : Rp1.Node) : Prop :=
  ∀ kd, n.payload = .kernelDispatch kd →
    kd.argBufferOffset.toNat + kd.argCount.toNat * 8 ≤ argBytes

theorem argRange_iff (kd : KernelDispatch) (available : U32) :
    kd.argBufferOffset ≤ available ∧ kd.argBytes ≤ available - kd.argBufferOffset ↔
      kd.argBufferOffset.toNat + kd.argCount.toNat * 8 ≤ available.toNat := by
  have hbytes : kd.argBytes.toNat = kd.argCount.toNat * 8 := by
    have hcount := kd.argCount.isLt
    rw [KernelDispatch.argBytes, BitVec.toNat_mul, BitVec.toNat_setWidth]
    show kd.argCount.toNat % 2 ^ 32 * 8 % 2 ^ 32 = _
    omega
  have havailable := available.isLt
  have hoffset := kd.argBufferOffset.isLt
  rw [BitVec.le_def, BitVec.le_def, BitVec.toNat_sub, hbytes]
  omega

/-- A packet passes the host exactly when it passes the firmware and reads arguments of its own
image only. -/
theorem nodeFault_iff {nodeCount argBytes : Nat} {available : U32} (hcount : nodeCount < 2 ^ 32)
    (hargs : argBytes ≤ available.toNat) (n : Rp1.Node) :
    nodeFault nodeCount argBytes n = none ↔
      n.invalid (BitVec.ofNat 32 nodeCount) available = none ∧ ArgsWithin argBytes n := by
  have hlt : ∀ x : U32, x < BitVec.ofNat 32 nodeCount ↔ x.toNat < nodeCount := fun x => by
    rw [BitVec.lt_def, BitVec.toNat_ofNat, Nat.mod_eq_of_lt hcount]
  unfold nodeFault Rp1.Node.invalid ArgsWithin
  split
  · simp
  cases hp : n.payload with
  | kernelDispatch kd =>
    have hwindow : kd.argBufferOffset.toNat + kd.argCount.toNat * 8 ≤ argBytes →
        kd.argBufferOffset.toNat + kd.argCount.toNat * 8 ≤ available.toNat := fun hle => Nat.le_trans hle hargs
    simp [Payload.invalid, argRange_iff]
    tauto
  | wait p => cases hslot : validSignalSlot p.conditionSignal <;> simp [Payload.invalid, hslot]
  | signal p => cases hslot : validSignalSlot p.targetSlot <;> simp [Payload.invalid, hslot]
  | loop p =>
    cases hslot : validSignalSlot p.conditionSignal <;> simp [Payload.invalid, hslot, hlt]
  | cond p =>
    cases hslot : validSignalSlot p.conditionSignal <;> simp [Payload.invalid, hslot, hlt]
    intros
    rw [or_iff_not_imp_left, BitVec.not_lt]
  | _ => simp [Payload.invalid, hlt]

/-- A graph as the firmware finds it: the packets of the image, with its arguments in the window. -/
structure Staged (image : GraphImage) (s : St) : Prop where
  nodeCount : s.nodeCount = image.nodes.length
  nodes : ∀ i p, image.nodes[i]? = some p → s.nodes i = p.node
  args : image.argBuf.length * 4 ≤ s.ctrl.argAvailable.toNat

/-- The firmware rejects no packet of an image that the host accepts, and the host rejects no image
that the firmware accepts unless a dispatch reads behind the arguments of its image. -/
theorem validators_agree (image : GraphImage) {s : St} (h : Staged image s)
    (hlength : image.nodes.length ≤ maxNodes) :
    validateImage image = none ↔
      s.validateNodes = none ∧ ∀ p ∈ image.nodes, ArgsWithin (image.argBuf.length * 4) p.node := by
  have hcount : image.nodes.length < 2 ^ 32 := Nat.lt_of_le_of_lt hlength (by decide)
  have hhost : validateImage image = none ↔ ∀ p ∈ image.nodes,
      nodeFault image.nodes.length (image.argBuf.length * 4) p.node = none := by
    simp only [validateImage, List.findSome?_eq_none_iff, Option.map_eq_none_iff, Prod.forall,
      List.mem_zipIdx_iff_getElem?]
    refine ⟨fun hall p hp => ?_, fun hall p i hi => hall p (List.mem_of_getElem? hi)⟩
    obtain ⟨i, hi⟩ := List.mem_iff_getElem?.mp hp
    exact hall p i hi
  have hfirmware : s.validateNodes = none ↔ ∀ p ∈ image.nodes,
      p.node.invalid (BitVec.ofNat 32 image.nodes.length) s.ctrl.argAvailable = none := by
    simp only [St.validateNodes, List.findSome?_eq_none_iff, Option.map_eq_none_iff, List.mem_range,
      h.nodeCount]
    refine ⟨fun hall p hp => ?_, fun hall i hi => ?_⟩
    · obtain ⟨i, hi⟩ := List.mem_iff_getElem?.mp hp
      rw [← h.nodes i p hi]
      exact hall i (List.getElem?_eq_some_iff.mp hi).1
    · rw [h.nodes i _ (List.getElem?_eq_getElem hi)]
      exact hall _ (List.getElem_mem hi)
  simp only [hhost, hfirmware, nodeFault_iff hcount h.args, forall_and]

/-- A kernel with one argument pair. -/
def onePair : Packet :=
  ⟨[0x10, 0, 0, 0, 0xA0000000, 0, 1, 0, 0, 0, 0, 0, 0, 0, 0, 0], rfl⟩

theorem validators_agree_onePair :
    (St.fresh (fun _ => onePair.node) 1 16).validateNodes = none := by
  refine ((validators_agree ⟨[onePair], [4, 7], [], 0, false, 0⟩
    ⟨rfl, fun i p hp => ?_, by decide⟩ (by decide)).1 (by decide)).1
  rw [List.mem_singleton.mp (List.mem_of_getElem? hp)]
  rfl

end Slash.Submit
