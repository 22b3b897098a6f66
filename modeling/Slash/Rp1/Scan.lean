import Slash.Lib.CountedLoop
import Slash.Lib.Run
import Slash.Lib.SwapRemove
import Slash.Rp1.Validate

/-!
# The scanner

`rp1_loop` as a step function. One firmware step is one iteration of one of its loops: one node
looked at by `activate_nodes` or `check_waits`, one table entry by `check_inflight` or
`quiesce_inflight`, one completion test. Between two steps the host may move `cq_read_idx` and
write signal slots, so an action list is an interleaving of the two. The host can also act
inside a step: between the reservation of a completion entry (`cq_can_write`) and its append
(`write_cq_entry`) lie register accesses and PDI loads, so `Input.release` is a cursor the
host publishes there.

What the hardware answers (registers, the cycle counter, PDI results, memory a DMA reads) is
`Input`, arbitrary in every run. The trace ring, the heartbeat and `rp1_current_node` are left
out: nothing the scanner does depends on them.
-/

namespace Slash.Rp1

open Lib

/-- `rp1_pdi_result_t`. -/
inductive PdiResult where
  | ok
  | timeout
  | plmError (status detail : U32)
  deriving DecidableEq, Repr

/-- What the hardware and the host answer during one firmware step. -/
structure Input where
  /-- a `cq_read_idx` the host publishes between reservation and append -/
  release : Option U32 := none
  mmio : U32 → U32 := fun _ => 0
  now : U32 := 0
  pdi : PdiResult := .ok
  ddr : U32 → U32 := fun _ => 0

/-- `compare`. -/
def compare (sig : U32) (op : CondOp) (val : U32) : Bool :=
  match op with
  | .eq => sig = val
  | .ne => sig ≠ val
  | .lt => sig < val
  | .ge => sig ≥ val
  | .andNz => sig &&& val ≠ 0
  | .andZ => sig &&& val = 0
  | .bad _ => false

/-- What `cq_can_write` answers: 1, 0 or −1. -/
inductive Room where
  | ready | full | corrupt
  deriving DecidableEq, Repr

/-- The occupancy both cursors define. -/
def Ctrl.cqUsed (c : Ctrl) : U32 := c.cqWriteIdx - c.cqReadIdx

/-- `cq_can_write`, without its latch. -/
def cqRoom (flags : U16) (c : Ctrl) : Room :=
  if hasFlag flags flagSilent then .ready
  else if c.cqUsed > c.cqSize then .corrupt
  else if c.cqUsed = c.cqSize then .full
  else .ready

/-- How one iteration of `activate_nodes` ends. -/
inductive Verdict where
  | next (progress : Bool)
  | stop (result : Stop)
  | hang
  deriving DecidableEq, Repr

/-- Go on only if the node was not fatal. -/
def andThen (r : St × Verdict) (k : St → St × Verdict) : St × Verdict :=
  match r.2 with
  | .next _ => k r.1
  | .stop e => (r.1, .stop e)
  | .hang => (r.1, .hang)

/-! ## Primitive effects on the stores -/

namespace Core

def note (c : Core) (e : Event) : Core := { c with log := e :: c.log }

/-- `set_node_status`. -/
def setStatus (c : Core) (i : Nat) (st : Status) : Core :=
  { c with status := upd c.status i st, log := .status i st :: c.log }

/-- `g_barriers[bucket] |= mask`, on behalf of node `i`. -/
def raise (c : Core) (i bucket : Nat) (mask : U32) : Core :=
  { c with
    barriers := upd c.barriers bucket (c.barriers bucket ||| mask)
    log := .raise i bucket mask :: c.log }

/-- Node `i` raises its own completion bits. -/
def raiseOwn (c : Core) (i : Nat) : Core :=
  c.raise i (c.nodes i).barrierSetBucket.toNat (c.nodes i).barrierSetMask

/-- The range loops of LOOP and COND over the buckets and the body they list. -/
def rearm (c : Core) (buckets body : List Nat) : Core :=
  { c with
    barriers := fill c.barriers buckets 0
    status := fill c.status body .pending
    log := body.reverse.map (fun n => .status n .pending) ++ c.log }

/-- The exit test of LOOP: the incremented counter passed a non-zero cap, or the condition
holds. -/
def loopExits (c : Core) (p : Loop) : Bool :=
  (p.maxIterations > 0 && c.loopIters p.loopId.toNat + 1 > p.maxIterations) ||
    compare (c.signals p.conditionSignal.toNat) p.conditionOp p.conditionValue

/-- LOOP counts, then tests. -/
def countLoop (c : Core) (i : Nat) (p : Loop) : Core :=
  { c with
    loopIters := upd c.loopIters p.loopId.toNat (c.loopIters p.loopId.toNat + 1)
    log := .test i (c.signals p.conditionSignal.toNat) (c.loopExits p) :: c.log }

/-- The test of COND. -/
def condMet (c : Core) (p : Cond) : Bool :=
  compare (c.signals p.conditionSignal.toNat) p.conditionOp p.conditionValue

def addInflight (c : Core) (now : U32) (i : Nat) (kd : KernelDispatch) : Core :=
  let node := c.nodes i
  { c with inflight := c.inflight ++ [{
      baseAddr := kd.kernelBaseAddr
      nodeIndex := i
      setMask := node.barrierSetMask
      timeoutStart := now
      timeoutCycles := if kd.timeoutCycles ≠ 0 then kd.timeoutCycles else c.defaultKernelTimeout
      setBucket := node.barrierSetBucket
      infinite := hasFlag node.flags flagInfinite }] }

/-- `remove_inflight`: the last entry takes the place of the removed one. -/
def removeInflight (c : Core) (idx : Nat) : Core :=
  { c with inflight := swapRemove c.inflight idx }

def Eligible (c : Core) (i : Nat) : Prop :=
  c.status i = .pending ∧
    Covers (c.barriers (c.nodes i).barrierAwaitBucket.toNat) (c.nodes i).barrierAwaitMask

instance (c : Core) (i : Nat) : Decidable (c.Eligible i) :=
  inferInstanceAs (Decidable (_ ∧ _))

end Core

namespace St

def note (s : St) (e : Event) : St := { s with toCore := s.toCore.note e }
def setStatus (s : St) (i : Nat) (st : Status) : St := { s with toCore := s.toCore.setStatus i st }
def raise (s : St) (i bucket : Nat) (mask : U32) : St :=
  { s with toCore := s.toCore.raise i bucket mask }
def raiseOwn (s : St) (i : Nat) : St := { s with toCore := s.toCore.raiseOwn i }
def addInflight (s : St) (now : U32) (i : Nat) (kd : KernelDispatch) : St :=
  { s with toCore := s.toCore.addInflight now i kd }
def removeInflight (s : St) (idx : Nat) : St := { s with toCore := s.toCore.removeInflight idx }

/-! ## Error latch, registers, completion queue -/

/-- `rp1_latch_error`; `halt` is for the history only. -/
def latch (s : St) (code : Err) (node detail aux : U32) (halt : Bool) : St :=
  { s with
    ctrl := { s.ctrl with error := s.ctrl.error.latch code node detail aux }
    errors := ⟨code, node, detail, aux, halt, s.log.length⟩ :: s.errors }

/-- `rp1_mark_recovery_required`. -/
def markRecovery (s : St) : St :=
  { s with ctrl := { s.ctrl with error := s.ctrl.error.markRecovery } }

/-- The latch of `cq_can_write` on cursors beyond the ring. -/
def latchCorrupt (s : St) : St :=
  s.latch .cqCorrupt terminalErrorNodeNone s.ctrl.cqUsed s.ctrl.cqSize false

def mmioRead (s : St) (inp : Input) (addr : U32) : St :=
  { s with bus := .read addr (inp.mmio addr) :: s.bus }

def mmioWrite (s : St) (addr value : U32) : St :=
  { s with bus := .write addr value :: s.bus }

/-- The host publishes a read cursor. -/
def release (s : St) (r : Option U32) : St :=
  { s with ctrl := { s.ctrl with cqReadIdx := r.getD s.ctrl.cqReadIdx } }

/-- The append half of `write_cq_entry`. -/
def appendCq (s : St) (e : CqEntry) : St :=
  { s with
    cq := upd s.cq (s.ctrl.cqWriteIdx &&& (s.ctrl.cqSize - 1)).toNat e
    ctrl := { s.ctrl with cqWriteIdx := s.ctrl.cqWriteIdx + 1 }
    appended := e :: s.appended }

/-- `write_cq_entry`, preceded by what the host did since the caller's own check. -/
def writeCqEntry (s : St) (inp : Input) (flags : U16) (nodeIndex : U32) (st : CqStatus)
    (detail : U32) : St × Room :=
  let s := s.release inp.release
  match cqRoom flags s.ctrl with
  | .corrupt => (s.latchCorrupt, .corrupt)
  | .full => ({ s with overrun := true }, .full)
  | .ready =>
    if hasFlag flags flagSilent then (s, .ready)
    else (s.appendCq ⟨nodeIndex, st, detail, inp.now - s.graphStartCycles⟩, .ready)

/-- `if (write_cq_entry(...) < 0) return -1;`. -/
def publish (s : St) (inp : Input) (flags : U16) (i : Nat) (st : CqStatus) (detail : U32) :
    St × Verdict :=
  match s.writeCqEntry inp flags (BitVec.ofNat 32 i) st detail with
  | (s', .corrupt) => (s', .stop .error)
  | (s', _) => (s', .next true)

/-- Status DONE, own barrier bits, completion entry: how every successful packet ends. -/
def complete (s : St) (inp : Input) (i : Nat) : St × Verdict :=
  ((s.setStatus i .done).raiseOwn i).publish inp (s.nodes i).flags i .ok 0

def timeoutElapsed (k : Inflight) (now : U32) : Bool := now - k.timeoutStart ≥ k.timeoutCycles

/-! ## Kernel launch and immediate packets -/

/-- The `(reg_offset, value)` pairs a dispatch points at. -/
def argPairs (s : St) (kd : KernelDispatch) : List (U32 × U32) :=
  (List.range kd.argCount.toNat).map fun k =>
    (s.args (kd.argBufferOffset.toNat / 4 + 2 * k),
      s.args (kd.argBufferOffset.toNat / 4 + 2 * k + 1))

/-- `launch_kernel`: clear a stale ap_done, write the arguments, pulse ap_start. -/
def launchKernel (s : St) (inp : Input) (i : Nat) (kd : KernelDispatch) : St :=
  let s := s.mmioRead inp kd.kernelBaseAddr
  let s := (s.argPairs kd).foldl (fun s p => s.mmioWrite (kd.kernelBaseAddr + p.1) p.2) s
  (s.mmioWrite kd.kernelBaseAddr 1).note (.launch i kd.kernelBaseAddr)

/-- One word stored through a raw DDR pointer. It lands in the node array, in the completion
queue, in a signal value, in the control block or in the argument buffer; anywhere else nobody
modelled here sees it. -/
def storeWord (s : St) (addr value : U32) : St :=
  let n := (addr - s.nodeBase).toNat
  let q := (addr - s.cqBase).toNat
  let g := (addr - s.sigBase).toNat
  let c := addr - ctrlPhysAddr
  if n < 64 * s.nodeCount then
    { s with nodes := upd s.nodes (n / 64) ((s.nodes (n / 64)).poke (n % 64 / 4) value) }
  else if q < 16 * s.ctrl.cqSize.toNat then
    { s with cq := upd s.cq (q / 16) ((s.cq (q / 16)).poke (q % 16 / 4) value) }
  else if g < 16 * maxSignals then
    if g % 16 < 4 then { s with signals := upd s.signals (g / 16) value } else s
  else if c < 0x1000 then { s with ctrl := s.ctrl.poke c value }
  else if s.argBase ≤ addr ∧ addr < ctrlPhysAddr + ctrlWindowSize then
    { s with args := upd s.args ((addr - s.argBase).toNat / 4) value }
  else s

/-- The `SIGNAL` operations. -/
def signalOp (old : U32) (p : Signal) : U32 :=
  match p.operation with
  | .set => p.value
  | .add => old + p.value
  | .or => old ||| p.value
  | .and => old &&& p.value
  | .bad _ => old

def executeImmediate (s : St) (inp : Input) (i : Nat) : St :=
  match (s.nodes i).payload with
  | .signal p =>
    let value := signalOp (s.signals p.targetSlot.toNat) p
    { s with signals := upd s.signals p.targetSlot.toNat value }
  | .scalarWrite ws =>
    ((ws.take scalarWriteMax).takeWhile fun p => p.addr ≠ 0).foldl
      (fun s p => s.mmioWrite p.addr p.value) s
  | .scalarRead p =>
    let s := s.mmioRead inp p.sourceAddr
    { s with
      signals := upd s.signals p.targetSlot.toNat (inp.mmio p.sourceAddr)
      log := .capture i p.targetSlot.toNat (inp.mmio p.sourceAddr) :: s.log }
  | .scalarCopy p => s.mmioWrite p.destAddr (s.signals p.sourceSlot.toNat)
  | .dmaCopy p =>
    (List.range (p.length.toNat / 4)).foldl (fun s w =>
      s.storeWord (p.dstAddrLo + BitVec.ofNat 32 (4 * w))
        (inp.ddr (p.srcAddrLo + BitVec.ofNat 32 (4 * w)))) s
  | .dmaFill p =>
    (List.range (p.length.toNat / 4)).foldl (fun s w =>
      s.storeWord (p.dstAddrLo + BitVec.ofNat 32 (4 * w)) p.pattern) s
  | _ => s

/-! ## `activate_nodes` -/

/-- The range loops of LOOP and COND: clear the buckets, reset the body to PENDING; `none` when
one of the two counters wraps. -/
def rearm (s : St) (clearStart clearEnd : U8) (bodyStart bodyEnd : U32) : Option St :=
  match span clearStart clearEnd, span bodyStart bodyEnd with
  | some buckets, some body => some { s with toCore := s.toCore.rearm buckets body }
  | _, _ => none

def activateKernel (s : St) (inp : Input) (i : Nat) (kd : KernelDispatch) : St × Verdict :=
  let node := s.nodes i
  if kd.expectedImageId ≠ 0 ∧ kd.expectedImageId ≠ s.activeImageId then
    let s := (s.setStatus i .error).latch .imageMismatch (BitVec.ofNat 32 i)
      kd.expectedImageId s.activeImageId (hasFlag node.flags flagHaltOnError)
    andThen (s.publish inp node.flags i .error s.activeImageId) fun s =>
      if hasFlag node.flags flagHaltOnError then (s, .stop .error)
      else (s.raiseOwn i, .next true)
  else if s.inflight.length ≥ maxInflight then
    let s := (s.setStatus i .error).latch .inflightFull (BitVec.ofNat 32 i)
      (BitVec.ofNat 32 s.inflight.length) (BitVec.ofNat 32 maxInflight)
      (hasFlag node.flags flagHaltOnError)
    andThen (s.publish inp node.flags i .error (BitVec.ofNat 32 s.inflight.length)) fun s =>
      (s, .stop .error)
  else
    let s := s.launchKernel inp i kd
    if hasFlag node.flags flagInfinite then
      andThen (s.complete inp i) fun s => (s.addInflight inp.now i kd, .next true)
    else
      ((s.setStatus i .dispatched).addInflight inp.now i kd, .next true)

def activatePdi (s : St) (inp : Input) (i : Nat) (p : PdiLoad) : St × Verdict :=
  let node := s.nodes i
  match inp.pdi with
  | .ok => { s.note (.loaded i p.imageId) with activeImageId := p.imageId }.complete inp i
  | r =>
    let s := s.setStatus i .error
    andThen
      (match r with
        | .plmError status detail =>
          (s.latch .pdiFailed (BitVec.ofNat 32 i) status detail
            (hasFlag node.flags flagHaltOnError)).publish inp node.flags i .error status
        | _ =>
          let timeout := if p.timeoutCycles ≠ 0 then p.timeoutCycles else s.defaultPdiTimeout
          (s.latch .pdiTimeout (BitVec.ofNat 32 i) 0 timeout
            (hasFlag node.flags flagHaltOnError)).publish inp node.flags i .timeout 0)
      fun s =>
        if hasFlag node.flags flagHaltOnError then (s, .stop .error)
        else (s.raiseOwn i, .next true)

def activateLoop (s : St) (inp : Input) (i : Nat) (p : Loop) : St × Verdict :=
  let exits := s.toCore.loopExits p
  let s := { s with toCore := s.toCore.countLoop i p }
  if exits then s.complete inp i
  else
    match s.rearm p.bucketClearStart p.bucketClearEnd p.bodyStart p.bodyEnd with
    | none => (s, .hang)
    | some s => (s.setStatus i .done, .next true)

def activateCond (s : St) (inp : Input) (i : Nat) (p : Cond) : St × Verdict :=
  let met := s.toCore.condMet p
  let s := s.note (.test i (s.signals p.conditionSignal.toNat) met)
  if met then
    (s.raise i p.doneBucket.toNat p.doneMask).complete inp i
  else
    match s.rearm p.bucketClearStart p.bucketClearEnd p.bodyStart p.bodyEnd with
    | none => (s, .hang)
    | some s => s.complete inp i

def activateRerun (s : St) (inp : Input) (i : Nat) (p : Rerun) : St × Verdict :=
  let s := s.setStatus p.targetNode.toNat .pending
  let s := if hasFlag p.rerunFlags rerunClearState then
      { s with loopIters := upd s.loopIters p.loopId.toNat 0 } else s
  s.complete inp i

def activateWait (s : St) (inp : Input) (i : Nat) (p : Wait) : St × Verdict :=
  if compare (s.signals p.conditionSignal.toNat) p.conditionOp p.conditionValue then
    s.complete inp i
  else (s.setStatus i .waiting, .next false)

def activateHalt (s : St) (inp : Input) (i : Nat) : St × Verdict :=
  andThen ((s.setStatus i .done).publish inp (s.nodes i).flags i .ok 0) fun s => (s, .stop .halt)

/-- The opcode switch of `activate_nodes`. -/
def activate (s : St) (inp : Input) (i : Nat) : St × Verdict :=
  let s := s.note (.activate i)
  match (s.nodes i).payload with
  | .kernelDispatch kd => s.activateKernel inp i kd
  | .pdiLoad p => s.activatePdi inp i p
  | .loop p => s.activateLoop inp i p
  | .cond p => s.activateCond inp i p
  | .rerun p => s.activateRerun inp i p
  | .wait p => s.activateWait inp i p
  | .halt => s.activateHalt inp i
  | _ => (s.executeImmediate inp i).complete inp i

/-- One iteration of `activate_nodes`. -/
def visit (s : St) (inp : Input) (i : Nat) : St × Verdict :=
  if s.toCore.Eligible i then
    match cqRoom (s.nodes i).flags s.ctrl with
    | .corrupt => (s.latchCorrupt, .stop .error)
    | .full => ({ s with cqBlocked := true }, .next false)
    | .ready => s.activate inp i
  else (s, .next false)

/-! ## Polling -/

/-- How one iteration over the in-flight table ends: keep the entry and go to the next, look at
the entry swapped into its place, or stop. -/
inductive Poll where
  | keep
  | removed
  | stop (result : Stop)
  deriving DecidableEq, Repr

/-- The kernel answered ap_done. -/
def pollDone (s : St) (inp : Input) (i : Nat) (k : Inflight) : St × Poll :=
  let flags := (s.nodes k.nodeIndex).flags
  let s := s.note (.apDone k.nodeIndex k.baseAddr)
  if k.infinite then (s.removeInflight i, .removed)
  else
    let s := s.setStatus k.nodeIndex .done
    let s := s.raise k.nodeIndex k.setBucket.toNat k.setMask
    match s.writeCqEntry inp flags (BitVec.ofNat 32 k.nodeIndex) .ok 0 with
    | (s, .corrupt) => (s, .stop .error)
    | (s, _) => (s.removeInflight i, .removed)

/-- The kernel's deadline passed. A fatal one stays tracked for the quiesce. -/
def pollExpired (s : St) (inp : Input) (i : Nat) (k : Inflight) : St × Poll :=
  let flags := (s.nodes k.nodeIndex).flags
  let s := (s.setStatus k.nodeIndex .error).latch .kernelTimeout (BitVec.ofNat 32 k.nodeIndex)
    k.baseAddr k.timeoutCycles (hasFlag flags flagHaltOnError)
  match s.writeCqEntry inp flags (BitVec.ofNat 32 k.nodeIndex) .timeout k.baseAddr with
  | (s, .corrupt) => (s, .stop .error)
  | (s, _) =>
    if hasFlag flags flagHaltOnError then (s, .stop .error)
    else
      let s := s.raise k.nodeIndex k.setBucket.toNat k.setMask
      (s.removeInflight i, .removed)

/-- One iteration of `check_inflight`. A full ring parks a finite kernel before its sticky
ap_done is read. -/
def checkInflight (s : St) (inp : Input) (i : Nat) (k : Inflight) : St × Poll :=
  match cqRoom (s.nodes k.nodeIndex).flags s.ctrl with
  | .corrupt => (s.latchCorrupt, .stop .error)
  | room =>
    if ¬ k.infinite ∧ room = .full then ({ s with cqBlocked := true }, .keep)
    else
      let s := s.mmioRead inp k.baseAddr
      if inp.mmio k.baseAddr &&& 2 ≠ 0 then s.pollDone inp i k
      else if timeoutElapsed k inp.now then
        if room = .full then ({ s with cqBlocked := true }, .keep)
        else s.pollExpired inp i k
      else (s, .keep)

/-- One iteration of `check_waits`. -/
def checkWait (s : St) (inp : Input) (i : Nat) : St × Verdict :=
  if s.status i = .waiting then
    match cqRoom (s.nodes i).flags s.ctrl with
    | .corrupt => (s.latchCorrupt, .stop .error)
    | .full => ({ s with cqBlocked := true }, .next false)
    | .ready =>
      let p := (s.nodes i).payload.asWait
      if compare (s.signals p.conditionSignal.toNat) p.conditionOp p.conditionValue then
        s.complete inp i
      else (s, .next false)
  else (s, .next false)

/-- Status and completion entry of a kernel that left the table while quiescing; no barrier is
raised. -/
def quiesceReport (s : St) (inp : Input) (flags : U16) (k : Inflight) (st : Status)
    (cst : CqStatus) (detail : U32) : St :=
  match (s.setStatus k.nodeIndex st).writeCqEntry inp flags (BitVec.ofNat 32 k.nodeIndex)
      cst detail with
  | (s, .corrupt) => s.markRecovery
  | (s, _) => s

/-- One iteration of the inner loop of `quiesce_inflight`; `true` when the entry is removed. -/
def quiesce (s : St) (inp : Input) (i : Nat) (k : Inflight) : St × Bool :=
  let flags := (s.nodes k.nodeIndex).flags
  if k.infinite then (s.markRecovery.removeInflight i, true)
  else
    match cqRoom flags s.ctrl with
    | .corrupt => (s.latchCorrupt.markRecovery.removeInflight i, true)
    | .full => (s, false)
    | .ready =>
      let s := s.mmioRead inp k.baseAddr
      if inp.mmio k.baseAddr &&& 2 ≠ 0 then
        let s := s.note (.apDone k.nodeIndex k.baseAddr)
        let s := if s.status k.nodeIndex ≠ .error then
            s.quiesceReport inp flags k .done .ok 0 else s
        (s.removeInflight i, true)
      else if timeoutElapsed k inp.now then
        let s := if s.status k.nodeIndex ≠ .error then
            s.quiesceReport inp flags k .error .timeout k.baseAddr else s
        (s.markRecovery.removeInflight i, true)
      else (s, false)

/-! ## `rp1_loop` -/

def beginPass (s : St) : St :=
  { s with phase := .activate 0, cqBlocked := false, progress := false }

def Settled (s : St) : Prop :=
  ∀ i < s.nodeCount, s.status i ≠ .dispatched ∧ s.status i ≠ .waiting

instance (s : St) : Decidable s.Settled :=
  inferInstanceAs (Decidable (∀ i < s.nodeCount, _))

def fwStep (s : St) (inp : Input) : St :=
  match s.phase with
  | .validate =>
    match s.validateNodes with
    | none => s.beginPass
    | some (bad, detail, aux) =>
      { (s.latch .invalidNode (BitVec.ofNat 32 bad) detail.code aux false).setStatus bad .error with
        phase := .reject (BitVec.ofNat 32 bad) detail.code }
  | .reject bad detail =>
    match s.writeCqEntry inp 0 bad .error detail with
    | (s, .full) => s
    | (s, _) => { s with phase := .stopped .error }
  | .activate i =>
    if i < s.nodeCount then
      match s.visit inp i with
      | (t, .next p) => { t with phase := .activate (i + 1), progress := t.progress || p }
      | (t, .stop r) => { t with phase := .quiesce 0 r }
      | (t, .hang) => { t with phase := .hung }
    else { s with phase := .pollInflight 0 }
  | .pollInflight i =>
    match s.inflight[i]? with
    | some k =>
      match s.checkInflight inp i k with
      | (t, .keep) => { t with phase := .pollInflight (i + 1) }
      | (t, .removed) => { t with phase := .pollInflight i, progress := true }
      | (t, .stop r) => { t with phase := .quiesce 0 r }
    | none => { s with phase := .pollWaits 0 }
  | .pollWaits i =>
    if i < s.nodeCount then
      match s.checkWait inp i with
      | (t, .next p) => { t with phase := .pollWaits (i + 1), progress := t.progress || p }
      | (t, .stop r) => { t with phase := .quiesce 0 r }
      | (t, .hang) => { t with phase := .hung }
    else { s with phase := .passEnd }
  | .passEnd =>
    if ¬ s.progress ∧ ¬ s.cqBlocked ∧ s.Settled then { s with phase := .complete }
    else s.beginPass
  | .quiesce i r =>
    match s.inflight[i]? with
    | some k =>
      match s.quiesce inp i k with
      | (t, true) => { t with phase := .quiesce i r }
      | (t, false) => { t with phase := .quiesce (i + 1) r }
    | none =>
      if s.inflight = [] then { s with phase := .stopped r }
      else { s with phase := .quiesce 0 r }
  | .complete => s
  | .stopped _ => s
  | .hung => s

end St

inductive Act where
  | fw (inp : Input)
  | cqRead (idx : U32)
  | signal (slot : Nat) (value : U32)

def step (s : St) : Act → St
  | .fw inp => s.fwStep inp
  | .cqRead idx => s.release (some idx)
  | .signal slot value => { s with signals := upd s.signals slot value }

/-- The scan of `s` stands at node `i` and will activate it. -/
structure St.Starts (s : St) (i : Nat) : Prop where
  phase : s.phase = .activate i
  lt : i < s.nodeCount
  eligible : s.toCore.Eligible i
  room : cqRoom (s.nodes i).flags s.ctrl = .ready

instance (s : St) (i : Nat) : Decidable (s.Starts i) :=
  decidable_of_iff (s.phase = .activate i ∧ i < s.nodeCount ∧ s.toCore.Eligible i ∧
    cqRoom (s.nodes i).flags s.ctrl = .ready)
    ⟨fun ⟨h1, h2, h3, h4⟩ => ⟨h1, h2, h3, h4⟩, fun h => ⟨h.phase, h.lt, h.eligible, h.room⟩⟩

/-- The node about to be activated, if there is one, satisfies `P`. -/
def St.Next (s : St) (P : Nat → Prop) : Prop :=
  match s.phase with
  | .activate i => s.Starts i → P i
  | _ => True

theorem St.Next.of_starts {s : St} {P : Nat → Prop} {i : Nat} (h : s.Next P) (hi : s.Starts i) :
    P i := by
  rw [St.Next, hi.phase] at h
  exact h hi

instance (s : St) (P : Nat → Prop) [∀ i, Decidable (P i)] : Decidable (s.Next P) :=
  match h : s.phase with
  | .activate i => decidable_of_iff (s.Starts i → P i) (by simp only [St.Next, h])
  | .validate | .reject _ _ | .pollInflight _ | .pollWaits _ | .passEnd | .quiesce _ _
  | .complete | .stopped _ | .hung => isTrue (by simp only [St.Next, h])

/-- The state a graph run starts in: what `rp1_store_init` leaves behind, with nothing recorded
yet. Signals, cursors inside the ring and the active image are whatever they were. -/
structure Start (s : St) : Prop where
  config : s.ctrl.configError = none
  count : s.nodeCount = s.ctrl.nodeCount.toNat
  nodeBase : s.nodeBase = s.ctrl.nodeBaseLo
  cqBase : s.cqBase = s.ctrl.cqBaseLo
  sigBase : s.sigBase = s.ctrl.sigArrayBaseLo
  argBase : s.argBase = s.ctrl.argBufBaseLo
  barriers : s.barriers = fun _ => 0
  status : s.status = fun _ => .pending
  loopIters : s.loopIters = fun _ => 0
  inflight : s.inflight = []
  phase : s.phase = .validate
  log : s.log = []
  appended : s.appended = []
  errors : s.errors = []
  bus : s.bus = []
  overrun : s.overrun = false

/-! ## A concrete start

The stores as they are right after `rp1_store_init` in the default layout, for packets and a ring
size of one's choice. -/

/-- The control block of the default layout. -/
def defaultCtrl (n : Nat) (cqSize : U32) : Ctrl where
  nodeCount := BitVec.ofNat 32 n
  cqSize := cqSize
  nodeBaseLo := ctrlPhysAddr + defaultNodeArrayOffset
  nodeBaseHi := 0
  cqBaseLo := ctrlPhysAddr + defaultCqOffset
  cqBaseHi := 0
  graphSeq := 0
  graphDoneSeq := 0
  cqWriteIdx := 0
  cqReadIdx := 0
  state := .running
  error := ErrorLatch.clear
  argBufBaseLo := ctrlPhysAddr + defaultArgBufOffset
  argBufBaseHi := 0
  sigArrayBaseLo := ctrlPhysAddr + defaultSigArrayOffset
  sigArrayBaseHi := 0
  traceEnable := 0
  traceBaseLo := 0
  traceBaseHi := 0
  traceSize := 0

/-- The firmware about to start on the first `n` of `nodes`. -/
def St.fresh (nodes : Nat → Node) (n : Nat) (cqSize : U32) : St where
  nodes := nodes
  signals := fun _ => 0
  args := fun _ => 0
  nodeCount := (BitVec.ofNat 32 n).toNat
  nodeBase := ctrlPhysAddr + defaultNodeArrayOffset
  cqBase := ctrlPhysAddr + defaultCqOffset
  sigBase := ctrlPhysAddr + defaultSigArrayOffset
  argBase := ctrlPhysAddr + defaultArgBufOffset
  barriers := fun _ => 0
  status := fun _ => .pending
  loopIters := fun _ => 0
  inflight := []
  activeImageId := 0
  graphStartCycles := 0
  defaultKernelTimeout := 1000
  defaultPdiTimeout := 1000
  log := []
  ctrl := defaultCtrl n cqSize
  cq := fun _ => ⟨0, .ok, 0, 0⟩
  cqBlocked := false
  progress := false
  phase := .validate
  appended := []
  errors := []
  bus := []
  overrun := false

theorem St.fresh_start {nodes : Nat → Node} {n : Nat} {cqSize : U32}
    (h : (defaultCtrl n cqSize).configError = none) : Start (St.fresh nodes n cqSize) := by
  constructor <;> first | exact h | rfl

end Slash.Rp1
