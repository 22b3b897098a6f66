import Slash.Rp1.Words

/-!
# The firmware's stores

`St` is everything one graph run of the firmware reads or writes: the shared window (control
block, node array, completion queue, signal array, argument buffer), the BTCM stores of
`rp1_store.c`, and where `rp1_loop` stands. `Core` is the part packets act on; publishing a
completion entry or latching an error never touches it, so most proofs are about `Core` alone.
Five fields are history only, read by no function here: `log`, `appended` and `errors` record
what the run did, newest first, `bus` the register accesses, `overrun` a completion entry that
found the ring full.

`storeInit` is `rp1_store_init`. The shared arrays are distinct objects: the control blocks
this models are those whose regions do not overlap (`Ctrl.RegionsDisjoint`), which
`rp1_store_init` itself does not check.
-/

namespace Slash.Rp1

open Lib

/-- The negative results of the scanner: −1 for an error, −2 for a HALT packet. -/
inductive Stop where
  | error | halt
  deriving DecidableEq, Repr

/-- Where `rp1_loop` stands. -/
inductive Phase where
  /-- before `validate_nodes` -/
  | validate
  /-- publishing the forced error entry of a rejected packet -/
  | reject (node : U32) (detail : U32)
  /-- `activate_nodes` about to look at node `i` -/
  | activate (i : Nat)
  /-- `check_inflight` about to look at table entry `i` -/
  | pollInflight (i : Nat)
  /-- `check_waits` about to look at node `i` -/
  | pollWaits (i : Nat)
  /-- the completion test at the end of a pass -/
  | passEnd
  /-- `quiesce_inflight` at table entry `i`, to return `result` -/
  | quiesce (i : Nat) (result : Stop)
  /-- returned 0: the graph is complete -/
  | complete
  /-- returned −1 or −2 -/
  | stopped (result : Stop)
  /-- inside a range loop whose counter wraps -/
  | hung
  deriving DecidableEq, Repr

/-- What a run did, as far as its statements need it. -/
inductive Event where
  /-- a node passed its status, barrier and CQ tests -/
  | activate (i : Nat)
  /-- `set_node_status` -/
  | status (i : Nat) (st : Status)
  /-- node `i` or'ed a mask into a barrier bucket -/
  | raise (i : Nat) (bucket : Nat) (mask : U32)
  /-- `launch_kernel` for node `i`, the kernel at `addr` -/
  | launch (i : Nat) (addr : U32)
  /-- the kernel at `addr` was read with ap_done set, on behalf of node `i` -/
  | apDone (i : Nat) (addr : U32)
  /-- SCALAR_READ `i` stored a register value into a signal slot -/
  | capture (i : Nat) (slot : Nat) (value : U32)
  /-- PDI_LOAD `i` installed an image -/
  | loaded (i : Nat) (image : U32)
  /-- LOOP or COND `i` evaluated its condition on `value` -/
  | test (i : Nat) (value : U32) (met : Bool)
  deriving DecidableEq, Repr

/-- A call of `rp1_latch_error`, with HALT_ON_ERROR of the packet it is about and the number of
events recorded before it. -/
structure ErrorEvent where
  code : Err
  node : U32
  detail : U32
  aux : U32
  halt : Bool
  stamp : Nat
  deriving DecidableEq, Repr

inductive BusOp where
  | read (addr value : U32)
  | write (addr value : U32)
  deriving DecidableEq, Repr

/-- The stores a packet's effect lives in, apart from the completion queue. -/
structure Core where
  nodes : Nat → Node
  signals : Nat → U32
  args : Nat → U32
  /-- the count `rp1_loop` read at entry -/
  nodeCount : Nat
  /-- the pointers `rp1_store_init` resolved -/
  nodeBase : U32
  cqBase : U32
  sigBase : U32
  argBase : U32
  barriers : Nat → U32
  status : Nat → Status
  loopIters : Nat → U32
  inflight : List Inflight
  activeImageId : U32
  graphStartCycles : U32
  /-- `RP1_DEFAULT_KERNEL_TIMEOUT_TICKS`, from generated platform metadata -/
  defaultKernelTimeout : U32
  /-- `RP1_DEFAULT_PDI_TIMEOUT_TICKS`, from generated platform metadata -/
  defaultPdiTimeout : U32
  log : List Event

/-- A graph run: the stores, the control block with the completion queue, and where the scan
stands. -/
structure St extends Core where
  ctrl : Ctrl
  cq : Nat → CqEntry
  cqBlocked : Bool
  progress : Bool
  phase : Phase
  appended : List CqEntry
  errors : List ErrorEvent
  bus : List BusOp
  overrun : Bool

/-! ## Configuration checks -/

def isPowerOfTwo (v : U32) : Bool := v != 0 && v &&& (v - 1) == 0

def validWindowRange (lo hi size alignment : U32) : Bool :=
  if hi ≠ 0 ∨ lo < ctrlPhysAddr ∨ size > ctrlWindowSize then false
  else if alignment ≠ 0 ∧ lo &&& (alignment - 1) ≠ 0 then false
  else lo - ctrlPhysAddr ≤ ctrlWindowSize - size

/-- The checks of `rp1_store_init`, in order: the first that fails, with its aux word. -/
def Ctrl.configError (c : Ctrl) : Option (ConfigDetail × U32) :=
  if c.nodeCount = 0 ∨ c.nodeCount > BitVec.ofNat 32 maxNodes then
    some (.nodeCount, c.nodeCount)
  else if ¬ validWindowRange c.nodeBaseLo c.nodeBaseHi (c.nodeCount * 64) 64 then
    some (.nodeBase, c.nodeBaseLo)
  else if ¬ isPowerOfTwo c.cqSize ∨ c.cqSize > BitVec.ofNat 32 maxCqEntries then
    some (.cqSize, c.cqSize)
  else if ¬ validWindowRange c.cqBaseLo c.cqBaseHi (c.cqSize * 16) 16 then
    some (.cqBase, c.cqBaseLo)
  else if c.cqWriteIdx - c.cqReadIdx > c.cqSize then
    some (.cqCursors, c.cqWriteIdx - c.cqReadIdx)
  else if ¬ validWindowRange c.argBufBaseLo c.argBufBaseHi 4 4 then
    some (.argBase, c.argBufBaseLo)
  else if ¬ validWindowRange c.sigArrayBaseLo c.sigArrayBaseHi
      (BitVec.ofNat 32 maxSignals * 16) 16 then
    some (.signalBase, c.sigArrayBaseLo)
  else if c.traceEnable ≠ 0 ∧ (¬ isPowerOfTwo c.traceSize ∨
      c.traceSize > BitVec.ofNat 32 maxTraceEntries ∨
      ¬ validWindowRange c.traceBaseLo c.traceBaseHi (c.traceSize * 16) 16) then
    some (.trace, c.traceSize)
  else none

/-- `rp1_store_init`: resolve the pointers and reset the per-graph stores; the active image
survives. -/
def storeInit (s : St) : Except (ConfigDetail × U32) St :=
  match s.ctrl.configError with
  | some e => .error e
  | none => .ok { s with
      nodeCount := s.ctrl.nodeCount.toNat
      nodeBase := s.ctrl.nodeBaseLo
      cqBase := s.ctrl.cqBaseLo
      sigBase := s.ctrl.sigArrayBaseLo
      argBase := s.ctrl.argBufBaseLo
      barriers := fun _ => 0
      status := fun _ => .pending
      loopIters := fun _ => 0
      inflight := []
      phase := .validate }

end Slash.Rp1
