import Slash.Rp1.Scan

/-!
# What a step does to the stores

The scanner's functions interleave three kinds of effect: on the stores (`Core`), on the
completion queue and error latch, and on where the scan stands. The lemmas here cut them apart:
publishing and latching leave `Core` alone.
-/

namespace Slash.Rp1

open Lib

/-! ## Fields after a primitive effect -/

namespace Core

@[simp] theorem note_fields (c : Core) (e : Event) :
    (c.note e).nodes = c.nodes ∧
    (c.note e).nodeCount = c.nodeCount ∧
    (c.note e).signals = c.signals ∧
    (c.note e).barriers = c.barriers ∧
    (c.note e).status = c.status ∧
    (c.note e).loopIters = c.loopIters ∧
    (c.note e).inflight = c.inflight ∧
    (c.note e).log = e :: c.log :=
  ⟨rfl, rfl, rfl, rfl, rfl, rfl, rfl, rfl⟩

@[simp] theorem setStatus_fields (c : Core) (i : Nat) (st : Status) :
    (c.setStatus i st).nodes = c.nodes ∧
    (c.setStatus i st).nodeCount = c.nodeCount ∧
    (c.setStatus i st).signals = c.signals ∧
    (c.setStatus i st).barriers = c.barriers ∧
    (c.setStatus i st).status = upd c.status i st ∧
    (c.setStatus i st).loopIters = c.loopIters ∧
    (c.setStatus i st).inflight = c.inflight ∧
    (c.setStatus i st).log = .status i st :: c.log :=
  ⟨rfl, rfl, rfl, rfl, rfl, rfl, rfl, rfl⟩

@[simp] theorem raise_fields (c : Core) (i b : Nat) (m : U32) :
    (c.raise i b m).nodes = c.nodes ∧
    (c.raise i b m).nodeCount = c.nodeCount ∧
    (c.raise i b m).signals = c.signals ∧
    (c.raise i b m).barriers = upd c.barriers b (c.barriers b ||| m) ∧
    (c.raise i b m).status = c.status ∧
    (c.raise i b m).loopIters = c.loopIters ∧
    (c.raise i b m).inflight = c.inflight ∧
    (c.raise i b m).log = .raise i b m :: c.log :=
  ⟨rfl, rfl, rfl, rfl, rfl, rfl, rfl, rfl⟩

@[simp] theorem addInflight_fields (c : Core) (now : U32) (i : Nat) (kd : KernelDispatch) :
    (c.addInflight now i kd).nodes = c.nodes ∧
    (c.addInflight now i kd).nodeCount = c.nodeCount ∧
    (c.addInflight now i kd).signals = c.signals ∧
    (c.addInflight now i kd).barriers = c.barriers ∧
    (c.addInflight now i kd).status = c.status ∧
    (c.addInflight now i kd).loopIters = c.loopIters ∧
    (c.addInflight now i kd).log = c.log :=
  ⟨rfl, rfl, rfl, rfl, rfl, rfl, rfl⟩

@[simp] theorem removeInflight_fields (c : Core) (idx : Nat) :
    (c.removeInflight idx).nodes = c.nodes ∧
    (c.removeInflight idx).nodeCount = c.nodeCount ∧
    (c.removeInflight idx).signals = c.signals ∧
    (c.removeInflight idx).barriers = c.barriers ∧
    (c.removeInflight idx).status = c.status ∧
    (c.removeInflight idx).loopIters = c.loopIters ∧
    (c.removeInflight idx).log = c.log :=
  ⟨rfl, rfl, rfl, rfl, rfl, rfl, rfl⟩

@[simp] theorem raiseOwn_fields (c : Core) (i : Nat) :
    (c.raiseOwn i).nodes = c.nodes ∧
    (c.raiseOwn i).nodeCount = c.nodeCount ∧
    (c.raiseOwn i).signals = c.signals ∧
    (c.raiseOwn i).status = c.status ∧
    (c.raiseOwn i).loopIters = c.loopIters ∧
    (c.raiseOwn i).inflight = c.inflight ∧
    (c.raiseOwn i).barriers = upd c.barriers (c.nodes i).barrierSetBucket.toNat
      (c.barriers (c.nodes i).barrierSetBucket.toNat ||| (c.nodes i).barrierSetMask) ∧
    (c.raiseOwn i).log =
      .raise i (c.nodes i).barrierSetBucket.toNat (c.nodes i).barrierSetMask :: c.log :=
  ⟨rfl, rfl, rfl, rfl, rfl, rfl, rfl, rfl⟩

/-- The event of raising a packet's own completion bits. -/
def ownRaise (c : Core) (i : Nat) : Event :=
  .raise i (c.nodes i).barrierSetBucket.toNat (c.nodes i).barrierSetMask

end Core

namespace St

variable (s : St)

@[simp] theorem note_toCore (e : Event) : (s.note e).toCore = s.toCore.note e := rfl

@[simp] theorem setStatus_toCore (i : Nat) (st : Status) :
    (s.setStatus i st).toCore = s.toCore.setStatus i st := rfl

@[simp] theorem raise_toCore (i b : Nat) (m : U32) :
    (s.raise i b m).toCore = s.toCore.raise i b m := rfl

@[simp] theorem addInflight_toCore (now : U32) (i : Nat) (kd : KernelDispatch) :
    (s.addInflight now i kd).toCore = s.toCore.addInflight now i kd := rfl

@[simp] theorem raiseOwn_toCore (i : Nat) :
    (s.raiseOwn i).toCore = s.toCore.raiseOwn i := rfl

@[simp] theorem removeInflight_toCore (idx : Nat) :
    (s.removeInflight idx).toCore = s.toCore.removeInflight idx := rfl

@[simp] theorem latch_toCore (code : Err) (node detail aux : U32) (halt : Bool) :
    (s.latch code node detail aux halt).toCore = s.toCore := rfl

@[simp] theorem markRecovery_toCore : s.markRecovery.toCore = s.toCore := rfl

@[simp] theorem latchCorrupt_toCore : s.latchCorrupt.toCore = s.toCore := rfl

@[simp] theorem mmioRead_toCore (inp : Input) (addr : U32) :
    (s.mmioRead inp addr).toCore = s.toCore := rfl

@[simp] theorem mmioWrite_toCore (addr value : U32) :
    (s.mmioWrite addr value).toCore = s.toCore := rfl

@[simp] theorem release_toCore (r : Option U32) : (s.release r).toCore = s.toCore := rfl

@[simp] theorem appendCq_toCore (e : CqEntry) : (s.appendCq e).toCore = s.toCore := rfl

theorem foldl_mmioWrite_toCore {α : Type} (addr value : α → U32) :
    ∀ (l : List α) (s : St),
      (l.foldl (fun s p => s.mmioWrite (addr p) (value p)) s).toCore = s.toCore
  | [], _ => rfl
  | p :: l, s => by
    rw [List.foldl_cons, foldl_mmioWrite_toCore addr value l, mmioWrite_toCore]

@[simp] theorem launchKernel_toCore (inp : Input) (i : Nat) (kd : KernelDispatch) :
    (s.launchKernel inp i kd).toCore = s.toCore.note (.launch i kd.kernelBaseAddr) := by
  simp only [launchKernel, note_toCore, mmioWrite_toCore,
    foldl_mmioWrite_toCore (fun p : U32 × U32 => kd.kernelBaseAddr + p.1) (fun p => p.2),
    mmioRead_toCore]

end St

/-! ## Scan flags

No effect of a packet touches `progress` or `cqBlocked`; the scan loops do. -/

/-- The two flags `rp1_loop` decides completion from. -/
def St.scan (s : St) : Bool × Bool := (s.progress, s.cqBlocked)

namespace St

end St

/-! ## Plain packets

The packets a host lowering emits: kernels and PDI loads are fatal on error and finite, a COND
has no body of its own, a RERUN keeps the loop counter, a LOOP's ranges end before the counters
do, and nothing else than the scalar, signal, wait and control opcodes occurs. -/

namespace St

variable {s : St} {inp : Input} {i : Nat}

end St

end Slash.Rp1
