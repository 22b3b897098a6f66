import Slash.Rp1.Recovery

/-!
# The outer loop

`rp1_run`: start-up publication, then for ever idle, accept one graph, run the scanner on it,
publish its result. `Fw` is the firmware with the shared window; one `.fw` action is one pass of
the idle loop, one of the phases of an accepted graph, or one scanner step. Between any two of
them the host may store to the control words it owns, to the node array, the argument buffer and
the signals.

The trace ring, the heartbeat, `rp1_current_node` and the fixed words published at start-up
(magic, version, capabilities, platform id) are left out.
-/

namespace Slash.Rp1

open Lib

inductive Outer where
  /-- the top of the loop -/
  | idle
  /-- the sequences differ -/
  | accept
  /-- `accepted_seq` is read, RUNNING is published, `rp1_store_init` comes next -/
  | enter (seq : U32)
  /-- inside `rp1_loop` -/
  | scan (seq : U32)
  /-- the result is known, the state is not published -/
  | publish (seq : U32) (result : Option Stop)
  /-- the state is published, `graph_done_seq` is not -/
  | finish (seq : U32)
  deriving DecidableEq, Repr

/-- The firmware and the shared window; `past` is what earlier graphs did, newest first. -/
structure Fw where
  st : St
  outer : Outer
  past : List Event

/-- The state word published for a result of `rp1_loop`. -/
def terminalState : Option Stop → FwState
  | some .error => .error
  | some .halt => .halted
  | none => .ready

/-- Phase 1 of an accepted graph up to `rp1_store_init`, with an empty history. -/
def St.accepted (s : St) : St :=
  { s with
    ctrl := { s.ctrl with error := ErrorLatch.clear, state := .running }
    log := []
    appended := []
    errors := []
    bus := []
    overrun := false }

namespace Fw

def advance (f : Fw) (inp : Input) : Fw :=
  match f.outer with
  | .idle =>
    if f.st.ctrl.state = .error ∨ f.st.ctrl.state = .halted then f
    else if f.st.ctrl.graphSeq = f.st.ctrl.graphDoneSeq then f
    else { f with outer := .accept }
  | .accept =>
    { st := f.st.accepted, outer := .enter f.st.ctrl.graphSeq, past := f.st.log ++ f.past }
  | .enter seq =>
    match storeInit f.st with
    | .error (detail, aux) =>
      { f with
        st := f.st.latch .invalidConfig terminalErrorNodeNone detail.code aux false
        outer := .publish seq (some .error) }
    | .ok s => { f with st := { s with graphStartCycles := inp.now }, outer := .scan seq }
  | .scan seq =>
    match f.st.phase with
    | .complete => { f with outer := .publish seq none }
    | .stopped r => { f with outer := .publish seq (some r) }
    | _ => { f with st := f.st.fwStep inp }
  | .publish seq result =>
    { f with
      st := { f.st with ctrl := { f.st.ctrl with state := terminalState result } }
      outer := .finish seq }
  | .finish seq =>
    { f with
      st := { f.st with ctrl := { f.st.ctrl with graphDoneSeq := seq } }
      outer := .idle }

end Fw

/-- The control words the host owns. -/
inductive HostWord where
  | nodeCount | cqSize | nodeBaseLo | nodeBaseHi | cqBaseLo | cqBaseHi | graphSeq | cqReadIdx
  | argBufBaseLo | argBufBaseHi | sigArrayBaseLo | sigArrayBaseHi
  | traceEnable | traceBaseLo | traceBaseHi | traceSize
  deriving DecidableEq, Repr

def HostWord.offset : HostWord → U32
  | nodeCount => 0x08 | cqSize => 0x0C | nodeBaseLo => 0x10 | nodeBaseHi => 0x14
  | cqBaseLo => 0x18 | cqBaseHi => 0x1C | graphSeq => 0x20 | cqReadIdx => 0x2C
  | argBufBaseLo => 0x40 | argBufBaseHi => 0x44 | sigArrayBaseLo => 0x48
  | sigArrayBaseHi => 0x4C | traceEnable => 0x50 | traceBaseLo => 0x54
  | traceBaseHi => 0x58 | traceSize => 0x5C

inductive FwAct where
  | fw (inp : Input)
  | word (w : HostWord) (value : U32)
  | node (i : Nat) (n : Node)
  | arg (k : Nat) (value : U32)
  | signal (slot : Nat) (value : U32)

def Fw.step (f : Fw) : FwAct → Fw
  | .fw inp => f.advance inp
  | .word w v => { f with st := { f.st with ctrl := f.st.ctrl.poke w.offset v } }
  | .node i n => { f with st := { f.st with nodes := upd f.st.nodes i n } }
  | .arg k v => { f with st := { f.st with args := upd f.st.args k v } }
  | .signal slot v => { f with st := { f.st with signals := upd f.st.signals slot v } }

/-- The start-up publication of `rp1_run`. `graph_seq`, `cq_read_idx` and the configuration words
are what an earlier session left in DDR. -/
def Ctrl.startUp (c : Ctrl) : Ctrl :=
  { c with
    error := ErrorLatch.clear
    graphDoneSeq := 0
    cqWriteIdx := 0
    state := .ready }

/-- The firmware right after its start-up publication, over whatever the window holds: BTCM is
zeroed at boot. -/
def Fw.boot (s : St) : Fw where
  st := { s with
    ctrl := s.ctrl.startUp
    nodeCount := 0
    barriers := fun _ => 0
    status := fun _ => .pending
    loopIters := fun _ => 0
    inflight := []
    activeImageId := 0
    log := []
    appended := []
    errors := []
    bus := []
    overrun := false
    phase := .complete }
  outer := .idle
  past := []

/-! ## Nothing to replay

Start-up clears `graph_done_seq` and leaves `graph_seq` alone, so the outer loop finds the two
different whenever the earlier session had published a graph, and takes what DDR still holds for
a new one. -/

/-- The host stores to `graph_seq`. -/
def FwAct.RingsDoorbell : FwAct → Prop
  | .word .graphSeq _ => True
  | _ => False

/-- The scanner is running a graph. -/
def Fw.Scans (f : Fw) : Prop := ∃ seq, f.outer = .scan seq

/-- What the outer loop idles on until the doorbell rings. -/
def Fw.Unrung (f : Fw) : Prop :=
  f.outer = .idle ∧ f.st.ctrl.graphSeq = f.st.ctrl.graphDoneSeq

theorem Fw.Unrung.step {f : Fw} {a : FwAct} (ha : ¬ a.RingsDoorbell) (h : f.Unrung) :
    (f.step a).Unrung := by
  obtain ⟨hidle, hseq⟩ := h
  cases a with
  | fw inp =>
    -- either test of the idle loop keeps it idle
    simp only [Fw.step, Fw.advance, hidle, hseq, if_true]
    split <;> exact ⟨hidle, hseq⟩
  | word w v =>
    refine ⟨hidle, ?_⟩
    cases w with
    | graphSeq => exact absurd trivial ha
    | _ => exact hseq
  | node i n => exact ⟨hidle, hseq⟩
  | arg k v => exact ⟨hidle, hseq⟩
  | signal slot v => exact ⟨hidle, hseq⟩

theorem Fw.Unrung.run {f : Fw} {acts : List FwAct} (hacts : ∀ a ∈ acts, ¬ a.RingsDoorbell)
    (h : f.Unrung) : (runFrom Fw.step f acts).Unrung := by
  induction acts generalizing f with
  | nil => exact h
  | cons a acts ih =>
    have hstep := h.step (hacts a List.mem_cons_self)
    exact ih (fun b hb => hacts b (List.mem_cons_of_mem _ hb)) hstep

/-- The configuration of the default layout for one packet, the doorbell not among it. -/
def configureOne : List FwAct :=
  [.word .nodeCount 1, .word .cqSize 16, .word .cqReadIdx 0,
    .word .nodeBaseLo (ctrlPhysAddr + defaultNodeArrayOffset), .word .nodeBaseHi 0,
    .word .cqBaseLo (ctrlPhysAddr + defaultCqOffset), .word .cqBaseHi 0,
    .word .argBufBaseLo (ctrlPhysAddr + defaultArgBufOffset), .word .argBufBaseHi 0,
    .word .sigArrayBaseLo (ctrlPhysAddr + defaultSigArrayOffset), .word .sigArrayBaseHi 0,
    .word .traceEnable 0]

/-- Whatever DDR holds, a configuration and three passes of the outer loop start the scanner on
a stale sequence. -/
theorem scans_after_configuring (s : St) (hseq : s.ctrl.graphSeq ≠ 0) :
    (runFrom Fw.step (Fw.boot s)
      (configureOne ++ [.fw {}, .fw {}, .fw {}])).outer = .scan s.ctrl.graphSeq := by
  rw [runFrom_append]
  have hconf : ∃ f : Fw, runFrom Fw.step (Fw.boot s) configureOne = f ∧ f.outer = .idle ∧
      f.st.ctrl.state = .ready ∧ f.st.ctrl.graphSeq = s.ctrl.graphSeq ∧
      f.st.ctrl.graphDoneSeq = 0 ∧
      f.st.accepted.ctrl.configError = (defaultCtrl 1 16).configError :=
    ⟨_, rfl, rfl, rfl, rfl, rfl, rfl⟩
  obtain ⟨f, hf, hidle, hstate, hgraph, hdone, hok⟩ := hconf
  rw [show (defaultCtrl 1 16).configError = none by decide] at hok
  have haccept : f.step (.fw {}) = { f with outer := .accept } := by
    have hne : f.st.ctrl.graphSeq ≠ f.st.ctrl.graphDoneSeq := by
      rw [hgraph, hdone]
      exact hseq
    simp [Fw.step, Fw.advance, hidle, hstate, hne]
  rw [hf, runFrom_cons, haccept, ← hgraph]
  simp [Fw.step, Fw.advance, storeInit, hok]

/-- After a restart no graph runs before the doorbell, exactly when the earlier session left
`graph_seq` zero. -/
theorem restart_replays_nothing_iff (s : St) :
    (∀ acts : List FwAct, (∀ a ∈ acts, ¬ a.RingsDoorbell) →
      ¬ (runFrom Fw.step (Fw.boot s) acts).Scans) ↔ s.ctrl.graphSeq = 0 := by
  constructor
  · intro h
    by_contra hseq
    have hquiet : ∀ a ∈ configureOne ++ [.fw {}, .fw {}, .fw {}], ¬ FwAct.RingsDoorbell a := by
      simp [configureOne, FwAct.RingsDoorbell]
    exact h _ hquiet ⟨_, scans_after_configuring s hseq⟩
  · rintro hseq acts hacts ⟨seq, hscan⟩
    have hidle : (runFrom Fw.step (Fw.boot s) acts).Unrung :=
      Fw.Unrung.run hacts ⟨rfl, hseq⟩
    rw [hidle.1] at hscan
    cases hscan

/-- What an earlier session left: one kernel staged, and the sequence 5 it was published under. -/
def staleStart : St :=
  { St.fresh (fun _ => packetAt 1 0 1 someKernel) 1 16 with
    ctrl := { defaultCtrl 1 16 with graphSeq := 5 } }

/-- The kernel runs again without a single store of the host. -/
theorem restart_launches_stale_kernel :
    ∃ (s : St) (acts : List FwAct), (∀ a ∈ acts, ∃ inp, a = .fw inp) ∧
      ∃ i addr, Event.launch i addr ∈ (runFrom Fw.step (Fw.boot s) acts).st.log := by
  refine ⟨staleStart, List.replicate 5 (.fw {}), fun a ha => ?_, 0, 0x80000000, ?_⟩
  · exact ⟨{}, List.eq_of_mem_replicate ha⟩
  · decide +kernel

end Slash.Rp1
