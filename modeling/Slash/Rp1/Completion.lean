import Slash.Rp1.Strides

/-!
# Natural completion

`rp1_loop` returns 0 at the end of a pass that made no progress, was not blocked by a full
completion queue and left no node DISPATCHED or WAITING. The pass looked at the nodes one after
the other, though, and parking a WAIT counts as no progress, so it takes an argument that
nothing is left to do: what the pass skipped stays not eligible until its end, because the only
change such a pass makes is to park nodes.
-/

namespace Slash.Rp1

open Lib

/-! ## The flags of a pass -/

theorem Write.toCore {s t : St} {inp : Input} {flags : U16} {node : U32} {st : CqStatus}
    {detail : U32} {room : Room} (h : Write s inp flags node st detail t room) :
    t.toCore = s.toCore := by
  cases h <;> rfl

theorem Write.scan {s t : St} {inp : Input} {flags : U16} {node : U32} {st : CqStatus}
    {detail : U32} {room : Room} (h : Write s inp flags node st detail t room) :
    t.scan = s.scan := by
  cases h <;> rfl

theorem Room.verdict_ne (room : Room) : room.verdict ≠ .next false := by
  cases room <;> simp [Room.verdict]

section Turn

variable {s t : St} {inp : Input} {i : Nat} {v : Verdict}

theorem scan_of_books {s t : St} (h : t.books = s.books) : t.scan = s.scan :=
  congrArg (fun b => b.2.2.2.2.1) h

theorem Turn.scan (h : Turn s inp i t v) : t.scan = s.scan := by
  cases h with
  | finish hu hw => exact hw.scan.trans hu.scan
  | iterate p hp hx hu => exact hu.scan
  | park p hp => rfl
  | launch kd => exact scan_of_books (by simp)
  | launchInfinite kd hp hg hlen hf hw hroom => exact hw.scan.trans (scan_of_books (by simp))
  | launchLost kd hp hg hlen hf hw => exact hw.scan.trans (scan_of_books (by simp))
  | failStop code detail aux cst cdetail hcode hcst hw hstop => exact hw.scan
  | failOn code detail aux cst cdetail hcode hcst hw hroom hgo => exact hw.scan
  | halt hw hv => exact hw.scan
  | hang hu => exact hu.scan

/-- Only a WAIT that parks goes on without progress. -/
theorem Turn.parks (h : Turn s inp i t v) (hv : v = .next false) :
    t.toCore = (s.toCore.note (.activate i)).setStatus i .waiting := by
  cases h with
  | finish hu hw => exact absurd hv (Room.verdict_ne _)
  | park p hp => rfl
  | halt hw hv' =>
    rw [hv'] at hv
    split at hv <;> cases hv
  | iterate | launch | launchInfinite | launchLost | failStop | failOn | hang => cases hv

end Turn

/-! ## Nothing left to do -/

/-- What a pass without progress and without a full queue has seen so far: the nodes it passed
are not eligible. At completion that is every node. -/
def St.QuietPass (s : St) : Prop :=
  match s.phase with
  | .activate i =>
    s.progress = false → s.cqBlocked = false → ∀ j < i, ¬ s.toCore.Eligible j
  | .pollInflight _ | .pollWaits _ | .passEnd =>
    s.progress = false → s.cqBlocked = false → ∀ j < s.nodeCount, ¬ s.toCore.Eligible j
  | .complete => s.cqBlocked = false ∧ s.Settled ∧ ∀ j < s.nodeCount, ¬ s.toCore.Eligible j
  | _ => True

/-- Parking node `i` makes no node eligible, `i` least of all. -/
theorem Core.eligible_of_parked {c : Core} {i j : Nat}
    (h : ((c.note (.activate i)).setStatus i .waiting).Eligible j) : j ≠ i ∧ c.Eligible j := by
  obtain ⟨hst, hcov⟩ := h
  have hj : j ≠ i := by
    rintro rfl
    simp [upd_same] at hst
  refine ⟨hj, ?_, hcov⟩
  simpa [upd_ne _ _ hj] using hst

theorem scan_eq {s t : St} (h : t.scan = s.scan) :
    t.progress = s.progress ∧ t.cqBlocked = s.cqBlocked := by
  simpa [St.scan] using h

section Step

variable {s t : St} {inp : Input} {i : Nat}

/-- A visit without progress that did not find the queue full: the node was not eligible or is
parked now. -/
theorem Visited.quiet {v : Verdict} (h : Visited s inp i t v)
    (hgo : ∃ p, v = .next p) (hp : (t.progress || v.progress) = false)
    (hb : t.cqBlocked = false) :
    s.progress = false ∧ s.cqBlocked = false ∧ ¬ t.toCore.Eligible i ∧
      ∀ j, t.toCore.Eligible j → s.toCore.Eligible j := by
  rw [Bool.or_eq_false_iff] at hp
  cases h with
  | idle hn => exact ⟨hp.1, hb, hn, fun j h => h⟩
  | blocked he hroom => cases hb
  | corrupt hroom =>
    obtain ⟨p, hv⟩ := hgo
    cases hv
  | turn he hroom ht =>
    obtain ⟨p, rfl⟩ := hgo
    obtain rfl : p = false := hp.2
    have hcore := ht.parks rfl
    obtain ⟨h1, h2⟩ := scan_eq ht.scan
    rw [hcore]
    exact ⟨h1 ▸ hp.1, h2 ▸ hb, fun h => (Core.eligible_of_parked h).1 rfl,
      fun j h => (Core.eligible_of_parked h).2⟩

theorem Check.quiet {k : Inflight} {v : St.Poll} (h : Check s inp i k t v)
    (hgo : ∀ r, v ≠ .stop r) (hp : (t.progress || v.progress) = false)
    (hb : t.cqBlocked = false) :
    s.progress = false ∧ s.cqBlocked = false ∧ t.toCore = s.toCore := by
  rw [Bool.or_eq_false_iff] at hp
  cases h with
  | corrupt => exact absurd rfl (hgo _)
  | blocked bus hroom => cases hb
  | idle => exact ⟨hp.1, hb, rfl⟩
  | doneStop | expireStop => exact absurd rfl (hgo _)
  | doneInfinite | done | expireOn => cases hp.2

theorem Waken.quiet {v : Verdict} (h : Waken s inp i t v) (hgo : ∃ p, v = .next p)
    (hp : (t.progress || v.progress) = false) (hb : t.cqBlocked = false) :
    s.progress = false ∧ s.cqBlocked = false ∧ t.toCore = s.toCore := by
  rw [Bool.or_eq_false_iff] at hp
  cases h with
  | idle => exact ⟨hp.1, hb, rfl⟩
  | blocked hw hroom => cases hb
  | corrupt hroom =>
    obtain ⟨p, hv⟩ := hgo
    cases hv
  | @wake _ room hwait hready hw =>
    obtain ⟨p, hv⟩ := hgo
    cases room with
    | corrupt => cases hv
    | full | ready => cases hp.2

end Step

theorem Stride.quietPass {s t : St} {inp : Input} (h : Stride s inp t) (hs : s.QuietPass) :
    t.QuietPass := by
  cases h with
  | begin | again => exact fun _ _ j hj => absurd hj (Nat.not_lt_zero j)
  | invalid | drain | drained | drainAgain => trivial
  | @reject bad detail t room hphase hw =>
    cases room with
    | full =>
      simp only [St.QuietPass, if_true, hphase]
    | corrupt | ready => trivial
  | @visit i t v hphase hi hv =>
    simp only [St.QuietPass, hphase] at hs
    cases v with
    | stop | hang => trivial
    | next p =>
      intro hp hb j hj
      obtain ⟨h1, h2, hnot, hold⟩ := hv.quiet ⟨p, rfl⟩ hp hb
      intro he
      rcases Nat.lt_succ_iff_lt_or_eq.mp hj with hj | rfl
      · exact hs h1 h2 j hj (hold j he)
      · exact hnot he
  | scanned hphase hi =>
    simp only [St.QuietPass, hphase] at hs
    exact fun hp hb j hj => hs hp hb j (Nat.lt_of_lt_of_le hj hi)
  | @check i k t v hphase hk hc =>
    simp only [St.QuietPass, hphase] at hs
    have hnext (hgo : ∀ r, v ≠ .stop r) (hp : (t.progress || v.progress) = false)
        (hb : t.cqBlocked = false) : ∀ j < t.nodeCount, ¬ t.toCore.Eligible j := by
      obtain ⟨h1, h2, hcore⟩ := hc.quiet hgo hp hb
      rw [hcore]
      exact hs h1 h2
    cases v with
    | stop r => trivial
    | keep | removed => exact hnext (by simp)
  | polled hphase | waited hphase =>
    simp only [St.QuietPass, hphase] at hs
    exact hs
  | @wait i t v hphase hi hw =>
    simp only [St.QuietPass, hphase] at hs
    cases v with
    | stop | hang => trivial
    | next p =>
      intro hp hb
      obtain ⟨h1, h2, hcore⟩ := hw.quiet ⟨p, rfl⟩ hp hb
      show ∀ j < t.nodeCount, ¬ t.toCore.Eligible j
      rw [hcore]
      exact hs h1 h2
  | complete hphase hprogress hblocked hsettled =>
    simp only [St.QuietPass, hphase] at hs
    exact ⟨hblocked, hsettled, hs hprogress hblocked⟩
  | ended hphase => exact hs

/-- What the host does between two firmware steps is not seen by a pass. -/
theorem step_quietPass {s : St} (a : Act) (hs : s.QuietPass) : (step s a).QuietPass := by
  cases a with
  | fw inp => exact (s.fwStep_stride inp).quietPass hs
  | cqRead idx => exact hs
  | signal slot v => exact hs

/-! ## The queue was not full -/

/-- The step about to be taken would pass over a node, a kernel or a parked WAIT only because
the completion queue is full. -/
def St.FindsFull (s : St) (inp : Input) : Prop :=
  match s.phase with
  | .activate i =>
    i < s.nodeCount ∧ s.toCore.Eligible i ∧ cqRoom (s.nodes i).flags s.ctrl = .full
  | .pollInflight i =>
    ∃ k, s.inflight[i]? = some k ∧ cqRoom (s.toCore.flagsOf k) s.ctrl = .full ∧
      (k.infinite = false ∨ ¬ inp.Done k ∧ timeoutElapsed k inp.now = true)
  | .pollWaits i =>
    i < s.nodeCount ∧ s.status i = .waiting ∧ cqRoom (s.nodes i).flags s.ctrl = .full
  | _ => False

theorem fwStep_blocked {s : St} {inp : Input} (h : s.FindsFull inp) :
    (s.fwStep inp).cqBlocked = true := by
  unfold St.FindsFull at h
  split at h
  · rename_i i hphase
    obtain ⟨hi, he, hroom⟩ := h
    simp [St.fwStep, hphase, hi, St.visit, he, hroom]
  · rename_i i hphase
    obtain ⟨k, hk, hroom, hwhy⟩ := h
    have hflags : (s.nodes k.nodeIndex).flags = s.toCore.flagsOf k := rfl
    simp only [St.fwStep, hphase, hk, St.checkInflight, hflags, hroom]
    rcases hwhy with hfin | ⟨hnot, hlate⟩
    · simp [hfin]
    · cases hinf : k.infinite with
      | false => simp
      | true =>
        have hnot : inp.mmio k.baseAddr &&& 2#32 = 0#32 := by simpa [Input.Done] using hnot
        simp [hnot, hlate]
  · rename_i i hphase
    obtain ⟨hi, hw, hroom⟩ := h
    simp [St.fwStep, hphase, hi, St.checkWait, hw, hroom]
  · exact h.elim

/-- Inside a pass, or at the end of the last one. -/
def Phase.InPass : Phase → Prop
  | .activate _ | .pollInflight _ | .pollWaits _ | .passEnd | .complete => True
  | _ => False

/-- A pass that has not been blocked either starts here or was not blocked before. -/
theorem Stride.unblocked {s t : St} {inp : Input} (h : Stride s inp t) (ht : t.phase.InPass)
    (hb : t.cqBlocked = false) :
    t.phase = .activate 0 ∨ s.phase.InPass ∧ s.cqBlocked = false := by
  cases h with
  | begin | again => exact .inl rfl
  | invalid | drain | drained | drainAgain => exact ht.elim
  | @reject bad detail t room hphase hw =>
    cases room with
    | full => simp only [if_true, hphase, Phase.InPass] at ht
    | corrupt | ready => exact ht.elim
  | @visit i t v hphase hi hv =>
    right
    refine ⟨by rw [hphase]; trivial, ?_⟩
    cases hv with
    | idle => exact hb
    | blocked => cases hb
    | corrupt => exact ht.elim
    | turn he hroom hturn => exact (scan_eq hturn.scan).2 ▸ hb
  | scanned hphase | polled hphase | waited hphase | complete hphase =>
    exact .inr ⟨by rw [hphase]; trivial, hb⟩
  | @check i k t v hphase hk hc =>
    right
    refine ⟨by rw [hphase]; trivial, ?_⟩
    cases hc with
    | blocked => cases hb
    | idle | doneInfinite => exact hb
    | done hfin hready hw | expireOn hready hnot hlate hw => exact (scan_eq hw.scan).2 ▸ hb
    | corrupt | doneStop | expireStop => exact ht.elim
  | @wait i t v hphase hi hw =>
    right
    refine ⟨by rw [hphase]; trivial, ?_⟩
    cases hw with
    | idle => exact hb
    | blocked => cases hb
    | corrupt => exact ht.elim
    | wake hwait hready hw => exact (scan_eq hw.scan).2 ▸ hb
  | ended hphase => exact .inr ⟨ht, hb⟩

def NeverFull (s : St) (acts : List Act) : Prop :=
  Along step (fun t a => ∀ inp, a = .fw inp → ¬ t.FindsFull inp) s acts

/-- An unblocked pass has run since its start without finding the queue full. -/
theorem neverFull_since {s : St} (hs : ¬ s.phase.InPass) (acts : List Act)
    (ht : (runFrom step s acts).phase.InPass) (hb : (runFrom step s acts).cqBlocked = false) :
    ∃ pre post, acts = pre ++ post ∧ (runFrom step s pre).phase = .activate 0 ∧
      NeverFull (runFrom step s pre) post := by
  induction acts using List.reverseRecOn with
  | nil => exact absurd ht hs
  | append_singleton acts a ih =>
    rw [runFrom_append] at ht hb
    have hext (hin : (runFrom step s acts).phase.InPass)
        (hbl : (runFrom step s acts).cqBlocked = false)
        (hfull : ∀ inp, a = .fw inp → ¬ (runFrom step s acts).FindsFull inp) :
        ∃ pre post, acts ++ [a] = pre ++ post ∧ (runFrom step s pre).phase = .activate 0 ∧
          NeverFull (runFrom step s pre) post := by
      obtain ⟨pre, post, rfl, hpre, hnever⟩ := ih hin hbl
      refine ⟨pre, post ++ [a], by rw [List.append_assoc], hpre, hnever.snoc ?_⟩
      rw [← runFrom_append]
      exact hfull
    cases a with
    | cqRead idx => exact hext ht hb (by simp)
    | signal slot v => exact hext ht hb (by simp)
    | fw inp =>
      rcases (St.fwStep_stride _ inp).unblocked ht hb with h0 | ⟨hin, hbl⟩
      · refine ⟨acts ++ [.fw inp], [], by simp, ?_, trivial⟩
        rw [runFrom_append]
        exact h0
      · refine hext hin hbl ?_
        rintro _ ⟨⟩ hfull
        have := fwStep_blocked hfull
        exact absurd (this.symm.trans hb) (by simp)

/-- Nothing is running, parked or eligible. -/
structure St.Quiescent (t : St) : Prop where
  settled : ∀ i < t.nodeCount, t.status i ≠ .dispatched ∧ t.status i ≠ .waiting
  idle : ∀ i < t.nodeCount, t.status i = .pending →
    ¬ Covers (t.barriers (t.nodes i).barrierAwaitBucket.toNat) (t.nodes i).barrierAwaitMask

/-- When `rp1_loop` returns 0 the graph is quiescent, and the last pass never found the
completion queue full. -/
theorem completion_is_quiescence {s : St} (hs : Start s) (acts : List Act)
    (ht : (runFrom step s acts).phase = .complete) :
    (runFrom step s acts).Quiescent ∧
    ∃ pre post, acts = pre ++ post ∧ (runFrom step s pre).phase = .activate 0 ∧
      NeverFull (runFrom step s pre) post := by
  have hstart : ¬ s.phase.InPass := by rw [hs.phase]; exact id
  have hquiet : (runFrom step s acts).QuietPass :=
    runFrom_invariant (fun _ a h => step_quietPass a h) acts
      (by simp only [St.QuietPass, hs.phase])
  simp only [St.QuietPass, ht] at hquiet
  obtain ⟨hblocked, hsettled, hnone⟩ := hquiet
  refine ⟨⟨hsettled, fun i hi hpend hcov => hnone i hi ⟨hpend, hcov⟩⟩, ?_⟩
  exact neverFull_since hstart acts (by rw [ht]; trivial) hblocked

def nopNode : Node where
  flags := 0
  barrierAwaitMask := 0
  barrierSetMask := 1
  barrierAwaitBucket := 0
  barrierSetBucket := 0
  payload := .nop

/-- A graph of one NOP is complete after two passes. -/
theorem nop_completion_is_quiescence :
    (runFrom step (St.fresh (fun _ => nopNode) 1 16) (List.replicate 13 (.fw {}))).Quiescent :=
  (completion_is_quiescence (St.fresh_start (by decide)) _ (by decide +kernel)).1

end Slash.Rp1
