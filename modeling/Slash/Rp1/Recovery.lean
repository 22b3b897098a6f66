import Slash.Rp1.Tracking

/-!
# The recovery flag

A graph that ends in ERROR or HALTED with `RP1_ERR_RECOVERY_REQUIRED` clear tells the host that
every kernel it started is known to have stopped. A kernel leaves the in-flight table with its
ap_done seen, or in `quiesce_inflight` with the flag set; two paths do neither. A timeout of a
packet without HALT_ON_ERROR drops the entry and goes on, and an INFINITE kernel whose completion
entry meets corrupt cursors is launched and never entered.
-/

namespace Slash.Rp1

open Lib

/-! ## Launches and observations -/

/-- Every launch of the kernel at `addr` was followed by a read of it with ap_done set. -/
def Observed (log : List Event) (addr : U32) : Prop :=
  ∀ newer i older, log = newer ++ .launch i addr :: older → ∃ j, .apDone j addr ∈ newer

/-- Some launch of the kernel at `addr` was not. -/
def Unobserved (addr : U32) : List Event → Prop
  | [] => False
  | .launch _ a :: log => a = addr ∨ Unobserved addr log
  | .apDone _ a :: log => a ≠ addr ∧ Unobserved addr log
  | _ :: log => Unobserved addr log

instance Unobserved.decidable (addr : U32) : ∀ log, Decidable (Unobserved addr log)
  | [] => isFalse id
  | .launch _ a :: log =>
    have := Unobserved.decidable addr log
    inferInstanceAs (Decidable (a = addr ∨ Unobserved addr log))
  | .apDone _ a :: log =>
    have := Unobserved.decidable addr log
    inferInstanceAs (Decidable (a ≠ addr ∧ Unobserved addr log))
  | .activate _ :: log | .status _ _ :: log | .raise _ _ _ :: log | .capture _ _ _ :: log
  | .loaded _ _ :: log | .test _ _ _ :: log => Unobserved.decidable addr log

theorem unobserved_of_split {addr : U32} {i : Nat} {older : List Event} :
    ∀ {newer : List Event}, (∀ j, Event.apDone j addr ∉ newer) →
      Unobserved addr (newer ++ .launch i addr :: older)
  | [], _ => .inl rfl
  | e :: newer, h => by
    have ih : Unobserved addr (newer ++ .launch i addr :: older) :=
      unobserved_of_split fun j hj => h j (List.mem_cons_of_mem _ hj)
    cases e with
    | launch k a => exact .inr ih
    | apDone k a =>
      refine ⟨?_, ih⟩
      rintro rfl
      exact h k List.mem_cons_self
    | _ => exact ih

theorem observed_iff {log : List Event} {addr : U32} :
    Observed log addr ↔ ¬ Unobserved addr log := by
  refine ⟨fun h hu => ?_, fun h newer i older heq => ?_⟩
  · induction log with
    | nil => exact hu
    | cons e log ih =>
      have htail (he : ∀ j, e ≠ .apDone j addr) : Observed log addr := by
        intro newer i older heq
        obtain ⟨j, hj⟩ := h (e :: newer) i older (by rw [heq]; rfl)
        exact ⟨j, (List.mem_cons.mp hj).resolve_left fun h => he j h.symm⟩
      cases e with
      | launch k a =>
        rcases hu with rfl | hu
        · obtain ⟨j, hj⟩ := h [] k log rfl
          cases hj
        · exact ih (htail (by simp)) hu
      | apDone k a =>
        refine ih (htail fun j hj => ?_) hu.2
        cases hj
        exact hu.1 rfl
      | _ => exact ih (htail (by simp)) hu
  · by_contra hn
    rw [heq] at h
    exact h (unobserved_of_split fun j hj => hn ⟨j, hj⟩)

instance (log : List Event) (addr : U32) : Decidable (Observed log addr) :=
  decidable_of_iff _ observed_iff.symm

/-- What is unobserved after more events was launched in them, or was unobserved before and not
seen in them. -/
theorem Unobserved.of_append {addr : U32} {log : List Event} :
    ∀ {evs : List Event}, Unobserved addr (evs ++ log) →
      (∃ i, Event.launch i addr ∈ evs) ∨ Unobserved addr log ∧ ∀ j, Event.apDone j addr ∉ evs
  | [], h => .inr ⟨h, by simp⟩
  | e :: evs, h => by
    have hstep (hu : Unobserved addr (evs ++ log)) (he : ∀ j, e ≠ .apDone j addr) :
        (∃ i, Event.launch i addr ∈ e :: evs) ∨
          Unobserved addr log ∧ ∀ j, Event.apDone j addr ∉ e :: evs := by
      rcases Unobserved.of_append hu with ⟨i, hi⟩ | ⟨hu, hn⟩
      · exact .inl ⟨i, List.mem_cons_of_mem _ hi⟩
      · refine .inr ⟨hu, fun j hj => ?_⟩
        rcases List.mem_cons.mp hj with hj | hj
        · exact he j hj.symm
        · exact hn j hj
    cases e with
    | launch k a =>
      rcases h with rfl | h
      · exact .inl ⟨k, List.mem_cons_self⟩
      · exact hstep h (by simp)
    | apDone k a =>
      refine hstep h.2 fun j hj => ?_
      cases hj
      exact h.1 rfl
    | _ => exact hstep h (by simp)

/-! ## What the table accounts for -/

/-- Every kernel that is still unobserved is in the table. -/
def Core.Covered (c : Core) : Prop :=
  ∀ a, Unobserved a c.log → ∃ k ∈ c.inflight, k.baseAddr = a

theorem Core.Covered.grow {c c' : Core} (h : c.Covered) (evs : List Event)
    (hlog : c'.log = evs ++ c.log) (hin : ∀ k ∈ c.inflight, k ∈ c'.inflight)
    (hlaunch : ∀ i a, Event.launch i a ∈ evs → ∃ k ∈ c'.inflight, k.baseAddr = a) :
    c'.Covered := by
  intro a ha
  rw [hlog] at ha
  rcases ha.of_append with ⟨i, hi⟩ | ⟨ha, -⟩
  · exact hlaunch i a hi
  · obtain ⟨k, hk, hka⟩ := h a ha
    exact ⟨k, hin k hk, hka⟩

theorem Core.Covered.seen {c c' : Core} (h : c.Covered) {idx : Nat} {k : Inflight}
    (hk : c.inflight[idx]? = some k) (evs : List Event) (hlog : c'.log = evs ++ c.log)
    (hin : c'.inflight = swapRemove c.inflight idx) (hlaunch : ∀ i a, Event.launch i a ∉ evs)
    (hdone : ∃ j, Event.apDone j k.baseAddr ∈ evs) : c'.Covered := by
  intro a ha
  rw [hlog] at ha
  obtain ⟨ha, hnot⟩ := ha.of_append.resolve_left fun ⟨i, hi⟩ => hlaunch i a hi
  obtain ⟨l, hl, rfl⟩ := h a ha
  have hmem := (perm_cons_swapRemove hk).mem_iff.mp hl
  rw [hin]
  rcases List.mem_cons.mp hmem with rfl | hmem
  · obtain ⟨j, hj⟩ := hdone
    exact absurd hj (hnot j)
  · exact ⟨l, hmem, rfl⟩

/-- The payload of a KERNEL_DISPATCH. -/
def Payload.kernel? : Payload → Option KernelDispatch
  | .kernelDispatch kd => some kd
  | _ => none

/-- Activating node `i` now would launch an INFINITE kernel, meet corrupt cursors at its
completion entry, and stop before the kernel is in the table. -/
def St.Drops (s : St) (inp : Input) (i : Nat) : Prop :=
  ∃ kd ∈ (s.nodes i).payload.kernel?, s.toCore.Guarded kd ∧
    s.inflight.length < maxInflight ∧ hasFlag (s.nodes i).flags flagInfinite = true ∧
    cqRoom (s.nodes i).flags (s.release inp.release).ctrl = .corrupt

/-- Polling the kernel `k` now would let its timeout pass: neither done nor fatal. -/
def St.Forgives (s : St) (inp : Input) (k : Inflight) : Prop :=
  cqRoom (s.toCore.flagsOf k) s.ctrl = .ready ∧ ¬ inp.Done k ∧
    St.timeoutElapsed k inp.now = true ∧ hasFlag (s.toCore.flagsOf k) flagHaltOnError = false

section Step

variable {s t : St} {inp : Input} {i : Nat}

/-- What a packet does before it completes launches nothing and sees nothing. -/
theorem Prepared.events {u : St} (hu : Prepared s inp i u) : ∃ evs, u.log = evs ++ s.log ∧
    (∀ j a, Event.launch j a ∉ evs) ∧ ∀ j a, Event.apDone j a ∉ evs := by
  obtain ⟨evs, hlog, hevs, -⟩ := hu.log
  exact ⟨evs, hlog, fun j a h => hevs _ h, fun j a h => hevs _ h⟩

theorem ctrl_of_books {s t : St} (h : t.books = s.books) : t.ctrl = s.ctrl :=
  congrArg (fun b => b.1) h

theorem Turn.covered {v : Verdict} (h : Turn s inp i t v) (hs : s.toCore.Covered)
    (hdrop : ¬ s.Drops inp i) : t.toCore.Covered := by
  have hquiet (evs : List Event) (hlog : t.log = evs ++ s.log) (hin : t.inflight = s.inflight)
      (hevs : ∀ j a, Event.launch j a ∉ evs) : t.toCore.Covered :=
    hs.grow evs hlog (fun k hk => hin ▸ hk) fun j a h => absurd h (hevs j a)
  cases h with
  | @finish u _ _ hu hw =>
    obtain ⟨evs, hlog, hevs, -⟩ := hu.events
    exact hquiet (u.toCore.ownRaise i :: .status i .done :: evs)
      (by simp [hw.toCore, hlog, Core.ownRaise]) (by simp [hw.toCore, hu.inflight])
      (by simp [hevs, Core.ownRaise])
  | iterate p hp hx hu =>
    obtain ⟨evs, hlog, hevs, -⟩ := hu.events
    exact hquiet (.status i .done :: evs) (by simp [hlog]) (by simp [hu.inflight]) (by simp [hevs])
  | park p hp => exact hquiet [.status i .waiting, .activate i] rfl rfl (by simp)
  | launch kd hp hg hlen hf =>
    refine hs.grow [.status i .dispatched, .launch i kd.kernelBaseAddr, .activate i]
      (by simp) ?_ ?_
    · intro k hk
      simp [Core.addInflight, hk]
    · simp [Core.addInflight]
  | launchInfinite kd hp hg hlen hf hw hroom =>
    refine hs.grow [s.toCore.ownRaise i, .status i .done,
      .launch i kd.kernelBaseAddr, .activate i] (by simp [hw.toCore, Core.ownRaise]) ?_ ?_
    · intro k hk
      simp [Core.addInflight, hw.toCore, hk]
    · simp [Core.addInflight, hw.toCore, Core.ownRaise]
  | launchLost kd hp hg hlen hf hw =>
    refine absurd ⟨kd, by rw [hp]; rfl, hg, hlen, hf, ?_⟩ hdrop
    cases hw with
    | corrupt hroom =>
      have hctrl := ctrl_of_books (St.launchKernel_books (s.note (.activate i)) inp i kd)
      simp only [St.release, St.raiseOwn, St.setStatus] at hroom ⊢
      rw [hctrl] at hroom
      exact hroom
  | failStop code detail aux cst cdetail hcode hcst hw hstop =>
    exact hquiet [.status i .error, .activate i] (by rw [hw.toCore]; rfl) (by rw [hw.toCore]; rfl)
      (by simp)
  | failOn code detail aux cst cdetail hcode hcst hw hroom hgo =>
    exact hquiet [s.toCore.ownRaise i, .status i .error, .activate i]
      (by simp [hw.toCore, Core.ownRaise]) (by simp [hw.toCore]) (by simp [Core.ownRaise])
  | halt hw hv =>
    exact hquiet [.status i .done, .activate i] (by rw [hw.toCore]; rfl) (by rw [hw.toCore]; rfl)
      (by simp)
  | hang hu =>
    obtain ⟨evs, hlog, hevs, -⟩ := hu.events
    exact hquiet evs hlog hu.inflight hevs

theorem Check.covered {k : Inflight} {v : St.Poll} (h : Check s inp i k t v)
    (hk : s.inflight[i]? = some k) (hforgive : ¬ s.Forgives inp k) (hs : s.toCore.Covered) :
    t.toCore.Covered := by
  have hquiet (evs : List Event) (hlog : t.log = evs ++ s.log) (hin : t.inflight = s.inflight)
      (hevs : ∀ j a, Event.launch j a ∉ evs) : t.toCore.Covered :=
    hs.grow evs hlog (fun k hk => hin ▸ hk) fun j a h => absurd h (hevs j a)
  cases h with
  | corrupt | blocked | idle => exact hquiet [] rfl rfl (by simp)
  | doneInfinite hinf =>
    exact hs.seen hk [.apDone k.nodeIndex k.baseAddr] rfl rfl (by simp) ⟨_, List.mem_singleton_self _⟩
  | done hfin hready hw hroom =>
    refine hs.seen hk [.raise k.nodeIndex k.setBucket.toNat k.setMask,
      .status k.nodeIndex .done, .apDone k.nodeIndex k.baseAddr] ?_ ?_ (by simp)
      ⟨k.nodeIndex, by simp⟩
    · simp [hw.toCore]; rfl
    · simp [Core.removeInflight, hw.toCore]; rfl
  | doneStop hfin hready hw =>
    refine hquiet [.raise k.nodeIndex k.setBucket.toNat k.setMask,
      .status k.nodeIndex .done, .apDone k.nodeIndex k.baseAddr] ?_ ?_ (by simp)
    · simp [hw.toCore]; rfl
    · simp [hw.toCore]; rfl
  | expireStop hready hw hstop =>
    refine hquiet [.status k.nodeIndex .error] ?_ ?_ (by simp)
    · simp [hw.toCore]; rfl
    · simp [hw.toCore]; rfl
  | expireOn hready hnot hlate hw hroom hgo => exact absurd ⟨hready, hnot, hlate, hgo⟩ hforgive

theorem Waken.covered {v : Verdict} (h : Waken s inp i t v) (hs : s.toCore.Covered) :
    t.toCore.Covered := by
  cases h with
  | idle | blocked | corrupt => exact hs
  | wake hwait hready hw =>
    refine hs.grow [s.toCore.ownRaise i, .status i .done] (by simp [hw.toCore, Core.ownRaise]) ?_ ?_
    · simp [hw.toCore]
    · simp [Core.ownRaise]

theorem Write.recovery {flags : U16} {node : U32} {st : CqStatus} {detail : U32} {room : Room}
    (h : Write s inp flags node st detail t room) :
    t.ctrl.error.recoveryRequired = s.ctrl.error.recoveryRequired := by
  cases h with
  | silent | append | full => rfl
  | corrupt =>
    simp only [St.latchCorrupt, St.latch, ErrorLatch.latch]
    split <;> rfl

/-- A kernel leaves the table quiescent or with the recovery bit set. -/
theorem Drain.covered {k : Inflight} {removed : Bool} (h : Drain s inp i k t removed)
    (hk : s.inflight[i]? = some k) (hs : s.toCore.Covered) :
    t.toCore.Covered ∨ t.ctrl.error.recoveryRequired = true := by
  cases h with
  | keep bus => exact .inl hs
  | infinite | corrupt | expired | expiredReport => exact .inr rfl
  | done =>
    exact .inl (hs.seen hk [.apDone k.nodeIndex k.baseAddr] rfl rfl (by simp)
      ⟨_, List.mem_singleton_self _⟩)
  | @doneReport t room hready hw =>
    left
    have hcore : (t.unlessCorrupt room).toCore = t.toCore := by cases room <;> rfl
    refine hs.seen hk [.status k.nodeIndex .done, .apDone k.nodeIndex k.baseAddr] ?_ ?_ (by simp)
      ⟨k.nodeIndex, by simp⟩
    · simp [hcore, hw.toCore]; rfl
    · simp [Core.removeInflight, hcore, hw.toCore]; rfl

theorem Drain.recovery {k : Inflight} {removed : Bool} (h : Drain s inp i k t removed)
    (hs : s.ctrl.error.recoveryRequired = true) : t.ctrl.error.recoveryRequired = true := by
  cases h with
  | keep bus => exact hs
  | infinite | corrupt | expired | expiredReport => rfl
  | done => exact hs
  | @doneReport t room hready hw =>
    cases room with
    | corrupt => rfl
    | full | ready => exact hw.recovery.trans hs

end Step

/-! ## Whole runs -/

/-- The action about to be taken loses sight of a kernel that has not been seen done. -/
def St.Loses (s : St) : Act → Prop
  | .fw inp =>
    match s.phase with
    | .activate i => s.Starts i ∧ s.Drops inp i
    | .pollInflight idx => ∃ k ∈ s.inflight[idx]?, s.Forgives inp k
    | _ => False
  | _ => False

instance (c : Core) (kd : KernelDispatch) : Decidable (c.Guarded kd) :=
  inferInstanceAs (Decidable (_ ∨ _))

instance (s : St) (inp : Input) (i : Nat) : Decidable (s.Drops inp i) :=
  inferInstanceAs (Decidable (∃ kd ∈ (s.nodes i).payload.kernel?, _))

instance (s : St) (inp : Input) (k : Inflight) : Decidable (s.Forgives inp k) :=
  inferInstanceAs (Decidable (_ ∧ _))

instance (s : St) (a : Act) : Decidable (s.Loses a) :=
  match a, h : s.phase with
  | .fw inp, .activate i => decidable_of_iff (s.Starts i ∧ s.Drops inp i) (by simp [St.Loses, h])
  | .fw inp, .pollInflight idx =>
    decidable_of_iff (∃ k ∈ s.inflight[idx]?, s.Forgives inp k) (by simp [St.Loses, h])
  | .fw _, .validate | .fw _, .reject _ _ | .fw _, .pollWaits _ | .fw _, .passEnd
  | .fw _, .quiesce _ _ | .fw _, .complete | .fw _, .stopped _ | .fw _, .hung =>
    isFalse (by simp [St.Loses, h])
  | .cqRead _, _ | .signal _ _, _ => isFalse id

/-- Unobserved kernels are in the table, or the recovery bit says so; before the first pass and
after the quiesce the table is empty. -/
structure St.Accounted (s : St) : Prop where
  covered : s.toCore.Covered ∨ s.phase.Fatal ∧ s.ctrl.error.recoveryRequired = true
  empty : match s.phase with
    | .validate | .reject _ _ | .stopped _ => s.inflight = []
    | _ => True

theorem Stride.accounted {s t : St} {inp : Input} (h : Stride s inp t)
    (hlose : ¬ s.Loses (.fw inp)) (hs : s.Accounted) : t.Accounted := by
  have hin {p : Phase} (hphase : s.phase = p) (hp : ¬ p.Fatal) : s.toCore.Covered :=
    hs.covered.resolve_right fun h => hp (hphase ▸ h.1)
  have hempty := hs.empty
  cases h with
  | begin hphase | again hphase => exact ⟨.inl (hin hphase id), trivial⟩
  | invalid hphase hbad =>
    rw [hphase] at hempty
    refine ⟨.inl ((hin hphase id).grow [.status _ .error] rfl (fun _ h => h) (by simp)), hempty⟩
  | @reject _ _ t room hphase hw =>
    rw [hphase] at hempty
    have hcov : t.toCore.Covered ∨ t.ctrl.error.recoveryRequired = true := by
      rcases hs.covered with h | h
      · left
        rw [hw.toCore]
        exact h
      · exact .inr (hw.recovery.trans h.2)
    have hnil : t.inflight = [] := by rw [hw.toCore]; exact hempty
    have hphase' : ∀ q : Phase, q = s.phase ∨ q = .stopped .error → q.Fatal ∧ (match q with
        | .validate | .reject _ _ | .stopped _ => t.inflight = []
        | _ => True) := by
      rintro q (rfl | rfl)
      · rw [hphase]
        exact ⟨trivial, hnil⟩
      · exact ⟨trivial, hnil⟩
    have hq := hphase' (if room = .full then s.phase else .stopped .error) (by
      by_cases hr : room = .full <;> simp [hr])
    exact ⟨hcov.imp_right fun h => ⟨hq.1, h⟩, hq.2⟩
  | @visit i t v hphase hi hv =>
    have hcov : t.toCore.Covered := by
      have hold := hin hphase id
      cases hv with
      | idle | blocked | corrupt => exact hold
      | turn he hroom ht =>
        refine ht.covered hold fun hd => hlose ?_
        simp only [St.Loses, hphase]
        exact ⟨⟨hphase, hi, he, hroom⟩, hd⟩
    exact ⟨.inl hcov, by cases v <;> trivial⟩
  | scanned hphase | polled hphase | waited hphase | complete hphase =>
    exact ⟨.inl (hin hphase id), trivial⟩
  | @check i k t v hphase hk hc =>
    refine ⟨.inl (hc.covered hk (fun hf => hlose ?_) (hin hphase id)), by cases v <;> trivial⟩
    simp only [St.Loses, hphase]
    exact ⟨k, hk, hf⟩
  | @wait i t v hphase hi hw => exact ⟨.inl (hw.covered (hin hphase id)), by cases v <;> trivial⟩
  | drain hphase hk hd =>
    refine ⟨?_, trivial⟩
    rcases hs.covered with h | h
    · exact (hd.covered hk h).imp_right fun h => ⟨trivial, h⟩
    · exact .inr ⟨trivial, hd.recovery h.2⟩
  | drained hphase hnil => exact ⟨hs.covered.imp_right fun h => ⟨trivial, h.2⟩, hnil⟩
  | drainAgain hphase => exact ⟨hs.covered.imp_right fun h => ⟨trivial, h.2⟩, trivial⟩
  | ended hphase => exact hs

theorem step_accounted {s : St} (a : Act) (hlose : ¬ s.Loses a) (hs : s.Accounted) :
    (step s a).Accounted := by
  cases a with
  | fw inp => exact (s.fwStep_stride inp).accounted hlose hs
  | cqRead idx => exact ⟨hs.covered, hs.empty⟩
  | signal slot v => exact ⟨hs.covered, hs.empty⟩

/-- A kernel, and a HALT behind it. -/
def haltGraph : Nat → Node
  | 0 => packetAt 1 0 1 someKernel
  | _ => packetAt 1 1 0 .halt

/-- The kernel is launched and then polled until HALT has stopped the graph. -/
def haltActs (polls : Input) : List Act :=
  List.replicate 4 (.fw {}) ++ List.replicate 12 (.fw polls)

end Slash.Rp1
