import Slash.Rp1.Outer

/-!
# The error latch

`rp1_latch_error` keeps the first base error of a graph; later ones leave node, detail and aux
alone, and `rp1_mark_recovery_required` only adds a bit. `Reports` says what a part of a step adds
to the event history and to the error history, and that the latch goes along; the parts of a step
are put together with `Reports.trans`.

The latch lives in the control block, which a DMA packet can store to like any other word of DDR.
What is said here of the published record therefore needs that no DMA packet stores to it.
-/

namespace Slash.Rp1

open Lib List

/-! ## Records -/

/-- Base code, node, detail and aux, as the control block publishes them. -/
def ErrorLatch.record (l : ErrorLatch) : Option Err × U32 × U32 × U32 :=
  (l.code, l.node, l.detail, l.aux)

def ErrorEvent.record (e : ErrorEvent) : Option Err × U32 × U32 × U32 :=
  (some e.code, e.node, e.detail, e.aux)

/-- The record of the first of the error events, newest first in the list; that of a cleared latch
when there is none. -/
def firstRecord (errors : List ErrorEvent) : Option Err × U32 × U32 × U32 :=
  errors.getLast?.elim ErrorLatch.clear.record ErrorEvent.record

def ErrorEvent.Fatal (e : ErrorEvent) : Prop :=
  e.halt = true ∨ e.code = .inflightFull ∨ e.code = .cqCorrupt ∨ e.code = .invalidNode ∨
    e.code = .invalidConfig

/-- A node is activated, a kernel launched or a barrier bit raised. -/
def Event.Works : Event → Prop
  | .activate _ | .launch _ _ | .raise _ _ _ => True
  | _ => False

def eventsSince (stamp : Nat) (log : List Event) : List Event := log.take (log.length - stamp)

theorem eventsSince_append {stamp : Nat} {log : List Event} (evs : List Event)
    (h : stamp ≤ log.length) : eventsSince stamp (evs ++ log) = evs ++ eventsSince stamp log := by
  have hlen : (evs ++ log).length - stamp = evs.length + (log.length - stamp) := by
    rw [length_append]
    omega
  rw [eventsSince, hlen, take_length_add_append]
  rfl

theorem eventsSince_length (log : List Event) : eventsSince log.length log = [] := by
  simp [eventsSince]

theorem firstRecord_append {es errors : List ErrorEvent} (h : errors ≠ []) :
    firstRecord (es ++ errors) = firstRecord errors := by
  rw [firstRecord, firstRecord, List.getLast?_append_of_ne_nil _ h]

/-- The control block publishes the first error. -/
def St.Recorded (s : St) : Prop := s.ctrl.error.record = firstRecord s.errors

theorem St.Recorded.code_none_iff {s : St} (h : s.Recorded) :
    s.ctrl.error.code = none ↔ s.errors = [] := by
  have hcode : s.ctrl.error.code = (firstRecord s.errors).1 := congrArg Prod.fst h
  rw [hcode]
  cases hl : s.errors.getLast? with
  | none => simp [firstRecord, List.getLast?_eq_none_iff.mp hl, ErrorLatch.record,
      ErrorLatch.clear]
  | some e =>
    have hne : s.errors ≠ [] := by
      rintro hnil
      rw [hnil] at hl
      cases hl
    simp [firstRecord, hl, hne, ErrorEvent.record]

theorem St.Recorded.latch {s : St} (h : s.Recorded) (code : Err) (node detail aux : U32)
    (halt : Bool) : (s.latch code node detail aux halt).Recorded := by
  have hcode := h.code_none_iff
  simp only [St.Recorded, St.latch, ErrorLatch.latch]
  cases hc : s.ctrl.error.code with
  | none =>
    rw [hcode.mp hc]
    rfl
  | some c =>
    have hne : s.errors ≠ [] := fun hnil => by simp [hcode.mpr hnil] at hc
    rw [if_pos (Option.isSome_some), h]
    have happ (e : ErrorEvent) : firstRecord ([e] ++ s.errors) = firstRecord s.errors :=
      firstRecord_append hne
    exact (happ _).symm

/-! ## What a part of a step reports -/

/-- From `s` to `t` the events `evs` and the errors `es` are added; the latch follows the errors,
the recovery bit is never cleared, and after a fatal error no work is done. -/
structure Reports (s t : St) (evs : List Event) (es : List ErrorEvent) : Prop where
  log : t.log = evs ++ s.log
  errors : t.errors = es ++ s.errors
  stamped : ∀ e ∈ es, e.stamp ≤ t.log.length
  clean : ∀ e ∈ es, e.Fatal → ∀ ev ∈ eventsSince e.stamp t.log, ¬ ev.Works
  record : s.Recorded → t.Recorded
  recovery : s.ctrl.error.recoveryRequired = true → t.ctrl.error.recoveryRequired = true
  state : t.ctrl.state = s.ctrl.state

namespace Reports

variable {s t u : St} {evs evs' : List Event} {es es' : List ErrorEvent}

theorem quiet (hlog : t.log = evs ++ s.log) (herrors : t.errors = s.errors)
    (herror : t.ctrl.error = s.ctrl.error) (hstate : t.ctrl.state = s.ctrl.state) :
    Reports s t evs [] where
  log := hlog
  errors := herrors
  stamped := by simp
  clean := by simp
  record := by
    intro h
    rw [St.Recorded, herror, herrors]
    exact h
  recovery := by
    rw [herror]
    exact id
  state := hstate

theorem of_books (hlog : t.log = evs ++ s.log) (hbooks : t.books = s.books) :
    Reports s t evs [] := by
  have hctrl := ctrl_of_books hbooks
  exact quiet hlog (congrArg (fun b => b.2.2.1) hbooks) (by rw [hctrl]) (by rw [hctrl])

theorem trans (h₁ : Reports s t evs es) (h₂ : Reports t u evs' es')
    (hquiet : ∀ e ∈ es, e.Fatal → ∀ ev ∈ evs', ¬ ev.Works) :
    Reports s u (evs' ++ evs) (es' ++ es) where
  log := by rw [h₂.log, h₁.log, append_assoc]
  errors := by rw [h₂.errors, h₁.errors, append_assoc]
  stamped := by
    intro e he
    rcases mem_append.mp he with he | he
    · exact h₂.stamped e he
    · have hle := h₁.stamped e he
      rw [h₂.log, length_append]
      omega
  clean := by
    intro e he hf ev hev
    rcases mem_append.mp he with he | he
    · exact h₂.clean e he hf ev hev
    · rw [h₂.log, eventsSince_append _ (h₁.stamped e he)] at hev
      rcases mem_append.mp hev with hev | hev
      · exact hquiet e he hf ev hev
      · exact h₁.clean e he hf ev hev
  record := h₂.record ∘ h₁.record
  recovery := h₂.recovery ∘ h₁.recovery
  state := h₂.state.trans h₁.state

theorem after_quiet (h₁ : Reports s t evs []) (h₂ : Reports t u evs' es') :
    Reports s u (evs' ++ evs) es' := by
  have h := h₁.trans h₂ (by simp)
  rwa [append_nil] at h

theorem then_still (h₁ : Reports s t evs es) (h₂ : Reports t u [] es') :
    Reports s u evs (es' ++ es) :=
  h₁.trans h₂ (by simp)

end Reports

theorem latch_reports (s : St) (code : Err) (node detail aux : U32) (halt : Bool) :
    Reports s (s.latch code node detail aux halt) []
      [⟨code, node, detail, aux, halt, s.log.length⟩] where
  log := rfl
  errors := rfl
  stamped := by simp [St.latch]
  clean := by
    intro e he hf
    rw [mem_singleton.mp he]
    simp [St.latch, eventsSince_length]
  record := fun h => h.latch code node detail aux halt
  recovery := by
    intro h
    simp only [St.latch, ErrorLatch.latch]
    split <;> exact h
  state := rfl

theorem markRecovery_reports (s : St) : Reports s s.markRecovery [] [] where
  log := rfl
  errors := rfl
  stamped := by simp
  clean := by simp
  record := id
  recovery := fun _ => rfl
  state := rfl

theorem release_reports (s : St) (r : Option U32) : Reports s (s.release r) [] [] :=
  .quiet rfl rfl rfl rfl

/-- A completion entry reports an error exactly when the cursors are corrupt. -/
theorem Write.reports {s t : St} {inp : Input} {flags : U16} {node : U32} {st : CqStatus}
    {detail : U32} {room : Room} (h : Write s inp flags node st detail t room) :
    ∃ es, Reports s t [] es ∧ (es = [] ↔ room ≠ .corrupt) := by
  cases h with
  | silent | append | full => exact ⟨[], .quiet rfl rfl rfl rfl, by simp⟩
  | corrupt hroom =>
    exact ⟨_, (release_reports s inp.release).after_quiet (latch_reports _ _ _ _ _ _), by simp⟩

/-! ## Stores that spare the latch -/

/-- The words `rp1_state`, `rp1_error_code` and the three words of the terminal error. -/
def LatchWord (offset : U32) : Prop :=
  offset = 0x30 ∨ offset = 0x34 ∨ offset = 0x6C ∨ offset = 0x70 ∨ offset = 0x74

instance (offset : U32) : Decidable (LatchWord offset) := inferInstanceAs (Decidable (_ ∨ _))

theorem Ctrl.poke_latch (c : Ctrl) {offset : U32} (v : U32) (h : ¬ LatchWord offset) :
    (c.poke offset v).error = c.error ∧ (c.poke offset v).state = c.state := by
  simp only [LatchWord, not_or] at h
  obtain ⟨h1, h2, h3, h4, h5⟩ := h
  constructor
  · unfold Ctrl.poke
    repeat' refine proj_ite Ctrl.error (fun hoff => ?_) (fun hoff => ?_)
    all_goals first | contradiction | rfl
  · unfold Ctrl.poke
    repeat' refine proj_ite Ctrl.state (fun hoff => ?_) (fun hoff => ?_)
    all_goals first | contradiction | rfl

theorem Ctrl.pokes_latch (c : Ctrl) {ws : List (U32 × U32)}
    (h : ∀ w ∈ ws, ¬ LatchWord (w.1 - ctrlPhysAddr)) :
    (c.pokes ws).error = c.error ∧ (c.pokes ws).state = c.state := by
  induction ws generalizing c with
  | nil => exact ⟨rfl, rfl⟩
  | cons w ws ih =>
    have hw := c.poke_latch w.2 (h w mem_cons_self)
    have hrest := ih (c.poke (w.1 - ctrlPhysAddr) w.2) fun v hv => h v (mem_cons_of_mem _ hv)
    exact ⟨hrest.1.trans hw.1, hrest.2.trans hw.2⟩

/-- The packet stores to no word of the latch. -/
def Payload.SparesLatch (p : Payload) (inp : Input) : Prop :=
  ∀ w ∈ p.stores inp, ¬ LatchWord (w.1 - ctrlPhysAddr)

instance (p : Payload) (inp : Input) : Decidable (p.SparesLatch inp) :=
  List.decidableBAll _ _

section Step

variable {s t : St} {inp : Input} {i : Nat}

theorem Prepared.reports {u : St} (hu : Prepared s inp i u)
    (hspare : (s.nodes i).payload.SparesLatch inp) : ∃ evs, Reports s u evs [] := by
  obtain ⟨evs, hlog, -, -⟩ := hu.log
  obtain ⟨ws, hctrl, hws⟩ := hu.ctrl
  have hlatch := s.ctrl.pokes_latch fun w hw => hspare w (hws w hw)
  exact ⟨evs, .quiet hlog hu.errors (by rw [hctrl, hlatch.1]) (by rw [hctrl, hlatch.2])⟩

/-- A failed packet's entry is in the history, and nothing has been done since. -/
theorem fail_reports {code : Err} {detail aux cdetail : U32} {cst : CqStatus} {room : Room}
    (hw : Write (((s.note (.activate i)).setStatus i .error).latch code (BitVec.ofNat 32 i) detail
      aux (hasFlag (s.nodes i).flags flagHaltOnError)) inp (s.nodes i).flags (BitVec.ofNat 32 i)
      cst cdetail t room) :
    ∃ e es, Reports s t [.status i .error, .activate i] (es ++ [e]) ∧ e.code = code ∧
      e.halt = hasFlag (s.nodes i).flags flagHaltOnError ∧ (es = [] ↔ room ≠ .corrupt) := by
  obtain ⟨es, hes, hroom⟩ := hw.reports
  have hlatch := latch_reports ((s.note (.activate i)).setStatus i .error) code
    (BitVec.ofNat 32 i) detail aux (hasFlag (s.nodes i).flags flagHaltOnError)
  have hstart : Reports s ((s.note (.activate i)).setStatus i .error)
      [.status i .error, .activate i] [] := .of_books rfl rfl
  exact ⟨_, es, (hstart.after_quiet hlatch).then_still hes, rfl, rfl, hroom⟩

/-- What an activation reports: a fatal error stops the scan, and a scan stopped as failed has an
error. -/
theorem Turn.reports {v : Verdict} (h : Turn s inp i t v)
    (hspare : (s.nodes i).payload.SparesLatch inp) :
    ∃ evs es, Reports s t evs es ∧ ((∃ e ∈ es, e.Fatal) → ∃ r, v = .stop r) ∧
      (v = .stop .error → es ≠ []) := by
  -- a packet that completes: its entry is the only thing that can go wrong
  have hentry {u : St} {evs : List Event} {flags : U16} {room : Room} (hu : Reports s u evs [])
      (hw : Write u inp flags (BitVec.ofNat 32 i) .ok 0 t room) :
      ∃ es, Reports s t evs es ∧ (es = [] ↔ room ≠ .corrupt) := by
    obtain ⟨es, hes, hroom⟩ := hw.reports
    exact ⟨es, hu.after_quiet hes, hroom⟩
  cases h with
  | @finish u _ room hu hw =>
    obtain ⟨evs, hr⟩ := hu.reports hspare
    have hdone : Reports u ((u.setStatus i .done).raiseOwn i)
        [u.toCore.ownRaise i, .status i .done] [] := .of_books rfl rfl
    obtain ⟨es, hes, hroom⟩ := hentry (hr.after_quiet hdone) hw
    refine ⟨_, es, hes, ?_, ?_⟩
    · rintro ⟨e, he, -⟩
      cases room with
      | corrupt => exact ⟨.error, rfl⟩
      | ready | full =>
        rw [hroom.mpr (by simp)] at he
        cases he
    · intro hv
      cases room with
      | corrupt => exact fun hnil => hroom.mp hnil rfl
      | ready | full => cases hv
  | @iterate u p hp hx hu =>
    obtain ⟨evs, hr⟩ := hu.reports hspare
    have hdone : Reports u (u.setStatus i .done) [.status i .done] [] := .of_books rfl rfl
    exact ⟨_, [], hr.after_quiet hdone, by simp, by simp⟩
  | park p hp => exact ⟨[.status i .waiting, .activate i], [], .of_books rfl rfl, by simp, by simp⟩
  | launch kd =>
    refine ⟨[.status i .dispatched, .launch i kd.kernelBaseAddr, .activate i], [],
      .of_books (by simp) (by simp), by simp, by simp⟩
  | @launchInfinite t room kd hp hg hlen hf hw hroom =>
    have hstart : Reports s ((((s.note (.activate i)).launchKernel inp i kd).setStatus i
        .done).raiseOwn i) [s.toCore.ownRaise i, .status i .done, .launch i kd.kernelBaseAddr,
        .activate i] [] := .of_books (by simp [Core.ownRaise]) (by simp)
    obtain ⟨es, hes, hiff⟩ := hw.reports
    rw [hiff.mpr hroom] at hes
    have hadd : Reports t (t.addInflight inp.now i kd) [] [] := .of_books rfl rfl
    exact ⟨_, [], (hstart.after_quiet hes).after_quiet hadd, by simp, by simp⟩
  | launchLost kd hp hg hlen hf hw =>
    have hstart : Reports s ((((s.note (.activate i)).launchKernel inp i kd).setStatus i
        .done).raiseOwn i) [s.toCore.ownRaise i, .status i .done, .launch i kd.kernelBaseAddr,
        .activate i] [] := .of_books (by simp [Core.ownRaise]) (by simp)
    obtain ⟨es, hes, hroom⟩ := hentry hstart hw
    exact ⟨_, es, hes, fun _ => ⟨.error, rfl⟩, fun _ hnil => hroom.mp hnil rfl⟩
  | failStop code detail aux cst cdetail hcode hcst hw hstop =>
    obtain ⟨e, es, hr, -⟩ := fail_reports hw
    exact ⟨_, _, hr, fun _ => ⟨.error, rfl⟩, by simp⟩
  | @failOn t room code detail aux cst cdetail hcode hcst hw hroom hgo =>
    obtain ⟨e, es, hr, hec, heh, hiff⟩ := fail_reports hw
    rw [hiff.mpr hroom] at hr
    have hmild : ¬ e.Fatal := by
      simp only [ErrorEvent.Fatal, hec, heh]
      simp only [stopsScan, not_or] at hgo
      cases code <;> simp_all [Err.OfPacket]
    have hraise : Reports t (t.raiseOwn i) [t.toCore.ownRaise i] [] := .of_books rfl rfl
    refine ⟨_, _, hr.trans hraise ?_, ?_, by simp⟩
    · intro e' he' hf
      rw [mem_singleton.mp he'] at hf
      exact absurd hf hmild
    · rintro ⟨e', he', hf⟩
      rw [mem_singleton.mp he'] at hf
      exact absurd hf hmild
  | @halt _ room hw v hv =>
    have hstart : Reports s ((s.note (.activate i)).setStatus i .done)
        [.status i .done, .activate i] [] := .of_books rfl rfl
    obtain ⟨es, hes, hroom⟩ := hentry hstart hw
    refine ⟨_, es, hes, fun _ => ?_, ?_⟩
    · rw [hv]
      split <;> exact ⟨_, rfl⟩
    · rintro hstop hnil
      rw [hv, if_neg (hroom.mp hnil)] at hstop
      cases hstop
  | hang hu =>
    obtain ⟨evs, hr⟩ := hu.reports hspare
    exact ⟨evs, [], hr, by simp, by simp⟩

theorem Check.reports {k : Inflight} {v : St.Poll} (h : Check s inp i k t v) :
    ∃ evs es, Reports s t evs es ∧ ((∃ e ∈ es, e.Fatal) → ∃ r, v = .stop r) ∧
      (v = .stop .error → es ≠ []) := by
  cases h with
  | corrupt hroom => exact ⟨_, _, latch_reports _ _ _ _ _ _, fun _ => ⟨.error, rfl⟩, by simp⟩
  | blocked bus hroom => exact ⟨[], [], .quiet rfl rfl rfl rfl, by simp, by simp⟩
  | idle => exact ⟨[], [], .of_books rfl rfl, by simp, by simp⟩
  | doneInfinite hinf =>
    exact ⟨[.apDone k.nodeIndex k.baseAddr], [], .of_books rfl rfl, by simp, by simp⟩
  | @done t room hfin hready hw hroom =>
    obtain ⟨es, hes, hiff⟩ := hw.reports
    rw [hiff.mpr hroom] at hes
    have hstart : Reports s ((((s.polled inp k).note (.apDone k.nodeIndex k.baseAddr)).setStatus
        k.nodeIndex .done).raise k.nodeIndex k.setBucket.toNat k.setMask)
        [.raise k.nodeIndex k.setBucket.toNat k.setMask, .status k.nodeIndex .done,
          .apDone k.nodeIndex k.baseAddr] [] := .of_books rfl rfl
    have hremove : Reports t (t.removeInflight i) [] [] := .of_books rfl rfl
    exact ⟨_, [], (hstart.after_quiet hes).after_quiet hremove, by simp, by simp⟩
  | doneStop hfin hready hw =>
    obtain ⟨es, hes, hiff⟩ := hw.reports
    have hstart : Reports s ((((s.polled inp k).note (.apDone k.nodeIndex k.baseAddr)).setStatus
        k.nodeIndex .done).raise k.nodeIndex k.setBucket.toNat k.setMask)
        [.raise k.nodeIndex k.setBucket.toNat k.setMask, .status k.nodeIndex .done,
          .apDone k.nodeIndex k.baseAddr] [] := .of_books rfl rfl
    exact ⟨_, es, hstart.after_quiet hes, fun _ => ⟨.error, rfl⟩, fun _ hnil => hiff.mp hnil rfl⟩
  | expireStop hready hw hstop =>
    obtain ⟨es, hes, -⟩ := hw.reports
    have hstart : Reports s ((s.polled inp k).setStatus k.nodeIndex .error)
        [.status k.nodeIndex .error] [] := .of_books rfl rfl
    exact ⟨_, _, (hstart.after_quiet (latch_reports _ _ _ _ _ _)).then_still hes,
      fun _ => ⟨.error, rfl⟩, by simp⟩
  | @expireOn t room hready hnot hlate hw hroom hgo =>
    obtain ⟨es, hes, hiff⟩ := hw.reports
    rw [hiff.mpr hroom] at hes
    have hstart : Reports s ((s.polled inp k).setStatus k.nodeIndex .error)
        [.status k.nodeIndex .error] [] := .of_books rfl rfl
    have hraise : Reports t ((t.raise k.nodeIndex k.setBucket.toNat k.setMask).removeInflight i)
        [.raise k.nodeIndex k.setBucket.toNat k.setMask] [] := .of_books rfl rfl
    have hlatched := (hstart.after_quiet (latch_reports _ _ _ _ _ _)).then_still hes
    -- a timeout that is let pass is not fatal, so the bits of the packet may still go up
    refine ⟨_, _, hlatched.trans hraise ?_, ?_, by simp⟩
    · simp [ErrorEvent.Fatal, hgo]
    · simp [ErrorEvent.Fatal, hgo]

theorem Waken.reports {v : Verdict} (h : Waken s inp i t v) :
    ∃ evs es, Reports s t evs es ∧ ((∃ e ∈ es, e.Fatal) → ∃ r, v = .stop r) ∧
      (v = .stop .error → es ≠ []) := by
  cases h with
  | idle => exact ⟨[], [], .of_books rfl rfl, by simp, by simp⟩
  | blocked hw hroom => exact ⟨[], [], .quiet rfl rfl rfl rfl, by simp, by simp⟩
  | corrupt hroom => exact ⟨_, _, latch_reports _ _ _ _ _ _, fun _ => ⟨.error, rfl⟩, by simp⟩
  | @wake _ room hwait hready hw =>
    obtain ⟨es, hes, hiff⟩ := hw.reports
    have hstart : Reports s ((s.setStatus i .done).raiseOwn i)
        [s.toCore.ownRaise i, .status i .done] [] := .of_books rfl rfl
    refine ⟨_, es, hstart.after_quiet hes, ?_, ?_⟩
    · rintro ⟨e, he, -⟩
      cases room with
      | corrupt => exact ⟨.error, rfl⟩
      | ready | full =>
        rw [hiff.mpr (by simp)] at he
        cases he
    · intro hv
      cases room with
      | corrupt => exact fun hnil => hiff.mp hnil rfl
      | ready | full => cases hv

theorem unlessCorrupt_reports (t : St) (room : Room) : Reports t (t.unlessCorrupt room) [] [] := by
  cases room with
  | corrupt => exact markRecovery_reports t
  | ready | full => exact .of_books rfl rfl

theorem Drain.reports {k : Inflight} {removed : Bool} (h : Drain s inp i k t removed) :
    ∃ evs es, Reports s t evs es ∧ ∀ ev ∈ evs, ¬ ev.Works := by
  have hremove (u : St) : Reports u (u.removeInflight i) [] [] := .of_books rfl rfl
  cases h with
  | keep bus => exact ⟨[], [], .of_books rfl rfl, by simp⟩
  | infinite hinf =>
    exact ⟨[], [], (markRecovery_reports s).then_still (hremove _), by simp⟩
  | corrupt hroom =>
    exact ⟨[], _, ((latch_reports s _ _ _ _ _).then_still (markRecovery_reports _)).then_still
      (hremove _), by simp⟩
  | done =>
    exact ⟨[.apDone k.nodeIndex k.baseAddr], [], .of_books rfl rfl, by simp [Event.Works]⟩
  | @doneReport u room hready hw =>
    obtain ⟨es, hes, -⟩ := hw.reports
    have hstart : Reports s (((s.polled inp k).note (.apDone k.nodeIndex k.baseAddr)).setStatus
        k.nodeIndex .done) [.status k.nodeIndex .done, .apDone k.nodeIndex k.baseAddr] [] :=
      .of_books rfl rfl
    exact ⟨_, _, ((hstart.after_quiet hes).then_still (unlessCorrupt_reports u room)).then_still
      (hremove _), by simp [Event.Works]⟩
  | expired =>
    have hstart : Reports s (s.polled inp k) [] [] := .of_books rfl rfl
    exact ⟨[], [], (hstart.then_still (markRecovery_reports _)).then_still (hremove _), by simp⟩
  | @expiredReport u room hready hw =>
    obtain ⟨es, hes, -⟩ := hw.reports
    have hstart : Reports s ((s.polled inp k).setStatus k.nodeIndex .error)
        [.status k.nodeIndex .error] [] := .of_books rfl rfl
    exact ⟨_, _, (((hstart.after_quiet hes).then_still (unlessCorrupt_reports u room)).then_still
      (markRecovery_reports _)).then_still (hremove _), by simp [Event.Works]⟩

end Step

/-! ## One firmware step -/

/-- `rp1_loop` is on its way to return −1. -/
def Phase.Faulted : Phase → Prop
  | .reject _ _ | .quiesce _ .error | .stopped .error => True
  | _ => False

theorem Phase.not_faulted_activate (i : Nat) : ¬ (Phase.activate i).Faulted := id

theorem Phase.not_faulted_pollWaits (i : Nat) : ¬ (Phase.pollWaits i).Faulted := id

def St.SparesLatch (s : St) (inp : Input) : Prop :=
  s.Next fun i => (s.nodes i).payload.SparesLatch inp

section Step

variable {s t : St} {inp : Input} {i : Nat}

theorem Visited.reports {v : Verdict} (h : Visited s inp i t v) (hphase : s.phase = .activate i)
    (hi : i < s.nodeCount) (hspare : s.SparesLatch inp) :
    ∃ evs es, Reports s t evs es ∧ ((∃ e ∈ es, e.Fatal) → ∃ r, v = .stop r) ∧
      (v = .stop .error → es ≠ []) := by
  cases h with
  | idle hn => exact ⟨[], [], .of_books rfl rfl, by simp, by simp⟩
  | blocked he hroom => exact ⟨[], [], .quiet rfl rfl rfl rfl, by simp, by simp⟩
  | corrupt hroom => exact ⟨_, _, latch_reports _ _ _ _ _ _, fun _ => ⟨.error, rfl⟩, by simp⟩
  | turn he hroom ht =>
    exact ht.reports (hspare.of_starts ⟨hphase, hi, he, hroom⟩)

theorem Reports.moved {evs : List Event} {es : List ErrorEvent} (h : Reports s t evs es)
    (p : Phase) (b : Bool) : Reports s { t with phase := p, progress := b } evs es := by
  have hmove : Reports t { t with phase := p, progress := b } [] [] := .quiet rfl rfl rfl rfl
  exact h.then_still hmove

/-- What one iteration means for the phase: a fatal error sends the scan to the quiesce, and it
goes there as failed only with an error. -/
theorem fatal_of_stop {es : List ErrorEvent} {v : Verdict} {next : Phase}
    (hnot : ¬ next.Faulted) (hstop : (∃ e ∈ es, e.Fatal) → ∃ r, v = .stop r)
    (herr : v = .stop .error → es ≠ []) :
    ((∃ e ∈ es, e.Fatal) → (v.phase next).Fatal) ∧ ((v.phase next).Faulted → es ≠ []) := by
  constructor
  · intro hf
    obtain ⟨r, rfl⟩ := hstop hf
    trivial
  · intro hf
    cases v with
    | next p => exact absurd hf hnot
    | stop r =>
      cases r with
      | error => exact herr rfl
      | halt => exact hf.elim
    | hang => exact hf.elim

/-- What a firmware step reports, and what it means for the phase. -/
theorem Stride.reports (h : Stride s inp t) (hspare : s.SparesLatch inp) :
    ∃ evs es, Reports s t evs es ∧ (s.phase.Fatal → t.phase.Fatal ∧ ∀ ev ∈ evs, ¬ ev.Works) ∧
      ((∃ e ∈ es, e.Fatal) → t.phase.Fatal) ∧ (t.phase.Faulted → s.phase.Faulted ∨ es ≠ []) := by
  have hstill {p : Phase} (hp : s.phase = p) (hnot : ¬ p.Fatal) {evs : List Event} :
      s.phase.Fatal → t.phase.Fatal ∧ ∀ ev ∈ evs, ¬ ev.Works :=
    fun hf => absurd (hp ▸ hf) hnot
  cases h with
  | begin hphase | again hphase | scanned hphase | polled hphase | waited hphase
  | complete hphase =>
    exact ⟨[], [], .quiet rfl rfl rfl rfl, hstill hphase id, by simp, fun h => h.elim⟩
  | @invalid bad detail aux hphase hbad =>
    have hlatch := latch_reports s .invalidNode (BitVec.ofNat 32 bad) detail.code aux false
    have hstatus : Reports (s.latch .invalidNode (BitVec.ofNat 32 bad) detail.code aux false)
        ((s.latch .invalidNode (BitVec.ofNat 32 bad) detail.code aux false).setStatus bad .error)
        [.status bad .error] [] := .of_books rfl rfl
    exact ⟨_, _, (hlatch.trans hstatus (by simp [Event.Works])).moved _ _, hstill hphase id,
      fun _ => trivial, fun _ => .inr (by simp)⟩
  | @reject bad detail t room hphase hw =>
    obtain ⟨es, hes, -⟩ := hw.reports
    have hfatal : (if room = .full then s.phase else .stopped .error).Fatal := by
      split
      · rw [hphase]
        trivial
      · trivial
    exact ⟨[], es, hes.moved _ _, fun _ => ⟨hfatal, by simp⟩, fun _ => hfatal,
      fun _ => .inl (by rw [hphase]; trivial)⟩
  | visit hphase hi hv =>
    obtain ⟨evs, es, hr, hstop, herr⟩ := hv.reports hphase hi hspare
    obtain ⟨hfatal, hfault⟩ := fatal_of_stop (Phase.not_faulted_activate _) hstop herr
    exact ⟨evs, es, hr.moved _ _, hstill hphase id, hfatal, fun h => .inr (hfault h)⟩
  | @check i k t v hphase hk hc =>
    obtain ⟨evs, es, hr, hstop, herr⟩ := hc.reports
    refine ⟨evs, es, hr.moved _ _, hstill hphase id, ?_, ?_⟩
    · intro hf
      obtain ⟨r, rfl⟩ := hstop hf
      trivial
    · intro hf
      cases v with
      | keep | removed => exact hf.elim
      | stop r =>
        cases r with
        | error => exact .inr (herr rfl)
        | halt => exact hf.elim
  | wait hphase hi hw =>
    obtain ⟨evs, es, hr, hstop, herr⟩ := hw.reports
    obtain ⟨hfatal, hfault⟩ := fatal_of_stop (Phase.not_faulted_pollWaits _) hstop herr
    exact ⟨evs, es, hr.moved _ _, hstill hphase id, hfatal, fun h => .inr (hfault h)⟩
  | @drain i r k t removed hphase hk hd =>
    obtain ⟨evs, es, hr, hidle⟩ := hd.reports
    refine ⟨evs, es, hr.moved _ _, fun _ => ⟨trivial, hidle⟩, fun _ => trivial, fun hf => .inl ?_⟩
    rw [hphase]
    cases r with
    | error => trivial
    | halt => exact hf
  | @drained i r hphase hnil =>
    refine ⟨[], [], .quiet rfl rfl rfl rfl, fun _ => ⟨trivial, by simp⟩, by simp, fun hf => .inl ?_⟩
    rw [hphase]
    cases r with
    | error => trivial
    | halt => exact hf
  | @drainAgain i r hphase =>
    refine ⟨[], [], .quiet rfl rfl rfl rfl, fun _ => ⟨trivial, by simp⟩, by simp, fun hf => .inl ?_⟩
    rw [hphase]
    cases r with
    | error => trivial
    | halt => exact hf
  | ended hphase =>
    exact ⟨[], [], .quiet rfl rfl rfl rfl, fun hf => ⟨hf, by simp⟩, by simp, .inl⟩

end Step

/-! ## Graph after graph -/

/-- The published record is the first error's, and no work follows a fatal error. -/
structure St.FirstError (s : St) : Prop where
  recorded : s.Recorded
  stamped : ∀ e ∈ s.errors, e.stamp ≤ s.log.length
  clean : ∀ e ∈ s.errors, e.Fatal → ∀ ev ∈ eventsSince e.stamp s.log, ¬ ev.Works

theorem Reports.firstError {s t : St} {evs : List Event} {es : List ErrorEvent}
    (h : Reports s t evs es) (hs : s.FirstError)
    (hidle : (∃ e ∈ s.errors, e.Fatal) → ∀ ev ∈ evs, ¬ ev.Works) : t.FirstError where
  recorded := h.record hs.recorded
  stamped := by
    intro e he
    rw [h.errors] at he
    rcases mem_append.mp he with he | he
    · exact h.stamped e he
    · have hle := hs.stamped e he
      rw [h.log, length_append]
      omega
  clean := by
    intro e he hf ev hev
    rw [h.errors] at he
    rcases mem_append.mp he with he | he
    · exact h.clean e he hf ev hev
    · rw [h.log, eventsSince_append _ (hs.stamped e he)] at hev
      rcases mem_append.mp hev with hev | hev
      · exact hidle ⟨e, he, hf⟩ ev hev
      · exact hs.clean e he hf ev hev

theorem St.FirstError.congr {s t : St} (h : s.FirstError) (hlog : t.log = s.log)
    (herrors : t.errors = s.errors) (herror : t.ctrl.error = s.ctrl.error) : t.FirstError where
  recorded := by
    rw [St.Recorded, herror, herrors]
    exact h.recorded
  stamped := by
    rw [hlog, herrors]
    exact h.stamped
  clean := by
    rw [hlog, herrors]
    exact h.clean

/-- What the errors of the graph say about where the outer loop stands. -/
def Fw.Classified (f : Fw) : Prop :=
  match f.outer with
  | .enter _ => f.st.errors = []
  | .scan _ => ((∃ e ∈ f.st.errors, e.Fatal) → f.st.phase.Fatal) ∧
      (f.st.phase.Faulted → f.st.errors ≠ [])
  | .publish _ (some .error) => f.st.errors ≠ []
  | _ => True

structure Fw.FirstError (f : Fw) : Prop where
  store : f.st.FirstError
  classified : f.Classified
  state : f.st.ctrl.state = .error → f.st.errors ≠ []

/-- The step about to be taken stores to no word of the latch. -/
def Fw.SparesLatch (f : Fw) : FwAct → Prop
  | .fw inp => ∀ seq, f.outer = .scan seq → f.st.SparesLatch inp
  | _ => True

/-- The step about to be taken accepts a sequence. -/
def Fw.Accepts (f : Fw) : FwAct → Prop
  | .fw _ => f.outer = .accept
  | _ => False

theorem HostWord.not_latch (w : HostWord) : ¬ LatchWord w.offset := by
  cases w <;> decide

/-- What the outer loop or the host reports, unless a sequence is accepted. -/
theorem Fw.step_reports {f : Fw} {a : FwAct} (hspare : f.SparesLatch a) (ha : ¬ f.Accepts a) :
    ∃ s evs es, Reports f.st s evs es ∧ (f.step a).st.log = s.log ∧
      (f.step a).st.errors = s.errors ∧ (f.step a).st.ctrl.error = s.ctrl.error := by
  have hsame {g : Fw} (hlog : g.st.log = f.st.log) (herrors : g.st.errors = f.st.errors)
      (herror : g.st.ctrl.error = f.st.ctrl.error) :
      ∃ s evs es, Reports f.st s evs es ∧ g.st.log = s.log ∧ g.st.errors = s.errors ∧
        g.st.ctrl.error = s.ctrl.error :=
    ⟨f.st, [], [], .quiet rfl rfl rfl rfl, hlog, herrors, herror⟩
  cases a with
  | fw inp =>
    simp only [Fw.step, Fw.advance]
    cases ho : f.outer with
    | idle =>
      simp only
      split
      · exact hsame rfl rfl rfl
      · split <;> exact hsame rfl rfl rfl
    | accept => exact absurd ho ha
    | enter seq =>
      simp only [storeInit]
      cases f.st.ctrl.configError with
      | some e => exact ⟨_, _, _, latch_reports _ _ _ _ _ _, rfl, rfl, rfl⟩
      | none => exact hsame rfl rfl rfl
    | scan seq =>
      obtain ⟨evs, es, hr, -⟩ := (f.st.fwStep_stride inp).reports (hspare seq ho)
      simp only
      split
      · exact hsame rfl rfl rfl
      · exact hsame rfl rfl rfl
      · exact ⟨_, evs, es, hr, rfl, rfl, rfl⟩
    | publish seq result => exact hsame rfl rfl rfl
    | finish seq => exact hsame rfl rfl rfl
  | word w v => exact hsame rfl rfl (f.st.ctrl.poke_latch v w.not_latch).1
  | node i n => exact hsame rfl rfl rfl
  | arg k v => exact hsame rfl rfl rfl
  | signal slot v => exact hsame rfl rfl rfl

theorem Fw.FirstError.scan {f : Fw} {seq : U32} {inp : Input} (h : f.FirstError)
    (ho : f.outer = .scan seq) (hspare : f.st.SparesLatch inp) :
    Fw.FirstError { f with st := f.st.fwStep inp } := by
  obtain ⟨evs, es, hr, hfatal, hnew, hfault⟩ := (f.st.fwStep_stride inp).reports hspare
  have hclass := h.classified
  simp only [Fw.Classified, ho] at hclass
  refine ⟨hr.firstError h.store fun hf => (hfatal (hclass.1 hf)).2, ?_, ?_⟩
  · simp only [Fw.Classified, ho]
    constructor
    · rintro ⟨e, he, hf⟩
      rw [hr.errors] at he
      rcases mem_append.mp he with he | he
      · exact hnew ⟨e, he, hf⟩
      · exact (hfatal (hclass.1 ⟨e, he, hf⟩)).1
    · intro hf
      rw [hr.errors]
      rcases hfault hf with hold | hes
      · exact append_ne_nil_of_right_ne_nil _ (hclass.2 hold)
      · exact append_ne_nil_of_left_ne_nil hes _
  · intro hstate
    rw [hr.errors]
    exact append_ne_nil_of_right_ne_nil _ (h.state (hr.state.symm.trans hstate))

theorem Fw.FirstError.step {f : Fw} {a : FwAct} (hspare : f.SparesLatch a) (h : f.FirstError) :
    (f.step a).FirstError := by
  have hclass := h.classified
  cases a with
  | fw inp =>
    simp only [Fw.step, Fw.advance]
    cases ho : f.outer with
    | idle =>
      simp only
      split
      · exact h
      · split
        · exact h
        · exact ⟨h.store, trivial, h.state⟩
    | accept =>
      have hempty : f.st.accepted.FirstError := by
        constructor
        · rfl
        · simp [St.accepted]
        · simp [St.accepted]
      exact ⟨hempty, rfl, fun hstate => by cases hstate⟩
    | enter seq =>
      simp only [Fw.Classified, ho] at hclass
      simp only [storeInit]
      cases f.st.ctrl.configError with
      | some e =>
        refine ⟨(latch_reports _ _ _ _ _ _).firstError h.store (by simp), ?_, ?_⟩
        · simp [Fw.Classified, St.latch]
        · simp [St.latch]
      | none =>
        refine ⟨h.store.congr rfl rfl rfl, ?_, h.state⟩
        simp only [Fw.Classified, hclass]
        exact ⟨by simp, fun hf => hf.elim⟩
    | scan seq =>
      simp only [Fw.Classified, ho] at hclass
      simp only
      split
      · exact ⟨h.store, trivial, h.state⟩
      · rename_i r hphase
        refine ⟨h.store, ?_, h.state⟩
        cases r with
        | error =>
          refine hclass.2 ?_
          rw [hphase]
          trivial
        | halt => trivial
      · have hscan := h.scan ho (hspare seq ho)
        rw [← ho]
        exact hscan
    | publish seq result =>
      refine ⟨h.store.congr rfl rfl rfl, trivial, ?_⟩
      simp only [Fw.Classified, ho] at hclass
      rcases result with _ | _ | _
      · intro hstate
        cases hstate
      · exact fun _ => hclass
      · intro hstate
        cases hstate
    | finish seq => exact ⟨h.store.congr rfl rfl rfl, trivial, h.state⟩
  | word w v =>
    obtain ⟨herror, hstate⟩ := f.st.ctrl.poke_latch v w.not_latch
    exact ⟨h.store.congr rfl rfl herror, hclass, fun he => h.state (hstate.symm.trans he)⟩
  | node i n => exact ⟨h.store.congr rfl rfl rfl, hclass, h.state⟩
  | arg k v => exact ⟨h.store.congr rfl rfl rfl, hclass, h.state⟩
  | signal slot v => exact ⟨h.store.congr rfl rfl rfl, hclass, h.state⟩

theorem Fw.boot_firstError (s : St) : (Fw.boot s).FirstError := by
  refine ⟨⟨rfl, ?_, ?_⟩, trivial, fun hstate => by cases hstate⟩
  · simp [Fw.boot]
  · simp [Fw.boot]

/-- Until a sequence is accepted the history of errors only grows, and the recovery bit stays. -/
theorem Fw.errors_suffix {f g : Fw} {acts : List FwAct}
    (hal : Along Fw.step (fun f a => f.SparesLatch a ∧ ¬ f.Accepts a) f acts)
    (hg : runFrom Fw.step f acts = g) : f.st.errors <:+ g.st.errors ∧
      (f.st.ctrl.error.recoveryRequired = true → g.st.ctrl.error.recoveryRequired = true) := by
  subst hg
  refine hal.invariant (I := fun g => f.st.errors <:+ g.st.errors ∧
    (f.st.ctrl.error.recoveryRequired = true → g.st.ctrl.error.recoveryRequired = true))
    (fun g a ha h => ?_) ⟨suffix_rfl, id⟩
  obtain ⟨s, evs, es, hr, -, herrors, herror⟩ := Fw.step_reports ha.1 ha.2
  constructor
  · rw [herrors, hr.errors]
    exact h.1.trans (suffix_append _ _)
  · intro hf
    rw [herror]
    exact hr.recovery (h.2 hf)

instance (s : St) (inp : Input) : Decidable (s.SparesLatch inp) :=
  inferInstanceAs (Decidable (s.Next _))

instance (f : Fw) (a : FwAct) : Decidable (f.SparesLatch a) :=
  match a with
  | .fw inp =>
    match h : f.outer with
    | .scan seq => decidable_of_iff (f.st.SparesLatch inp) (by simp [Fw.SparesLatch, h])
    | .idle | .accept | .enter _ | .publish _ _ | .finish _ =>
      isTrue (by simp [Fw.SparesLatch, h])
  | .word _ _ | .node _ _ | .arg _ _ | .signal _ _ => isTrue trivial

/-- A kernel for an image that is not loaded, its packet without HALT_ON_ERROR, and `next` behind
it. -/
def strayGraph (next : Payload) : Nat → Node
  | 0 => packetAt 1 0 1 (.kernelDispatch ⟨0x80000000, 0, 0, 1000, 7⟩)
  | _ => packetAt 1 1 0 next

/-- The graph staged and its doorbell rung. -/
def strayStart (next : Payload) : St :=
  { St.fresh (strayGraph next) 2 16 with ctrl := { defaultCtrl 2 16 with graphSeq := 1 } }

end Slash.Rp1
