import Slash.Rp1.Queue

/-!
# Completion evidence

Every path that sets a node DONE or ERROR reserves its completion entry first and publishes it in
the same iteration. Between the two only the host touches the cursors, and it only makes room, so
`write_cq_entry` finds the slot it was promised. The one DONE without an entry is that of a LOOP
that goes round again.

What goes without an entry besides: the resets to PENDING, a kernel DISPATCHED, a WAIT parked.
-/

namespace Slash.Rp1

open Lib

/-! ## One entry for one status -/

/-- The entry that goes with a status of node `j`; none when the node is silent. -/
def Reported (flags : U16) (j : Nat) (fits : CqStatus → Prop) (new : List CqEntry) : Prop :=
  if hasFlag flags flagSilent then new = []
  else ∃ e, new = [e] ∧ e.nodeIndex = BitVec.ofNat 32 j ∧ fits e.status

/-- Node `j` is a LOOP that goes round again. -/
def Core.Continues (c : Core) (j : Nat) : Prop :=
  ∃ p, (c.nodes j).payload = .loop p ∧ c.loopExits p = false

/-- What a step from `c` that sets node `j` to `st` appends. -/
def Core.Witnessed (c : Core) (j : Nat) (st : Status) (new : List CqEntry) : Prop :=
  match st with
  | .done => Reported (c.nodes j).flags j (· = .ok) new ∨ c.Continues j ∧ new = []
  | .error => Reported (c.nodes j).flags j (fun s => s = .error ∨ s = .timeout) new
  | .pending | .dispatched | .waiting => True

/-- From `s` to `t` the events `evs` and the entries `new` were added, and every status among the
events is witnessed; no entry was refused. -/
structure Evident (s t : St) (evs : List Event) (new : List CqEntry) : Prop where
  log : t.log = evs ++ s.log
  overrun : t.overrun = s.overrun
  status : ∀ j st, Event.status j st ∈ evs → s.toCore.Witnessed j st new

section Step

variable {s t u : St} {inp : Input} {i base taken upto : Nat} {items new : List CqEntry}

theorem cqRoom_of_ring (h : t.ring = s.ring) (flags : U16) :
    cqRoom flags t.ctrl = cqRoom flags s.ctrl := by
  simp only [St.ring, Prod.mk.injEq] at h
  rw [cqRoom, cqRoom, Ctrl.cqUsed, Ctrl.cqUsed, h.1, h.2.1, h.2.2.1]

theorem Write.evident {flags : U16} {j : Nat} {st : CqStatus} {detail : U32} {room : Room}
    (h : Write u inp flags (BitVec.ofNat 32 j) st detail t room)
    (hu : Logged base upto s u items taken []) (hring : u.ring = s.ring)
    (hs : s.Holds base items taken) (hrel : inp.Releases base taken items.length upto)
    (hready : cqRoom flags s.ctrl = .ready) :
    room = .ready ∧ t.overrun = u.overrun ∧
      ∃ new, Logged base upto s t items taken new ∧ Reported flags j (· = st) new := by
  obtain ⟨-, new, hnew, hentry⟩ := h.logged (hs.congr hring) hrel
  rw [cqRoom_of_ring hring] at hentry
  obtain ⟨hroom, hover, rfl⟩ := hentry hready
  refine ⟨hroom, hover, _, hnew.after hu.appended hu.errors hu.size, ?_⟩
  unfold Reported entryOf
  split
  · rfl
  · exact ⟨_, rfl, rfl, rfl⟩

theorem Reported.imp {flags : U16} {j : Nat} {fits fits' : CqStatus → Prop}
    (h : Reported flags j fits new) (himp : ∀ st, fits st → fits' st) :
    Reported flags j fits' new := by
  unfold Reported at h ⊢
  split
  · rename_i hsilent
    rw [if_pos hsilent] at h
    exact h
  · rename_i hsilent
    rw [if_neg hsilent] at h
    obtain ⟨e, hnew, hnode, hfits⟩ := h
    exact ⟨e, hnew, hnode, himp _ hfits⟩

/-- The packet stores neither to the queue nor to the packets. -/
def St.SparesBoth (s : St) (inp : Input) (i : Nat) : Prop :=
  s.SparesRing inp i ∧ ∀ w ∈ (s.nodes i).payload.stores inp, ¬ s.toCore.InNodes w.1

instance (c : Core) (addr : U32) : Decidable (c.InNodes addr) :=
  inferInstanceAs (Decidable (_ < _))

instance (s : St) (inp : Input) (i : Nat) : Decidable (s.SparesBoth inp i) :=
  have : Decidable (∀ w ∈ (s.nodes i).payload.stores inp, ¬ s.toCore.InNodes w.1) :=
    List.decidableBAll _ _
  inferInstanceAs (Decidable (_ ∧ _))

theorem Prepared.pending (hu : Prepared s inp i u) : ∃ evs, u.log = evs ++ s.log ∧
    ∀ j st, Event.status j st ∈ evs → st = .pending := by
  obtain ⟨evs, hlog, hevs, -⟩ := hu.log
  exact ⟨evs, hlog, fun j st h => (hevs _ h).1⟩

/-- The statuses of a step are resets, and one of node `j` that is witnessed. -/
theorem status_cases {evs evs' : List Event} {j : Nat} {st : Status}
    (hevs : ∀ j st, Event.status j st ∈ evs → st = .pending)
    (hother : ∀ j st, Event.status j st ∉ evs') (hw : s.toCore.Witnessed j st new) :
    ∀ j' st', Event.status j' st' ∈ evs' ++ .status j st :: evs →
      s.toCore.Witnessed j' st' new := by
  intro j' st' h
  rcases List.mem_append.mp h with h | h
  · exact absurd h (hother j' st')
  · rcases List.mem_cons.mp h with h | h
    · cases h
      exact hw
    · rw [hevs j' st' h]
      trivial

theorem Turn.evident {v : Verdict} (h : Turn s inp i t v) (hs : s.Holds base items taken)
    (hrel : inp.Releases base taken items.length upto)
    (hready : cqRoom (s.nodes i).flags s.ctrl = .ready) (hspare : s.SparesBoth inp i) :
    ∃ evs new, Logged base upto s t items taken new ∧ Evident s t evs new := by
  have hdone {new : List CqEntry} (hrep : Reported (s.nodes i).flags i (· = .ok) new) :
      s.toCore.Witnessed i .done new := .inl hrep
  have hactivate : ∀ j st, Event.status j st ∈ [Event.activate i] → st = .pending := by simp
  -- a packet that fails: its entry goes with the ERROR
  have hfail {code : Err} {detail aux cdetail : U32} {cst : CqStatus} {room : Room} {t : St}
      (hcode : code.OfPacket) (hcst : cst = .error ∨ cst = .timeout)
      (hw : Write (((s.note (.activate i)).setStatus i .error).latch code (BitVec.ofNat 32 i) detail
        aux (hasFlag (s.nodes i).flags flagHaltOnError)) inp (s.nodes i).flags (BitVec.ofNat 32 i)
        cst cdetail t room) :
      t.overrun = s.overrun ∧ t.log = [.status i .error, .activate i] ++ s.log ∧
        ∃ new, Logged base upto s t items taken new ∧ s.toCore.Witnessed i .error new := by
    have hne : code ≠ .cqCorrupt := by
      rintro rfl
      exact hcode
    obtain ⟨-, hover, new, hnew, hrep⟩ := hw.evident
      (.still hs rfl rfl ⟨[_], rfl, by simpa using hne⟩) rfl hs hrel hready
    have herror : Reported (s.nodes i).flags i (fun st => st = .error ∨ st = .timeout) new := by
      refine hrep.imp ?_
      rintro st rfl
      exact hcst
    exact ⟨hover, by rw [hw.toCore]; rfl, new, hnew, herror⟩
  cases h with
  | @finish u _ _ hu hw =>
    obtain ⟨evs, hlog, hevs⟩ := hu.pending
    rw [hu.nodes hspare.2] at hw
    have hprep : Logged base upto s ((u.setStatus i .done).raiseOwn i) items taken [] :=
      (hu.logged hs hspare.1).before rfl rfl rfl
    obtain ⟨-, hover, new, hnew, hrep⟩ := hw.evident hprep (hu.ring hspare.1) hs hrel hready
    refine ⟨[u.toCore.ownRaise i] ++ .status i .done :: evs, new, hnew, ?_, hover.trans hu.overrun,
      status_cases hevs (by simp [Core.ownRaise]) (hdone hrep)⟩
    simp [hw.toCore, hlog, Core.ownRaise]
  | @iterate u p hp hx hu =>
    obtain ⟨evs, hlog, hevs⟩ := hu.pending
    have hround : s.toCore.Witnessed i .done [] := .inr ⟨⟨p, hp, hx⟩, rfl⟩
    exact ⟨[] ++ .status i .done :: evs, [], (hu.logged hs hspare.1).before rfl rfl rfl,
      by simp [hlog], hu.overrun, status_cases hevs (by simp) hround⟩
  | park p hp =>
    have hwait : s.toCore.Witnessed i .waiting [] := trivial
    exact ⟨[] ++ .status i .waiting :: [.activate i], [], .of_books hs rfl, rfl, rfl,
      status_cases hactivate (by simp) hwait⟩
  | launch kd =>
    have hdispatch : s.toCore.Witnessed i .dispatched [] := trivial
    exact ⟨[] ++ .status i .dispatched :: [.launch i kd.kernelBaseAddr, .activate i], [],
      .of_books hs (by simp), by simp, congrArg (fun b => b.2.2.2.1)
        (show St.books _ = St.books s by simp), status_cases (by simp) (by simp) hdispatch⟩
  | @launchInfinite t room kd hp hg hlen hf hw hroom =>
    obtain ⟨-, hover, new, hnew, hrep⟩ := hw.evident (.of_books hs (by simp))
      (ring_of_books (by simp)) hs hrel hready
    refine ⟨[s.toCore.ownRaise i] ++ .status i .done ::
      [.launch i kd.kernelBaseAddr, .activate i], new, hnew.before rfl rfl rfl, ?_,
      hover.trans (congrArg (fun b => b.2.2.2.1) (show St.books _ = St.books s by simp)),
      status_cases (by simp) (by simp [Core.ownRaise]) (hdone hrep)⟩
    simp [hw.toCore, Core.ownRaise]
  | launchLost kd hp hg hlen hf hw =>
    obtain ⟨hroom, -⟩ := hw.evident (.of_books hs (by simp)) (ring_of_books (by simp)) hs hrel
      hready
    cases hroom
  | failStop code detail aux cst cdetail hcode hcst hw hstop =>
    obtain ⟨hover, hlog, new, hnew, hwit⟩ := hfail hcode hcst hw
    exact ⟨[] ++ .status i .error :: [.activate i], new, hnew, hlog, hover,
      status_cases hactivate (by simp) hwit⟩
  | @failOn t room code detail aux cst cdetail hcode hcst hw hroom hgo =>
    obtain ⟨hover, hlog, new, hnew, hwit⟩ := hfail hcode hcst hw
    refine ⟨[t.toCore.ownRaise i] ++ .status i .error :: [.activate i], new,
      hnew.before rfl rfl rfl, ?_, hover, status_cases hactivate (by simp [Core.ownRaise]) hwit⟩
    simp [hlog, Core.ownRaise]
  | halt hw hv =>
    obtain ⟨-, hover, new, hnew, hrep⟩ := hw.evident (.of_books hs rfl) rfl hs hrel hready
    exact ⟨[] ++ .status i .done :: [.activate i], new, hnew, by rw [hw.toCore]; rfl, hover,
      status_cases hactivate (by simp) (hdone hrep)⟩
  | hang hu =>
    obtain ⟨evs, hlog, hevs⟩ := hu.pending
    exact ⟨evs, [], hu.logged hs hspare.1, hlog, hu.overrun,
      fun j st h => by rw [hevs j st h]; trivial⟩

theorem Check.evident {k : Inflight} {v : St.Poll} (h : Check s inp i k t v)
    (hs : s.Holds base items taken) (hrel : inp.Releases base taken items.length upto) :
    ∃ evs new, Logged base upto s t items taken new ∧ Evident s t evs new := by
  have hseen : ∀ j st, Event.status j st ∈ [Event.apDone k.nodeIndex k.baseAddr] →
      st = .pending := by simp
  have hdone {t : St} {room : Room}
      (hready : cqRoom (s.toCore.flagsOf k) s.ctrl = .ready)
      (hw : Write ((((s.polled inp k).note (.apDone k.nodeIndex k.baseAddr)).setStatus k.nodeIndex
        .done).raise k.nodeIndex k.setBucket.toNat k.setMask) inp (s.toCore.flagsOf k)
        (BitVec.ofNat 32 k.nodeIndex) .ok 0 t room) :
      room = .ready ∧ t.overrun = s.overrun ∧
        ∃ new, Logged base upto s t items taken new ∧ s.toCore.Witnessed k.nodeIndex .done new := by
    obtain ⟨hroom, hover, new, hnew, hrep⟩ := hw.evident (.of_books hs rfl) rfl hs hrel hready
    exact ⟨hroom, hover, new, hnew, .inl hrep⟩
  have hexpired {t : St} {room : Room}
      (hready : cqRoom (s.toCore.flagsOf k) s.ctrl = .ready)
      (hw : Write (((s.polled inp k).setStatus k.nodeIndex .error).latch .kernelTimeout
        (BitVec.ofNat 32 k.nodeIndex) k.baseAddr k.timeoutCycles
        (hasFlag (s.toCore.flagsOf k) flagHaltOnError)) inp (s.toCore.flagsOf k)
        (BitVec.ofNat 32 k.nodeIndex) .timeout k.baseAddr t room) :
      t.overrun = s.overrun ∧
        ∃ new, Logged base upto s t items taken new ∧
          s.toCore.Witnessed k.nodeIndex .error new := by
    obtain ⟨-, hover, new, hnew, hrep⟩ := hw.evident
      (.still hs rfl rfl ⟨[_], rfl, by simp⟩) rfl hs hrel hready
    have herror : Reported (s.toCore.flagsOf k) k.nodeIndex
        (fun st => st = .error ∨ st = .timeout) new := hrep.imp fun st h => .inr h
    exact ⟨hover, new, hnew, herror⟩
  cases h with
  | corrupt hroom => exact absurd hroom (hs.room_ne_corrupt _)
  | blocked bus hroom => exact ⟨[], [], .still hs rfl rfl ⟨[], rfl, by simp⟩, rfl, rfl, by simp⟩
  | idle => exact ⟨[], [], .of_books hs rfl, rfl, rfl, by simp⟩
  | doneInfinite hinf =>
    exact ⟨[.apDone k.nodeIndex k.baseAddr], [], .of_books hs rfl, rfl, rfl, by simp⟩
  | @done t room hfin hready hw hroom =>
    obtain ⟨-, hover, new, hnew, hwit⟩ := hdone hready hw
    refine ⟨[.raise k.nodeIndex k.setBucket.toNat k.setMask] ++ .status k.nodeIndex .done ::
      [.apDone k.nodeIndex k.baseAddr], new, hnew.before rfl rfl rfl, ?_, hover,
      status_cases hseen (by simp) hwit⟩
    simp [hw.toCore]
    rfl
  | doneStop hfin hready hw =>
    obtain ⟨hroom, -⟩ := hdone hready hw
    cases hroom
  | expireStop hready hw hstop =>
    obtain ⟨hover, new, hnew, hwit⟩ := hexpired hready hw
    refine ⟨[] ++ .status k.nodeIndex .error :: [], new, hnew, ?_, hover,
      status_cases (by simp) (by simp) hwit⟩
    rw [hw.toCore]
    rfl
  | @expireOn t room hready hnot hlate hw hroom hgo =>
    obtain ⟨hover, new, hnew, hwit⟩ := hexpired hready hw
    refine ⟨[.raise k.nodeIndex k.setBucket.toNat k.setMask] ++ .status k.nodeIndex .error :: [],
      new, hnew.before rfl rfl rfl, ?_, hover, status_cases (by simp) (by simp) hwit⟩
    simp [hw.toCore]
    rfl

theorem Waken.evident {v : Verdict} (h : Waken s inp i t v) (hs : s.Holds base items taken)
    (hrel : inp.Releases base taken items.length upto) :
    ∃ evs new, Logged base upto s t items taken new ∧ Evident s t evs new := by
  cases h with
  | idle => exact ⟨[], [], .of_books hs rfl, rfl, rfl, by simp⟩
  | blocked hw hroom => exact ⟨[], [], .still hs rfl rfl ⟨[], rfl, by simp⟩, rfl, rfl, by simp⟩
  | corrupt hroom => exact absurd hroom (hs.room_ne_corrupt _)
  | wake hwait hready hw =>
    obtain ⟨-, hover, new, hnew, hrep⟩ := hw.evident (.of_books hs rfl) rfl hs hrel hready
    have hwit : s.toCore.Witnessed i .done new := .inl hrep
    refine ⟨[s.toCore.ownRaise i] ++ .status i .done :: [], new, hnew, ?_, hover,
      status_cases (by simp) (by simp [Core.ownRaise]) hwit⟩
    simp [hw.toCore, Core.ownRaise]

theorem Drain.evident {k : Inflight} {removed : Bool} (h : Drain s inp i k t removed)
    (hs : s.Holds base items taken) (hrel : inp.Releases base taken items.length upto) :
    ∃ evs new, Logged base upto s t items taken new ∧ Evident s t evs new := by
  have hseen : ∀ j st, Event.status j st ∈ [Event.apDone k.nodeIndex k.baseAddr] →
      st = .pending := by simp
  cases h with
  | keep bus => exact ⟨[], [], .still hs rfl rfl ⟨[], rfl, by simp⟩, rfl, rfl, by simp⟩
  | infinite hinf => exact ⟨[], [], .still hs rfl rfl ⟨[], rfl, by simp⟩, rfl, rfl, by simp⟩
  | corrupt hroom => exact absurd hroom (hs.room_ne_corrupt _)
  | done => exact ⟨[.apDone k.nodeIndex k.baseAddr], [], .of_books hs rfl, rfl, rfl, by simp⟩
  | @doneReport u room hready hw =>
    obtain ⟨hroom, hover, new, hnew, hrep⟩ := hw.evident (.of_books hs rfl) rfl hs hrel hready
    subst hroom
    have hwit : s.toCore.Witnessed k.nodeIndex .done new := .inl hrep
    refine ⟨[] ++ .status k.nodeIndex .done :: [.apDone k.nodeIndex k.baseAddr], new,
      hnew.before rfl rfl rfl, ?_, hover, status_cases hseen (by simp) hwit⟩
    simp [St.unlessCorrupt, hw.toCore]
    rfl
  | expired => exact ⟨[], [], .still hs rfl rfl ⟨[], rfl, by simp⟩, rfl, rfl, by simp⟩
  | @expiredReport u room hready hw =>
    obtain ⟨hroom, hover, new, hnew, hrep⟩ := hw.evident (.of_books hs rfl) rfl hs hrel hready
    subst hroom
    have herror : Reported (s.toCore.flagsOf k) k.nodeIndex
        (fun st => st = .error ∨ st = .timeout) new := hrep.imp fun st h => .inr h
    have hwit : s.toCore.Witnessed k.nodeIndex .error new := herror
    refine ⟨[] ++ .status k.nodeIndex .error :: [], new, hnew.before rfl rfl rfl, ?_, hover,
      status_cases (by simp) (by simp) hwit⟩
    simp [St.unlessCorrupt, hw.toCore]
    rfl

/-- The packet about to be activated stores neither to the queue nor to the packets. -/
def St.SparesEvidence (s : St) (inp : Input) : Prop := s.Next (s.SparesBoth inp)

instance (s : St) (inp : Input) : Decidable (s.SparesEvidence inp) :=
  inferInstanceAs (Decidable (s.Next _))

theorem St.SparesEvidence.queue (h : s.SparesEvidence inp) : s.SparesQueue inp := by
  unfold St.SparesEvidence St.Next at h
  unfold St.SparesQueue St.Next
  split
  · rename_i j hphase
    rw [hphase] at h
    exact fun hj => (h hj).1
  · trivial

theorem Evident.moved {evs : List Event} (h : Evident s t evs new) (p : Phase) (b : Bool) :
    Evident s { t with phase := p, progress := b } evs new :=
  ⟨h.log, h.overrun, h.status⟩

theorem Stride.evident (h : Stride s inp t) (hs : s.Holds base items taken)
    (hrel : inp.Releases base taken items.length upto) (hspare : s.SparesEvidence inp)
    (hvalid : s.phase = .validate → s.validateNodes = none)
    (hnot : ∀ bad detail, s.phase ≠ .reject bad detail) :
    ∃ evs new, Logged base upto s t items taken new ∧ Evident s t evs new := by
  cases h with
  | begin | again | scanned | polled | waited | complete | drained | drainAgain | ended =>
    exact ⟨[], [], .still hs rfl rfl ⟨[], rfl, by simp⟩, rfl, rfl, by simp⟩
  | invalid hphase hbad =>
    rw [hvalid hphase] at hbad
    cases hbad
  | reject hphase hw => exact absurd hphase (hnot _ _)
  | visit hphase hi hv =>
    cases hv with
    | idle hn => exact ⟨[], [], .still hs rfl rfl ⟨[], rfl, by simp⟩, rfl, rfl, by simp⟩
    | blocked he hroom => exact ⟨[], [], .still hs rfl rfl ⟨[], rfl, by simp⟩, rfl, rfl, by simp⟩
    | corrupt hroom => exact absurd hroom (hs.room_ne_corrupt _)
    | turn he hroom ht =>
      obtain ⟨evs, new, hnew, hev⟩ := ht.evident hs hrel hroom
        (hspare.of_starts ⟨hphase, hi, he, hroom⟩)
      exact ⟨evs, new, hnew.before rfl rfl rfl, hev.moved _ _⟩
  | check hphase hk hc =>
    obtain ⟨evs, new, hnew, hev⟩ := hc.evident hs hrel
    exact ⟨evs, new, hnew.before rfl rfl rfl, hev.moved _ _⟩
  | wait hphase hi hw =>
    obtain ⟨evs, new, hnew, hev⟩ := hw.evident hs hrel
    exact ⟨evs, new, hnew.before rfl rfl rfl, hev.moved _ _⟩
  | drain hphase hk hd =>
    obtain ⟨evs, new, hnew, hev⟩ := hd.evident hs hrel
    exact ⟨evs, new, hnew.before rfl rfl rfl, hev.moved _ _⟩

/-! ## Every step of a run -/

/-- The graph was validated: it is not, and will not be, on the way to its rejection. -/
structure St.Admitted (s : St) : Prop where
  valid : s.phase = .validate → s.validateNodes = none
  kept : ∀ bad detail, s.phase ≠ .reject bad detail

theorem Stride.admitted (h : Stride s inp t) (hs : s.Admitted) : t.Admitted := by
  have hpoll (i : Nat) (v : St.Poll) : v.phase i ≠ .validate ∧
      ∀ bad detail, v.phase i ≠ .reject bad detail := by
    cases v <;> simp [St.Poll.phase]
  have hnext (p : Phase) (v : Verdict) (hp : p ≠ .validate ∧ ∀ bad detail, p ≠ .reject bad detail) :
      v.phase p ≠ .validate ∧ ∀ bad detail, v.phase p ≠ .reject bad detail := by
    cases v with
    | next => exact hp
    | stop | hang => simp [Verdict.phase]
  have hof {t : St} (h : t.phase ≠ .validate ∧ ∀ bad detail, t.phase ≠ .reject bad detail) :
      t.Admitted := ⟨fun hv => absurd hv h.1, h.2⟩
  cases h with
  | invalid hphase hbad =>
    rw [hs.valid hphase] at hbad
    cases hbad
  | reject hphase => exact absurd hphase (hs.kept _ _)
  | ended => exact hs
  | visit | wait => exact hof (hnext _ _ (by simp))
  | check => exact hof (hpoll _ _)
  | begin | again | scanned | polled | waited | complete | drain | drained | drainAgain =>
    exact hof (by simp [St.beginPass])

end Step

section Run

variable {base : Nat} {old : List CqEntry} {q : Queue}

/-- The firmware half of a queue action is a scanner step, and then the host's cursor. -/
theorem Queue.step_fw (q : Queue) (mid : Bool) (inp : Input) :
    (q.step (.fw mid inp)).fw =
      (q.fw.fwStep (q.input mid inp)).release (q.input mid inp).release := by
  simp only [Queue.step, Queue.input]
  cases (if mid = true then q.host.publishes else none) <;> rfl

theorem Queue.Sound.releases (h : q.Sound base old) (mid : Bool) (inp : Input) :
    ∃ taken upto, q.fw.Holds base (old ++ q.fw.appended.reverse) taken ∧
      (q.input mid inp).Releases base taken (old ++ q.fw.appended.reverse).length upto := by
  obtain ⟨taken, hring, hat⟩ := h.ring
  unfold Queue.input
  cases hp : (if mid = true then q.host.publishes else none) with
  | none => exact ⟨taken, taken, hring, .inl ⟨rfl, rfl⟩⟩
  | some stop =>
    have hmid : q.host.publishes = some stop := by
      cases mid with
      | true => exact hp
      | false => cases hp
    obtain ⟨upto, hstop, hle, hupto, -⟩ := hat.publish hring h.cursor hmid
    exact ⟨taken, upto, hring, .inr ⟨congrArg some hstop, hle, hupto⟩⟩

/-- The step about to be taken stores neither to the queue nor to the packets. -/
def Queue.SparesEvidence (q : Queue) : QueueAct → Prop
  | .fw mid inp => q.fw.SparesEvidence (q.input mid inp)
  | _ => True

instance (q : Queue) (a : QueueAct) : Decidable (q.SparesEvidence a) :=
  match a with
  | .fw mid inp => inferInstanceAs (Decidable (q.fw.SparesEvidence (q.input mid inp)))
  | .drain | .signal _ _ => isTrue trivial

theorem Queue.SparesEvidence.queue {a : QueueAct} (h : q.SparesEvidence a) : q.SparesQueue a := by
  cases a with
  | fw mid inp => exact St.SparesEvidence.queue h
  | drain | signal => trivial

/-- What holds of a validated graph and its queue between two steps. -/
structure Queue.Evidenced (base : Nat) (old : List CqEntry) (q : Queue) : Prop where
  sound : q.Sound base old
  admitted : q.fw.Admitted
  overrun : q.fw.overrun = false

theorem Queue.Evidenced.fw (h : q.Evidenced base old) {mid : Bool} {inp : Input}
    (hspare : q.SparesEvidence (.fw mid inp)) :
    ∃ evs new, (q.step (.fw mid inp)).fw.appended = new.reverse ++ q.fw.appended ∧
      Evident q.fw (q.step (.fw mid inp)).fw evs new := by
  obtain ⟨taken, upto, hring, hrel⟩ := h.sound.releases mid inp
  obtain ⟨evs, new, hlog, hev⟩ := (q.fw.fwStep_stride _).evident hring hrel hspare
    h.admitted.valid h.admitted.kept
  refine ⟨evs, new, ?_, ?_⟩
  · rw [q.step_fw]
    exact hlog.appended
  · rw [q.step_fw]
    exact ⟨hev.log, hev.overrun, hev.status⟩

theorem Queue.Evidenced.step {a : QueueAct} (hspare : q.SparesEvidence a)
    (h : q.Evidenced base old) : (q.step a).Evidenced base old := by
  have hsound := Queue.Sound.step hspare.queue h.sound
  cases a with
  | fw mid inp =>
    obtain ⟨evs, new, -, hev⟩ := h.fw hspare
    have hadm : (q.fw.fwStep (q.input mid inp)).Admitted :=
      (q.fw.fwStep_stride _).admitted h.admitted
    refine ⟨hsound, ?_, hev.overrun.trans h.overrun⟩
    rw [q.step_fw]
    exact ⟨hadm.valid, hadm.kept⟩
  | drain =>
    refine ⟨hsound, ?_, ?_⟩
    · simp only [Queue.step]
      split
      · exact ⟨h.admitted.valid, h.admitted.kept⟩
      · exact h.admitted
    · simp only [Queue.step]
      split <;> exact h.overrun
  | signal slot v => exact ⟨hsound, ⟨h.admitted.valid, h.admitted.kept⟩, h.overrun⟩

end Run

theorem configError_ring {c : Ctrl} (h : c.configError = none) :
    isPowerOfTwo c.cqSize = true ∧ c.cqUsed ≤ c.cqSize := by
  unfold Ctrl.configError at h
  split_ifs at h with h1 h2 h3 h4 h5
  · rw [not_or, not_not] at h3
    exact ⟨h3.1, BitVec.not_lt.mp h5⟩

theorem Start.evidenced {s : St} (hs : Start s) (hvalid : s.validateNodes = none) :
    (Queue.start s).Evidenced s.ctrl.cqReadIdx.toNat
      (ringContent s.ctrl.cqSize s.cq s.ctrl.cqWriteIdx s.ctrl.cqReadIdx) := by
  obtain ⟨hsize, hused⟩ := configError_ring hs.config
  refine ⟨Queue.start_sound hsize hused hs.appended (by simp [hs.errors]), ?_, hs.overrun⟩
  exact ⟨fun _ => hvalid, fun bad detail h => by cases hs.phase.symm.trans h⟩

/-- A NOP, and a silent DMA packet that stores to its own first word: opcode and flags. -/
def unsilencing : Nat → Node
  | 0 => nopNode
  | _ => { packetAt 0 0 0 (.dmaFill ⟨ctrlPhysAddr + defaultNodeArrayOffset + 64, 4, 0x00000021⟩) with
    flags := flagSilent }

end Slash.Rp1
