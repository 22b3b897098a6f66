import Slash.Lib.Ring
import Slash.Rp1.Errors

/-!
# The completion queue, both sides

The firmware appends with `write_cq_entry`, the host empties the ring with
`Rp1Submitter::drainAvailableCq`: snapshot the write cursor, copy the entries one by one, publish
the read cursor. `Queue` is the scanner and a drain, one access of the host at a time, in any
interleaving; the host may publish its cursor in the middle of a firmware step.

The ring and its cursors are DDR like everything else. A DMA packet that stores to them is not a
party to the protocol, and what is said here excludes it.
-/

namespace Slash.Rp1

open Lib List

/-! ## `drainAvailableCq` -/

inductive DrainPc where
  | rest
  /-- the write cursor was `stop`; `copied` entries are copied -/
  | copying (stop : U32) (copied : Nat)
  /-- threw on cursors beyond the ring -/
  | failed
  deriving DecidableEq, Repr

/-- The consumer's side: `cq_size_`, `cq_cursor_`, what it has copied, oldest first. -/
structure Drainer where
  cqSize : U32
  cursor : U32
  retained : List CqEntry
  pc : DrainPc
  deriving DecidableEq, Repr

namespace Drainer

/-- The read cursor the drain is about to publish. -/
def publishes (d : Drainer) : Option U32 :=
  match d.pc with
  | .copying stop copied => if copied < (stop - d.cursor).toNat then none else some stop
  | _ => none

def published (d : Drainer) (stop : U32) : Drainer := { d with cursor := stop, pc := .rest }

def access (d : Drainer) (s : St) : Drainer :=
  match d.pc with
  | .rest =>
    if s.ctrl.cqWriteIdx - d.cursor > d.cqSize then { d with pc := .failed }
    else { d with pc := .copying s.ctrl.cqWriteIdx 0 }
  | .copying stop copied =>
    { d with
      retained := d.retained ++
        [s.cq ((d.cursor + BitVec.ofNat 32 copied) &&& (d.cqSize - 1)).toNat]
      pc := .copying stop (copied + 1) }
  | .failed => d

end Drainer

structure Queue where
  fw : St
  host : Drainer

/-- A firmware step, with the host publishing its cursor in the middle of it if `mid`; one access
of the drain; a signal written by anyone. -/
inductive QueueAct where
  | fw (mid : Bool) (inp : Input)
  | drain
  | signal (slot : Nat) (value : U32)

def Queue.step (q : Queue) : QueueAct → Queue
  | .fw mid inp =>
    match (if mid then q.host.publishes else none) with
    | some stop =>
      -- a step without an entry has no middle: the host comes after it
      ⟨(q.fw.fwStep { inp with release := some stop }).release (some stop), q.host.published stop⟩
    | none => { q with fw := q.fw.fwStep { inp with release := none } }
  | .drain =>
    match q.host.publishes with
    | some stop => ⟨q.fw.release (some stop), q.host.published stop⟩
    | none => { q with host := q.host.access q.fw }
  | .signal slot v => { q with fw := { q.fw with signals := upd q.fw.signals slot v } }

/-! ## The ring under the firmware -/

/-- The ring as the control block sees it. -/
def St.Holds (s : St) (base : Nat) (items : List CqEntry) (taken : Nat) : Prop :=
  RingHolds s.ctrl.cqSize s.cq s.ctrl.cqWriteIdx s.ctrl.cqReadIdx base items taken

/-- The host publishes nothing inside a step, or that it has copied all entries up to `upto`. -/
def Input.Releases (inp : Input) (base taken total upto : Nat) : Prop :=
  inp.release = none ∧ upto = taken ∨
    inp.release = some (BitVec.ofNat 32 (base + upto)) ∧ taken ≤ upto ∧ upto ≤ total

/-- From `s` to `t` the entries `new` were appended, oldest first; the read cursor is where it was
or where the host put it. -/
structure Logged (base upto : Nat) (s t : St) (items : List CqEntry) (taken : Nat)
    (new : List CqEntry) : Prop where
  ring : ∃ n, t.Holds base (items ++ new) n ∧ (n = taken ∨ n = upto)
  appended : t.appended = new.reverse ++ s.appended
  errors : ∃ es, t.errors = es ++ s.errors ∧ ∀ e ∈ es, e.code ≠ .cqCorrupt
  size : t.ctrl.cqSize = s.ctrl.cqSize

section Ring

variable {s t u : St} {inp : Input} {base taken upto : Nat} {items : List CqEntry}

theorem St.Holds.congr (h : s.Holds base items taken) (hring : t.ring = s.ring) :
    t.Holds base items taken := by
  simp only [St.ring, Prod.mk.injEq] at hring
  obtain ⟨h1, h2, h3, -, h5⟩ := hring
  rw [St.Holds, h1, h2, h3, h5]
  exact h

theorem ring_of_books (h : t.books = s.books) : t.ring = s.ring := by
  simp only [St.books, Prod.mk.injEq] at h
  obtain ⟨hctrl, -, -, -, -, hbase, hcq⟩ := h
  rw [St.ring, St.ring, hctrl, hbase, hcq]

theorem St.Holds.room_ne_corrupt (h : s.Holds base items taken) (flags : U16) :
    cqRoom flags s.ctrl ≠ .corrupt := by
  have hle : s.ctrl.cqUsed ≤ s.ctrl.cqSize := h.used_le
  have hnot : ¬ s.ctrl.cqUsed > s.ctrl.cqSize := by
    rw [gt_iff_lt, BitVec.not_lt]
    exact hle
  simp only [cqRoom, hnot, if_false]
  split
  · simp
  · split <;> simp

/-- There is room exactly when fewer than a ring of entries are not released. -/
theorem St.Holds.ready_iff (h : s.Holds base items taken) {flags : U16}
    (hsilent : hasFlag flags flagSilent = false) :
    cqRoom flags s.ctrl = .ready ↔ items.length < taken + s.ctrl.cqSize.toNat := by
  have hle : s.ctrl.cqUsed ≤ s.ctrl.cqSize := h.used_le
  have hnot : ¬ s.ctrl.cqUsed > s.ctrl.cqSize := by
    rw [gt_iff_lt, BitVec.not_lt]
    exact hle
  have hused : s.ctrl.cqUsed.toNat = items.length - taken := h.used
  have htaken := h.taken_le
  have hfits := h.fits
  have heq : s.ctrl.cqUsed = s.ctrl.cqSize ↔ items.length = taken + s.ctrl.cqSize.toNat := by
    rw [← BitVec.toNat_inj, hused]
    omega
  simp only [cqRoom, hsilent, hnot, if_false, heq, Bool.false_eq_true]
  split
  · simp
    omega
  · simp
    omega

theorem release_holds (h : s.Holds base items taken)
    (hrel : inp.Releases base taken items.length upto) :
    ∃ n, (s.release inp.release).Holds base items n ∧ taken ≤ n ∧ (n = taken ∨ n = upto) := by
  rcases hrel with ⟨hr, -⟩ | ⟨hr, hle, hn⟩
  · rw [hr]
    exact ⟨taken, h, Nat.le_refl _, .inl rfl⟩
  · rw [hr]
    exact ⟨upto, h.release hle hn, hle, .inr rfl⟩

/-- The entry `write_cq_entry` appends. -/
def entryOf (s : St) (inp : Input) (flags : U16) (node : U32) (st : CqStatus) (detail : U32) :
    List CqEntry :=
  if hasFlag flags flagSilent then [] else [⟨node, st, detail, inp.now - s.graphStartCycles⟩]

/-- A call of `write_cq_entry` appends at most one entry and never meets corrupt cursors; after a
reservation it appends what it was asked to. -/
theorem Write.logged {flags : U16} {node : U32} {st : CqStatus} {detail : U32} {room : Room}
    (h : Write s inp flags node st detail t room) (hs : s.Holds base items taken)
    (hrel : inp.Releases base taken items.length upto) :
    room ≠ .corrupt ∧ ∃ new, Logged base upto s t items taken new ∧
      (cqRoom flags s.ctrl = .ready → room = .ready ∧ t.overrun = s.overrun ∧
        new = entryOf s inp flags node st detail) := by
  obtain ⟨n, hn, hle, hwhere⟩ := release_holds hs hrel
  have hquiet {t : St} (hring : t.ring = (s.release inp.release).ring)
      (happ : t.appended = s.appended) (herr : t.errors = s.errors) :
      Logged base upto s t items taken [] := by
    refine ⟨⟨n, ?_, hwhere⟩, happ, ⟨[], herr, by simp⟩, congrArg Prod.fst hring⟩
    rw [append_nil]
    exact hn.congr hring
  cases h with
  | silent hsilent =>
    exact ⟨by simp, [], hquiet rfl rfl rfl, fun _ => ⟨rfl, rfl, by simp [entryOf, hsilent]⟩⟩
  | append hsilent hroom =>
    refine ⟨by simp, [⟨node, st, detail, inp.now - s.graphStartCycles⟩], ?_,
      fun _ => ⟨rfl, rfl, by simp [entryOf, hsilent]⟩⟩
    refine ⟨⟨n, ?_, hwhere⟩, rfl, ⟨[], rfl, by simp⟩, rfl⟩
    have hlt : items.length < n + s.ctrl.cqSize.toNat := (hn.ready_iff hsilent).mp hroom
    have hn' := hn.taken_le
    refine hn.push _ fun hfull => ?_
    have hused : s.ctrl.cqSize.toNat = items.length - n := by
      rw [← hn.used, hfull]
      rfl
    omega
  | full hroom =>
    refine ⟨by simp, [], hquiet rfl rfl rfl, fun hready => ?_⟩
    -- the host can only have made more room since the reservation
    cases hsilent : hasFlag flags flagSilent with
    | true => simp [cqRoom, hsilent] at hroom
    | false =>
      have hbefore := (hs.ready_iff hsilent).mp hready
      have hafter : cqRoom flags (s.release inp.release).ctrl = .ready :=
        (hn.ready_iff hsilent).mpr (Nat.lt_of_lt_of_le hbefore (Nat.add_le_add_right hle _))
      rw [hafter] at hroom
      cases hroom
  | corrupt hroom => exact absurd hroom (hn.room_ne_corrupt flags)

theorem Logged.still (hs : s.Holds base items taken) (hring : t.ring = s.ring)
    (happ : t.appended = s.appended)
    (herr : ∃ es, t.errors = es ++ s.errors ∧ ∀ e ∈ es, e.code ≠ .cqCorrupt) :
    Logged base upto s t items taken [] := by
  refine ⟨⟨taken, ?_, .inl rfl⟩, happ, herr, congrArg Prod.fst hring⟩
  rw [append_nil]
  exact hs.congr hring

theorem Logged.of_books (hs : s.Holds base items taken) (hbooks : t.books = s.books) :
    Logged base upto s t items taken [] :=
  .still hs (ring_of_books hbooks) (congrArg (fun b => b.2.1) hbooks)
    ⟨[], congrArg (fun b => b.2.2.1) hbooks, by simp⟩

theorem Logged.after {new : List CqEntry} (h : Logged base upto u t items taken new)
    (happ : u.appended = s.appended)
    (herr : ∃ es, u.errors = es ++ s.errors ∧ ∀ e ∈ es, e.code ≠ .cqCorrupt)
    (hsize : u.ctrl.cqSize = s.ctrl.cqSize) : Logged base upto s t items taken new := by
  obtain ⟨es, hes, hne⟩ := herr
  obtain ⟨es', hes', hne'⟩ := h.errors
  refine ⟨h.ring, by rw [h.appended, happ], ⟨es' ++ es, ?_, ?_⟩, h.size.trans hsize⟩
  · rw [hes', hes, append_assoc]
  · intro e he
    rcases mem_append.mp he with he | he
    · exact hne' e he
    · exact hne e he

theorem Logged.before {new : List CqEntry} (h : Logged base upto s u items taken new)
    (hring : t.ring = u.ring) (happ : t.appended = u.appended) (herr : t.errors = u.errors) :
    Logged base upto s t items taken new := by
  obtain ⟨n, hn, hwhere⟩ := h.ring
  obtain ⟨es, hes, hne⟩ := h.errors
  exact ⟨⟨n, hn.congr hring, hwhere⟩, happ.trans h.appended, ⟨es, herr.trans hes, hne⟩,
    (congrArg Prod.fst hring).trans h.size⟩

/-! ## Every scanner step -/

/-- The packet stores to no word of the queue. -/
def St.SparesRing (s : St) (inp : Input) (i : Nat) : Prop :=
  ∀ w ∈ (s.nodes i).payload.stores inp, ¬ s.RingWord w.1

instance (s : St) (inp : Input) (i : Nat) : Decidable (s.SparesRing inp i) :=
  List.decidableBAll _ _

variable {i : Nat}

theorem Prepared.logged (hu : Prepared s inp i u) (hs : s.Holds base items taken)
    (hspare : s.SparesRing inp i) : Logged base upto s u items taken [] :=
  .still hs (hu.ring hspare) hu.appended ⟨[], hu.errors, by simp⟩

theorem Write.logged_after {flags : U16} {node : U32} {st : CqStatus} {detail : U32} {room : Room}
    (h : Write u inp flags node st detail t room) (hu : Logged base upto s u items taken [])
    (hring : u.ring = s.ring) (hs : s.Holds base items taken)
    (hrel : inp.Releases base taken items.length upto) :
    room ≠ .corrupt ∧ ∃ new, Logged base upto s t items taken new := by
  obtain ⟨hroom, new, hnew, -⟩ := h.logged (hs.congr hring) hrel
  exact ⟨hroom, new, hnew.after hu.appended hu.errors hu.size⟩

theorem Turn.logged {v : Verdict} (h : Turn s inp i t v) (hs : s.Holds base items taken)
    (hrel : inp.Releases base taken items.length upto) (hspare : s.SparesRing inp i) :
    ∃ new, Logged base upto s t items taken new := by
  have hfail {code : Err} {detail aux cdetail : U32} {cst : CqStatus} {room : Room} {t : St}
      (hcode : code.OfPacket)
      (hw : Write (((s.note (.activate i)).setStatus i .error).latch code (BitVec.ofNat 32 i) detail
        aux (hasFlag (s.nodes i).flags flagHaltOnError)) inp (s.nodes i).flags (BitVec.ofNat 32 i)
        cst cdetail t room) : ∃ new, Logged base upto s t items taken new := by
    have hne : code ≠ .cqCorrupt := by
      rintro rfl
      exact hcode
    exact (hw.logged_after (.still hs rfl rfl ⟨[_], rfl, by simpa using hne⟩) rfl hs hrel).2
  cases h with
  | @finish u _ _ hu hw =>
    have hprep : Logged base upto s ((u.setStatus i .done).raiseOwn i) items taken [] :=
      (hu.logged hs hspare).before rfl rfl rfl
    exact (hw.logged_after hprep (hu.ring hspare) hs hrel).2
  | @iterate u p hp hx hu => exact ⟨[], (hu.logged hs hspare).before rfl rfl rfl⟩
  | park p hp => exact ⟨[], .of_books hs rfl⟩
  | launch kd => exact ⟨[], .of_books hs (by simp)⟩
  | launchInfinite kd hp hg hlen hf hw hroom =>
    obtain ⟨-, new, hnew⟩ := hw.logged_after (.of_books hs (by simp)) (ring_of_books (by simp)) hs
      hrel
    exact ⟨new, hnew.before rfl rfl rfl⟩
  | launchLost kd hp hg hlen hf hw =>
    exact (hw.logged_after (.of_books hs (by simp)) (ring_of_books (by simp)) hs hrel).2
  | failStop code detail aux cst cdetail hcode hcst hw hstop => exact hfail hcode hw
  | failOn code detail aux cst cdetail hcode hcst hw hroom hgo =>
    obtain ⟨new, hnew⟩ := hfail hcode hw
    exact ⟨new, hnew.before rfl rfl rfl⟩
  | halt hw hv => exact (hw.logged_after (.of_books hs rfl) rfl hs hrel).2
  | hang hu => exact ⟨[], hu.logged hs hspare⟩

theorem Check.logged {k : Inflight} {v : St.Poll} (h : Check s inp i k t v)
    (hs : s.Holds base items taken) (hrel : inp.Releases base taken items.length upto) :
    ∃ new, Logged base upto s t items taken new := by
  have hexpired {t : St} {room : Room}
      (hw : Write (((s.polled inp k).setStatus k.nodeIndex .error).latch .kernelTimeout
        (BitVec.ofNat 32 k.nodeIndex) k.baseAddr k.timeoutCycles
        (hasFlag (s.toCore.flagsOf k) flagHaltOnError)) inp (s.toCore.flagsOf k)
        (BitVec.ofNat 32 k.nodeIndex) .timeout k.baseAddr t room) :
      ∃ new, Logged base upto s t items taken new := by
    exact (hw.logged_after (.still hs rfl rfl ⟨[_], rfl, by simp⟩) rfl hs hrel).2
  cases h with
  | corrupt hroom => exact absurd hroom (hs.room_ne_corrupt _)
  | blocked bus hroom => exact ⟨[], .still hs rfl rfl ⟨[], rfl, by simp⟩⟩
  | idle => exact ⟨[], .of_books hs rfl⟩
  | doneInfinite hinf => exact ⟨[], .of_books hs rfl⟩
  | done hfin hready hw hroom =>
    obtain ⟨-, new, hnew⟩ := hw.logged_after (.of_books hs rfl) rfl hs hrel
    exact ⟨new, hnew.before rfl rfl rfl⟩
  | doneStop hfin hready hw => exact (hw.logged_after (.of_books hs rfl) rfl hs hrel).2
  | expireStop hready hw hstop => exact hexpired hw
  | expireOn hready hnot hlate hw hroom hgo =>
    obtain ⟨new, hnew⟩ := hexpired hw
    exact ⟨new, hnew.before rfl rfl rfl⟩

theorem Waken.logged {v : Verdict} (h : Waken s inp i t v) (hs : s.Holds base items taken)
    (hrel : inp.Releases base taken items.length upto) :
    ∃ new, Logged base upto s t items taken new := by
  cases h with
  | idle => exact ⟨[], .of_books hs rfl⟩
  | blocked hw hroom => exact ⟨[], .still hs rfl rfl ⟨[], rfl, by simp⟩⟩
  | corrupt hroom => exact absurd hroom (hs.room_ne_corrupt _)
  | wake hwait hready hw => exact (hw.logged_after (.of_books hs rfl) rfl hs hrel).2

theorem Drain.logged {k : Inflight} {removed : Bool} (h : Drain s inp i k t removed)
    (hs : s.Holds base items taken) (hrel : inp.Releases base taken items.length upto) :
    ∃ new, Logged base upto s t items taken new := by
  cases h with
  | keep bus => exact ⟨[], .still hs rfl rfl ⟨[], rfl, by simp⟩⟩
  | infinite hinf => exact ⟨[], .still hs rfl rfl ⟨[], rfl, by simp⟩⟩
  | corrupt hroom => exact absurd hroom (hs.room_ne_corrupt _)
  | done => exact ⟨[], .of_books hs rfl⟩
  | @doneReport u room hready hw =>
    obtain ⟨-, new, hnew⟩ := hw.logged_after (.of_books hs rfl) rfl hs hrel
    refine ⟨new, hnew.before ?_ ?_ ?_⟩ <;> cases room <;> rfl
  | expired => exact ⟨[], .still hs rfl rfl ⟨[], rfl, by simp⟩⟩
  | @expiredReport u room hready hw =>
    obtain ⟨-, new, hnew⟩ := hw.logged_after (.of_books hs rfl) rfl hs hrel
    refine ⟨new, hnew.before ?_ ?_ ?_⟩ <;> cases room <;> rfl

/-- The packet about to be activated stores to no word of the queue. -/
def St.SparesQueue (s : St) (inp : Input) : Prop := s.Next (s.SparesRing inp)

instance (s : St) (inp : Input) : Decidable (s.SparesQueue inp) :=
  inferInstanceAs (Decidable (s.Next _))

theorem Visited.logged {v : Verdict} (h : Visited s inp i t v) (hphase : s.phase = .activate i)
    (hi : i < s.nodeCount) (hs : s.Holds base items taken)
    (hrel : inp.Releases base taken items.length upto) (hspare : s.SparesQueue inp) :
    ∃ new, Logged base upto s t items taken new := by
  cases h with
  | idle hn => exact ⟨[], .of_books hs rfl⟩
  | blocked he hroom => exact ⟨[], .still hs rfl rfl ⟨[], rfl, by simp⟩⟩
  | corrupt hroom => exact absurd hroom (hs.room_ne_corrupt _)
  | turn he hroom ht => exact ht.logged hs hrel (hspare.of_starts ⟨hphase, hi, he, hroom⟩)

/-- Every firmware step that spares the queue appends to it or leaves it alone. -/
theorem Stride.logged (h : Stride s inp t) (hs : s.Holds base items taken)
    (hrel : inp.Releases base taken items.length upto) (hspare : s.SparesQueue inp) :
    ∃ new, Logged base upto s t items taken new := by
  cases h with
  | begin | again | scanned | polled | waited | complete | drained | drainAgain | ended =>
    exact ⟨[], .still hs rfl rfl ⟨[], rfl, by simp⟩⟩
  | invalid hphase hbad => exact ⟨[], .still hs rfl rfl ⟨[_], rfl, by simp⟩⟩
  | reject hphase hw =>
    obtain ⟨-, new, hnew, -⟩ := hw.logged hs hrel
    exact ⟨new, hnew.before rfl rfl rfl⟩
  | visit hphase hi hv =>
    obtain ⟨new, hnew⟩ := hv.logged hphase hi hs hrel hspare
    exact ⟨new, hnew.before rfl rfl rfl⟩
  | check hphase hk hc =>
    obtain ⟨new, hnew⟩ := hc.logged hs hrel
    exact ⟨new, hnew.before rfl rfl rfl⟩
  | wait hphase hi hw =>
    obtain ⟨new, hnew⟩ := hw.logged hs hrel
    exact ⟨new, hnew.before rfl rfl rfl⟩
  | drain hphase hk hd =>
    obtain ⟨new, hnew⟩ := hd.logged hs hrel
    exact ⟨new, hnew.before rfl rfl rfl⟩

end Ring

/-! ## Both sides -/

/-- Where the drain stands against the ring: `items` were produced, `taken` of them released. -/
def Drainer.At (d : Drainer) (base : Nat) (items : List CqEntry) (taken : Nat) : Prop :=
  match d.pc with
  | .rest => d.retained = items.take taken
  | .copying stop copied => ∃ n, stop = BitVec.ofNat 32 (base + n) ∧ taken ≤ n ∧
      n ≤ items.length ∧ copied ≤ n - taken ∧ d.retained = items.take (taken + copied)
  | .failed => False

/-- The queue after the entries `old` and then those of the run, numbered from `base`. -/
structure Queue.Sound (base : Nat) (old : List CqEntry) (q : Queue) : Prop where
  ring : ∃ taken, q.fw.Holds base (old ++ q.fw.appended.reverse) taken ∧
    q.host.At base (old ++ q.fw.appended.reverse) taken
  size : q.host.cqSize = q.fw.ctrl.cqSize
  cursor : q.host.cursor = q.fw.ctrl.cqReadIdx
  uncorrupted : ∀ e ∈ q.fw.errors, e.code ≠ .cqCorrupt

section Both

variable {base taken : Nat} {old items new : List CqEntry} {d : Drainer} {q : Queue}

theorem Drainer.At.append (h : d.At base items taken) (htaken : taken ≤ items.length) :
    d.At base (items ++ new) taken := by
  unfold Drainer.At at h ⊢
  split at h
  · rw [take_append_of_le_length htaken]
    exact h
  · obtain ⟨n, hstop, hle, hn, hcopied, hret⟩ := h
    refine ⟨n, hstop, hle, ?_, hcopied, ?_⟩
    · rw [length_append]
      omega
    · rw [take_append_of_le_length (by omega)]
      exact hret
  · exact h

/-- The cursor a drain publishes is that of what it has copied. -/
theorem Drainer.At.publish {s : St} {stop : U32} (h : d.At base items taken)
    (hs : s.Holds base items taken) (hcursor : d.cursor = s.ctrl.cqReadIdx)
    (hp : d.publishes = some stop) :
    ∃ n, stop = BitVec.ofNat 32 (base + n) ∧ taken ≤ n ∧ n ≤ items.length ∧
      (d.published stop).At base items n := by
  unfold Drainer.publishes at hp
  unfold Drainer.At at h
  split at hp
  · rename_i stop' copied hpc
    rw [hpc] at h
    obtain ⟨n, hstop, hle, hn, hcopied, hret⟩ := h
    split at hp
    · cases hp
    · rename_i hall
      cases hp
      refine ⟨n, hstop, hle, hn, ?_⟩
      have hfits := hs.fits
      have hlt := s.ctrl.cqSize.isLt
      have hdist : (stop - d.cursor).toNat = n - taken := by
        rw [hstop, hcursor, hs.read_eq, toNat_ofNat_sub (by omega) (by omega)]
        omega
      rw [hdist] at hall
      have hsum : taken + copied = n := by omega
      rw [hsum] at hret
      exact hret
  · cases hp

theorem Drainer.At.access {s : St} (h : d.At base items taken) (hs : s.Holds base items taken)
    (hsize : d.cqSize = s.ctrl.cqSize) (hcursor : d.cursor = s.ctrl.cqReadIdx)
    (hp : d.publishes = none) : (d.access s).At base items taken := by
  unfold Drainer.At at h
  split at h
  · rename_i hpc
    -- the snapshot: the cursors are within the ring
    have hle : s.ctrl.cqWriteIdx - s.ctrl.cqReadIdx ≤ s.ctrl.cqSize := hs.used_le
    have hnot : ¬ s.ctrl.cqWriteIdx - d.cursor > d.cqSize := by
      rw [hcursor, hsize, gt_iff_lt, BitVec.not_lt]
      exact hle
    simp only [Drainer.access, hpc, hnot, if_false]
    exact ⟨items.length, hs.write_eq, hs.taken_le, Nat.le_refl _, Nat.zero_le _, h⟩
  · rename_i stop copied hpc
    obtain ⟨n, hstop, hle, hn, hcopied, hret⟩ := h
    have hfits := hs.fits
    have hlt := s.ctrl.cqSize.isLt
    have hdist : (stop - d.cursor).toNat = n - taken := by
      rw [hstop, hcursor, hs.read_eq, toNat_ofNat_sub (by omega) (by omega)]
      omega
    have hmore : copied < n - taken := by
      unfold Drainer.publishes at hp
      simp only [hpc, hdist] at hp
      split at hp
      · assumption
      · cases hp
    have hentry := hs.entry (k := copied) (by omega)
    simp only [Drainer.access, hpc]
    refine ⟨n, hstop, hle, hn, by omega, ?_⟩
    rw [hcursor, hsize, ← Nat.add_assoc, take_add_one, hret, hentry]
    rfl
  · exact h.elim

theorem Queue.Sound.of_logged {s : St} {upto : Nat} (h : q.Sound base old)
    (hlog : Logged base upto q.fw s (old ++ q.fw.appended.reverse) taken new) :
    s.appended.reverse = q.fw.appended.reverse ++ new ∧
      s.ctrl.cqSize = q.fw.ctrl.cqSize ∧ ∀ e ∈ s.errors, e.code ≠ .cqCorrupt := by
  refine ⟨?_, hlog.size, ?_⟩
  · rw [hlog.appended, reverse_append, reverse_reverse]
  · obtain ⟨es, hes, hne⟩ := hlog.errors
    intro e he
    rw [hes] at he
    rcases mem_append.mp he with he | he
    · exact hne e he
    · exact h.uncorrupted e he

/-- The firmware step of a queue action, as the scanner sees it. -/
def Queue.input (q : Queue) (mid : Bool) (inp : Input) : Input :=
  { inp with release := if mid then q.host.publishes else none }

/-- The step about to be taken stores to no word of the queue. -/
def Queue.SparesQueue (q : Queue) : QueueAct → Prop
  | .fw mid inp => q.fw.SparesQueue (q.input mid inp)
  | _ => True

theorem Queue.Sound.step {a : QueueAct} (hspare : q.SparesQueue a) (h : q.Sound base old) :
    (q.step a).Sound base old := by
  obtain ⟨taken, hring, hat⟩ := h.ring
  cases a with
  | fw mid inp =>
    simp only [Queue.SparesQueue, Queue.input] at hspare
    cases hp : (if mid = true then q.host.publishes else none) with
    | none =>
      rw [hp] at hspare
      obtain ⟨new, hlog⟩ := (q.fw.fwStep_stride _).logged hring (.inl ⟨rfl, rfl⟩) hspare
      obtain ⟨happ, hsize, hclean⟩ := h.of_logged hlog
      obtain ⟨n, hn, hor⟩ := hlog.ring
      have hnt : n = taken := hor.elim id id
      subst hnt
      simp only [Queue.step, hp]
      refine ⟨⟨n, ?_, ?_⟩, h.size.trans hsize.symm, ?_, hclean⟩
      · rw [happ, ← append_assoc]
        exact hn
      · rw [happ, ← append_assoc]
        exact hat.append hring.taken_le
      · rw [h.cursor, hring.read_eq, hn.read_eq]
    | some stop =>
      have hmid : q.host.publishes = some stop := by
        cases mid with
        | true => exact hp
        | false => cases hp
      rw [hp] at hspare
      obtain ⟨upto, hstop, hle, hupto, hpub⟩ := hat.publish hring h.cursor hmid
      obtain ⟨new, hlog⟩ := (q.fw.fwStep_stride _).logged hring
        (.inr ⟨congrArg some hstop, hle, hupto⟩) hspare
      obtain ⟨happ, hsize, hclean⟩ := h.of_logged hlog
      obtain ⟨n, hn, hor⟩ := hlog.ring
      simp only [Queue.step, hp]
      refine ⟨⟨upto, ?_, ?_⟩, h.size.trans hsize.symm, rfl, hclean⟩
      · have hrel := hn.release (n := upto) (by omega) (by rw [length_append]; omega)
        rw [← hstop] at hrel
        show St.Holds _ base (old ++ List.reverse (St.appended (St.fwStep q.fw _))) upto
        rw [happ, ← append_assoc]
        exact hrel
      · show Drainer.At _ base (old ++ List.reverse (St.appended (St.fwStep q.fw _))) upto
        rw [happ, ← append_assoc]
        exact hpub.append hupto
  | drain =>
    simp only [Queue.step]
    cases hp : q.host.publishes with
    | none =>
      refine ⟨⟨taken, hring, hat.access hring h.size h.cursor hp⟩, ?_, ?_, h.uncorrupted⟩
      · rw [← h.size]
        simp only [Drainer.access]
        split
        · split <;> rfl
        · rfl
        · rfl
      · rw [← h.cursor]
        simp only [Drainer.access]
        split
        · split <;> rfl
        · rfl
        · rfl
    | some stop =>
      obtain ⟨upto, hstop, hle, hupto, hpub⟩ := hat.publish hring h.cursor hp
      refine ⟨⟨upto, ?_, hpub⟩, h.size, rfl, h.uncorrupted⟩
      have hrel := hring.release hle hupto
      rw [← hstop] at hrel
      exact hrel
  | signal slot v => exact ⟨⟨taken, hring, hat⟩, h.size, h.cursor, h.uncorrupted⟩

end Both

/-- The firmware as it stands, and a host that has copied nothing yet. -/
def Queue.start (s : St) : Queue := ⟨s, ⟨s.ctrl.cqSize, s.ctrl.cqReadIdx, [], .rest⟩⟩

/-- What the ring of `s` held, and what a run from it has appended since, oldest first. -/
def producedSince (s t : St) : List CqEntry :=
  ringContent s.ctrl.cqSize s.cq s.ctrl.cqWriteIdx s.ctrl.cqReadIdx ++ t.appended.reverse

theorem Queue.start_sound {s : St} (hsize : isPowerOfTwo s.ctrl.cqSize = true)
    (hused : s.ctrl.cqUsed ≤ s.ctrl.cqSize) (happ : s.appended = [])
    (herr : ∀ e ∈ s.errors, e.code ≠ .cqCorrupt) :
    (Queue.start s).Sound s.ctrl.cqReadIdx.toNat
      (ringContent s.ctrl.cqSize s.cq s.ctrl.cqWriteIdx s.ctrl.cqReadIdx) := by
  have hpow : RingSize s.ctrl.cqSize := by
    simp only [isPowerOfTwo, Bool.and_eq_true, bne_iff_ne, beq_iff_eq] at hsize
    exact hsize
  refine ⟨⟨0, ?_, rfl⟩, rfl, rfl, herr⟩
  show St.Holds s _ (_ ++ s.appended.reverse) 0
  rw [happ, reverse_nil, append_nil]
  exact ringHolds_content s.cq hpow hused

instance (q : Queue) (a : QueueAct) : Decidable (q.SparesQueue a) :=
  match a with
  | .fw mid inp => inferInstanceAs (Decidable (q.fw.SparesQueue (q.input mid inp)))
  | .drain | .signal _ _ => isTrue trivial

/-! ## A ring of one, and a ring written over -/

/-- Two packets and one cell: the second packet waits for the host to take the first entry. -/
def tightActs : List QueueAct :=
  List.replicate 3 (.fw false {}) ++ List.replicate 3 .drain ++
    List.replicate 9 (.fw false {}) ++ List.replicate 3 .drain

end Slash.Rp1
