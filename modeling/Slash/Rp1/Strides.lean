import Slash.Rp1.Turns

/-!
# One firmware step, whatever the packet

`Check`, `Waken` and `Drain` say what the polling and quiescing loops do to one kernel or one
parked node; `Stride` puts them together with `Turn` into everything one firmware step can do.
An invariant of every graph run is checked against these relations, once per constructor.
-/

namespace Slash.Rp1

open Lib

/-! ## Polling and quiescing -/

def St.polled (s : St) (inp : Input) (k : Inflight) : St := s.mmioRead inp k.baseAddr

def Input.Done (inp : Input) (k : Inflight) : Prop := inp.mmio k.baseAddr &&& 2 ≠ 0

instance (inp : Input) (k : Inflight) : Decidable (inp.Done k) :=
  inferInstanceAs (Decidable (_ ≠ _))

def Core.flagsOf (c : Core) (k : Inflight) : U16 := (c.nodes k.nodeIndex).flags

/-- One iteration of `check_inflight`. -/
inductive Check (s : St) (inp : Input) (idx : Nat) (k : Inflight) : St → St.Poll → Prop where
  | corrupt (hroom : cqRoom (s.toCore.flagsOf k) s.ctrl = .corrupt) :
      Check s inp idx k s.latchCorrupt (.stop .error)
  | blocked (bus : List BusOp) (hroom : cqRoom (s.toCore.flagsOf k) s.ctrl = .full) :
      Check s inp idx k { s with cqBlocked := true, bus := bus } .keep
  | idle : Check s inp idx k (s.polled inp k) .keep
  | doneInfinite (hinf : k.infinite = true) :
      Check s inp idx k (((s.polled inp k).note (.apDone k.nodeIndex k.baseAddr)).removeInflight idx) .removed
  | done {t : St} {room : Room} (hfin : k.infinite = false)
      (hready : cqRoom (s.toCore.flagsOf k) s.ctrl = .ready)
      (hw : Write ((((s.polled inp k).note (.apDone k.nodeIndex k.baseAddr)).setStatus k.nodeIndex
        .done).raise k.nodeIndex k.setBucket.toNat k.setMask) inp (s.toCore.flagsOf k)
        (BitVec.ofNat 32 k.nodeIndex) .ok 0 t room) (hroom : room ≠ .corrupt) :
      Check s inp idx k (t.removeInflight idx) .removed
  | doneStop {t : St} (hfin : k.infinite = false)
      (hready : cqRoom (s.toCore.flagsOf k) s.ctrl = .ready)
      (hw : Write ((((s.polled inp k).note (.apDone k.nodeIndex k.baseAddr)).setStatus k.nodeIndex
        .done).raise k.nodeIndex k.setBucket.toNat k.setMask) inp (s.toCore.flagsOf k)
        (BitVec.ofNat 32 k.nodeIndex) .ok 0 t .corrupt) :
      Check s inp idx k t (.stop .error)
  | expireStop {t : St} {room : Room} (hready : cqRoom (s.toCore.flagsOf k) s.ctrl = .ready)
      (hw : Write (((s.polled inp k).setStatus k.nodeIndex .error).latch .kernelTimeout
        (BitVec.ofNat 32 k.nodeIndex) k.baseAddr k.timeoutCycles
        (hasFlag (s.toCore.flagsOf k) flagHaltOnError)) inp (s.toCore.flagsOf k)
        (BitVec.ofNat 32 k.nodeIndex) .timeout k.baseAddr t room)
      (hstop : room = .corrupt ∨ hasFlag (s.toCore.flagsOf k) flagHaltOnError = true) :
      Check s inp idx k t (.stop .error)
  | expireOn {t : St} {room : Room} (hready : cqRoom (s.toCore.flagsOf k) s.ctrl = .ready)
      (hnot : ¬ inp.Done k) (hlate : St.timeoutElapsed k inp.now = true)
      (hw : Write (((s.polled inp k).setStatus k.nodeIndex .error).latch .kernelTimeout
        (BitVec.ofNat 32 k.nodeIndex) k.baseAddr k.timeoutCycles
        (hasFlag (s.toCore.flagsOf k) flagHaltOnError)) inp (s.toCore.flagsOf k)
        (BitVec.ofNat 32 k.nodeIndex) .timeout k.baseAddr t room)
      (hroom : room ≠ .corrupt) (hgo : hasFlag (s.toCore.flagsOf k) flagHaltOnError = false) :
      Check s inp idx k
        ((t.raise k.nodeIndex k.setBucket.toNat k.setMask).removeInflight idx) .removed

/-- One iteration of `check_waits`. -/
inductive Waken (s : St) (inp : Input) (i : Nat) : St → Verdict → Prop where
  | idle : Waken s inp i s (.next false)
  | blocked (hw : s.status i = .waiting) (hroom : cqRoom (s.nodes i).flags s.ctrl = .full) :
      Waken s inp i { s with cqBlocked := true } (.next false)
  | corrupt (hroom : cqRoom (s.nodes i).flags s.ctrl = .corrupt) :
      Waken s inp i s.latchCorrupt (.stop .error)
  | wake {t : St} {room : Room} (hwait : s.status i = .waiting)
      (hready : cqRoom (s.nodes i).flags s.ctrl = .ready)
      (hw : Write ((s.setStatus i .done).raiseOwn i) inp (s.nodes i).flags (BitVec.ofNat 32 i)
        .ok 0 t room) : Waken s inp i t room.verdict

/-- Recovery is required when the entry could not be written. -/
def St.unlessCorrupt (t : St) : Room → St
  | .corrupt => t.markRecovery
  | _ => t

/-- One iteration of the inner loop of `quiesce_inflight`. -/
inductive Drain (s : St) (inp : Input) (idx : Nat) (k : Inflight) : St → Bool → Prop where
  | keep (bus : List BusOp) : Drain s inp idx k { s with bus := bus } false
  | infinite (hinf : k.infinite = true) :
      Drain s inp idx k (s.markRecovery.removeInflight idx) true
  | corrupt (hroom : cqRoom (s.toCore.flagsOf k) s.ctrl = .corrupt) :
      Drain s inp idx k (s.latchCorrupt.markRecovery.removeInflight idx) true
  | done : Drain s inp idx k
      (((s.polled inp k).note (.apDone k.nodeIndex k.baseAddr)).removeInflight idx) true
  | doneReport {t : St} {room : Room} (hready : cqRoom (s.toCore.flagsOf k) s.ctrl = .ready)
      (hw : Write (((s.polled inp k).note (.apDone k.nodeIndex k.baseAddr)).setStatus k.nodeIndex .done) inp
        (s.toCore.flagsOf k) (BitVec.ofNat 32 k.nodeIndex) .ok 0 t room) :
      Drain s inp idx k ((t.unlessCorrupt room).removeInflight idx) true
  | expired : Drain s inp idx k ((s.polled inp k).markRecovery.removeInflight idx) true
  | expiredReport {t : St} {room : Room} (hready : cqRoom (s.toCore.flagsOf k) s.ctrl = .ready)
      (hw : Write ((s.polled inp k).setStatus k.nodeIndex .error) inp (s.toCore.flagsOf k)
        (BitVec.ofNat 32 k.nodeIndex) .timeout k.baseAddr t room) :
      Drain s inp idx k ((t.unlessCorrupt room).markRecovery.removeInflight idx) true

namespace St

variable {s : St} {inp : Input} {i : Nat} {k : Inflight}

theorem pollDone_check (hready : k.infinite = false → cqRoom (s.toCore.flagsOf k) s.ctrl = .ready) :
    Check s inp i k ((s.polled inp k).pollDone inp i k).1 ((s.polled inp k).pollDone inp i k).2 := by
  have hn : ((s.polled inp k).nodes k.nodeIndex).flags = s.toCore.flagsOf k := rfl
  simp only [pollDone, hn]
  cases hinf : k.infinite with
  | true => exact .doneInfinite hinf
  | false =>
    have hw := writeCqEntry_write ((((s.polled inp k).note (.apDone k.nodeIndex k.baseAddr)).setStatus
      k.nodeIndex .done).raise k.nodeIndex k.setBucket.toNat k.setMask) inp (s.toCore.flagsOf k)
      (BitVec.ofNat 32 k.nodeIndex) .ok 0
    simp only [Bool.false_eq_true, if_false]
    generalize St.writeCqEntry _ _ _ _ _ _ = q at hw ⊢
    obtain ⟨t, room⟩ := q
    cases room with
    | corrupt => exact .doneStop hinf (hready hinf) hw
    | full | ready => exact .done hinf (hready hinf) hw (by simp)

theorem pollExpired_check (hready : cqRoom (s.toCore.flagsOf k) s.ctrl = .ready)
    (hnot : ¬ inp.Done k) (hlate : timeoutElapsed k inp.now = true) :
    Check s inp i k ((s.polled inp k).pollExpired inp i k).1
      ((s.polled inp k).pollExpired inp i k).2 := by
  have hn : ((s.polled inp k).nodes k.nodeIndex).flags = s.toCore.flagsOf k := rfl
  have hw := writeCqEntry_write (((s.polled inp k).setStatus k.nodeIndex .error).latch
    .kernelTimeout (BitVec.ofNat 32 k.nodeIndex) k.baseAddr k.timeoutCycles
    (hasFlag (s.toCore.flagsOf k) flagHaltOnError)) inp (s.toCore.flagsOf k)
    (BitVec.ofNat 32 k.nodeIndex) .timeout k.baseAddr
  simp only [pollExpired, hn]
  generalize St.writeCqEntry _ _ _ _ _ _ = q at hw ⊢
  obtain ⟨t, room⟩ := q
  cases room with
  | corrupt => exact .expireStop hready hw (.inl rfl)
  | full | ready =>
    simp only
    split
    · rename_i hf
      exact .expireStop hready hw (.inr hf)
    · rename_i hf
      exact .expireOn hready hnot hlate hw (by simp) (by simpa using hf)

theorem checkInflight_check (s : St) (inp : Input) (i : Nat) (k : Inflight) :
    Check s inp i k (s.checkInflight inp i k).1 (s.checkInflight inp i k).2 := by
  have hflags : (s.nodes k.nodeIndex).flags = s.toCore.flagsOf k := rfl
  simp only [checkInflight, hflags]
  cases hroom : cqRoom (s.toCore.flagsOf k) s.ctrl with
  | corrupt => exact .corrupt hroom
  | full =>
    simp only [and_true]
    split
    · exact .blocked _ hroom
    · rename_i hinf
      have hinf : k.infinite = true := by simpa using hinf
      split
      · exact pollDone_check (fun h => by simp [h] at hinf)
      · split
        · exact .blocked _ hroom
        · exact .idle
  | ready =>
    simp only [reduceCtorEq, and_false, if_false]
    split
    · exact pollDone_check (fun _ => hroom)
    · rename_i hnot
      split
      · rename_i hlate
        exact pollExpired_check hroom hnot hlate
      · exact .idle

theorem checkWait_waken (s : St) (inp : Input) (i : Nat) :
    Waken s inp i (s.checkWait inp i).1 (s.checkWait inp i).2 := by
  simp only [checkWait]
  split
  · rename_i hwait
    cases hroom : cqRoom (s.nodes i).flags s.ctrl with
    | corrupt => exact .corrupt hroom
    | full => exact .blocked hwait hroom
    | ready =>
      simp only
      split
      · obtain ⟨room, hw, hv⟩ := publish_write ((s.setStatus i .done).raiseOwn i) inp
          (s.nodes i).flags i .ok 0
        rw [complete, hv]
        exact .wake hwait hroom hw
      · exact .idle
  · exact .idle

theorem quiesceReport_write (s : St) (inp : Input) (flags : U16) (k : Inflight) (st : Status)
    (cst : CqStatus) (detail : U32) : ∃ t room,
      Write (s.setStatus k.nodeIndex st) inp flags (BitVec.ofNat 32 k.nodeIndex) cst detail t
        room ∧ s.quiesceReport inp flags k st cst detail = t.unlessCorrupt room := by
  have hw := writeCqEntry_write (s.setStatus k.nodeIndex st) inp flags
    (BitVec.ofNat 32 k.nodeIndex) cst detail
  simp only [quiesceReport]
  generalize St.writeCqEntry _ _ _ _ _ _ = q at hw ⊢
  obtain ⟨t, room⟩ := q
  refine ⟨t, room, hw, ?_⟩
  cases room <;> rfl

theorem quiesce_drain (s : St) (inp : Input) (i : Nat) (k : Inflight) :
    Drain s inp i k (s.quiesce inp i k).1 (s.quiesce inp i k).2 := by
  have hflags : (s.nodes k.nodeIndex).flags = s.toCore.flagsOf k := rfl
  simp only [quiesce, hflags]
  split
  · rename_i hinf
    exact .infinite hinf
  · cases hroom : cqRoom (s.toCore.flagsOf k) s.ctrl with
    | corrupt => exact .corrupt hroom
    | full => exact .keep s.bus
    | ready =>
      simp only
      split
      · split
        · obtain ⟨t, room, hw, he⟩ := quiesceReport_write
            ((s.polled inp k).note (.apDone k.nodeIndex k.baseAddr)) inp (s.toCore.flagsOf k) k .done .ok 0
          have h : Drain s inp i k _ _ := .doneReport hroom hw
          rw [← he] at h
          exact h
        · exact .done
      · split
        · split
          · obtain ⟨t, room, hw, he⟩ := quiesceReport_write (s.polled inp k) inp
              (s.toCore.flagsOf k) k .error .timeout k.baseAddr
            have h : Drain s inp i k _ _ := .expiredReport hroom hw
            rw [← he] at h
            exact h
          · exact .expired
        · exact .keep _

end St

/-! ## The whole step -/

/-- Where `activate_nodes` (`next` its next iteration) or `check_waits` goes from here. -/
def Verdict.phase (next : Phase) : Verdict → Phase
  | .next _ => next
  | .stop r => .quiesce 0 r
  | .hang => .hung

/-- What an iteration adds to the progress flag. -/
def Verdict.progress : Verdict → Bool
  | .next p => p
  | _ => false

/-- Where `check_inflight` goes from entry `i`. -/
def St.Poll.phase (i : Nat) : St.Poll → Phase
  | .keep => .pollInflight (i + 1)
  | .removed => .pollInflight i
  | .stop r => .quiesce 0 r

def St.Poll.progress : St.Poll → Bool
  | .removed => true
  | _ => false

def Phase.Ended : Phase → Prop
  | .complete | .stopped _ | .hung => True
  | _ => False

/-- Everything one firmware step can do. -/
inductive Stride (s : St) (inp : Input) : St → Prop where
  | begin (hphase : s.phase = .validate) (hvalid : s.validateNodes = none) :
      Stride s inp s.beginPass
  | invalid {bad : Nat} {detail : NodeDetail} {aux : U32} (hphase : s.phase = .validate)
      (hbad : s.validateNodes = some (bad, detail, aux)) :
      Stride s inp { (s.latch .invalidNode (BitVec.ofNat 32 bad) detail.code aux
        false).setStatus bad .error with phase := .reject (BitVec.ofNat 32 bad) detail.code }
  | reject {bad detail : U32} {t : St} {room : Room} (hphase : s.phase = .reject bad detail)
      (hw : Write s inp 0 bad .error detail t room) :
      Stride s inp { t with phase := if room = .full then s.phase else .stopped .error }
  | visit {i : Nat} {t : St} {v : Verdict} (hphase : s.phase = .activate i)
      (hi : i < s.nodeCount) (hv : Visited s inp i t v) :
      Stride s inp { t with
        phase := v.phase (.activate (i + 1)), progress := t.progress || v.progress }
  | scanned {i : Nat} (hphase : s.phase = .activate i) (hi : s.nodeCount ≤ i) :
      Stride s inp { s with phase := .pollInflight 0 }
  | check {i : Nat} {k : Inflight} {t : St} {v : St.Poll} (hphase : s.phase = .pollInflight i)
      (hk : s.inflight[i]? = some k) (hc : Check s inp i k t v) :
      Stride s inp { t with phase := v.phase i, progress := t.progress || v.progress }
  | polled {i : Nat} (hphase : s.phase = .pollInflight i) :
      Stride s inp { s with phase := .pollWaits 0 }
  | wait {i : Nat} {t : St} {v : Verdict} (hphase : s.phase = .pollWaits i)
      (hi : i < s.nodeCount) (hw : Waken s inp i t v) :
      Stride s inp { t with
        phase := v.phase (.pollWaits (i + 1)), progress := t.progress || v.progress }
  | waited {i : Nat} (hphase : s.phase = .pollWaits i) : Stride s inp { s with phase := .passEnd }
  | complete (hphase : s.phase = .passEnd) (hprogress : s.progress = false)
      (hblocked : s.cqBlocked = false) (hsettled : s.Settled) :
      Stride s inp { s with phase := .complete }
  | again (hphase : s.phase = .passEnd) : Stride s inp s.beginPass
  | drain {i : Nat} {r : Stop} {k : Inflight} {t : St} {removed : Bool}
      (hphase : s.phase = .quiesce i r) (hk : s.inflight[i]? = some k)
      (hd : Drain s inp i k t removed) :
      Stride s inp { t with phase := .quiesce (if removed then i else i + 1) r }
  | drained {i : Nat} {r : Stop} (hphase : s.phase = .quiesce i r) (hnil : s.inflight = []) :
      Stride s inp { s with phase := .stopped r }
  | drainAgain {i : Nat} {r : Stop} (hphase : s.phase = .quiesce i r) :
      Stride s inp { s with phase := .quiesce 0 r }
  | ended (hphase : s.phase.Ended) : Stride s inp s

namespace St

variable {s : St} {inp : Input} {i : Nat}

theorem fwStep_reject_stride {bad detail : U32} (hphase : s.phase = .reject bad detail) :
    Stride s inp (s.fwStep inp) := by
  have hw := writeCqEntry_write s inp 0 bad .error detail
  simp only [fwStep, hphase]
  generalize St.writeCqEntry _ _ _ _ _ _ = q at hw ⊢
  obtain ⟨t, room⟩ := q
  have h := Stride.reject hphase hw
  cases room with
  | corrupt => exact h
  | ready => exact h
  | full =>
    -- the phase is left alone, so writing it back changes nothing
    have ht : t.phase = s.phase := by
      cases hw
      rfl
    rw [if_pos rfl, ← ht] at h
    exact h

theorem fwStep_activate_stride (hphase : s.phase = .activate i) : Stride s inp (s.fwStep inp) := by
  simp only [fwStep, hphase]
  split
  · rename_i hi
    have h := Stride.visit hphase hi (s.visit_visited inp i)
    generalize s.visit inp i = q at h ⊢
    obtain ⟨t, v⟩ := q
    cases v with
    | next p => exact h
    | stop r | hang =>
      simp only [Verdict.phase, Verdict.progress, Bool.or_false] at h
      exact h
  · rename_i hi
    exact .scanned hphase (Nat.le_of_not_lt hi)

theorem fwStep_pollInflight_stride (hphase : s.phase = .pollInflight i) :
    Stride s inp (s.fwStep inp) := by
  simp only [fwStep, hphase]
  cases hk : s.inflight[i]? with
  | none => exact .polled hphase
  | some k =>
    have h := Stride.check hphase hk (s.checkInflight_check inp i k)
    simp only
    generalize s.checkInflight inp i k = q at h ⊢
    obtain ⟨t, v⟩ := q
    cases v with
    | keep | stop r =>
      simp only [St.Poll.phase, St.Poll.progress, Bool.or_false] at h
      exact h
    | removed =>
      simp only [St.Poll.phase, St.Poll.progress, Bool.or_true] at h
      exact h

theorem fwStep_pollWaits_stride (hphase : s.phase = .pollWaits i) :
    Stride s inp (s.fwStep inp) := by
  simp only [fwStep, hphase]
  split
  · rename_i hi
    have h := Stride.wait hphase hi (s.checkWait_waken inp i)
    generalize s.checkWait inp i = q at h ⊢
    obtain ⟨t, v⟩ := q
    cases v with
    | next p => exact h
    | stop r | hang =>
      simp only [Verdict.phase, Verdict.progress, Bool.or_false] at h
      exact h
  · exact .waited hphase

theorem fwStep_quiesce_stride {r : Stop} (hphase : s.phase = .quiesce i r) :
    Stride s inp (s.fwStep inp) := by
  simp only [fwStep, hphase]
  cases hk : s.inflight[i]? with
  | none =>
    simp only
    split
    · rename_i hnil
      exact .drained hphase hnil
    · exact .drainAgain hphase
  | some k =>
    have h := Stride.drain hphase hk (s.quiesce_drain inp i k)
    simp only
    generalize s.quiesce inp i k = q at h ⊢
    obtain ⟨t, removed⟩ := q
    cases removed with
    | true => exact h
    | false => exact h

/-- Every firmware step is one of the strides. -/
theorem fwStep_stride (s : St) (inp : Input) : Stride s inp (s.fwStep inp) := by
  cases hphase : s.phase with
  | validate =>
    simp only [fwStep, hphase]
    cases hv : s.validateNodes with
    | none => exact .begin hphase hv
    | some e => exact .invalid hphase hv
  | reject bad detail => exact fwStep_reject_stride hphase
  | activate i => exact fwStep_activate_stride hphase
  | pollInflight i => exact fwStep_pollInflight_stride hphase
  | pollWaits i => exact fwStep_pollWaits_stride hphase
  | passEnd =>
    simp only [fwStep, hphase]
    split
    · rename_i h
      exact .complete hphase (by simpa using h.1) (by simpa using h.2.1) h.2.2
    · exact .again hphase
  | quiesce i r => exact fwStep_quiesce_stride hphase
  | complete | stopped r | hung =>
    simp only [fwStep, hphase]
    exact .ended (by rw [hphase]; trivial)

end St

end Slash.Rp1
