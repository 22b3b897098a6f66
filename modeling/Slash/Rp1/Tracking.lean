import Slash.Rp1.Completion

/-!
# Kernels in flight

The scanner has two views of a running kernel: the node's status, from which completion is
decided, and the in-flight table, from which the kernel is polled. LOOP, COND and RERUN set nodes
back to PENDING whatever their status is, so the two drift apart as soon as one of them reaches a
node whose kernel is still in the table. Otherwise they agree (`Tracks`).
-/

namespace Slash.Rp1

open Lib

/-- The packet about to be activated sets node `j` back to PENDING. -/
def St.Restarts (s : St) (j : Nat) : Prop :=
  match s.phase with
  | .activate i => s.Starts i ∧ s.toCore.Resets i j
  | _ => False

instance (c : Core) (i j : Nat) : Decidable (c.Resets i j) :=
  match h : (c.nodes i).payload with
  | .loop p => decidable_of_iff (c.loopExits p = false ∧ p.bodyStart.toNat ≤ j ∧ j ≤ p.bodyEnd.toNat)
      (by simp [Core.Resets, h])
  | .cond p => decidable_of_iff (c.condMet p = false ∧ p.bodyStart.toNat ≤ j ∧ j ≤ p.bodyEnd.toNat)
      (by simp [Core.Resets, h])
  | .rerun p => decidable_of_iff (j = p.targetNode.toNat) (by simp [Core.Resets, h])
  | .nop | .wait _ | .signal _ | .kernelDispatch _ | .scalarWrite _ | .scalarRead _
  | .scalarCopy _ | .dmaCopy _ | .dmaFill _ | .pdiLoad _ | .halt | .other _ =>
    isFalse (by simp [Core.Resets, h])

instance (s : St) (j : Nat) : Decidable (s.Restarts j) :=
  match h : s.phase with
  | .activate i => decidable_of_iff (s.Starts i ∧ s.toCore.Resets i j) (by simp [St.Restarts, h])
  | .validate | .reject _ _ | .pollInflight _ | .pollWaits _ | .passEnd | .quiesce _ _
  | .complete | .stopped _ | .hung => isFalse (by simp [St.Restarts, h])

/-- No packet about to be activated resets a node whose kernel is in the table. -/
def St.SparesTracked (s : St) : Prop := ∀ k ∈ s.inflight, ¬ s.Restarts k.nodeIndex

instance (s : St) : Decidable s.SparesTracked := inferInstanceAs (Decidable (∀ k ∈ _, _))

/-- The table agrees with the statuses: its entries name different nodes, none of them PENDING,
and the nodes of finite kernels are DISPATCHED. -/
structure St.Tracks (s : St) : Prop where
  lt : ∀ k ∈ s.inflight, k.nodeIndex < s.nodeCount
  apart : s.inflight.Pairwise fun k l => k.nodeIndex ≠ l.nodeIndex
  live : ∀ k ∈ s.inflight, s.status k.nodeIndex ≠ .pending
  dispatched : ∀ k ∈ s.inflight, k.infinite = false → s.status k.nodeIndex = .dispatched

/-! ## One step -/

/-- Nodes that the table names keep their status: the table still agrees. -/
theorem St.Tracks.keep {s t : St} (h : s.Tracks) (hin : t.inflight = s.inflight)
    (hcount : t.nodeCount = s.nodeCount)
    (hstatus : ∀ k ∈ s.inflight, t.status k.nodeIndex = s.status k.nodeIndex) : t.Tracks := by
  refine ⟨?_, ?_, ?_, ?_⟩
  · rw [hin, hcount]
    exact h.lt
  · rw [hin]
    exact h.apart
  · intro k hk
    rw [hin] at hk
    rw [hstatus k hk]
    exact h.live k hk
  · intro k hk
    rw [hin] at hk
    rw [hstatus k hk]
    exact h.dispatched k hk

theorem St.Tracks.remove {s t : St} {idx : Nat} {k : Inflight} (h : s.Tracks)
    (hk : s.inflight[idx]? = some k) (hin : t.inflight = swapRemove s.inflight idx)
    (hcount : t.nodeCount = s.nodeCount)
    (hstatus : ∀ j, j ≠ k.nodeIndex → t.status j = s.status j) : t.Tracks := by
  have hperm := perm_cons_swapRemove hk
  have hapart : (k :: swapRemove s.inflight idx).Pairwise fun k l => k.nodeIndex ≠ l.nodeIndex :=
    (hperm.pairwise_iff fun h => Ne.symm h).mp h.apart
  rw [List.pairwise_cons] at hapart
  have hold : ∀ l ∈ t.inflight, l ∈ s.inflight ∧ t.status l.nodeIndex = s.status l.nodeIndex := by
    intro l hl
    rw [hin] at hl
    exact ⟨mem_of_mem_swapRemove hl, hstatus _ (hapart.1 l hl).symm⟩
  refine ⟨fun l hl => hcount ▸ h.lt l (hold l hl).1, hin ▸ hapart.2, fun l hl => ?_,
    fun l hl hf => ?_⟩
  · rw [(hold l hl).2]
    exact h.live l (hold l hl).1
  · rw [(hold l hl).2]
    exact h.dispatched l (hold l hl).1 hf

theorem St.Tracks.add {s t : St} {i : Nat} {e : Inflight} (h : s.Tracks)
    (hi : i < s.nodeCount) (hpend : s.status i = .pending) (he : e.nodeIndex = i)
    (hin : t.inflight = s.inflight ++ [e]) (hcount : t.nodeCount = s.nodeCount)
    (hstatus : ∀ k ∈ s.inflight, t.status k.nodeIndex = s.status k.nodeIndex)
    (hlive : t.status i ≠ .pending)
    (hdisp : e.infinite = false → t.status i = .dispatched) : t.Tracks := by
  have hne : ∀ k ∈ s.inflight, k.nodeIndex ≠ i := by
    rintro k hk rfl
    exact h.live k hk hpend
  have hcases : ∀ k ∈ t.inflight, k ∈ s.inflight ∨ k = e := by
    intro k hk
    rw [hin] at hk
    simpa using hk
  refine ⟨fun k hk => ?_, ?_, fun k hk => ?_, fun k hk hf => ?_⟩
  · rw [hcount]
    rcases hcases k hk with hk | rfl
    · exact h.lt k hk
    · exact he ▸ hi
  · rw [hin, List.pairwise_append]
    refine ⟨h.apart, List.pairwise_singleton _ _, fun k hk l hl => ?_⟩
    rw [List.mem_singleton.mp hl, he]
    exact hne k hk
  · rcases hcases k hk with hk | rfl
    · rw [hstatus k hk]
      exact h.live k hk
    · exact he ▸ hlive
  · rcases hcases k hk with hk | rfl
    · rw [hstatus k hk]
      exact h.dispatched k hk hf
    · exact he ▸ hdisp hf

section Turn

variable {s t : St} {inp : Input} {i : Nat} {v : Verdict}

theorem Turn.count (h : Turn s inp i t v) : t.nodeCount = s.nodeCount := by
  cases h with
  | finish hu hw => rw [hw.toCore]; exact hu.count
  | iterate p hp hx hu => exact hu.count
  | park p hp => rfl
  | launch kd => simp
  | launchInfinite kd hp hg hlen hf hw hroom => simp [hw.toCore]
  | launchLost kd hp hg hlen hf hw => simp [hw.toCore]
  | failStop code detail aux cst cdetail hcode hcst hw hstop => rw [hw.toCore]; rfl
  | failOn code detail aux cst cdetail hcode hcst hw hroom hgo => simp [hw.toCore]
  | halt hw hv => rw [hw.toCore]; rfl
  | hang hu => exact hu.count

theorem Turn.status_ne {j : Nat} (h : Turn s inp i t v) (hj : j ≠ i)
    (hr : ¬ s.toCore.Resets i j) : t.status j = s.status j := by
  have hprep : ∀ u, Prepared s inp i u → u.status j = s.status j := by
    intro u hu
    exact (hu.status j).resolve_right fun h => hr h.2
  cases h with
  | @finish u _ _ hu hw => simp [hw.toCore, upd_ne _ _ hj, hprep u hu]
  | @iterate u p hp hx hu => simp [upd_ne _ _ hj, hprep u hu]
  | hang hu => exact hprep _ hu
  | park p hp => simp [upd_ne _ _ hj]
  | launch kd => simp [upd_ne _ _ hj]
  | launchInfinite kd hp hg hlen hf hw hroom => simp [hw.toCore, upd_ne _ _ hj]
  | launchLost kd hp hg hlen hf hw => simp [hw.toCore, upd_ne _ _ hj]
  | failStop code detail aux cst cdetail hcode hcst hw hstop => simp [hw.toCore, upd_ne _ _ hj]
  | failOn code detail aux cst cdetail hcode hcst hw hroom hgo => simp [hw.toCore, upd_ne _ _ hj]
  | halt hw hv => simp [hw.toCore, upd_ne _ _ hj]

theorem Turn.table (h : Turn s inp i t v) : t.inflight = s.inflight ∨
    ∃ e, t.inflight = s.inflight ++ [e] ∧ s.inflight.length < maxInflight ∧ e.nodeIndex = i ∧
      t.status i ≠ .pending ∧
      (e.infinite = false → t.status i = .dispatched) := by
  cases h with
  | finish hu hw => left; simp [hw.toCore, hu.inflight]
  | iterate p hp hx hu => left; simp [hu.inflight]
  | park p hp => left; rfl
  | launch kd hp hg hlen hf =>
    right
    refine ⟨_, by simp [Core.addInflight]; rfl, hlen, rfl, ?_, fun _ => ?_⟩ <;> simp
  | launchInfinite kd hp hg hlen hf hw hroom =>
    right
    refine ⟨_, by simp [Core.addInflight, hw.toCore]; rfl, hlen, rfl, ?_, fun he => ?_⟩
    · simp [hw.toCore]
    · simp [hf] at he
  | launchLost kd hp hg hlen hf hw => left; simp [hw.toCore]
  | failStop code detail aux cst cdetail hcode hcst hw hstop => left; simp [hw.toCore]
  | failOn code detail aux cst cdetail hcode hcst hw hroom hgo => left; simp [hw.toCore]
  | halt hw hv => left; simp [hw.toCore]
  | hang hu => left; exact hu.inflight

end Turn

section Step

variable {s t : St} {inp : Input} {i : Nat}

theorem Visited.tracks {v : Verdict} (h : Visited s inp i t v) (hphase : s.phase = .activate i)
    (hi : i < s.nodeCount) (hspare : s.SparesTracked) (hs : s.Tracks) : t.Tracks := by
  cases h with
  | idle hn => exact hs
  | blocked he hroom => exact hs.keep rfl rfl fun _ _ => rfl
  | corrupt hroom => exact hs.keep rfl rfl fun _ _ => rfl
  | turn he hroom ht =>
    have hne : ∀ k ∈ s.inflight, k.nodeIndex ≠ i := by
      rintro k hk rfl
      exact hs.live k hk he.1
    have hkeep : ∀ k ∈ s.inflight, t.status k.nodeIndex = s.status k.nodeIndex := by
      intro k hk
      refine ht.status_ne (hne k hk) fun hr => hspare k hk ?_
      simp only [St.Restarts, hphase]
      exact ⟨⟨hphase, hi, he, hroom⟩, hr⟩
    rcases ht.table with hin | ⟨e, hin, -, hei, hlive, hdisp⟩
    · exact hs.keep hin ht.count hkeep
    · exact hs.add hi he.1 hei hin ht.count hkeep hlive hdisp

theorem Check.tracks {k : Inflight} {v : St.Poll} (h : Check s inp i k t v)
    (hk : s.inflight[i]? = some k) (hgo : ∀ r, v ≠ .stop r) (hs : s.Tracks) : t.Tracks := by
  cases h with
  | corrupt | doneStop | expireStop => exact absurd rfl (hgo _)
  | blocked | idle => exact hs.keep rfl rfl fun _ _ => rfl
  | doneInfinite hinf => exact hs.remove hk rfl rfl fun _ _ => rfl
  | done hfin hready hw hroom =>
    refine hs.remove hk ?_ ?_ fun j hj => ?_
    · simp [Core.removeInflight, hw.toCore]; rfl
    · simp [hw.toCore]; rfl
    · simp [hw.toCore, upd_ne _ _ hj]; rfl
  | expireOn hready hnot hlate hw hroom hgo =>
    refine hs.remove hk ?_ ?_ fun j hj => ?_
    · simp [Core.removeInflight, hw.toCore]; rfl
    · simp [hw.toCore]; rfl
    · simp [hw.toCore, upd_ne _ _ hj]; rfl

theorem Waken.tracks {v : Verdict} (h : Waken s inp i t v) (hs : s.Tracks) : t.Tracks := by
  cases h with
  | idle => exact hs
  | blocked | corrupt => exact hs.keep rfl rfl fun _ _ => rfl
  | wake hwait hready hw =>
    have hstatus : t.status = upd s.status i .done := by simp [hw.toCore]
    have hin : t.inflight = s.inflight := by simp [hw.toCore]
    have hcount : t.nodeCount = s.nodeCount := by simp [hw.toCore]
    refine ⟨hin ▸ hcount ▸ hs.lt, hin ▸ hs.apart, fun k hk => ?_, fun k hk hf => ?_⟩
    · rw [hstatus]
      by_cases hki : k.nodeIndex = i
      · simp [hki]
      · rw [upd_ne _ _ hki]
        exact hs.live k (hin ▸ hk)
    · have hd := hs.dispatched k (hin ▸ hk) hf
      have hki : k.nodeIndex ≠ i := by
        intro hki
        rw [hki, hwait] at hd
        cases hd
      rw [hstatus, upd_ne _ _ hki]
      exact hd

end Step

/-- As long as the scan is in its passes the table agrees with the statuses. -/
def St.TracksInPass (s : St) : Prop := ¬ s.phase.Fatal → s.Tracks

theorem Stride.tracks {s t : St} {inp : Input} (h : Stride s inp t) (hspare : s.SparesTracked)
    (hs : s.TracksInPass) : t.TracksInPass := by
  intro ht
  have hin {p : Phase} (hphase : s.phase = p) (hp : ¬ p.Fatal) : s.Tracks :=
    hs (by rw [hphase]; exact hp)
  cases h with
  | begin hphase | again hphase => exact (hin hphase id).keep rfl rfl fun _ _ => rfl
  | invalid => exact absurd trivial ht
  | @reject _ _ _ room hphase hw =>
    cases room with
    | full =>
      refine absurd ?_ ht
      rw [if_pos rfl, hphase]
      trivial
    | corrupt | ready => exact absurd trivial ht
  | @visit i t v hphase hi hv =>
    exact (hv.tracks hphase hi hspare (hin hphase id)).keep rfl rfl fun _ _ => rfl
  | scanned hphase | polled hphase | waited hphase | complete hphase =>
    exact (hin hphase id).keep rfl rfl fun _ _ => rfl
  | @check i k t v hphase hk hc =>
    refine (hc.tracks hk ?_ (hin hphase id)).keep rfl rfl fun _ _ => rfl
    rintro r rfl
    exact ht trivial
  | wait hphase hi hw => exact (hw.tracks (hin hphase id)).keep rfl rfl fun _ _ => rfl
  | drain | drained | drainAgain => exact absurd trivial ht
  | ended hphase => exact hs ht

theorem step_tracks {s : St} (a : Act) (hspare : s.SparesTracked) (hs : s.TracksInPass) :
    (step s a).TracksInPass := by
  cases a with
  | fw inp => exact (s.fwStep_stride inp).tracks hspare hs
  | cqRead idx => exact fun h => (hs h).keep rfl rfl fun _ _ => rfl
  | signal slot v => exact fun h => (hs h).keep rfl rfl fun _ _ => rfl

/-- A packet at bucket `b`: it awaits `await` and raises `set` there. -/
def packetAt (b : U8) (await set : U32) (payload : Payload) : Node where
  flags := 0
  barrierAwaitMask := await
  barrierSetMask := set
  barrierAwaitBucket := b
  barrierSetBucket := b
  payload := payload

def someKernel : Payload := .kernelDispatch ⟨0x80000000, 0, 0, 1000, 0⟩

/-- A kernel, and a RERUN of it once it is done. -/
def rerunGraph : Nat → Node
  | 0 => packetAt 1 0 1 someKernel
  | _ => packetAt 1 1 0 (.rerun ⟨0, 0, 0⟩)

/-- The kernel is done when it is first polled, then it is launched again. -/
def rerunActs : List Act :=
  List.replicate 10 (.fw { mmio := fun _ => 2 }) ++ List.replicate 12 (.fw {})

/-- A kernel behind a NOP, and a COND that is not met and resets the kernel and its bucket. -/
def condGraph : Nat → Node
  | 0 => packetAt 1 0 1 .nop
  | 1 => packetAt 1 1 2 someKernel
  | _ => packetAt 0 0 0 (.cond ⟨0, 1, .eq, 1, 1, 1, 1, 0, 0⟩)

/-- The entries fit the array the firmware has for them and name nodes of the graph. -/
structure Core.Bounded (c : Core) : Prop where
  length : c.inflight.length ≤ maxInflight
  lt : ∀ k ∈ c.inflight, k.nodeIndex < c.nodeCount

/-- The table stays as it is, or an entry leaves it. -/
def Core.Sheds (c c' : Core) : Prop :=
  c'.nodeCount = c.nodeCount ∧
    (c'.inflight = c.inflight ∨ ∃ idx, c'.inflight = swapRemove c.inflight idx)

theorem Core.Bounded.sheds {c c' : Core} (h : c.Bounded) (hs : c.Sheds c') : c'.Bounded := by
  obtain ⟨hcount, hin | ⟨idx, hin⟩⟩ := hs
  · exact ⟨hin ▸ h.length, hin ▸ hcount ▸ h.lt⟩
  · refine ⟨Nat.le_trans ?_ h.length, fun k hk => ?_⟩
    · rw [hin, swapRemove]
      split <;> simp
    · rw [hcount]
      exact h.lt k (mem_of_mem_swapRemove (hin ▸ hk))

section Step

variable {s t : St} {inp : Input} {i : Nat} {k : Inflight}

theorem Check.sheds {v : St.Poll} (h : Check s inp i k t v) : s.toCore.Sheds t.toCore := by
  cases h with
  | corrupt | blocked | idle => exact ⟨rfl, .inl rfl⟩
  | doneInfinite => exact ⟨rfl, .inr ⟨i, rfl⟩⟩
  | done _ _ hw | expireOn _ _ _ hw =>
    exact ⟨by simp [hw.toCore]; rfl, .inr ⟨i, by simp [Core.removeInflight, hw.toCore]; rfl⟩⟩
  | doneStop _ _ hw | expireStop _ hw =>
    exact ⟨by simp [hw.toCore]; rfl, .inl (by simp [hw.toCore]; rfl)⟩

theorem Drain.sheds {removed : Bool} (h : Drain s inp i k t removed) :
    s.toCore.Sheds t.toCore := by
  cases h with
  | keep => exact ⟨rfl, .inl rfl⟩
  | infinite | corrupt | done | expired => exact ⟨rfl, .inr ⟨i, rfl⟩⟩
  | @doneReport t room _ hw | @expiredReport t room _ hw =>
    have hcore : (t.unlessCorrupt room).toCore = t.toCore := by cases room <;> rfl
    exact ⟨by simp [hcore, hw.toCore]; rfl,
      .inr ⟨i, by simp [Core.removeInflight, hcore, hw.toCore]; rfl⟩⟩

theorem Turn.bounded {v : Verdict} (h : Turn s inp i t v) (hi : i < s.nodeCount)
    (hs : s.toCore.Bounded) : t.toCore.Bounded := by
  rcases h.table with hin | ⟨e, hin, hroom, rfl, -⟩
  · exact hs.sheds ⟨h.count, .inl hin⟩
  · refine ⟨by rw [hin, List.length_append]; exact hroom, fun k hk => ?_⟩
    rw [hin, List.mem_append, List.mem_singleton] at hk
    rw [h.count]
    rcases hk with hk | rfl
    · exact hs.lt k hk
    · exact hi

theorem Stride.bounded (h : Stride s inp t) (hs : s.toCore.Bounded) : t.toCore.Bounded := by
  cases h with
  | begin | invalid | scanned | polled | waited | complete | again | drained | drainAgain | ended =>
    exact hs.sheds ⟨rfl, .inl rfl⟩
  | reject _ hw => exact hs.sheds ⟨by simp [hw.toCore], .inl (by simp [hw.toCore])⟩
  | visit _ hi hv =>
    cases hv with
    | idle | blocked | corrupt => exact hs.sheds ⟨rfl, .inl rfl⟩
    | turn _ _ ht => exact ht.bounded hi hs
  | check _ _ hc => exact hs.sheds hc.sheds
  | wait _ _ hw =>
    cases hw with
    | idle | blocked | corrupt => exact hs.sheds ⟨rfl, .inl rfl⟩
    | wake _ _ hw => exact hs.sheds ⟨by simp [hw.toCore], .inl (by simp [hw.toCore])⟩
  | drain _ _ hd => exact hs.sheds hd.sheds

end Step

end Slash.Rp1
