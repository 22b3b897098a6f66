import Mathlib.Data.List.GetD
import Slash.Cpu.Queue

/-!
# Runs of the CPU queue

Between two rounds of `runOnce` the counter of a node is the number of its open incoming edges, and
the FIFO and the poll set together hold, each once, the nodes that have no open incoming edge and
have not run. A node is taken out of one of them to be run, so it runs once and after its
predecessors. When both are empty, a node that has not run would wait for another one that has not
run, and so on round a cycle.
-/

namespace Slash.Cpu

open Lib List RunState

variable {nodes : List CpuProgramNode} {s : RunState}

/-! ## Logs -/

def Event.node? : Event → Option Nat
  | executed idx => some idx
  | probed .. => none

def executedOf (log : List Event) : List Nat := log.filterMap Event.node?

variable {log : List Event}

theorem mem_executedOf {i : Nat} :
    i ∈ executedOf log ↔ Event.executed i ∈ log := by
  unfold executedOf
  rw [mem_filterMap]
  constructor
  · rintro ⟨e, he, hnode⟩
    cases e with
    | executed idx =>
      cases hnode
      exact he
    | probed idx ready => cases hnode
  · intro h
    exact ⟨_, h, rfl⟩

@[simp] theorem executedOf_executed (log : List Event) (idx : Nat) :
    executedOf (log ++ [.executed idx]) = executedOf log ++ [idx] := by
  unfold executedOf
  rw [filterMap_append]
  rfl

@[simp] theorem executedOf_probed (log : List Event) (idx : Nat) (ready : Bool) :
    executedOf (log ++ [.probed idx ready]) = executedOf log := by
  unfold executedOf
  rw [filterMap_append]
  exact append_nil _

/-- The node runs inside the queue, after its predecessors, and if it is polled right after a
probe that said ready. -/
structure RunsAfter (nodes : List CpuProgramNode) (before : List Event) (j : Nat) : Prop where
  inside : j < nodes.length
  after : ∀ i, Edge nodes i j → i ∈ executedOf before
  probed : polledAt nodes j = true → ∃ earlier, before = earlier ++ [.probed j true]

/-- A log that executes every node at most once, each where it may run. -/
structure Ordered (nodes : List CpuProgramNode) (log : List Event) : Prop where
  nodup : (executedOf log).Nodup
  each : ∀ before j after, log = before ++ .executed j :: after → RunsAfter nodes before j

theorem Ordered.nil : Ordered nodes [] := by
  refine ⟨nodup_nil, ?_⟩
  intro before j after heq
  cases before <;> cases heq

theorem snoc_split {α : Type} {log before after : List α} {e x : α}
    (h : log ++ [e] = before ++ x :: after) :
    (log = before ∧ e = x) ∨ ∃ rest, log = before ++ x :: rest := by
  rcases eq_nil_or_concat after with rfl | ⟨rest, last, rfl⟩
  · obtain ⟨rfl, he⟩ := append_inj' h rfl
    exact .inl ⟨rfl, (List.cons.inj he).1⟩
  · rw [concat_eq_append, ← cons_append, ← append_assoc] at h
    obtain ⟨rfl, -⟩ := append_inj' h rfl
    exact .inr ⟨rest, rfl⟩

theorem Ordered.probe (h : Ordered nodes log) (idx : Nat) (ready : Bool) :
    Ordered nodes (log ++ [.probed idx ready]) := by
  refine ⟨?_, ?_⟩
  · rw [executedOf_probed]
    exact h.nodup
  · intro before j after heq
    obtain ⟨-, heq⟩ | ⟨rest, rfl⟩ := snoc_split heq
    · cases heq
    · exact h.each before j rest rfl

variable {idx : Nat}

theorem Ordered.execute (h : Ordered nodes log) (hnew : idx ∉ executedOf log)
    (hidx : RunsAfter nodes log idx) :
    Ordered nodes (log ++ [.executed idx]) := by
  refine ⟨?_, ?_⟩
  · rw [executedOf_executed]
    exact nodup_append'.2 ⟨h.nodup, nodup_singleton idx,
      fun j hj hj' => hnew (mem_singleton.1 hj' ▸ hj)⟩
  · intro before j after heq
    obtain ⟨rfl, hlast⟩ | ⟨rest, rfl⟩ := snoc_split heq
    · obtain rfl := Event.executed.inj hlast
      exact hidx
    · exact h.each before j rest rfl

/-- What a node that has run depends on has run. -/
theorem Ordered.closed (h : Ordered nodes log) {i j : Nat} (hj : j ∈ executedOf log)
    (hedge : Edge nodes i j) : i ∈ executedOf log := by
  obtain ⟨before, after, rfl⟩ := append_of_mem (mem_executedOf.1 hj)
  have hi := (h.each before j after rfl).after i hedge
  unfold executedOf
  rw [filterMap_append]
  exact mem_append_left _ hi

/-! ## What a round keeps -/

/-- The counters and the two collections, with `held` taken out to be run. -/
structure Scheduled (nodes : List CpuProgramNode) (held : List Nat) (s : RunState) : Prop where
  counts : ∀ j, s.unmetCounts j = (openEdges nodes (executedOf s.log)).count j
  nodup : (s.waiting ++ held).Nodup
  mem : ∀ j, j ∈ s.waiting ++ held ↔
    j < nodes.length ∧ s.unmetCounts j = 0 ∧ j ∉ executedOf s.log
  ready : ∀ j ∈ s.readyKP, polledAt nodes j = false

theorem Scheduled.runsAfter (h : Scheduled nodes [idx] s)
    (hprobed : polledAt nodes idx = true → ∃ earlier, s.log = earlier ++ [.probed idx true]) :
    idx ∉ executedOf s.log ∧ RunsAfter nodes s.log idx := by
  obtain ⟨hlt, hzero, hnew⟩ := (h.mem idx).1 (mem_append_right _ (mem_singleton_self idx))
  rw [h.counts, count_openEdges_eq_zero] at hzero
  exact ⟨hnew, hlt, hzero, hprobed⟩

theorem Scheduled.run (hw : Wired nodes) (hruntime : s.runtime = nodes)
    (h : Scheduled nodes [idx] s) (ho : Ordered nodes s.log) :
    Scheduled nodes [] (s.runIndex false idx) := by
  obtain ⟨hlt, hzero, hnew⟩ := (h.mem idx).1 (mem_append_right _ (mem_singleton_self idx))
  obtain ⟨hwaiting, -, hdisjoint⟩ := nodup_append'.1 h.nodup
  have hsnoc := fun j => count_openEdges_snoc hlt hnew j
  have hcount : ∀ j, (successorsAt nodes idx).count j ≤ s.unmetCounts j := by
    intro j
    rw [h.counts j, ← hsnoc j]
    exact Nat.le_add_left _ _
  -- the released nodes had open edges, so they neither ran nor waited
  have hpositive : ∀ j ∈ successorsAt nodes idx, s.unmetCounts j ≠ 0 := by
    intro j hj hj0
    have hpos := count_pos_iff.2 hj
    have hle := hcount j
    omega
  have hopen : ∀ j ∈ successorsAt nodes idx, j ∉ executedOf s.log := by
    intro j hj hexecuted
    refine hpositive j hj ?_
    rw [h.counts, count_openEdges_eq_zero]
    exact fun i hi => ho.closed hexecuted hi
  obtain ⟨added, henlisted, hadded, hmem, hcounts⟩ := release_spec (successorsAt nodes idx)
    { s with log := s.log ++ [Event.executed idx], phase := .drain } hcount
  have hrun : s.runIndex false idx = (successorsAt nodes idx).foldl release
      { s with log := s.log ++ [Event.executed idx], phase := .drain } := by
    rw [← hruntime]
    rfl
  rw [hrun]
  have hperm : ((successorsAt nodes idx).foldl release
      { s with log := s.log ++ [Event.executed idx], phase := .drain }).waiting.Perm
      (s.waiting ++ added) := henlisted.perm
  refine ⟨?_, ?_, ?_, ?_⟩
  · intro j
    rw [hcounts j, henlisted.log, executedOf_executed]
    show s.unmetCounts j - _ = _
    rw [h.counts j, ← hsnoc j, Nat.add_sub_cancel]
  · rw [append_nil, hperm.nodup_iff]
    refine nodup_append'.2 ⟨hwaiting, hadded, ?_⟩
    intro j hj hj'
    exact hpositive j ((hmem j).1 hj').1 ((h.mem j).1 (mem_append_left _ hj)).2.1
  · intro j
    rw [append_nil, hperm.mem_iff, mem_append, hmem j, hcounts j, henlisted.log,
      executedOf_executed, mem_append, mem_singleton, not_or]
    show j ∈ s.waiting ∨ j ∈ _ ∧ s.unmetCounts j = _ ↔ _ ∧ s.unmetCounts j - _ = 0 ∧ _
    have hle := hcount j
    constructor
    · rintro (hj | ⟨hj, heq⟩)
      · obtain ⟨hj1, hj2, hj3⟩ := (h.mem j).1 (mem_append_left _ hj)
        refine ⟨hj1, by omega, hj3, ?_⟩
        rintro rfl
        exact hdisjoint hj (mem_singleton_self _)
      · refine ⟨hw.inside idx j hj, by omega, hopen j hj, ?_⟩
        rintro rfl
        exact hpositive _ hj hzero
    · rintro ⟨hj1, hj2, hj3, hj4⟩
      by_cases hj : j ∈ successorsAt nodes idx
      · exact .inr ⟨hj, by omega⟩
      · rw [count_eq_zero_of_not_mem hj] at hj2
        have hold := (h.mem j).2 ⟨hj1, by omega, hj3⟩
        exact .inl ((mem_append.1 hold).resolve_right fun hmem => hj4 (mem_singleton.1 hmem))
  · intro j hj
    rw [henlisted.readyKP] at hj
    obtain hj | hj := mem_append.1 hj
    · exact h.ready j hj
    · have hkind := (mem_filter.1 hj).2
      rw [Bool.not_eq_true'] at hkind
      rw [← hruntime]
      exact hkind

/-- What holds in every round of a run. -/
structure Running (nodes : List CpuProgramNode) (s : RunState) : Prop where
  runtime : s.runtime = nodes
  ordered : Ordered nodes s.log
  scheduled : s.phase ≠ .threw → Scheduled nodes [] s
  returned : s.phase = .returned → s.waiting = []

theorem runtime_foldl_release (l : List Nat) (s : RunState) :
    (l.foldl release s).runtime = s.runtime ∧
      (l.foldl release s).log = s.log ∧
      (l.foldl release s).phase = s.phase := by
  induction l generalizing s with
  | nil => exact ⟨rfl, rfl, rfl⟩
  | cons x l ih =>
    obtain ⟨h1, h2, h3⟩ := ih (s.release x)
    have hrelease : (s.release x).runtime = s.runtime ∧ (s.release x).log = s.log ∧
        (s.release x).phase = s.phase := by
      unfold release
      dsimp only
      split
      · have h := enlisted_promote
          { s with unmetCounts := upd s.unmetCounts x (decrement (s.unmetCounts x)) } x
        exact ⟨h.runtime, h.log, h.phase⟩
      · exact ⟨rfl, rfl, rfl⟩
    exact ⟨h1.trans hrelease.1, h2.trans hrelease.2.1, h3.trans hrelease.2.2⟩

theorem Scheduled.running (hw : Wired nodes) (hruntime : s.runtime = nodes)
    (h : Scheduled nodes [idx] s) (ho : Ordered nodes s.log)
    (hprobed : polledAt nodes idx = true → ∃ earlier, s.log = earlier ++ [.probed idx true])
    (throws : Bool) : Running nodes (s.runIndex throws idx) := by
  obtain ⟨hnew, hafter⟩ := h.runsAfter hprobed
  have hordered := ho.execute hnew hafter
  cases throws with
  | true =>
    exact ⟨hruntime, hordered, fun hphase => absurd rfl hphase, fun hphase => by cases hphase⟩
  | false =>
    obtain ⟨h1, h2, h3⟩ := runtime_foldl_release (successorsAt s.runtime idx)
      { s with log := s.log ++ [Event.executed idx], phase := .drain }
    refine ⟨h1.trans hruntime, ?_, fun _ => h.run hw hruntime ho, ?_⟩
    · have hlog : (s.runIndex false idx).log = s.log ++ [.executed idx] := h2
      rw [hlog]
      exact hordered
    · intro hphase
      have hdrain : (s.runIndex false idx).phase = .drain := h3
      rw [hdrain] at hphase
      cases hphase

theorem cursor_lt {round : Nat} (h : round < s.pendingCons.length) :
    s.cursor < s.pendingCons.length := by
  unfold cursor
  split <;> omega

theorem Scheduled.take {t : RunState} (h : Scheduled nodes [] s)
    (hlog : executedOf t.log = executedOf s.log) (hcounts : t.unmetCounts = s.unmetCounts)
    (hperm : s.waiting.Perm (t.waiting ++ [idx])) (hready : t.readyKP ⊆ s.readyKP) :
    Scheduled nodes [idx] t := by
  obtain ⟨h1, h2, h3, h4⟩ := h
  rw [append_nil] at h2
  simp only [append_nil] at h3
  refine ⟨?_, hperm.nodup_iff.1 h2, ?_, fun j hj => h4 j (hready hj)⟩
  · intro j
    rw [hcounts, hlog]
    exact h1 j
  · intro j
    rw [← hperm.mem_iff, hcounts, hlog]
    exact h3 j

theorem Running.keep {t : RunState} (h : Running nodes s) (hthrew : s.phase ≠ .threw)
    (hruntime : t.runtime = s.runtime) (hcounts : t.unmetCounts = s.unmetCounts)
    (hready : t.readyKP = s.readyKP) (hpending : t.pendingCons = s.pendingCons)
    (hordered : Ordered nodes t.log) (hlog : executedOf t.log = executedOf s.log)
    (hreturned : t.phase = .returned → t.waiting = []) : Running nodes t := by
  refine ⟨hruntime.trans h.runtime, hordered, fun _ => ?_, hreturned⟩
  obtain ⟨h1, h2, h3, h4⟩ := h.scheduled hthrew
  have hwaiting : t.waiting = s.waiting := by rw [waiting, waiting, hready, hpending]
  refine ⟨?_, ?_, ?_, ?_⟩
  · intro j
    rw [hcounts, hlog]
    exact h1 j
  · rw [hwaiting]
    exact h2
  · intro j
    rw [hwaiting, hcounts, hlog]
    exact h3 j
  · rw [hready]
    exact h4

theorem Running.poll (hw : Wired nodes) (h : Running nodes s) (hthrew : s.phase ≠ .threw)
    (a : Answer) {round : Nat} (hround : round < s.pendingCons.length) :
    Running nodes (s.poll a round) := by
  unfold RunState.poll
  cases a.probe with
  | none => exact h.keep hthrew rfl rfl rfl rfl h.ordered rfl fun hphase => by cases hphase
  | some ready =>
    cases ready with
    | false =>
      exact h.keep hthrew rfl rfl rfl rfl (h.ordered.probe _ _) (executedOf_probed _ _ _)
        fun hphase => by cases hphase
    | true =>
      have hcursor := cursor_lt hround
      rw [getD_eq_getElem _ _ hcursor]
      refine Scheduled.running hw ?_ ?_ ?_ (fun _ => ⟨s.log, rfl⟩) _
      · exact h.runtime
      · refine (h.scheduled hthrew).take (executedOf_probed _ _ _) rfl ?_ (List.Subset.refl _)
        show (s.readyKP ++ s.pendingCons).Perm (s.readyKP ++ s.pendingCons.eraseIdx s.cursor ++ _)
        rw [append_assoc]
        refine List.Perm.append_left _ ?_
        exact (getElem_cons_eraseIdx_perm hcursor).symm.trans
          (perm_append_singleton _ _).symm
      · exact h.ordered.probe _ _

/-! ## Rounds -/

section Step

variable {a : Answer}

theorem step_drain_cons {idx : Nat} {rest : List Nat} (hphase : s.phase = .drain)
    (hready : s.readyKP = idx :: rest) :
    s.step a = { s with readyKP := rest }.runIndex a.throws idx := by
  simp only [RunState.step, hphase, hready]

theorem step_drain_done (hphase : s.phase = .drain) (hready : s.readyKP = [])
    (hpending : s.pendingCons = []) : s.step a = { s with phase := .returned } := by
  simp only [RunState.step, hphase, hready, if_pos hpending]

theorem step_drain_nil (hphase : s.phase = .drain) (hready : s.readyKP = [])
    (hpending : s.pendingCons ≠ []) : s.step a = { s with phase := .scan 0 } := by
  simp only [RunState.step, hphase, hready, if_neg hpending]

theorem step_scan {round : Nat} (hphase : s.phase = .scan round)
    (hround : round < s.pendingCons.length) : s.step a = s.poll a round := by
  simp only [RunState.step, hphase, if_pos hround]

theorem step_scan_over {round : Nat} (hphase : s.phase = .scan round)
    (hround : ¬ round < s.pendingCons.length) :
    s.step a = { s with phase := if a.late then .threw else .drain } := by
  simp only [RunState.step, hphase, if_neg hround]
  split <;> rfl

theorem step_finished (hend : s.finished) : s.step a = s := by
  have hphase : s.phase = .returned ∨ s.phase = .threw := of_decide_eq_true hend
  obtain hphase | hphase := hphase <;> simp only [RunState.step, hphase]

end Step

theorem Running.step (hw : Wired nodes) (h : Running nodes s) (a : Answer) :
    Running nodes (s.step a) := by
  cases hphase : s.phase with
  | returned =>
    rw [step_finished (decide_eq_true (.inl hphase))]
    exact h
  | threw =>
    rw [step_finished (decide_eq_true (.inr hphase))]
    exact h
  | drain =>
    have hthrew : s.phase ≠ .threw := by
      rw [hphase]
      exact Phase.noConfusion
    have hs := h.scheduled hthrew
    cases hready : s.readyKP with
    | nil =>
      by_cases hpending : s.pendingCons = []
      · rw [step_drain_done hphase hready hpending]
        refine h.keep hthrew rfl rfl rfl rfl h.ordered rfl fun _ => ?_
        show s.readyKP ++ s.pendingCons = []
        rw [hready, hpending, append_nil]
      · rw [step_drain_nil hphase hready hpending]
        exact h.keep hthrew rfl rfl rfl rfl h.ordered rfl fun hphase => by cases hphase
    | cons idx rest =>
      rw [step_drain_cons hphase hready]
      have hkind : polledAt nodes idx = false :=
        hs.ready idx (hready ▸ mem_cons_self)
      refine Scheduled.running hw ?_ ?_ ?_ ?_ _
      · exact h.runtime
      · refine hs.take rfl rfl ?_ ?_
        · show (s.readyKP ++ s.pendingCons).Perm (rest ++ s.pendingCons ++ [idx])
          rw [hready]
          exact (perm_append_singleton _ _).symm
        · rw [hready]
          exact subset_cons_self _ _
      · exact h.ordered
      · intro hpolled
        rw [hkind] at hpolled
        cases hpolled
  | scan round =>
    have hthrew : s.phase ≠ .threw := by
      rw [hphase]
      exact Phase.noConfusion
    by_cases hround : round < s.pendingCons.length
    · rw [step_scan hphase hround]
      exact h.poll hw hthrew a hround
    · rw [step_scan_over hphase hround]
      refine h.keep hthrew rfl rfl rfl rfl h.ordered rfl fun hreturned => ?_
      dsimp only at hreturned
      split at hreturned <;> cases hreturned

/-! ## The start of a run -/

theorem enlisted_foldl (c : Nat → Bool) (l : List Nat) (s : RunState) :
    Enlisted s (l.foldl (fun s i => if c i then s.promote i else s) s) (l.filter c) ∧
      (l.foldl (fun s i => if c i then s.promote i else s) s).unmetCounts = s.unmetCounts := by
  induction l generalizing s with
  | nil => exact ⟨Enlisted.refl s, rfl⟩
  | cons i l ih =>
    rw [foldl_cons]
    by_cases hi : c i = true
    · rw [if_pos hi, filter_cons_of_pos hi]
      obtain ⟨hrest, hcounts⟩ := ih (s.promote i)
      exact ⟨(enlisted_promote s i).trans hrest, hcounts.trans (unmetCounts_promote s i)⟩
    · rw [if_neg hi, filter_cons_of_neg hi]
      exact ih s

theorem Running.start (hw : Wired nodes) : Running nodes (.start nodes) := by
  set counts : Nat → Nat := fun i => ((nodes[i]?).map CpuProgramNode.initialUnmet).getD 0
    with hcounts
  obtain ⟨henlisted, hunmet⟩ := enlisted_foldl (fun i => counts i = 0) (List.range nodes.length)
    { runtime := nodes, unmetCounts := counts }
  have hstart : RunState.start nodes = (List.range nodes.length).foldl
      (fun s i => if decide (counts i = 0) = true then s.promote i else s)
      { runtime := nodes, unmetCounts := counts } := by
    simp only [decide_eq_true_eq]
    rfl
  rw [← hstart] at henlisted hunmet
  have hlog : (RunState.start nodes).log = [] := henlisted.log
  have hcount : ∀ j, counts j = (openEdges nodes []).count j := by
    intro j
    rw [openEdges_nil, hcounts]
    dsimp only
    cases hj : nodes[j]? with
    | some node => exact hw.counts j node hj
    | none =>
      -- no edge leads out of the queue
      refine (count_eq_zero.2 fun hmem => ?_).symm
      obtain ⟨i, -, hi⟩ := mem_flatMap.1 hmem
      exact absurd (hw.inside i j hi) (Nat.not_lt.2 (List.getElem?_eq_none_iff.1 hj))
  have hperm : (RunState.start nodes).waiting.Perm
      ((List.range nodes.length).filter fun i => counts i = 0) := henlisted.perm
  refine ⟨henlisted.runtime, ?_, fun _ => ⟨?_, ?_, ?_, ?_⟩, ?_⟩
  · rw [hlog]
    exact Ordered.nil
  · intro j
    rw [hunmet, hlog]
    exact hcount j
  · rw [append_nil, hperm.nodup_iff]
    exact nodup_range.filter _
  · intro j
    rw [append_nil, hperm.mem_iff, hunmet, hlog, mem_filter, mem_range,
      decide_eq_true_eq]
    exact ⟨fun h => ⟨h.1, h.2, not_mem_nil⟩, fun h => ⟨h.1, h.2.1⟩⟩
  · intro j hj
    rw [henlisted.readyKP] at hj
    have hkind := (mem_filter.1 hj).2
    rwa [Bool.not_eq_true'] at hkind
  · intro hphase
    rw [henlisted.phase] at hphase
    cases hphase

/-- Every state of every run of the plan. -/
theorem Launched.running (hw : Wired nodes) (h : Launched nodes s) : Running nodes s := by
  induction h with
  | first => exact Running.start hw
  | step a _ ih => exact ih.step hw a
  | again _ _ ih =>
    rw [ih.runtime]
    exact Running.start hw

/-- When nothing waits any more, everything has run. -/
theorem Running.complete (hw : Wired nodes) (h : Running nodes s) (hphase : s.phase = .returned) :
    (executedOf s.log).Perm (List.range nodes.length) := by
  have hs := h.scheduled (by rw [hphase]; exact Phase.noConfusion)
  have hempty := h.returned hphase
  refine (perm_ext_iff_of_nodup h.ordered.nodup nodup_range).2 fun j => ?_
  rw [mem_range]
  constructor
  · intro hj
    obtain ⟨before, after, heq⟩ := append_of_mem (mem_executedOf.1 hj)
    exact (h.ordered.each before j after heq).inside
  · intro hj
    by_contra hopen
    have hfree : ¬ Blocked (Edge nodes) j := by
      rintro ⟨c, hcycle, -⟩
      exact hw.acyclic c hcycle
    have hready : ∃ i, Ready (Edge nodes) (List.range nodes.length) (executedOf s.log) i :=
      exists_ready (fun p x hp => mem_range.2 hp.lt) (mem_range.2 hj) hopen hfree
    obtain ⟨i, hi, hinew, hpreds⟩ := hready
    have hwaits : i ∈ s.waiting ++ [] := by
      rw [hs.mem i, hs.counts i, count_openEdges_eq_zero]
      exact ⟨mem_range.1 hi, hpreds, hinew⟩
    rw [hempty] at hwaits
    exact not_mem_nil hwaits

/-! ## Progress

Where every probe says ready, no node throws and the watchdog does not run out, each round brings
the end closer: it runs a node, or it leads to a round that does. -/

def RunState.effort (s : RunState) (total : Nat) : Nat :=
  3 * (total - (executedOf s.log).length) +
    match s.phase with
    | .drain => 1
    | .scan round => if round < s.pendingCons.length then 0 else 2
    | .returned => 0
    | .threw => 0

theorem Running.length_executed (h : Running nodes s) :
    (executedOf s.log).length ≤ nodes.length := by
  have hsub : executedOf s.log ⊆ List.range nodes.length := by
    intro j hj
    obtain ⟨before, after, heq⟩ := append_of_mem (mem_executedOf.1 hj)
    exact mem_range.2 (h.ordered.each before j after heq).inside
  have hle := (subperm_of_subset h.ordered.nodup hsub).length_le
  rwa [length_range] at hle

theorem effort_runIndex {t : RunState} (h : Running nodes (t.runIndex false idx))
    (hlog : executedOf t.log = executedOf s.log) :
    ¬ (t.runIndex false idx).finished ∧
      (t.runIndex false idx).effort nodes.length < s.effort nodes.length := by
  obtain ⟨-, h2, h3⟩ := runtime_foldl_release (successorsAt t.runtime idx)
    { t with log := t.log ++ [Event.executed idx], phase := .drain }
  have hphase : (t.runIndex false idx).phase = .drain := h3
  have hexecuted : executedOf (t.runIndex false idx).log = executedOf s.log ++ [idx] := by
    rw [← hlog, ← executedOf_executed]
    exact congrArg executedOf h2
  have hlength := h.length_executed
  rw [hexecuted, length_append, length_singleton] at hlength
  refine ⟨by simp [finished, hphase], ?_⟩
  unfold effort
  rw [hphase, hexecuted, length_append, length_singleton]
  dsimp only
  omega

theorem Running.progress (hw : Wired nodes) (h : Running nodes s) (hopen : ¬ s.finished) :
    (s.step {}).phase = .returned ∨
      ¬ (s.step {}).finished ∧ (s.step {}).effort nodes.length < s.effort nodes.length := by
  have hstep := h.step hw {}
  cases hphase : s.phase with
  | returned => exact absurd (decide_eq_true (.inl hphase)) hopen
  | threw => exact absurd (decide_eq_true (.inr hphase)) hopen
  | drain =>
    cases hready : s.readyKP with
    | cons idx rest =>
      rw [step_drain_cons hphase hready] at hstep ⊢
      exact .inr (effort_runIndex hstep rfl)
    | nil =>
      by_cases hpending : s.pendingCons = []
      · rw [step_drain_done hphase hready hpending]
        exact .inl rfl
      · rw [step_drain_nil hphase hready hpending]
        refine .inr ⟨by simp [finished], ?_⟩
        unfold effort
        rw [hphase]
        simp [length_pos_iff.2 hpending]
  | scan round =>
    by_cases hround : round < s.pendingCons.length
    · rw [step_scan hphase hround] at hstep ⊢
      exact .inr (effort_runIndex hstep (executedOf_probed _ _ _))
    · rw [step_scan_over hphase hround]
      refine .inr ⟨by simp [finished], ?_⟩
      unfold effort
      rw [hphase]
      simp [hround]

/-- Every run that has not finished can return. -/
theorem Running.can_return (hw : Wired nodes) (h : Running nodes s) (hopen : ¬ s.finished) :
    ∃ n ≤ s.effort nodes.length + 1, ∃ t,
      (List.replicate n ({} : Answer)).foldl RunState.step s = t ∧ Running nodes t ∧
        t.phase = .returned := by
  induction hn : s.effort nodes.length using Nat.strong_induction_on generalizing s with
  | _ n ih =>
    obtain hreturned | ⟨hopen', hless⟩ := h.progress hw hopen
    · exact ⟨1, Nat.le_add_left 1 n, _, rfl, h.step hw {}, hreturned⟩
    · obtain ⟨k, hk, t, hrun, ht⟩ := ih _ (hn ▸ hless) (h.step hw {}) hopen' rfl
      exact ⟨k + 1, by omega, t, hrun, ht⟩

theorem count_executed (log : List Event) (j : Nat) :
    log.count (.executed j) = (executedOf log).count j := by
  induction log with
  | nil => rfl
  | cons e log ih =>
    cases e with
    | executed idx =>
      show _ = (idx :: executedOf log).count j
      rw [count_cons, count_cons, ih]
      simp
    | probed idx ready =>
      show _ = (executedOf log).count j
      rw [count_cons, ih]
      simp

/-- Every node runs at most once, after its queue-local predecessors, and if it is polled right
after its probe said ready; a run that returns has run every node once. A plan that is launched
again starts from the program it had. -/
theorem runOnce_executes (nodes : List CpuProgramNode) (hw : Wired nodes) (s : RunState)
    (hs : Launched nodes s) :
    (∀ j, s.log.count (.executed j) ≤ 1) ∧
      (∀ before j after, s.log = before ++ .executed j :: after →
        (∀ i, Edge nodes i j → .executed i ∈ before) ∧
        (polledAt nodes j = true → ∃ earlier, before = earlier ++ [.probed j true])) ∧
      (s.phase = .returned → ∀ j, j < nodes.length → s.log.count (.executed j) = 1) := by
  have h := hs.running hw
  refine ⟨?_, ?_, ?_⟩
  · intro j
    rw [count_executed]
    exact nodup_iff_count_le_one.1 h.ordered.nodup j
  · intro before j after heq
    have hj := h.ordered.each before j after heq
    exact ⟨fun i hi => mem_executedOf.1 (hj.after i hi), hj.probed⟩
  · intro hphase j hj
    rw [count_executed, (h.complete hw hphase).count_eq]
    exact count_eq_one_of_mem nodup_range (mem_range.2 hj)

theorem effort_le (s : RunState) (total : Nat) : s.effort total ≤ 3 * total + 2 := by
  unfold effort
  split
  · omega
  · split <;> omega
  · omega
  · omega

/-- No run is stuck: from every state before the end, rounds in which every probe says ready and
nothing throws lead to one that returns with every node run once, three for a node and three more
at most. -/
theorem runOnce_returns (nodes : List CpuProgramNode) (hw : Wired nodes) (s : RunState)
    (hs : Launched nodes s) (hopen : ¬ s.finished) :
    ∃ n ≤ 3 * nodes.length + 3, ∃ t,
      (List.replicate n ({} : Answer)).foldl RunState.step s = t ∧ t.phase = .returned ∧
        ∀ j, j < nodes.length → t.log.count (.executed j) = 1 := by
  obtain ⟨n, hn, t, hrun, ht, hphase⟩ := (hs.running hw).can_return hw hopen
  have hle := effort_le s nodes.length
  refine ⟨n, by omega, t, hrun, hphase, fun j hj => ?_⟩
  rw [count_executed, (ht.complete hw hphase).count_eq]
  exact count_eq_one_of_mem nodup_range (mem_range.2 hj)

/-- A producer, the consumer it feeds, and a kernel behind the consumer that also waits for a step
of another queue. -/
def chainProgram : List CpuProgramNode :=
  wireDirectDependencies
    (fun step => if step = 8 then [7] else if step = 9 then [8, 30] else [])
    [{ step := 7, kind := .producerOp }, { step := 8, kind := .consumerOp },
      { step := 9, kind := .kernel }]

theorem chainProgram_wired : Wired chainProgram := by
  refine wired_wireDirectDependencies ?_ _ ?_
  · intro node hnode
    simp only [mem_cons, not_mem_nil, or_false] at hnode
    obtain rfl | rfl | rfl := hnode <;> exact ⟨rfl, rfl⟩
  · -- every edge leads to a later node
    have hup : ∀ i j, Relation.TransGen (fun i j => (i, j) ∈ localEdges
        (fun step => if step = 8 then [7] else if step = 9 then [8, 30] else [])
        [{ step := 7, kind := .producerOp }, { step := 8, kind := .consumerOp },
          { step := 9, kind := .kernel }]) i j → i < j := by
      intro i j hij
      have hstep : ∀ e ∈ localEdges
          (fun step => if step = 8 then [7] else if step = 9 then [8, 30] else [])
          [{ step := 7, kind := .producerOp }, { step := 8, kind := .consumerOp },
            { step := 9, kind := .kernel }], e.1 < e.2 := by decide
      induction hij with
      | single hedge => exact hstep _ hedge
      | tail _ hedge ih => exact lt_trans ih (hstep _ hedge)
    exact fun i hi => lt_irrefl i (hup i i hi)

/-- The consumer's second probe says ready, in the second run as in the first. -/
def chainRun (s : RunState) : RunState :=
  ([{}, {}, { probe := some false }, {}, {}, {}, {}, {}] : List Answer).foldl RunState.step s

theorem runOnce_executes_chain :
    Wired chainProgram ∧
      ∀ j, j < 3 → (chainRun (.start (chainRun (.start chainProgram)).runtime)).log.count
        (.executed j) = 1 := by
  refine ⟨chainProgram_wired, ?_⟩
  have hrun : ∀ {s : RunState}, Launched chainProgram s → Launched chainProgram (chainRun s) := by
    intro s hs
    exact ((((((((hs.step _).step _).step _).step _).step _).step _).step _).step _)
  have hagain := hrun (.again (hrun .first) (by decide))
  exact (runOnce_executes chainProgram chainProgram_wired _ hagain).2.2 (by decide)

theorem runOnce_returns_chain : ∃ n ≤ 12, ∃ t,
    (List.replicate n ({} : Answer)).foldl RunState.step
      ((RunState.start chainProgram).step { probe := some false }) = t ∧ t.phase = .returned ∧
        ∀ j, j < 3 → t.log.count (.executed j) = 1 :=
  runOnce_returns chainProgram chainProgram_wired _ (.step _ .first) (by decide)

end Slash.Cpu
