import Mathlib.Data.List.Perm.Subperm
import Slash.Pass.Resolver

/-!
# The order of a region

`DeterministicTopology::order` is Kahn's algorithm: a node is emitted once all its predecessors
have been. When it emits every node of a region, the position of a node in the emitted list is a
rank that every dependency increases, so the dependencies have no cycle.
-/

namespace Slash.Pass

open List

/-- The predecessors of a node that have not been emitted. -/
def waiting (predecessors : NodeId → List NodeId) (result : List NodeId) (n : NodeId) : Nat :=
  (predecessors n).countP fun p => p ∉ result

/-- Every node comes after its predecessors. -/
def Topological (predecessors : NodeId → List NodeId) : List NodeId → Prop
  | result => ∀ before n after, result = before ++ n :: after → predecessors n ⊆ before

variable {predecessors : NodeId → List NodeId} {result : List NodeId}

theorem Topological.snoc {n : NodeId} (h : Topological predecessors result)
    (hn : predecessors n ⊆ result) :
    Topological predecessors (result ++ [n]) := by
  intro before m after heq
  rcases eq_nil_or_concat after with rfl | ⟨after, x, rfl⟩
  · obtain ⟨rfl, hm⟩ := append_inj' heq rfl
    obtain rfl := (List.cons.inj hm).1
    exact hn
  · rw [concat_eq_append, ← cons_append, ← append_assoc] at heq
    obtain ⟨rfl, -⟩ := append_inj' heq rfl
    exact h before m after rfl

/-- What the rounds of `emit` keep. -/
structure Emitting (predecessors : NodeId → List NodeId) (ids : List NodeId)
    (indegree : List (NodeId × Nat)) (ready result : List NodeId) : Prop where
  keys : indegree.map Prod.fst = ids
  degrees : ∀ e ∈ indegree, e.2 = waiting predecessors result e.1
  ready_nodup : ready.Nodup
  ready_mem : ∀ n ∈ ready, n ∈ ids ∧ n ∉ result ∧ predecessors n ⊆ result
  result_nodup : result.Nodup
  result_mem : result ⊆ ids
  topological : Topological predecessors result

theorem waiting_eq_zero {n : NodeId} :
    waiting predecessors result n = 0 ↔ predecessors n ⊆ result := by
  simp [waiting, countP_eq_zero, subset_def]

theorem waiting_snoc (predecessors : NodeId → List NodeId) {node : NodeId} (hnode : node ∉ result)
    (n : NodeId) :
    waiting predecessors (result ++ [node]) n + (predecessors n).count node =
      waiting predecessors result n := by
  unfold waiting
  induction predecessors n with
  | nil => rfl
  | cons p ps ih =>
    rw [countP_cons, countP_cons, count_cons, ← ih]
    have hmem : p ∈ result ++ [node] ↔ p ∈ result ∨ p = node := by
      rw [mem_append, mem_singleton]
    by_cases hp : p = node
    · subst hp
      have hleft : decide (p ∉ result ++ [p]) = false := decide_eq_false (not_not.2 (hmem.2 (.inr rfl)))
      rw [hleft, decide_eq_true hnode, beq_self_eq_true]
      simp only [Bool.false_eq_true, if_false, if_true]
      omega
    · have hsame : decide (p ∉ result ++ [node]) = decide (p ∉ result) := by
        rw [decide_eq_decide, hmem, or_iff_left hp]
      rw [hsame, beq_false_of_ne hp]
      simp only [Bool.false_eq_true, if_false]
      omega

/-- A position in the order, which every dependency increases. -/
def Ranked (predecessors : NodeId → List NodeId) (ids : List NodeId) : Prop :=
  ∃ rank : NodeId → Nat, ∀ n ∈ ids, ∀ p ∈ predecessors n, rank p < rank n

theorem Topological.ranked {result ids : List NodeId} (h : Topological predecessors result)
    (hids : ids ⊆ result) (hnodup : result.Nodup) :
    Ranked predecessors ids := by
  refine ⟨fun n => result.idxOf n, ?_⟩
  intro n hn p hp
  obtain ⟨before, after, rfl⟩ := append_of_mem (hids hn)
  have hbefore : p ∈ before := h before n after rfl hp
  have hn' : n ∉ before := by
    intro hmem
    exact disjoint_of_nodup_append hnodup hmem mem_cons_self
  show List.idxOf p (before ++ n :: after) < List.idxOf n (before ++ n :: after)
  rw [idxOf_append_of_mem hbefore, idxOf_append_of_notMem hn', idxOf_cons_self]
  exact idxOf_lt_length_of_mem hbefore

variable {ids : List NodeId}

theorem Emitting.round {indegree : List (NodeId × Nat)} {ready result : List NodeId}
    {node : NodeId} (h : Emitting predecessors ids indegree ready result) (hids : ids.Nodup)
    (hnode : node ∈ ready) :
    Emitting predecessors ids
      (indegree.map fun e => (e.1, e.2 - (predecessors e.1).count node))
      (ready.erase node ++ (indegree.filter fun e =>
        0 < (predecessors e.1).count node ∧ e.2 - (predecessors e.1).count node = 0).map Prod.fst)
      (result ++ [node]) := by
  obtain ⟨hnodeIds, hnodeNew, hnodePreds⟩ := h.ready_mem node hnode
  have hdegree : ∀ e ∈ indegree, e.2 - (predecessors e.1).count node =
      waiting predecessors (result ++ [node]) e.1 := by
    intro e he
    have hsnoc := waiting_snoc predecessors hnodeNew e.1
    rw [h.degrees e he]
    omega
  -- a released node waited for `node`, so it was neither ready nor emitted
  have hreleased : ∀ n ∈ (indegree.filter fun e => 0 < (predecessors e.1).count node ∧
      e.2 - (predecessors e.1).count node = 0).map Prod.fst,
      n ∈ ids ∧ n ∉ ready ∧ n ∉ result ++ [node] ∧ predecessors n ⊆ result ++ [node] := by
    intro n hn
    obtain ⟨e, he, rfl⟩ := mem_map.1 hn
    obtain ⟨hmem, hcond⟩ := mem_filter.1 he
    obtain ⟨hpos, hzero⟩ := of_decide_eq_true hcond
    have hpred : node ∈ predecessors e.1 := count_pos_iff.1 hpos
    refine ⟨?_, ?_, ?_, ?_⟩
    · rw [← h.keys]
      exact mem_map_of_mem hmem
    · intro hready
      exact hnodeNew ((h.ready_mem e.1 hready).2.2 hpred)
    · intro hresult
      obtain hresult | hresult := mem_append.1 hresult
      · obtain ⟨before, after, heq⟩ := append_of_mem hresult
        refine hnodeNew ?_
        rw [heq]
        exact mem_append_left _ (h.topological before e.1 after heq hpred)
      · rw [mem_singleton.1 hresult] at hpred
        exact hnodeNew (hnodePreds hpred)
    · rw [← waiting_eq_zero, ← hdegree e hmem]
      exact hzero
  refine ⟨?_, ?_, ?_, ?_, ?_, ?_, h.topological.snoc hnodePreds⟩
  · rw [map_map]
    exact h.keys
  · intro e he
    obtain ⟨e', he', rfl⟩ := mem_map.1 he
    exact hdegree e' he'
  · refine nodup_append'.2 ⟨h.ready_nodup.erase node, ?_, ?_⟩
    · refine List.Nodup.sublist (filter_sublist.map Prod.fst) ?_
      rw [h.keys]
      exact hids
    · intro n hn hn'
      exact (hreleased n hn').2.1 (mem_of_mem_erase hn)
  · intro n hn
    obtain hn | hn := mem_append.1 hn
    · obtain ⟨hne, hready⟩ := (h.ready_nodup.mem_erase_iff).1 hn
      obtain ⟨hmem, hnew, hpreds⟩ := h.ready_mem n hready
      refine ⟨hmem, ?_, fun p hp => mem_append_left _ (hpreds hp)⟩
      rw [mem_append, mem_singleton]
      rintro (hresult | heq)
      · exact hnew hresult
      · exact hne heq
    · obtain ⟨hmem, -, hnew, hpreds⟩ := hreleased n hn
      exact ⟨hmem, hnew, hpreds⟩
  · exact nodup_append'.2 ⟨h.result_nodup, nodup_singleton node,
      fun n hn hn' => hnodeNew (mem_singleton.1 hn' ▸ hn)⟩
  · exact append_subset.2 ⟨h.result_mem, cons_subset.2 ⟨hnodeIds, nil_subset _⟩⟩

theorem Emitting.emit (hids : ids.Nodup) (fuel : Nat) {indegree : List (NodeId × Nat)}
    {ready result : List NodeId} (h : Emitting predecessors ids indegree ready result) :
    (emit predecessors fuel indegree ready result).Nodup ∧
    emit predecessors fuel indegree ready result ⊆ ids ∧
    Topological predecessors (emit predecessors fuel indegree ready result) := by
  induction fuel generalizing indegree ready result with
  | zero => exact ⟨h.result_nodup, h.result_mem, h.topological⟩
  | succ fuel ih =>
    rw [Pass.emit]
    split
    · exact ⟨h.result_nodup, h.result_mem, h.topological⟩
    · rename_i node hnode
      exact ih (h.round hids (List.min?_mem hnode))

/-- Before the first round: the nodes without predecessors are ready. -/
theorem Emitting.start (hids : ids.Nodup) :
    Emitting predecessors ids (ids.map fun n => (n, (predecessors n).length))
      (((ids.map fun n => (n, (predecessors n).length)).filter fun e => e.2 = 0).map Prod.fst)
      [] := by
  refine ⟨?_, ?_, ?_, ?_, nodup_nil, nil_subset _, ?_⟩
  · rw [map_map]
    exact map_id _
  · intro e he
    obtain ⟨n, -, rfl⟩ := mem_map.1 he
    simp [waiting]
  · refine List.Nodup.sublist (filter_sublist.map Prod.fst) ?_
    rw [map_map]
    exact (map_id ids).symm ▸ hids
  · intro n hn
    obtain ⟨e, he, rfl⟩ := mem_map.1 hn
    obtain ⟨hmem, hzero⟩ := mem_filter.1 he
    obtain ⟨n, hids', rfl⟩ := mem_map.1 hmem
    refine ⟨hids', not_mem_nil, ?_⟩
    have hempty : predecessors n = [] := length_eq_zero_iff.1 (of_decide_eq_true hzero)
    rw [hempty]
    exact nil_subset _
  · intro before n after heq
    cases before <;> cases heq

/-- A region that is emitted as a whole is ranked. -/
theorem ranked_of_emitted {s : ResolutionState} {ρ : AuthoredRegion} (hids : ρ.ids.Nodup)
    (h : (emitted s ρ).length = ρ.ids.length) : Ranked (localPredecessors s ρ.ids) ρ.ids := by
  obtain ⟨hnodup, hsubset, htopological⟩ := (Emitting.start hids).emit hids ρ.ids.length
  have hperm := (subperm_of_subset hnodup hsubset).perm_of_length_le (le_of_eq h.symm)
  exact Topological.ranked htopological hperm.symm.subset hnodup

end Slash.Pass
