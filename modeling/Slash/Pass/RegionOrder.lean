import Slash.Lib.LeastExtension
import Slash.Pass.Topology

/-!
# The order of a region, by node ids

`DeterministicTopology::order` keeps the in-degree of every node and a heap of the nodes whose
in-degree has reached zero. The heap holds exactly the nodes that are ready, so what is emitted is
the greedy list of `Lib.Greedy`: the least linear extension of the operations that no cycle holds
back. It depends on which pairs of local operations are related and on nothing else.
-/

namespace Slash.Pass

open Lib List

/-- The nodes in the order Kahn's algorithm emits them, as far as it gets. -/
def kahn (predecessors : NodeId → List NodeId) (ids : List NodeId) : List NodeId :=
  let indegree := ids.map fun n => (n, (predecessors n).length)
  emit predecessors ids.length indegree ((indegree.filter fun e => e.2 = 0).map Prod.fst) []

/-- `DeterministicTopology::order`: the list it returns and the state with its report. `local` is
a set, and `operations.at` throws for an operation that has not been resolved. -/
def order (s : ResolutionState) (ρ : AuthoredRegion) : Option (List NodeId × ResolutionState) :=
  let nodes := ρ.ids.dedup
  if nodes.all fun n => (s.operations.find? n).isSome then
    let result := kahn (localPredecessors s nodes) nodes
    some (result, s.report <| expect (result.length = nodes.length)
      { code := .cycle
        message := "GraphCompiler: cycle detected in region " ++ toString ρ.info.id })
  else none

/-- An operation of the region has a dependency on another one of it. -/
def DependsOn (s : ResolutionState) (ρ : AuthoredRegion) (p n : NodeId) : Prop :=
  n ∈ ρ.ids ∧ p ∈ ρ.ids ∧
    ∃ r, s.operations.find? n = some r ∧ ∃ d ∈ r.dependencies, d.predecessor = p

/-! ## The heap holds what is ready -/

section Kahn

variable {predecessors : NodeId → List NodeId} {ids : List NodeId}
  {indegree : List (NodeId × Nat)} {ready result : List NodeId}

/-- What the rounds keep, with no ready node left out of the heap. -/
structure Heaped (predecessors : NodeId → List NodeId) (ids : List NodeId)
    (indegree : List (NodeId × Nat)) (ready result : List NodeId) : Prop
    extends Emitting predecessors ids indegree ready result where
  ready_all : ∀ n ∈ ids, n ∉ result → predecessors n ⊆ result → n ∈ ready

theorem Heaped.start (hids : ids.Nodup) :
    Heaped predecessors ids (ids.map fun n => (n, (predecessors n).length))
      (((ids.map fun n => (n, (predecessors n).length)).filter fun e => e.2 = 0).map Prod.fst) [] where
  toEmitting := Emitting.start hids
  ready_all := by
    intro n hn _ hpreds
    refine mem_map.2 ⟨(n, (predecessors n).length), ?_, rfl⟩
    refine mem_filter.2 ⟨mem_map_of_mem hn, ?_⟩
    rw [subset_nil.1 hpreds]
    rfl

/-- One round: a node whose last open predecessor was `node` is released by it. -/
theorem Heaped.round {node : NodeId} (h : Heaped predecessors ids indegree ready result)
    (hids : ids.Nodup) (hnode : node ∈ ready) :
    Heaped predecessors ids
      (indegree.map fun e => (e.1, e.2 - (predecessors e.1).count node))
      (ready.erase node ++ (indegree.filter fun e =>
        0 < (predecessors e.1).count node ∧ e.2 - (predecessors e.1).count node = 0).map Prod.fst)
      (result ++ [node]) where
  toEmitting := h.toEmitting.round hids hnode
  ready_all := by
    intro n hn hnew hpreds
    rw [mem_append, mem_singleton, not_or] at hnew
    obtain ⟨hnotin, hne⟩ := hnew
    refine mem_append.2 ?_
    by_cases hwaits : node ∈ predecessors n
    · refine .inr ?_
      rw [← h.keys] at hn
      obtain ⟨e, he, rfl⟩ := mem_map.1 hn
      refine mem_map_of_mem (mem_filter.2 ⟨he, decide_eq_true ⟨?_, ?_⟩⟩)
      · exact count_pos_iff.2 hwaits
      · have hsnoc := waiting_snoc predecessors (h.ready_mem node hnode).2.1 e.1
        rw [waiting_eq_zero.2 hpreds] at hsnoc
        rw [h.degrees e he]
        omega
    · refine .inl ((h.ready_nodup.mem_erase_iff).2 ⟨hne, h.ready_all n hn hnotin ?_⟩)
      intro p hp
      obtain hp' | hp' := mem_append.1 (hpreds hp)
      · exact hp'
      · rw [mem_singleton.1 hp'] at hp
        exact absurd hp hwaits

variable {dep : NodeId → NodeId → Prop}

theorem Heaped.mem_ready (h : Heaped predecessors ids indegree ready result)
    (hdep : ∀ n ∈ ids, ∀ p, dep p n ↔ p ∈ predecessors n) (n : NodeId) :
    n ∈ ready ↔ Ready dep ids result n := by
  constructor
  · intro hn
    obtain ⟨hmem, hnew, hpreds⟩ := h.ready_mem n hn
    exact ⟨hmem, hnew, fun p hp => hpreds ((hdep n hmem p).1 hp)⟩
  · rintro ⟨hmem, hnew, hpreds⟩
    exact h.ready_all n hmem hnew fun p hp => hpreds p ((hdep n hmem p).2 hp)

/-- All rounds: with fuel for the nodes that are left, they take the least ready node until no
node is ready. -/
theorem Heaped.greedy (hids : ids.Nodup) (hdep : ∀ n ∈ ids, ∀ p, dep p n ↔ p ∈ predecessors n)
    (fuel : Nat) (h : Heaped predecessors ids indegree ready result)
    (hfuel : ids.length ≤ result.length + fuel) :
    ∃ l, emit predecessors fuel indegree ready result = result ++ l ∧ Greedy dep ids result l := by
  induction fuel generalizing indegree ready result with
  | zero =>
    -- every node has been emitted
    have hperm := (subperm_of_subset h.result_nodup h.result_mem).perm_of_length_le hfuel
    refine ⟨[], (append_nil _).symm, .stop ?_⟩
    rintro x ⟨hx, hnew, -⟩
    exact hnew (hperm.symm.subset hx)
  | succ fuel ih =>
    rw [Pass.emit]
    cases hmin : ready.min? with
    | none =>
      refine ⟨[], (append_nil _).symm, .stop ?_⟩
      intro x hx
      have hready := (h.mem_ready hdep x).2 hx
      rw [List.min?_eq_none_iff.1 hmin] at hready
      exact not_mem_nil hready
    | some node =>
      have hnode : node ∈ ready := List.min?_mem hmin
      have hfuel' : ids.length ≤ (result ++ [node]).length + fuel := by
        rw [length_append, length_singleton]
        omega
      obtain ⟨l, hl, hgreedy⟩ := ih (h.round hids hnode) hfuel'
      refine ⟨node :: l, ?_, .take ((h.mem_ready hdep node).1 hnode) ?_ hgreedy⟩
      · rw [append_cons]
        exact hl
      · intro y hy
        exact (List.min?_eq_some_iff.1 hmin).2 y ((h.mem_ready hdep y).2 hy)

theorem kahn_greedy (hids : ids.Nodup) (hdep : ∀ n ∈ ids, ∀ p, dep p n ↔ p ∈ predecessors n) :
    Greedy dep ids [] (kahn predecessors ids) := by
  obtain ⟨l, hl, hgreedy⟩ := (Heaped.start hids).greedy hids hdep ids.length
    (Nat.le_add_left _ _)
  have heq : kahn predecessors ids = l := hl
  rw [heq]
  exact hgreedy

end Kahn

/-! ## The order of a region -/

variable {s : ResolutionState} {ρ : AuthoredRegion}

theorem mem_localPredecessors {nodes : List NodeId} {n p : NodeId} :
    p ∈ localPredecessors s nodes n ↔
      p ∈ nodes ∧ ∃ r, s.operations.find? n = some r ∧ ∃ d ∈ r.dependencies, d.predecessor = p := by
  unfold localPredecessors
  cases s.operations.find? n with
  | none => simp
  | some r => simp [and_comm]

theorem dependsOn_iff {n : NodeId} (hn : n ∈ ρ.ids.dedup) (p : NodeId) :
    DependsOn s ρ p n ↔ p ∈ localPredecessors s ρ.ids.dedup n := by
  rw [mem_localPredecessors, List.mem_dedup]
  exact and_iff_right (List.mem_dedup.1 hn)

theorem kahn_region_greedy (s : ResolutionState) (ρ : AuthoredRegion) :
    Greedy (DependsOn s ρ) ρ.ids.dedup [] (kahn (localPredecessors s ρ.ids.dedup) ρ.ids.dedup) :=
  kahn_greedy ρ.ids.nodup_dedup fun _ hn p => dependsOn_iff hn p

theorem DependsOn.mem_dedup (p n : NodeId) (h : DependsOn s ρ p n) : p ∈ ρ.ids.dedup :=
  List.mem_dedup.2 h.2.1

/-- What `order` returns and reports where it does not throw. -/
theorem order_of_stored (hstored : ∀ n ∈ ρ.ids, (s.operations.find? n).isSome) :
    order s ρ = some (kahn (localPredecessors s ρ.ids.dedup) ρ.ids.dedup,
      s.report <| expect
        ((kahn (localPredecessors s ρ.ids.dedup) ρ.ids.dedup).length = ρ.ids.dedup.length)
        { code := .cycle
          message := "GraphCompiler: cycle detected in region " ++ toString ρ.info.id }) := by
  unfold order
  exact if_pos (all_eq_true.2 fun n hn => hstored n (List.mem_dedup.1 hn))

theorem kahn_region_least (s : ResolutionState) (ρ : AuthoredRegion) :
    LeastExtension (DependsOn s ρ) (fun n => n ∈ ρ.ids ∧ ¬ Blocked (DependsOn s ρ) n)
      (kahn (localPredecessors s ρ.ids.dedup) ρ.ids.dedup) := by
  have hleast := (kahn_region_greedy s ρ).leastExtension DependsOn.mem_dedup
  simp only [List.mem_dedup] at hleast
  exact hleast

theorem kahn_region_length (s : ResolutionState) (ρ : AuthoredRegion) :
    (kahn (localPredecessors s ρ.ids.dedup) ρ.ids.dedup).length = ρ.ids.dedup.length ↔
      ∀ n, ¬ OnCycle (DependsOn s ρ) n := by
  have hne := (kahn_region_greedy s ρ).length_ne_iff ρ.ids.nodup_dedup DependsOn.mem_dedup
  rw [← not_iff_not, ← ne_eq, hne, not_forall_not]

/-- The emitted list depends on the relation alone. -/
theorem kahn_region_congr {t : ResolutionState} (h : DependsOn t ρ = DependsOn s ρ) :
    kahn (localPredecessors t ρ.ids.dedup) ρ.ids.dedup =
      kahn (localPredecessors s ρ.ids.dedup) ρ.ids.dedup := by
  have hleast := kahn_region_least t ρ
  rw [h] at hleast
  exact hleast.unique (kahn_region_least s ρ)

/-- The least linear extension of the operations that no cycle holds back is returned; a cycle
is reported iff there is one. Another state with the same relation on the region's operations
gives the same list and the same report: foreign and repeated dependencies do not count. -/
theorem order_leastExtension (s : ResolutionState) (ρ : AuthoredRegion)
    (hstored : ∀ n ∈ ρ.ids, (s.operations.find? n).isSome) :
    ∃ result reports,
      order s ρ = some (result, s.report reports) ∧
      LeastExtension (DependsOn s ρ) (fun n => n ∈ ρ.ids ∧ ¬ Blocked (DependsOn s ρ) n) result ∧
      ((∀ n, ¬ OnCycle (DependsOn s ρ) n) →
        reports = [] ∧ LeastExtension (DependsOn s ρ) (fun n => n ∈ ρ.ids) result) ∧
      ((∃ n, OnCycle (DependsOn s ρ) n) →
        reports = [{ code := .cycle
                     message := "GraphCompiler: cycle detected in region " ++
                       toString ρ.info.id }]) ∧
      ∀ t : ResolutionState, (∀ n ∈ ρ.ids, (t.operations.find? n).isSome) →
        (∀ p n, DependsOn t ρ p n ↔ DependsOn s ρ p n) →
        order t ρ = some (result, t.report reports) := by
  have hleast := kahn_region_least s ρ
  have hlength := kahn_region_length s ρ
  refine ⟨_, _, order_of_stored hstored, hleast, ?_, ?_, ?_⟩
  · intro hnone
    refine ⟨expect_eq_nil.2 (decide_eq_true (hlength.2 hnone)), ?_⟩
    -- without a cycle nothing is held back
    have hfree : (fun n => n ∈ ρ.ids ∧ ¬ Blocked (DependsOn s ρ) n) = fun n => n ∈ ρ.ids := by
      funext n
      refine propext (and_iff_left ?_)
      rintro ⟨c, hcycle, -⟩
      exact hnone c hcycle
    rw [hfree] at hleast
    exact hleast
  · intro hcycle
    have hshort : ¬ (kahn (localPredecessors s ρ.ids.dedup) ρ.ids.dedup).length =
        ρ.ids.dedup.length := by
      rw [hlength, not_forall_not]
      exact hcycle
    rw [decide_eq_false hshort]
    rfl
  · intro t ht hsame
    have hrel : DependsOn t ρ = DependsOn s ρ := by
      funext p n
      exact propext (hsame p n)
    rw [order_of_stored ht, kahn_region_congr hrel]

/-- Two reprogram operations. -/
def swappedRegion : AuthoredRegion :=
  .mk { id := 0, sourceGraph := 1, sourceScope := 0, sourceParentScope := 0 }
    [.reprogram ⟨3, "first", "image", "fpga0", []⟩, .reprogram ⟨5, "second", "image", "fpga0", []⟩]

/-- The first waits for the second, for two reasons, and for an operation of another region. -/
def swappedState : ResolutionState where
  rootSourceScope := 0
  operations :=
    (Lib.OrderedMap.empty.insert 3 ⟨3, 0, .reprogram, false,
      [⟨5, .userOrdering, none⟩, ⟨5, .reprogramDrain, none⟩, ⟨9, .userOrdering, none⟩], []⟩).insert
      5 ⟨5, 0, .reprogram, false, [], []⟩

theorem order_leastExtension_swapped :
    (∀ n ∈ swappedRegion.ids, (swappedState.operations.find? n).isSome) ∧
      LeastExtension (DependsOn swappedState swappedRegion)
        (fun n => n ∈ swappedRegion.ids ∧ ¬ Blocked (DependsOn swappedState swappedRegion) n)
        [5, 3] := by
  have hstored : ∀ n ∈ swappedRegion.ids, (swappedState.operations.find? n).isSome := by decide
  refine ⟨hstored, ?_⟩
  obtain ⟨result, reports, horder, hleast, -⟩ :=
    order_leastExtension swappedState swappedRegion hstored
  have hresult : (order swappedState swappedRegion).map Prod.fst = some [5, 3] := by decide
  rw [horder] at hresult
  cases hresult
  exact hleast

end Slash.Pass
