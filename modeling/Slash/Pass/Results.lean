import Slash.Lib.Keys
import Slash.Pass.Tree

/-!
# Control results of accepted graphs

When the record of a control result is complete. Resolution gives every exported value of a
control its record and never more than one initial value, but it takes the entries of an arm as
they come: one for each export of the arm, or one for an output port that the arm does not export.
So the records of an accepted graph are complete exactly when every arm exports every result
once, or not at all where the result is an output port of the control (`ExportsOnce`).
`validateControlOutputs`, which was written to check part of this, is never called.
-/

namespace Slash.Pass

open List
open Lib (OrderedMap)

variable {g : AuthoredGraph}

/-! ## The statement -/

/-- One record for the value, one entry for each arm, at most one initial value. -/
def CompleteResult (r : ResolvedGraph) (o : AuthoredOperation) (v : ValueId) : Prop :=
  ∃ record, r.controlResults.filter (fun x => x.control = o.id ∧ x.result = v) = [record] ∧
    (∀ arm ∈ o.arms, arrivals arm.1 record.incoming = 1) ∧
    arrivals .loopInitial record.incoming ≤ 1

/-- Every value a control exports is complete. -/
def ControlResultsComplete (g : AuthoredGraph) (r : ResolvedGraph) : Prop :=
  ∀ ρ ∈ g.regions, ∀ o ∈ ρ.operations, o.isControl = true →
    ∃ op, r.operations.find? o.id = some op ∧
      ∀ b ∈ op.bindings, b.access.exports = true → CompleteResult r o b.value

/-- Every arm exports every result of its control once, or leaves it to an output port. -/
def ExportsOnce (g : AuthoredGraph) : Prop :=
  ∀ ρ ∈ g.regions, ∀ o ∈ ρ.operations, ∀ k ∈ o.producedValues.map TokenRef.key, ∀ arm ∈ o.arms,
      (arm.2.mappings .finish).countP (fun m => m.target.key = k) = 1 ∨
      (arm.2.mappings .finish).countP (fun m => m.target.key = k) = 0 ∧
        k ∈ o.ioOutputs.map TokenRef.key

variable {o : AuthoredOperation}

theorem armCount_eq_one {child : AuthoredRegion} {k : TokenKey} :
    armCount o child k = 1 ↔
      (child.mappings .finish).countP (fun m => m.target.key = k) = 1 ∨
      (child.mappings .finish).countP (fun m => m.target.key = k) = 0 ∧
        k ∈ o.ioOutputs.map TokenRef.key := by
  unfold armCount
  simp only
  split
  · rename_i h
    exact ⟨fun _ => .inr h, fun _ => rfl⟩
  · rename_i h
    exact ⟨.inl, fun hor => hor.resolve_right h⟩

/-! ## Records -/

variable {t : ResolutionState}

theorem filter_of_incoming (h : t.RecordsNodup) {n : NodeId} {v : ValueId}
    (hne : t.incoming n v ≠ []) :
    ∃ record ∈ t.controlResults,
      t.controlResults.filter (fun x => x.control = n ∧ x.result = v) = [record] ∧
      record.incoming = t.incoming n v := by
  unfold ResolutionState.incoming at hne ⊢
  cases hfind : (t.recordsOf n).find? fun r => r.result = v with
  | none => rw [hfind] at hne; exact absurd rfl hne
  | some record =>
    have hmem := mem_filter.1 (mem_of_find?_eq_some hfind)
    have hcontrol : record.control = n := by simpa using hmem.2
    have hresult : record.result = v := by simpa using List.find?_some hfind
    refine ⟨record, hmem.1, ?_, rfl⟩
    have hfilter := Lib.filter_key h hmem.1
    simpa [Prod.ext_iff, hcontrol, hresult] using hfilter

theorem incoming_of_filter {n : NodeId} {v : ValueId} {record : ResolvedControlResult}
    (h : t.controlResults.filter (fun x => x.control = n ∧ x.result = v) = [record]) :
    t.incoming n v = record.incoming := by
  have hfilter : (t.recordsOf n).filter (fun r => r.result = v) = [record] := by
    rw [← h, ResolutionState.recordsOf, filter_filter]
    refine filter_congr fun r _ => ?_
    simp [Bool.and_comm]
  unfold ResolutionState.incoming
  rw [← List.head?_filter, hfilter]
  rfl

/-! ## Completeness -/

/-- What a resolved region says of the arms of its controls. -/
theorem Resolved.merged {ρ : AuthoredRegion} {context : RegionContext} {root : Bool}
    {values : RegionValues} (h : Resolved g t ρ context root values) (ho : o ∈ ρ.operations)
    {arm : ControlArm × AuthoredRegion} (harm : arm ∈ o.arms) : Merged t values (o, arm) := by
  cases h with
  | mk below settled imports merged arms => exact merged (o, arm) (AuthoredRegion.mem_children.2 ⟨ho, harm⟩)

theorem completeResult_iff {r : ResolvedGraph} (ht : Tables r t) {v : ValueId}
    (hcontrol : o.arms ≠ []) :
    CompleteResult r o v ↔ ∀ arm ∈ o.arms, arrivals arm.1 (t.incoming o.id v) = 1 := by
  unfold CompleteResult
  rw [ht.controlResults]
  constructor
  · rintro ⟨record, hrecord, harms, -⟩ arm harm
    rw [incoming_of_filter hrecord]
    exact harms arm harm
  · intro harms
    -- The first arm brings a value, so there is a record.
    obtain ⟨arm, harm⟩ := exists_mem_of_ne_nil _ hcontrol
    have hne : t.incoming o.id v ≠ [] := by
      intro hnil
      have hone := harms arm harm
      rw [hnil] at hone
      cases hone
    obtain ⟨record, hmem, hrecord, hincoming⟩ := filter_of_incoming ht.recordsNodup hne
    refine ⟨record, hrecord, ?_, ht.initialOnce record hmem⟩
    rw [hincoming]
    exact harms

/-- The control results of one control are complete exactly when its arms export each of its
results once, or leave it to an output port. -/
theorem Resolved.complete_iff {r : ResolvedGraph} (ht : Tables r t) {ρ : AuthoredRegion}
    {context : RegionContext} {root : Bool} {values : RegionValues}
    (h : Resolved g t ρ context root values) (ho : o ∈ ρ.operations)
    (hcontrol : o.isControl = true) :
    (∃ op, r.operations.find? o.id = some op ∧
      ∀ b ∈ op.bindings, b.access.exports = true → CompleteResult r o b.value) ↔
      ∀ k ∈ o.producedValues.map TokenRef.key, ∀ arm ∈ o.arms, armCount o arm.2 k = 1 := by
  have hfind := h.settled.operation o ho
  rw [← ht.operations] at hfind
  have hbindings : ((resolvedOperation t ρ context root values o).addOrdering g ρ o).bindings =
      (bindOperation t ρ context root values o).bindings := rfl
  have hstructural := AuthoredOperation.isStructural_of_isControl hcontrol
  have harms : o.arms ≠ [] := by
    cases o <;> first | exact cons_ne_nil _ _ | cases hcontrol
  constructor
  · rintro ⟨op, hop, hcomplete⟩ k hk arm harm
    obtain rfl := Option.some.inj (hfind.symm.trans hop)
    obtain ⟨v, hv⟩ := h.settled.defined.output_of_mem ho hk
    obtain ⟨b, hb, haccess, rfl⟩ := (exported_iff hstructural).2 ⟨k, hk, hv⟩
    rw [← h.merged ho harm k _ hv]
    exact (completeResult_iff ht harms).1 (hcomplete b (hbindings ▸ hb) haccess) arm harm
  · intro hcount
    refine ⟨_, hfind, fun b hb haccess => (completeResult_iff ht harms).2 fun arm harm => ?_⟩
    obtain ⟨k, hk, hv⟩ := (exported_iff hstructural).1 ⟨b, hbindings ▸ hb, haccess, rfl⟩
    rw [h.merged ho harm k _ hv]
    exact hcount k hk arm harm

/-- In an accepted graph the control results are complete exactly when every arm exports every
result of its control once, or leaves it to an output port. -/
theorem control_results_complete_iff (g : AuthoredGraph) (r : ResolvedGraph)
    (h : resolveGraph g = .ok r) : ControlResultsComplete g r ↔ ExportsOnce g := by
  obtain ⟨-, t, values, ht, hroot⟩ := resolveGraph_resolved h
  constructor
  · intro hcomplete ρ hρ o ho k hk arm harm
    obtain ⟨root, hρ'⟩ := g.regionAt_of_mem hρ
    obtain ⟨context, values, hresolved, -⟩ := hroot.at hρ'
    have hcontrol := AuthoredOperation.isControl_of_arm harm
    exact armCount_eq_one.1 ((hresolved.complete_iff ht ho hcontrol).1
      (hcomplete ρ hρ o ho hcontrol) k hk arm harm)
  · intro honce ρ hρ o ho hcontrol
    obtain ⟨root, hρ'⟩ := g.regionAt_of_mem hρ
    obtain ⟨context, values, hresolved, -⟩ := hroot.at hρ'
    exact (hresolved.complete_iff ht ho hcontrol).2 fun k hk arm harm =>
      armCount_eq_one.2 (honce ρ hρ o ho k hk arm harm)

/-! ## A conditional with one exporting arm -/

def branchSize : GraphScalar := ⟨.u64, "n", 0, 1⟩

def branchBuffer (scope : AuthoredScopeId) (name : String) : GraphBuffer :=
  ⟨.i32, name, scope, some branchSize, 1⟩

/-- An arm of `branchGraph`: import `a`, run a kernel on it, export what `exported` says. -/
def branchArm (scope first : Nat) (exported : List BufferBoundaryMapping) : AuthoredRegion :=
  .mk { id := scope, sourceGraph := 1, sourceScope := scope, sourceParentScope := 0 }
    [.boundary ⟨first, "start", .start, 0, scope, [],
        [⟨branchBuffer 0 "a", branchBuffer scope "x"⟩], []⟩,
      .kernel ⟨first + 1, "kernel",
        ⟨"square", .cpu, none, { inputs := [("in", .i32)], outputs := [("out", .i32)] }⟩, "cpu0",
        { inputs := [("in", branchBuffer scope "x")], outputs := [("out", branchBuffer scope "y")] },
        []⟩,
      .boundary ⟨first + 2, "end", .finish, 0, scope, [], exported, []⟩]

/-- A conditional on `n` whose first arm exports `b`. -/
def branchGraph (exported : List BufferBoundaryMapping) : AuthoredGraph where
  root := .mk
    { id := 0, sourceGraph := 1, sourceScope := 0, sourceParentScope := 0
      declaredInputBuffers := [("a", branchBuffer 0 "a")]
      declaredOutputBuffers := [("b", branchBuffer 0 "b")]
      declaredScalars := [("n", .u64)], declaredInputScalars := [("n", .u64)] }
    [.conditional
      ⟨0, "if", {}, {}, ⟨some (.scalar branchSize), some (.constant .u64 4), none⟩, [], []⟩
      (branchArm 1 1 [⟨branchBuffer 1 "y", branchBuffer 0 "b"⟩]) (branchArm 2 4 exported)]
  nodup := (by decide : ([0, 1, 2, 3, 4, 5, 6] : List NodeId).Nodup)

theorem control_results_complete_branchGraph :
    ∃ r, resolveGraph (branchGraph [⟨branchBuffer 2 "y", branchBuffer 0 "b"⟩]) = .ok r ∧
      ControlResultsComplete (branchGraph [⟨branchBuffer 2 "y", branchBuffer 0 "b"⟩]) r := by
  obtain ⟨r, hr⟩ := resolveGraph_isOk
    (g := branchGraph [⟨branchBuffer 2 "y", branchBuffer 0 "b"⟩]) (by decide +kernel)
  exact ⟨r, hr, (control_results_complete_iff _ r hr).2 (by unfold ExportsOnce; decide +kernel)⟩

/-- With an arm that does not export `b` the graph is accepted, and the record of `b` has no value
for that arm. -/
theorem control_results_missing_arm :
    ∃ r, resolveGraph (branchGraph []) = .ok r ∧ ¬ ControlResultsComplete (branchGraph []) r := by
  obtain ⟨r, hr⟩ := resolveGraph_isOk (g := branchGraph []) (by decide +kernel)
  refine ⟨r, hr, fun hcomplete => ?_⟩
  obtain ⟨-, t, values, ht, hroot⟩ := resolveGraph_resolved hr
  have hone := (hroot.complete_iff ht (mem_singleton_self _) rfl).1
    (hcomplete _ (mem_cons_self ..) _ (mem_singleton_self _) rfl)
    (branchBuffer 0 "b").key (by decide +kernel) _ (mem_cons_of_mem _ (mem_cons_self ..))
  exact absurd hone (by decide +kernel)

end Slash.Pass
