import Slash.Pass.Values
import Slash.Pass.Topology

/-!
# What a settled region looks like

`Settled g t ρ context root values` collects what resolving one region leaves in the tables of a
later state `t`: the values are the ones defined, every operation of the region is stored as
`resolvedOperation` gives it, with the derived orderings added, its boundary aliases are in the
list, and no binding reported anything. The statement speaks of the final tables only, so it
survives the rest of the pass (`Settled.later`); `resolveLocal_settled` establishes it.
-/

namespace Slash.Pass

open List
open Lib (OrderedMap)

/-- The values of a region are what the tables of `s` say, and are chosen as the source does. -/
structure Defined (s : ResolutionState) (ρ : AuthoredRegion) (context : RegionContext)
    (root : Bool) (values : RegionValues) : Prop where
  initial : ∀ k v, values.initialValues.find? k = some v → s.Is v none k
  output : ∀ n k v, values.outputValues.find? (outputKey n k) = some v → s.Is v (some n) k
  rootInput : s.RootSound
  initial_iff : ∀ k, (values.initialValues.find? k).isSome ↔
    (context.parameters.find? k).isSome ∨ root = true ∧ k ∈ ρ.rootInputs.map TokenRef.key
  output_iff : ∀ n k, (values.outputValues.find? (outputKey n k)).isSome ↔
    ∃ o ∈ ρ.operations, o.id = n ∧ k ∈ o.producedValues.map TokenRef.key
  selected : values = selectFinalProducers ρ values.initialValues values.outputValues
  unambiguous : ρ.duplicateProducers = []

namespace Defined

variable {s t : ResolutionState} {ρ : AuthoredRegion} {context : RegionContext} {root : Bool}
  {values : RegionValues} {k : TokenKey}

theorem finalProducer_mem {o : AuthoredOperation} (ho : ρ.finalProducer k = some o) :
    o ∈ ρ.producers k := by
  unfold AuthoredRegion.finalProducer at ho
  split at ho
  · rename_i c a b hcarried hcandidates
    obtain rfl := Option.some.inj ho
    have hc : c ∈ ρ.carriedProducers k := by rw [hcarried]; exact mem_cons_self
    exact (mem_filter.1 hc).1
  · exact mem_of_mem_head? ho

theorem finalProducer_isSome (hk : ρ.producers k ≠ []) :
    ∃ o, ρ.finalProducer k = some o := by
  unfold AuthoredRegion.finalProducer
  split
  · exact ⟨_, rfl⟩
  · exact ⟨_, List.head?_eq_some_head hk⟩

variable (h : Defined s ρ context root values)
include h

theorem later (hst : Later s t) : Defined t ρ context root values :=
  { h with
    initial := fun k v hv => hst.is (h.initial k v hv)
    output := fun n k v hv => hst.is (h.output n k v hv)
    rootInput := hst.rootSound h.rootInput }

theorem final_eq (k : TokenKey) :
    values.finalValues.find? k =
      (((ρ.finalProducer k).bind fun o => values.outputValues.find? (outputKey o.id k)) <|>
        values.initialValues.find? k) := by
  rw [h.selected]
  exact find?_finalValues ρ _ _ k

theorem seed_eq (n : NodeId) (k : TokenKey) :
    values.controlInitialValues.find? (outputKey n k) =
      (ρ.seed values.initialValues values.outputValues k).bind fun p =>
        if p.1 = n then some p.2 else none := by
  rw [h.selected]
  exact find?_controlInitialValues ρ _ _ n k

theorem output_of_mem {o : AuthoredOperation} (ho : o ∈ ρ.operations)
    (hk : k ∈ o.producedValues.map TokenRef.key) :
    ∃ v, values.outputValues.find? (outputKey o.id k) = some v :=
  Option.isSome_iff_exists.1 ((h.output_iff o.id k).2 ⟨o, ho, rfl, hk⟩)

theorem final_of_producer {o : AuthoredOperation} (ho : ρ.finalProducer k = some o) :
    ∃ v, values.finalValues.find? k = some v ∧ s.Is v (some o.id) k := by
  obtain ⟨ho', hk⟩ := AuthoredRegion.mem_producers.1 (finalProducer_mem ho)
  obtain ⟨v, hv⟩ := h.output_of_mem ho' hk
  exact ⟨v, by simp [h.final_eq, ho, hv], h.output o.id k v hv⟩

theorem final_of_none (hk : ρ.finalProducer k = none) :
    values.finalValues.find? k = values.initialValues.find? k := by
  simp [h.final_eq, hk]

theorem final_is {v : ValueId} (hv : values.finalValues.find? k = some v) :
    ∃ p, s.Is v p k ∧ p = (ρ.finalProducer k).map AuthoredOperation.id := by
  cases ho : ρ.finalProducer k with
  | none => exact ⟨none, h.initial k v (h.final_of_none ho ▸ hv), rfl⟩
  | some o =>
    obtain ⟨w, hw, his⟩ := h.final_of_producer ho
    obtain rfl : v = w := Option.some.inj (hv.symm.trans hw)
    exact ⟨some o.id, his, rfl⟩

theorem seed_is {n : NodeId} {v : ValueId} (hnodup : ρ.ids.Nodup)
    (hv : values.controlInitialValues.find? (outputKey n k) = some v) :
    ∃ p, s.Is v p k ∧ p ≠ some n := by
  rw [h.seed_eq] at hv
  obtain ⟨⟨n', v'⟩, hseed, hn⟩ := Option.bind_eq_some_iff.1 hv
  split at hn
  · rename_i heq
    obtain rfl := Option.some.inj hn
    obtain rfl : n' = n := heq
    unfold AuthoredRegion.seed at hseed
    split at hseed
    · obtain ⟨w, hw, hpair⟩ := Option.map_eq_some_iff.1 hseed
      obtain ⟨rfl, rfl⟩ := Prod.mk.inj hpair
      exact ⟨none, h.initial k w hw, by simp⟩
    · rename_i c a b hcarried hcandidates
      obtain ⟨w, hw, hpair⟩ := Option.map_eq_some_iff.1 hseed
      obtain ⟨rfl, rfl⟩ := Prod.mk.inj hpair
      refine ⟨_, h.output _ k w hw, ?_⟩
      -- the two candidates are two operations of the region, so their ids differ
      have hsub : List.Sublist ((ρ.producers k).map AuthoredOperation.id) ρ.ids :=
        filter_sublist.map _
      have hab : a.id ≠ b.id := by
        have hpair := hsub.nodup hnodup
        rw [hcandidates] at hpair
        simpa using hpair
      split
      · rename_i hac
        intro hbc
        exact hab (hac.trans (Option.some.inj hbc).symm)
      · rename_i hac
        intro hbc
        exact hac (Option.some.inj hbc)
    · cases hseed
  · cases hn

end Defined

/-! ## Looking values up in a later state -/

section Later

variable {s t : ResolutionState} {ρ : AuthoredRegion} {context : RegionContext} {root : Bool}
  {values : RegionValues} {o : AuthoredOperation}

theorem valueForUse_later (hst : Later s t) (u : TokenRef) :
    valueForUse t ρ root values o u = valueForUse s ρ root values o u := by
  unfold valueForUse
  rw [hst.rootScalar]

theorem parentValue_later (hst : Later s t) (u : TokenRef) :
    parentValue t ρ values o u = parentValue s ρ values o u := by
  unfold parentValue
  rw [hst.rootScalar]

theorem makeChildContext_later (hst : Later s t) (child : AuthoredRegion) :
    makeChildContext t ρ values o child = makeChildContext s ρ values o child := by
  have hadd : addParameter t ρ values o = addParameter s ρ values o := by
    funext parameters m
    unfold addParameter
    rw [parentValue_later hst]
  unfold makeChildContext
  rw [hadd]

theorem parameterErrors_later (hst : Later s t) (child : AuthoredRegion) :
    parameterErrors t ρ values o child = parameterErrors s ρ values o child := by
  unfold parameterErrors
  simp only [parentValue_later hst]

variable {v : ValueId}

theorem dependencyOn_later (hst : Later s t) {p : Option NodeId} {k : TokenKey} (hv : s.Is v p k)
    (n : NodeId) (reason : DependencyReason) :
    t.dependencyOn n v reason = s.dependencyOn n v reason := by
  unfold ResolutionState.dependencyOn
  rw [hv.producer_eq, (hst.is hv).producer_eq]

/-- The uses that prefer the region's initial value: the read side of an inout whose output is
the operation's own, and at the root a declared input. -/
def PrefersInitial (ρ : AuthoredRegion) (root : Bool) (values : RegionValues)
    (o : AuthoredOperation) (u : TokenRef) : Prop :=
  (u.access = .inoutInput ∧ values.outputValues.contains (outputKey o.id u.key) = true) ∨
    root = true ∧ ρ.info.declaresInput u.key = true

theorem valueForUse_cases {u : TokenRef} (hv : valueForUse s ρ root values o u = .ok v) :
    (u.key ∈ o.loopCarriedValues ∧
      values.controlInitialValues.find? (outputKey o.id u.key) = some v) ∨
    (u.key ∉ o.loopCarriedValues ∧ PrefersInitial ρ root values o u ∧
      values.initialValues.find? u.key = some v) ∨
    (u.key ∉ o.loopCarriedValues ∧
      (PrefersInitial ρ root values o u → values.initialValues.find? u.key = none) ∧
      (values.finalValues.find? u.key = some v ∨
        values.finalValues.find? u.key = none ∧ s.rootScalar u.key = some v)) := by
  unfold valueForUse at hv
  split at hv
  · rename_i hcarried
    refine .inl ⟨hcarried, ?_⟩
    split at hv
    · rename_i w hw
      exact hw.trans (congrArg some (Except.ok.inj hv))
    · cases hv
  · rename_i hcarried
    simp only at hv
    split at hv
    · rename_i w hw
      obtain rfl := Except.ok.inj hv
      by_cases hprefers : PrefersInitial ρ root values o u
      · cases hinit : values.initialValues.find? u.key with
        | some x =>
          refine .inr (.inl ⟨hcarried, hprefers, ?_⟩)
          obtain ⟨hio, hout⟩ | ⟨hroot, hdecl⟩ := hprefers
          · simpa [hio, hout, hinit] using hw
          · by_cases hin : u.access = .inoutInput ∧
                values.outputValues.contains (outputKey o.id u.key) = true
            · simpa [hin.1, hin.2, hinit] using hw
            · simpa [hin, hroot, hdecl, hinit] using hw
        | none =>
          refine .inr (.inr ⟨hcarried, fun _ => rfl, ?_⟩)
          simp only [hinit, ite_self] at hw
          cases hfinal : values.finalValues.find? u.key with
          | some x => exact .inl (by simpa [hfinal] using hw)
          | none => exact .inr ⟨rfl, by simpa [hfinal] using hw⟩
      · refine .inr (.inr ⟨hcarried, fun h => absurd h hprefers, ?_⟩)
        obtain ⟨hin, hdecl⟩ := not_or.1 hprefers
        simp only [hin, hdecl, if_false] at hw
        cases hfinal : values.finalValues.find? u.key with
        | some x => exact .inl (by simpa [hfinal] using hw)
        | none => exact .inr ⟨rfl, by simpa [hfinal] using hw⟩
    · cases hv

theorem rootScalar_is (h : s.RootSound) {k : TokenKey} (hv : s.rootScalar k = some v) :
    s.Is v none k := by
  unfold ResolutionState.rootScalar at hv
  split at hv
  · exact h k v hv
  · cases hv

variable (h : Defined s ρ context root values)
include h

theorem valueForUse_is (hnodup : ρ.ids.Nodup) {u : TokenRef}
    (hv : valueForUse s ρ root values o u = .ok v) : ∃ p, s.Is v p u.key := by
  obtain ⟨-, hseed⟩ | ⟨-, -, hinit⟩ | ⟨-, -, hfinal | ⟨-, hroot⟩⟩ := valueForUse_cases hv
  · obtain ⟨p, his, -⟩ := h.seed_is hnodup hseed
    exact ⟨p, his⟩
  · exact ⟨none, h.initial _ _ hinit⟩
  · obtain ⟨p, his, -⟩ := h.final_is hfinal
    exact ⟨p, his⟩
  · exact ⟨none, rootScalar_is h.rootInput hroot⟩

theorem bindUse_later (hnodup : ρ.ids.Nodup) (hst : Later s t) (localPort : String)
    (access : ValueAccess) (u : TokenRef) :
    bindUse t ρ root values o localPort access u = bindUse s ρ root values o localPort access u := by
  unfold bindUse
  rw [valueForUse_later hst]
  split
  · rename_i v hv
    obtain ⟨p, his⟩ := valueForUse_is h hnodup hv
    rw [dependencyOn_later hst his]
  · rfl

/-- Binding an operation reads nothing that a later state changes. -/
theorem bindOperation_later (hnodup : ρ.ids.Nodup) (hst : Later s t) (o : AuthoredOperation) :
    bindOperation t ρ context root values o = bindOperation s ρ context root values o := by
  have huse : bindUse t ρ root values o = bindUse s ρ root values o := by
    funext localPort access u
    exact bindUse_later h hnodup hst localPort access u
  have hdata : bindDataOperation t ρ root values o = bindDataOperation s ρ root values o := by
    unfold bindDataOperation
    rw [huse]
  have hcontrol :
      bindControlOperation t ρ root values o = bindControlOperation s ρ root values o := by
    unfold bindControlOperation
    rw [huse]
  unfold bindOperation
  split
  · rename_i b
    unfold bindBoundary
    have hresult : bindBoundaryResult t ρ context values (.boundary b) b =
        bindBoundaryResult s ρ context values (.boundary b) b := by
      funext m
      unfold bindBoundaryResult
      split
      · rename_i source target hsource htarget
        obtain ⟨p, his, -⟩ := h.final_is hsource
        rw [dependencyOn_later hst his]
      · rfl
    rw [hresult]
  · rw [hdata, hcontrol]

theorem resolvedOperation_later (hnodup : ρ.ids.Nodup) (hst : Later s t) (o : AuthoredOperation) :
    resolvedOperation t ρ context root values o = resolvedOperation s ρ context root values o := by
  unfold resolvedOperation
  rw [bindOperation_later h hnodup hst]

end Later

/-! ## Settled regions -/

/-- Region `ρ`, resolved with these values, as the tables of `t` have it. -/
structure Settled (g : AuthoredGraph) (t : ResolutionState) (ρ : AuthoredRegion)
    (context : RegionContext) (root : Bool) (values : RegionValues) : Prop where
  nodup : ρ.ids.Nodup
  defined : Defined t ρ context root values
  operation : ∀ o ∈ ρ.operations, t.operations.find? o.id =
    some ((resolvedOperation t ρ context root values o).addOrdering g ρ o)
  bound : ∀ o ∈ ρ.operations, (bindOperation t ρ context root values o).diagnostics = []
  aliases : ∀ o ∈ ρ.operations,
    t.aliasesOf o.id = (bindOperation t ρ context root values o).aliases
  sorted : Ranked (localPredecessors t ρ.ids) ρ.ids

theorem Settled.later {g : AuthoredGraph} {s t : ResolutionState} {ρ : AuthoredRegion}
    {context : RegionContext} {root : Bool} {values : RegionValues} {N M : List NodeId}
    (h : Settled g s ρ context root values) (hst : Frame N M s t) (hN : ∀ n ∈ ρ.ids, n ∉ N) :
    Settled g t ρ context root values where
  nodup := h.nodup
  defined := h.defined.later hst.toLater
  operation := by
    intro o ho
    rw [hst.operations o.id (hN o.id (mem_map_of_mem ho)), h.operation o ho,
      resolvedOperation_later h.defined h.nodup hst.toLater]
  bound := by
    intro o ho
    rw [bindOperation_later h.defined h.nodup hst.toLater]
    exact h.bound o ho
  aliases := by
    intro o ho
    rw [hst.aliases o.id (hN o.id (mem_map_of_mem ho)), h.aliases o ho,
      bindOperation_later h.defined h.nodup hst.toLater]
  sorted := by
    obtain ⟨rank, hrank⟩ := h.sorted
    refine ⟨rank, fun n hn p hp => hrank n hn p ?_⟩
    rw [localPredecessors, hst.operations n (hN n hn)] at hp
    exact hp

section Local

variable {g : AuthoredGraph} {s : ResolutionState} {ρ : AuthoredRegion} {context : RegionContext}
  {root : Bool} {values : RegionValues}

/-- After the binding loop every operation is stored and has reported what it had to. -/
theorem resolveOperations_spec (hnodup : ρ.ids.Nodup) (os : List AuthoredOperation)
    (hos : (os.map AuthoredOperation.id).Nodup) (h : Defined s ρ context root values)
    (haliases : ∀ o ∈ os, s.aliasesOf o.id = []) :
    let t := os.foldl (fun s o => resolveOperation s ρ context root values o) s
    ∀ o ∈ os,
      t.operations.find? o.id = some (resolvedOperation t ρ context root values o) ∧
      (bindOperation t ρ context root values o).diagnostics ⊆ t.diagnostics ∧
      t.aliasesOf o.id = (bindOperation t ρ context root values o).aliases := by
  induction os generalizing s with
  | nil => intro t o ho; cases ho
  | cons o os ih =>
    intro t o' ho'
    obtain ⟨hnot, hos⟩ := nodup_cons.1 hos
    have hfirst := frame_resolveOperation s ρ context root values o
    have hrest : Frame (os.map AuthoredOperation.id) []
        (resolveOperation s ρ context root values o) t :=
      Frame.foldl (fun s o ho => (frame_resolveOperation s ρ context root values o).weaken
        (cons_subset.2 ⟨mem_map_of_mem ho, nil_subset _⟩) (List.Subset.refl _)) _
    obtain rfl | ho' := mem_cons.1 ho'
    · have hlater := hfirst.toLater.trans hrest.toLater
      rw [resolvedOperation_later h hnodup hlater, bindOperation_later h hnodup hlater]
      refine ⟨?_, ?_, ?_⟩
      · rw [hrest.operations _ hnot]
        exact OrderedMap.find?_insert_self _ _ _
      · exact fun d hd => hrest.diagnostics.subset (mem_append_right _ hd)
      · rw [hrest.aliases _ hnot, aliasesOf_resolveOperation, haliases _ mem_cons_self,
          if_pos rfl, nil_append]
    · refine ih hos (h.later hfirst.toLater) ?_ o' ho'
      intro o'' ho''
      rw [hfirst.aliases o''.id, haliases o'' (mem_cons_of_mem _ ho'')]
      intro hmem
      exact hnot (mem_singleton.1 hmem ▸ mem_map_of_mem ho'')

theorem find?_addOrdering (os : List AuthoredOperation)
    (hos : (os.map AuthoredOperation.id).Nodup) (ops : OrderedMap NodeId ResolvedOperation)
    {o : AuthoredOperation} (ho : o ∈ os) {r : ResolvedOperation}
    (hr : ops.find? o.id = some r) :
    (os.foldl (orderOperation g ρ) ops).find? o.id = some (r.addOrdering g ρ o) := by
  induction os generalizing ops with
  | nil => cases ho
  | cons o' os ih =>
    obtain ⟨hnot, hos⟩ := nodup_cons.1 hos
    rw [foldl_cons]
    obtain rfl | ho := mem_cons.1 ho
    · rw [find?_foldl_ordering g ρ os _ hnot, orderOperation, hr]
      exact OrderedMap.find?_insert_self _ _ _
    · have hne : o.id ≠ o'.id := fun heq => hnot (heq ▸ mem_map_of_mem ho)
      refine ih hos _ ho ?_
      unfold orderOperation
      split
      · rw [OrderedMap.find?_insert_ne _ _ hne, hr]
      · exact hr

/-- The state in which a region's values are defined and nothing is bound yet. -/
def definedState (ρ : AuthoredRegion) (context : RegionContext) (root : Bool)
    (s : ResolutionState) : ResolutionState :=
  (defineRegionValues ρ context root s).2.2

def regionValues (ρ : AuthoredRegion) (context : RegionContext) (root : Bool)
    (s : ResolutionState) : RegionValues :=
  (defineRegionValues ρ context root s).1

theorem tables_definedState (ρ : AuthoredRegion) (context : RegionContext) (root : Bool)
    (s : ResolutionState) :
    (definedState ρ context root s).controlResults = s.controlResults ∧
      (definedState ρ context root s).boundaryAliases = s.boundaryAliases := by
  have hdefining : ∀ {α : Type} {f : Defining → α → Defining} (as : List α) (d : Defining),
      (∀ d a, (f d a).state.controlResults = d.state.controlResults ∧
        (f d a).state.boundaryAliases = d.state.boundaryAliases) →
      (as.foldl f d).state.controlResults = d.state.controlResults ∧
        (as.foldl f d).state.boundaryAliases = d.state.boundaryAliases := by
    intro α f as
    induction as with
    | nil => intro d _; exact ⟨rfl, rfl⟩
    | cons a as ih =>
      intro d hf
      rw [foldl_cons, (ih _ hf).1, (ih _ hf).2]
      exact hf d a
  have hparameters := hdefining (f := Defining.parameter ρ.info.id) context.parameters.entries
    { state := s } fun d p => ⟨rfl, rfl⟩
  have houtputs := fun d => hdefining (f := Defining.output ρ.info.id) ρ.outputs d
    fun d p => ⟨rfl, rfl⟩
  cases root with
  | false => exact ⟨(houtputs _).1.trans hparameters.1, (houtputs _).2.trans hparameters.2⟩
  | true =>
    have hinputs := fun d => hdefining (f := Defining.rootInput ρ.info.id) ρ.rootInputs d
      fun d t => ⟨rfl, rfl⟩
    exact ⟨(houtputs _).1.trans ((hinputs _).1.trans hparameters.1),
      (houtputs _).2.trans ((hinputs _).2.trans hparameters.2)⟩

theorem frame_resolveLocal (g : AuthoredGraph) (ρ : AuthoredRegion) (context : RegionContext)
    (root : Bool) (s : ResolutionState) :
    Frame ρ.ids [] (definedState ρ context root s) (resolveLocal g ρ context root s).2 :=
  ((frame_resolveOperations _ ρ context root _).trans (frame_addOrdering g ρ _)).trans
    (frame_report ρ.ids [] _ _)

theorem frame_definedState (N M : List NodeId) (ρ : AuthoredRegion) (context : RegionContext)
    (s : ResolutionState) : Frame N M s (definedState ρ context false s) :=
  (frame_createValues N M ρ context s).trans (frame_report N M _ _)

theorem definedState_defined (hc : context.Keyed) (hs : s.RootSound)
    (hnone : (definedState ρ context root s).diagnostics = []) :
    Defined (definedState ρ context root s) ρ context root (regionValues ρ context root s) := by
  have hsound : (createValues ρ context root s).Sound := createValues_sound hc hs
  have hlater := (frame_report [] [] (createValues ρ context root s).state
    (ρ.duplicateProducers ++ ρ.producerTypes)).toLater
  exact {
    initial := fun k v hv => hlater.is (hsound.initial k v hv)
    output := fun n k v hv => hlater.is (hsound.output n k v hv)
    rootInput := hlater.rootSound hsound.rootInput
    initial_iff := createValues_initial
    output_iff := createValues_output
    selected := rfl
    unambiguous := by
      have happ : (createValues ρ context root s).state.diagnostics ++
          (ρ.duplicateProducers ++ ρ.producerTypes) = [] := hnone
      exact (append_eq_nil_iff.1 (append_eq_nil_iff.1 happ).2).1 }

theorem resolveLocal_settled (hnodup : ρ.ids.Nodup) (hc : context.Keyed) (hs : s.RootSound)
    (haliases : ∀ o ∈ ρ.operations, s.aliasesOf o.id = [])
    (hnone : (resolveLocal g ρ context root s).2.diagnostics = []) :
    Settled g (resolveLocal g ρ context root s).2 ρ context root
      (regionValues ρ context root s) := by
  set values := regionValues ρ context root s with hvalues
  set s₀ := definedState ρ context root s with hs₀
  have hframe : Frame ρ.ids [] s₀ (resolveLocal g ρ context root s).2 :=
    frame_resolveLocal g ρ context root s
  have hdefined : Defined s₀ ρ context root values :=
    definedState_defined hc hs (hframe.accepted hnone)
  have hops := resolveOperations_spec hnodup ρ.operations hnodup hdefined fun o ho => by
    rw [ResolutionState.aliasesOf, hs₀, (tables_definedState ρ context root s).2]
    exact haliases o ho
  -- the ordering loop and the report of a cycle come after the binding loop
  set s₁ := resolveOperations ρ context root values s₀ with hs₁
  have hfirst : Frame ρ.ids [] s₀ s₁ := frame_resolveOperations s₀ ρ context root values
  have hlast : Frame ρ.ids [] s₁ (resolveLocal g ρ context root s).2 :=
    (frame_addOrdering g ρ s₁).trans (frame_report ρ.ids [] _ _)
  have hdefined₁ : Defined s₁ ρ context root values := hdefined.later hfirst.toLater
  refine ⟨hnodup, hdefined₁.later hlast.toLater, ?_, ?_, ?_, ?_⟩
  · intro o ho
    rw [resolvedOperation_later hdefined₁ hnodup hlast.toLater]
    exact find?_addOrdering ρ.operations hnodup s₁.operations ho (hops o ho).1
  · intro o ho
    rw [bindOperation_later hdefined₁ hnodup hlast.toLater]
    exact subset_nil.1 ((hlast.accepted hnone) ▸ (hops o ho).2.1)
  · intro o ho
    rw [bindOperation_later hdefined₁ hnodup hlast.toLater]
    exact (hops o ho).2.2
  · have hcycle : (addOrdering g ρ s₁).diagnostics ++ expect
        ((emitted (addOrdering g ρ s₁) ρ).length = ρ.ids.length) _ = [] := hnone
    have hlength := of_decide_eq_true (expect_eq_nil.1 (append_eq_nil_iff.1 hcycle).2)
    exact ranked_of_emitted hnodup hlength

end Local

end Slash.Pass
