import Slash.Pass.Resolver

/-!
# What resolving a region leaves alone

The tables of the resolver only grow: values are appended, an operation or a control result is
written under a node of the region being resolved, and diagnostics accumulate. `Frame N M s t`
says so for the states before and after a part of the pass that stores the operations `N` and the
results of the controls `M`. Because the
node ids of the tree are distinct, everything settled about one region survives the resolution of
every other, and a graph accepted at the end was free of diagnostics at every step before.

The recursion over the tree is packaged once: `resolveRegion_eq` writes the arms of a region as
one fold over its children, and `AuthoredRegion.tree_induction` is the induction that fits it.
-/

namespace Slash.Pass

open List ResolutionState
open Lib (OrderedMap)

/-! ## Values by position -/

/-- Value `v` has the producer `p` and the token key `k`. -/
def ResolutionState.Is (s : ResolutionState) (v : ValueId) (p : Option NodeId) (k : TokenKey) :
    Prop :=
  ∃ origin, (s.values.map ResolvedValue.origin)[v]? = some origin ∧ origin.producer = p ∧
    origin.token.key = k

variable {v : ValueId} {p : Option NodeId}

theorem ResolutionState.Is.producer_eq {s : ResolutionState} {k : TokenKey} (h : s.Is v p k) :
    s.producer v = p := by
  obtain ⟨origin, hv, rfl, -⟩ := h
  rw [List.getElem?_map] at hv
  obtain ⟨value, hvalue, rfl⟩ := Option.map_eq_some_iff.1 hv
  simp [producer, hvalue]

theorem ResolutionState.Is.unique {s : ResolutionState} {p p' : Option NodeId} {k k' : TokenKey}
    (h : s.Is v p k) (h' : s.Is v p' k') : p = p' ∧ k = k' := by
  obtain ⟨origin, hv, rfl, rfl⟩ := h
  obtain ⟨origin', hv', rfl, rfl⟩ := h'
  obtain rfl : origin = origin' := Option.some.inj (hv.symm.trans hv')
  exact ⟨rfl, rfl⟩

theorem ResolutionState.Is.mono {s t : ResolutionState} {k : TokenKey} (hv : s.Is v p k)
    (h : s.values.map ResolvedValue.origin <+: t.values.map ResolvedValue.origin) :
    t.Is v p k := by
  obtain ⟨origin, hs, hp, hk⟩ := hv
  obtain ⟨hlt, -⟩ := List.getElem?_eq_some_iff.1 hs
  obtain ⟨rest, hrest⟩ := h
  exact ⟨origin, by rw [← hrest, List.getElem?_append_left hlt, hs], hp, hk⟩

def ResolutionState.recordsOf (s : ResolutionState) (n : NodeId) : List ResolvedControlResult :=
  s.controlResults.filter fun r => r.control = n

def ResolutionState.aliasesOf (s : ResolutionState) (n : NodeId) : List BoundaryAlias :=
  s.boundaryAliases.filter fun a => a.boundary = n

def ResolutionState.RecordsNodup (s : ResolutionState) : Prop :=
  (s.controlResults.map fun r => (r.control, r.result)).Nodup

def ResolutionState.InitialOnce (s : ResolutionState) : Prop :=
  ∀ r ∈ s.controlResults, r.incoming.countP (fun i => i.arm = .loopInitial) ≤ 1

/-! ## Frames -/

/-- The values of `s` are still there in `t`, and the root inputs are the same. -/
structure Later (s t : ResolutionState) : Prop where
  origins : s.values.map ResolvedValue.origin <+: t.values.map ResolvedValue.origin
  rootInputValues : t.rootInputValues = s.rootInputValues
  rootSourceScope : t.rootSourceScope = s.rootSourceScope

/-- From `s` to `t` only the operations `N` and the control results of `M` were worked on. -/
structure Frame (N M : List NodeId) (s t : ResolutionState) : Prop extends Later s t where
  diagnostics : s.diagnostics <+: t.diagnostics
  operations : ∀ n, n ∉ N → t.operations.find? n = s.operations.find? n
  aliases : ∀ n, n ∉ N → t.aliasesOf n = s.aliasesOf n
  records : ∀ n, n ∉ M → t.recordsOf n = s.recordsOf n
  recordsNodup : s.RecordsNodup → t.RecordsNodup
  initialOnce : s.InitialOnce → t.InitialOnce

theorem Later.refl (s : ResolutionState) : Later s s := ⟨prefix_rfl, rfl, rfl⟩

theorem Later.trans {s t u : ResolutionState} (h : Later s t) (h' : Later t u) : Later s u :=
  ⟨h.origins.trans h'.origins, h'.rootInputValues.trans h.rootInputValues,
    h'.rootSourceScope.trans h.rootSourceScope⟩

theorem Later.is {s t : ResolutionState} (h : Later s t) {k : TokenKey} (hv : s.Is v p k) :
    t.Is v p k :=
  hv.mono h.origins

theorem Later.rootScalar {s t : ResolutionState} (h : Later s t) (k : TokenKey) :
    t.rootScalar k = s.rootScalar k := by
  simp [ResolutionState.rootScalar, h.rootInputValues, h.rootSourceScope]

namespace Frame

variable {N M N' M' : List NodeId} {s t u : ResolutionState}

theorem refl (N M : List NodeId) (s : ResolutionState) : Frame N M s s :=
  { Later.refl s with
    diagnostics := prefix_rfl
    operations := fun _ _ => rfl
    aliases := fun _ _ => rfl
    records := fun _ _ => rfl
    recordsNodup := id
    initialOnce := id }

theorem trans (h : Frame N M s t) (h' : Frame N M t u) : Frame N M s u :=
  { h.toLater.trans h'.toLater with
    diagnostics := h.diagnostics.trans h'.diagnostics
    operations := fun n hn => (h'.operations n hn).trans (h.operations n hn)
    aliases := fun n hn => (h'.aliases n hn).trans (h.aliases n hn)
    records := fun n hn => (h'.records n hn).trans (h.records n hn)
    recordsNodup := h'.recordsNodup ∘ h.recordsNodup
    initialOnce := h'.initialOnce ∘ h.initialOnce }

theorem weaken (h : Frame N M s t) (hN : N ⊆ N') (hM : M ⊆ M') : Frame N' M' s t :=
  { h with
    operations := fun n hn => h.operations n fun hm => hn (hN hm)
    aliases := fun n hn => h.aliases n fun hm => hn (hN hm)
    records := fun n hn => h.records n fun hm => hn (hM hm) }

/-- A graph accepted at the end had nothing to report before. -/
theorem accepted (h : Frame N M s t) (ht : t.diagnostics = []) : s.diagnostics = [] :=
  prefix_nil.1 (ht ▸ h.diagnostics)

theorem foldl {α : Type} {f : ResolutionState → α → ResolutionState} {as : List α}
    (hf : ∀ s, ∀ a ∈ as, Frame N M s (f s a)) (s : ResolutionState) :
    Frame N M s (as.foldl f s) := by
  induction as generalizing s with
  | nil => exact refl N M s
  | cons a as ih =>
    exact (hf s a mem_cons_self).trans
      (ih (fun s a ha => hf s a (mem_cons_of_mem _ ha)) (f s a))

end Frame

theorem frame_report (N M : List NodeId) (s : ResolutionState) (ds : List Diagnostic) :
    Frame N M s (s.report ds) :=
  { Frame.refl N M s with diagnostics := prefix_append _ _ }

theorem frame_createValue (N M : List NodeId) (s : ResolutionState) (t : TokenRef)
    (region : RegionId) (d : Definition) : Frame N M s (s.createValue t region d) :=
  { Frame.refl N M s with origins := by simp [createValue] }

theorem createValue_is (s : ResolutionState) (t : TokenRef) (region : RegionId) (d : Definition) :
    (s.createValue t region d).Is s.values.length ((t.origin region d).producer) t.key := by
  refine ⟨t.origin region d, ?_, rfl, ?_⟩
  · simp [createValue, newValue]
  · cases d <;> rfl

/-! ## Control results -/

/-- What `updateControlResult` does to the list of records. -/
theorem recordsOf_updateControlResult_ne {s : ResolutionState} {control n : NodeId}
    (result : ValueId) (f : List ControlIncoming → List ControlIncoming) (hn : n ≠ control) :
    (s.updateControlResult control result f).recordsOf n = s.recordsOf n := by
  unfold updateControlResult recordsOf
  split
  · rw [filter_map]
    have hsame : ∀ r ∈ s.controlResults.filter fun r => r.control = n,
        (if r.control = control ∧ r.result = result then { r with incoming := f r.incoming }
          else r) = r := by
      intro r hr
      have hcontrol : r.control = n := by simpa using (mem_filter.1 hr).2
      rw [if_neg fun h => hn (hcontrol.symm.trans h.1)]
    have hfilter : ((fun r : ResolvedControlResult => decide (r.control = n)) ∘ fun r =>
        if r.control = control ∧ r.result = result then { r with incoming := f r.incoming }
          else r) = fun r => decide (r.control = n) := by
      funext r
      by_cases h : r.control = control ∧ r.result = result <;> simp [h]
    rw [hfilter, map_congr_left hsame, map_id']
  · simp [filter_append, Ne.symm hn]

theorem updateControlResult_recordsNodup {s : ResolutionState} (control : NodeId)
    (result : ValueId) (f : List ControlIncoming → List ControlIncoming) (h : s.RecordsNodup) :
    (s.updateControlResult control result f).RecordsNodup := by
  unfold updateControlResult ResolutionState.RecordsNodup at *
  split
  · have hsame : ((fun r : ResolvedControlResult => (r.control, r.result)) ∘ fun r =>
        if r.control = control ∧ r.result = result then { r with incoming := f r.incoming }
          else r) = fun r => (r.control, r.result) := by
      funext r
      by_cases h : r.control = control ∧ r.result = result <;> simp [h]
    simpa [map_map, hsame] using h
  · rename_i hnone
    simp only [map_append, map_cons, map_nil]
    refine nodup_append.2 ⟨h, nodup_singleton _, ?_⟩
    intro p hp q hq hpq
    obtain ⟨r, hr, rfl⟩ := mem_map.1 hp
    obtain rfl := mem_singleton.1 hq
    have hpair : r.control = control ∧ r.result = result := by simpa using hpq
    exact hnone (any_eq_true.2 ⟨r, hr, by simpa using hpair⟩)

/-- A round on a record that adds no second initial value keeps them single. -/
theorem updateControlResult_initialOnce {s : ResolutionState} (control : NodeId)
    (result : ValueId) {f : List ControlIncoming → List ControlIncoming}
    (hf : ∀ incoming : List ControlIncoming,
      incoming.countP (fun i => i.arm = .loopInitial) ≤ 1 →
        (f incoming).countP (fun i => i.arm = .loopInitial) ≤ 1)
    (h : s.InitialOnce) : (s.updateControlResult control result f).InitialOnce := by
  unfold updateControlResult
  split
  · intro r hr
    obtain ⟨r, hmem, rfl⟩ := mem_map.1 hr
    split
    · exact hf _ (h r hmem)
    · exact h r hmem
  · intro r hr
    obtain hr | hr := mem_append.1 hr
    · exact h r hr
    · obtain rfl := mem_singleton.1 hr
      exact hf [] (by simp)

theorem frame_updateControlResult {s : ResolutionState} (control : NodeId) (result : ValueId)
    {f : List ControlIncoming → List ControlIncoming}
    (hf : ∀ incoming : List ControlIncoming,
      incoming.countP (fun i => i.arm = .loopInitial) ≤ 1 →
        (f incoming).countP (fun i => i.arm = .loopInitial) ≤ 1) :
    Frame [] [control] s (s.updateControlResult control result f) where
  origins := by unfold updateControlResult; split <;> exact prefix_rfl
  rootInputValues := by unfold updateControlResult; split <;> rfl
  rootSourceScope := by unfold updateControlResult; split <;> rfl
  diagnostics := by unfold updateControlResult; split <;> exact prefix_rfl
  operations := by
    intro n _
    unfold updateControlResult
    split <;> rfl
  aliases := by
    intro n _
    unfold updateControlResult
    split <;> rfl
  records := by
    intro n hn
    exact recordsOf_updateControlResult_ne result f (by simpa using hn)
  recordsNodup := updateControlResult_recordsNodup control result f
  initialOnce := updateControlResult_initialOnce control result hf

/-! ## The parts of one region -/

theorem aliases_each {α : Type} (f : α → Bound) (as : List α) :
    (Bound.each f as).aliases = as.flatMap fun a => (f a).aliases := by
  induction as with
  | nil => rfl
  | cons a as ih =>
    rw [flatMap_cons, ← ih]
    rfl

theorem aliases_bindUse (s : ResolutionState) (ρ : AuthoredRegion) (root : Bool)
    (values : RegionValues) (o : AuthoredOperation) (localPort : String) (access : ValueAccess)
    (u : TokenRef) : (bindUse s ρ root values o localPort access u).aliases = [] := by
  unfold bindUse
  split <;> rfl

theorem aliases_bindOutput (values : RegionValues) (o : AuthoredOperation) (localPort : String)
    (access : ValueAccess) (u : TokenRef) :
    (bindOutput values o localPort access u).aliases = [] := by
  unfold bindOutput
  split <;> rfl

variable {o : AuthoredOperation}

theorem aliases_of_not_structural {s : ResolutionState} {ρ : AuthoredRegion}
    {context : RegionContext} {root : Bool} {values : RegionValues} (ho : o.isStructural = false) :
    (bindOperation s ρ context root values o).aliases = [] := by
  have hdata : (bindDataOperation s ρ root values o).aliases = [] := by
    show (Bound.each _ _).aliases ++ (Bound.each _ _).aliases = []
    simp [aliases_each, aliases_bindUse, aliases_bindOutput]
  have hcontrol : (bindControlOperation s ρ root values o).aliases = [] := by
    show (Bound.each _ _).aliases ++ (Bound.each _ _).aliases ++ (Bound.each _ _).aliases = []
    simp [aliases_each, aliases_bindUse, aliases_bindOutput]
  have happend : (bindDataOperation s ρ root values o ++
      bindControlOperation s ρ root values o).aliases = [] :=
    append_eq_nil_iff.2 ⟨hdata, hcontrol⟩
  cases o with
  | boundary b => cases ho
  | kernel k => exact happend
  | reprogram r => exact happend
  | loop l body => exact happend
  | conditional c thenRegion elseRegion => exact happend

theorem boundary_of_alias {s : ResolutionState} {ρ : AuthoredRegion} {context : RegionContext}
    {root : Bool} {values : RegionValues} {a : BoundaryAlias}
    (ha : a ∈ (bindOperation s ρ context root values o).aliases) : a.boundary = o.id := by
  cases hstructural : o.isStructural with
  | false =>
    rw [aliases_of_not_structural hstructural] at ha
    cases ha
  | true =>
    cases o with
    | boundary b =>
      simp only [bindOperation, bindBoundary] at ha
      split at ha
      · rw [aliases_each] at ha
        obtain ⟨m, -, ha⟩ := mem_flatMap.1 ha
        unfold bindBoundaryParameter at ha
        split at ha
        · rw [mem_singleton.1 ha]
          rfl
        · cases ha
      · rw [aliases_each] at ha
        obtain ⟨m, -, ha⟩ := mem_flatMap.1 ha
        unfold bindBoundaryResult at ha
        split at ha <;> cases ha
    | kernel k => cases hstructural
    | reprogram r => cases hstructural
    | loop l body => cases hstructural
    | conditional c thenRegion elseRegion => cases hstructural

theorem aliasesOf_resolveOperation (s : ResolutionState) (ρ : AuthoredRegion)
    (context : RegionContext) (root : Bool) (values : RegionValues) (o : AuthoredOperation)
    (n : NodeId) : (resolveOperation s ρ context root values o).aliasesOf n =
      s.aliasesOf n ++
        if n = o.id then (bindOperation s ρ context root values o).aliases else [] := by
  unfold aliasesOf
  rw [show (resolveOperation s ρ context root values o).boundaryAliases =
    s.boundaryAliases ++ (bindOperation s ρ context root values o).aliases from rfl,
    filter_append]
  congr 1
  split
  · rename_i hn
    exact filter_eq_self.2 fun a ha => by simpa [hn] using boundary_of_alias ha
  · rename_i hn
    exact filter_eq_nil_iff.2 fun a ha => by
      simpa [boundary_of_alias ha] using Ne.symm hn

theorem frame_resolveOperation (s : ResolutionState) (ρ : AuthoredRegion) (context : RegionContext)
    (root : Bool) (values : RegionValues) (o : AuthoredOperation) :
    Frame [o.id] [] s (resolveOperation s ρ context root values o) :=
  { Frame.refl [o.id] [] s with
    diagnostics := prefix_append _ _
    operations := fun n hn => OrderedMap.find?_insert_ne _ _ (by simpa using hn)
    aliases := fun n hn => by
      rw [aliasesOf_resolveOperation, if_neg (by simpa using hn), append_nil] }

theorem frame_resolveOperations (s : ResolutionState) (ρ : AuthoredRegion)
    (context : RegionContext) (root : Bool) (values : RegionValues) :
    Frame ρ.ids [] s (resolveOperations ρ context root values s) := by
  apply Frame.foldl
  intro s o ho
  refine (frame_resolveOperation s ρ context root values o).weaken ?_ (List.Subset.refl _)
  exact cons_subset.2 ⟨mem_map_of_mem ho, nil_subset _⟩

/-- A fold that writes only under the ids of the operations it runs over. -/
theorem find?_foldl_ordering (g : AuthoredGraph) (ρ : AuthoredRegion) (os : List AuthoredOperation)
    (ops : OrderedMap NodeId ResolvedOperation) {n : NodeId}
    (hn : n ∉ os.map AuthoredOperation.id) :
    (os.foldl (orderOperation g ρ) ops).find? n = ops.find? n := by
  induction os generalizing ops with
  | nil => rfl
  | cons o os ih =>
    obtain ⟨ho, hos⟩ := not_or.1 (mem_cons.not.1 hn)
    rw [foldl_cons, ih _ hos, orderOperation]
    split
    · exact OrderedMap.find?_insert_ne _ _ ho
    · rfl

theorem frame_addOrdering (g : AuthoredGraph) (ρ : AuthoredRegion) (s : ResolutionState) :
    Frame ρ.ids [] s (addOrdering g ρ s) :=
  { Frame.refl ρ.ids [] s with
    operations := fun _ hn => find?_foldl_ordering g ρ ρ.operations s.operations hn }

variable {arm : ControlArm}

/-- The arm an export enters is the only initial value it can bring. -/
theorem addArm_initialOnce (s : ResolutionState) (child : AuthoredRegion) (source : ValueId)
    (initial : Option ValueId) (harm : arm ≠ .loopInitial) (incoming : List ControlIncoming)
    (h : incoming.countP (fun i => i.arm = .loopInitial) ≤ 1) :
    (addArm s arm child source initial incoming).countP (fun i => i.arm = .loopInitial) ≤ 1 := by
  unfold addArm
  simp only
  split
  · simpa [countP_append, harm] using h
  · rename_i hnone
    have hno : ∀ i ∈ incoming, i.arm ≠ .loopInitial := by
      intro i hi harm'
      exact hnone (.inr (any_eq_true.2 ⟨i, mem_append_left _ hi, by simpa using harm'⟩))
    have hzero : incoming.countP (fun i => i.arm = .loopInitial) = 0 :=
      countP_eq_zero.2 fun i hi => by simpa using hno i hi
    cases initial <;> simp [countP_append, harm, hzero]

theorem frame_addExport (values : RegionValues) (control : NodeId) (child : AuthoredRegion)
    (finalValues : OrderedMap TokenKey ValueId) (context : RegionContext)
    (harm : arm ≠ .loopInitial) (s : ResolutionState) (m : Mapping) :
    Frame [] [control] s (addExport values control child finalValues context arm s m) := by
  unfold addExport
  split
  · exact frame_updateControlResult _ _ fun incoming => addArm_initialOnce s child _ _ harm incoming
  · exact Frame.refl _ _ s

theorem frame_addImplicitPortIncoming (control : NodeId) (child : AuthoredRegion)
    (finalValues : OrderedMap TokenKey ValueId) (context : RegionContext)
    (harm : arm ≠ .loopInitial) (s : ResolutionState) (p : String × TokenKey) :
    Frame [] [control] s (addImplicitPortIncoming control child finalValues context arm s p) := by
  unfold addImplicitPortIncoming
  split
  · split
    · refine frame_updateControlResult _ _ fun incoming h => ?_
      split
      · exact h
      · simpa [countP_append, harm] using h
    · exact Frame.refl _ _ s
  · exact frame_report _ _ s _

theorem frame_addControlIncoming (values : RegionValues) (o : AuthoredOperation)
    (child : AuthoredRegion) (finalValues : OrderedMap TokenKey ValueId) (context : RegionContext)
    (harm : arm ≠ .loopInitial) (s : ResolutionState) :
    Frame [] [o.id] s (addControlIncoming values o child finalValues context arm s) :=
  (Frame.foldl (fun s m _ => frame_addExport values o.id child finalValues context harm s m) s).trans
    (Frame.foldl (fun s p _ =>
      frame_addImplicitPortIncoming o.id child finalValues context harm s p) _)

theorem frame_markOutput (N M : List NodeId) (finalValues : OrderedMap TokenKey ValueId)
    (s : ResolutionState) (p : TokenKey × String) : Frame N M s (markOutput finalValues s p) := by
  unfold markOutput
  split
  · exact frame_report N M s _
  · rename_i v _
    have horigins : (s.values.modify v fun value => { value with graphOutput := true }).map
        ResolvedValue.origin = s.values.map ResolvedValue.origin := by
      apply ext_getElem?
      intro i
      simp only [List.getElem?_map, List.getElem?_modify]
      split <;> cases s.values[i]? <;> rfl
    exact { Frame.refl N M s with
      origins := ⟨[], (append_nil _).trans horigins.symm⟩ }

/-! ## The tree -/

/-- The arms of an operation are loop back edges and branches. -/
theorem AuthoredOperation.arm_ne_initial {child : AuthoredRegion} (h : (arm, child) ∈ o.arms) :
    arm ≠ .loopInitial := by
  cases o with
  | loop l body =>
    rw [(Prod.mk.inj (mem_singleton.1 h)).1]
    exact ControlArm.noConfusion
  | conditional c thenRegion elseRegion =>
    obtain h | h := mem_cons.1 h
    · rw [(Prod.mk.inj h).1]
      exact ControlArm.noConfusion
    · rw [(Prod.mk.inj (mem_singleton.1 h)).1]
      exact ControlArm.noConfusion
  | kernel k => cases h
  | reprogram r => cases h
  | boundary b => cases h

/-- `resolveChild`: the state after one arm. -/
def resolveChild (g : AuthoredGraph) (ρ : AuthoredRegion) (values : RegionValues)
    (s : ResolutionState) (c : AuthoredOperation × ControlArm × AuthoredRegion) :
    ResolutionState :=
  let context := makeChildContext s ρ values c.1 c.2.2
  let r := resolveRegion g c.2.2 context false (s.report (parameterErrors s ρ values c.1 c.2.2))
  addControlIncoming values c.1 c.2.2 r.1 context c.2.1 r.2.2

theorem resolveArmsOf_eq (g : AuthoredGraph) (ρ : AuthoredRegion) (values : RegionValues)
    (o : AuthoredOperation) (s : ResolutionState) :
    (resolveArmsOf g ρ values o s).2 =
      (o.arms.map fun arm => (o, arm)).foldl (resolveChild g ρ values) s := by
  cases o <;> rfl

theorem resolveArms_eq (g : AuthoredGraph) (ρ : AuthoredRegion) (values : RegionValues)
    (os : List AuthoredOperation) (s : ResolutionState) :
    (resolveArms g ρ values os s).2 =
      (os.flatMap fun o => o.arms.map fun arm => (o, arm)).foldl (resolveChild g ρ values) s := by
  induction os generalizing s with
  | nil => rfl
  | cons o os ih =>
    rw [flatMap_cons, foldl_append, ← resolveArmsOf_eq, ← ih]
    rfl

/-- The state after the arms of a region, as one fold over its children. -/
def resolveChildren (g : AuthoredGraph) (ρ : AuthoredRegion) (values : RegionValues)
    (s : ResolutionState) : ResolutionState :=
  ρ.children.foldl (resolveChild g ρ values) s

/-- The outputs are marked after the arms, in the root only. -/
def markRootOutputs (ρ : AuthoredRegion) (root : Bool) (values : RegionValues)
    (s : ResolutionState) : ResolutionState :=
  if root then ρ.info.graphOutputs.foldl (markOutput values.finalValues) s else s

theorem resolveRegion_eq (g : AuthoredGraph) (ρ : AuthoredRegion) (context : RegionContext)
    (root : Bool) (s : ResolutionState) :
    (resolveRegion g ρ context root s).1 = (resolveLocal g ρ context root s).1.finalValues ∧
    (resolveRegion g ρ context root s).2.2 =
      markRootOutputs ρ root (resolveLocal g ρ context root s).1
        (resolveChildren g ρ (resolveLocal g ρ context root s).1
          (resolveLocal g ρ context root s).2) := by
  obtain ⟨info, operations⟩ := ρ
  refine ⟨rfl, ?_⟩
  rw [resolveChildren, AuthoredRegion.children, ← resolveArms_eq]
  rfl

/-- Induction over the region tree, one region at a time. -/
theorem AuthoredRegion.tree_induction {P : AuthoredRegion → Prop}
    (h : ∀ ρ : AuthoredRegion, (∀ c ∈ ρ.children, P c.2.2) → P ρ) (ρ : AuthoredRegion) : P ρ := by
  refine AuthoredRegion.rec (motive_1 := fun o => ∀ arm ∈ o.arms, P arm.2) (motive_2 := P)
    (motive_3 := fun os => ∀ o ∈ os, ∀ arm ∈ o.arms, P arm.2) ?_ ?_ ?_ ?_ ?_ ?_ ?_ ?_ ρ
  · intro k arm harm
    cases harm
  · intro r arm harm
    cases harm
  · intro b arm harm
    cases harm
  · intro l body hbody arm harm
    obtain rfl := mem_singleton.1 harm
    exact hbody
  · intro c thenRegion elseRegion hthen helse arm harm
    obtain rfl | harm := mem_cons.1 harm
    · exact hthen
    · obtain rfl := mem_singleton.1 harm
      exact helse
  · intro info operations hops
    refine h _ fun c hc => ?_
    obtain ⟨o, ho, hc⟩ := mem_flatMap.1 hc
    obtain ⟨arm, harm, rfl⟩ := mem_map.1 hc
    exact hops o ho arm harm
  · intro o ho
    cases ho
  · intro o os ho hos o' ho'
    obtain rfl | ho' := mem_cons.1 ho'
    · exact ho
    · exact hos o' ho'

theorem AuthoredRegion.regions_eq (ρ : AuthoredRegion) :
    ρ.regions = ρ :: ρ.children.flatMap fun c => c.2.2.regions := by
  have hop : ∀ o : AuthoredOperation,
      o.regions = (o.arms.map fun arm => (o, arm)).flatMap fun c => c.2.2.regions := by
    intro o
    cases o <;> simp [AuthoredOperation.regions, AuthoredOperation.arms]
  have hops : ∀ os : List AuthoredOperation,
      regionsBelow os =
        (os.flatMap fun o => o.arms.map fun arm => (o, arm)).flatMap fun c => c.2.2.regions := by
    intro os
    induction os with
    | nil => rfl
    | cons o os ih => rw [regionsBelow, ih, hop, flatMap_cons, flatMap_append]
  obtain ⟨info, operations⟩ := ρ
  rw [AuthoredRegion.regions, hops]
  rfl

theorem AuthoredRegion.nodes_eq (ρ : AuthoredRegion) :
    ρ.nodes = ρ.ids ++ ρ.children.flatMap fun c => c.2.2.nodes := by
  rw [AuthoredRegion.nodes, AuthoredRegion.regions_eq, flatMap_cons, flatMap_assoc]
  rfl

end Slash.Pass
