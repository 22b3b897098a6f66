import Slash.Pass.Merges

/-!
# Accepted graphs, region by region

`Resolved g t ρ context root values` says of a whole subtree that every region in it is settled in
the tables of `t`, each arm in the context its control makes for it. `resolveGraph_resolved` is
the result the theorems about accepted graphs start from: the root of an accepted graph is
resolved, so every region below it is (`Resolved.of_mem`).

The induction runs over the tree once for the frames (`frame_resolveRegion`), which need no
hypothesis, and once for the regions themselves, where the frames of everything resolved later
carry each region to the end.
-/

namespace Slash.Pass

open List AuthoredRegion
open Lib (OrderedMap)

variable {g : AuthoredGraph}

/-! ## Frames over the tree -/

variable {ρ : AuthoredRegion} {c : AuthoredOperation × ControlArm × AuthoredRegion}

theorem AuthoredRegion.mem_children :
    c ∈ ρ.children ↔ c.1 ∈ ρ.operations ∧ c.2 ∈ c.1.arms := by
  obtain ⟨o, arm⟩ := c
  simp only [children, mem_flatMap, mem_map]
  constructor
  · rintro ⟨o', ho', arm', harm', heq⟩
    obtain ⟨rfl, rfl⟩ := Prod.mk.inj heq
    exact ⟨ho', harm'⟩
  · rintro ⟨ho, harm⟩
    exact ⟨o, ho, arm, harm, rfl⟩

/-- The nodes whose results resolving one arm works on: the control's and those below the arm. -/
def armNodes (c : AuthoredOperation × ControlArm × AuthoredRegion) : List NodeId :=
  c.1.id :: c.2.2.nodes

theorem armNodes_subset (hc : c ∈ ρ.children) {n : NodeId} (hn : n ∈ armNodes c) : n ∈ ρ.nodes := by
  rw [nodes_eq]
  obtain rfl | hn := mem_cons.1 hn
  · exact mem_append_left _ (mem_map_of_mem (mem_children.1 hc).1)
  · exact mem_append_right _ (mem_flatMap.2 ⟨c, hc, hn⟩)

variable {values : RegionValues}

theorem frame_resolveChild (hc : c ∈ ρ.children)
    (ih : ∀ context s, Frame c.2.2.nodes c.2.2.nodes s (resolveRegion g c.2.2 context false s).2.2)
    (s : ResolutionState) : Frame c.2.2.nodes (armNodes c) s (resolveChild g ρ values s c) := by
  have harm : c.2.1 ≠ .loopInitial :=
    AuthoredOperation.arm_ne_initial (mem_children.1 hc).2
  refine ((frame_report _ _ s _).trans ((ih _ _).weaken (List.Subset.refl _) ?_)).trans
    ((frame_addControlIncoming values c.1 c.2.2 _ _ harm _).weaken (nil_subset _) ?_)
  · exact subset_cons_self _ _
  · exact cons_subset.2 ⟨mem_cons_self, nil_subset _⟩

theorem frame_markRootOutputs (N M : List NodeId) (ρ : AuthoredRegion) (root : Bool)
    (values : RegionValues) (s : ResolutionState) :
    Frame N M s (markRootOutputs ρ root values s) := by
  unfold markRootOutputs
  split
  · exact Frame.foldl (fun s p _ => frame_markOutput N M values.finalValues s p) s
  · exact Frame.refl N M s

def AuthoredRegion.nodesBelow (ρ : AuthoredRegion) : List NodeId :=
  ρ.children.flatMap fun c => c.2.2.nodes

theorem frame_resolveChildren
    (h : ∀ c ∈ ρ.children, ∀ s, Frame c.2.2.nodes (armNodes c) s (resolveChild g ρ values s c))
    (s : ResolutionState) : Frame ρ.nodesBelow ρ.nodes s (resolveChildren g ρ values s) := by
  refine Frame.foldl (fun s c hc => (h c hc s).weaken ?_ ?_) s
  · exact fun n hn => mem_flatMap.2 ⟨c, hc, hn⟩
  · exact fun n hn => armNodes_subset hc hn

theorem frame_resolveRegion (g : AuthoredGraph) (ρ : AuthoredRegion) :
    ∀ context root s, Frame ρ.nodes ρ.nodes (definedState ρ context root s)
      (resolveRegion g ρ context root s).2.2 := by
  induction ρ using tree_induction with
  | h ρ ih =>
    intro context root s
    have hids : ρ.ids ⊆ ρ.nodes := by
      rw [nodes_eq]
      exact subset_append_left _ _
    have hnodes : ρ.nodesBelow ⊆ ρ.nodes := by
      rw [nodes_eq]
      exact subset_append_right _ _
    rw [(resolveRegion_eq g ρ context root s).2]
    refine (((frame_resolveLocal g ρ context root s).weaken hids (nil_subset _)).trans ?_).trans
      (frame_markRootOutputs _ _ ρ root _ _)
    refine (frame_resolveChildren (fun c hc s => ?_) _).weaken hnodes (List.Subset.refl _)
    exact frame_resolveChild hc (fun context s =>
      (frame_definedState _ _ c.2.2 context s).trans (ih c hc context false s)) s

theorem frame_resolveArm (hc : c ∈ ρ.children) (s : ResolutionState) :
    Frame c.2.2.nodes (armNodes c) s (resolveChild g ρ values s c) :=
  frame_resolveChild hc (fun context s =>
    (frame_definedState _ _ c.2.2 context s).trans (frame_resolveRegion g c.2.2 context false s)) s

/-! ## Resolved subtrees -/

/-- The arm has entered every result of its control as often as `armCount` says. -/
def Merged (t : ResolutionState) (values : RegionValues)
    (c : AuthoredOperation × ControlArm × AuthoredRegion) : Prop :=
  ∀ k v, values.outputValues.find? (outputKey c.1.id k) = some v →
    arrivals c.2.1 (t.incoming c.1.id v) = armCount c.1 c.2.2 k

variable {s t : ResolutionState} {N M : List NodeId}

theorem Frame.incoming (h : Frame N M s t) {n : NodeId} (hn : n ∉ M) (v : ValueId) :
    t.incoming n v = s.incoming n v := by
  unfold ResolutionState.incoming
  rw [h.records n hn]

theorem Merged.later (h : Merged s values c) (hst : Frame N M s t) (hM : c.1.id ∉ M) :
    Merged t values c := by
  intro k v hv
  rw [hst.incoming hM]
  exact h k v hv

/-- Every region of the subtree is settled, each arm in the context its control makes for it and
merged into its control's results. -/
inductive Resolved (g : AuthoredGraph) (t : ResolutionState) :
    AuthoredRegion → RegionContext → Bool → RegionValues → Prop where
  | mk {ρ : AuthoredRegion} {context : RegionContext} {root : Bool} {values : RegionValues}
      (below : AuthoredOperation × ControlArm × AuthoredRegion → RegionValues)
      (settled : Settled g t ρ context root values)
      (imports : ∀ c ∈ ρ.children, parameterErrors t ρ values c.1 c.2.2 = [])
      (merged : ∀ c ∈ ρ.children, Merged t values c)
      (arms : ∀ c ∈ ρ.children,
        Resolved g t c.2.2 (makeChildContext t ρ values c.1 c.2.2) false (below c)) :
      Resolved g t ρ context root values

variable {context : RegionContext} {root : Bool}

theorem Resolved.settled {t : ResolutionState} (h : Resolved g t ρ context root values) :
    Settled g t ρ context root values := by
  cases h
  assumption

theorem Resolved.later (h : Resolved g s ρ context root values) (hst : Frame N M s t)
    (hN : ∀ n ∈ ρ.nodes, n ∉ N ∧ n ∉ M) : Resolved g t ρ context root values := by
  induction h with
  | @mk ρ context root values below settled imports merged arms ih =>
    rw [nodes_eq] at hN
    refine .mk below (settled.later hst fun n hn =>
      (hN n (mem_append_left _ hn)).1) ?_ ?_ ?_
    · intro c hc
      rw [parameterErrors_later hst.toLater]
      exact imports c hc
    · intro c hc
      have hid : c.1.id ∈ ρ.ids := mem_map_of_mem (mem_children.1 hc).1
      exact (merged c hc).later hst (hN _ (mem_append_left _ hid)).2
    · intro c hc
      rw [makeChildContext_later hst.toLater]
      exact ih c hc fun n hn =>
        hN n (mem_append_right _ (mem_flatMap.2 ⟨c, hc, hn⟩))

theorem makeChildContext_keyed (s : ResolutionState) (ρ : AuthoredRegion) (values : RegionValues)
    (o : AuthoredOperation) (child : AuthoredRegion) :
    (makeChildContext s ρ values o child).Keyed := by
  have hfold : ∀ (ms : List Mapping) (parameters : OrderedMap TokenKey ParameterLink),
      (∀ k link, parameters.find? k = some link → link.target.key = k) →
      ∀ k link, (ms.foldl (addParameter s ρ values o) parameters).find? k = some link →
        link.target.key = k := by
    intro ms
    induction ms with
    | nil => intro parameters h; exact h
    | cons m ms ih =>
      intro parameters h
      refine ih _ ?_
      intro k link hlink
      unfold addParameter at hlink
      split at hlink
      · rw [OrderedMap.find?_insert] at hlink
        split at hlink
        · rename_i hk
          obtain rfl := Option.some.inj hlink
          exact hk.symm
        · exact h k link hlink
      · exact h k link hlink
  intro p hp
  exact hfold _ .empty (fun k link hlink => by simp at hlink) p.1 p.2 (OrderedMap.mem_entries _ |>.1 hp)

/-! ## One arm -/

/-- A node nothing was recorded for yet. -/
def ResolutionState.Untouched (s : ResolutionState) (n : NodeId) : Prop :=
  s.recordsOf n = [] ∧ s.aliasesOf n = []

theorem Frame.untouched (h : Frame N M s t) {n : NodeId} (hN : n ∉ N) (hM : n ∉ M)
    (hn : s.Untouched n) : t.Untouched n :=
  ⟨(h.records n hM).trans hn.1, (h.aliases n hN).trans hn.2⟩

/-- What the induction over the tree gives for a region below the root. -/
def ResolvesBelow (g : AuthoredGraph) (ρ : AuthoredRegion) : Prop :=
  ∀ context s, context.Keyed → s.RootSound → (∀ n ∈ ρ.nodes, s.Untouched n) →
    (resolveRegion g ρ context false s).2.2.diagnostics = [] →
    Resolved g (resolveRegion g ρ context false s).2.2 ρ context false
      (regionValues ρ context false s)

theorem outputsApart {t : ResolutionState} (h : Defined t ρ context root values) (n : NodeId) :
    OutputsApart values n :=
  fun k k' v hv hv' => ((h.output n k v hv).unique (h.output n k' v hv')).2

theorem resolveChild_spec {s : ResolutionState} (hc : c ∈ ρ.children)
    (hdefined : Defined s ρ context root values) (hbelow : ResolvesBelow g c.2.2)
    (hid : c.1.id ∉ c.2.2.nodes) (huntouched : ∀ n ∈ c.2.2.nodes, s.Untouched n)
    (hzero : ∀ v, arrivals c.2.1 (s.incoming c.1.id v) = 0)
    (hnone : (resolveChild g ρ values s c).diagnostics = []) :
    parameterErrors (resolveChild g ρ values s c) ρ values c.1 c.2.2 = [] ∧
    Merged (resolveChild g ρ values s c) values c ∧
    ∃ below, Resolved g (resolveChild g ρ values s c) c.2.2
      (makeChildContext (resolveChild g ρ values s c) ρ values c.1 c.2.2) false below := by
  obtain ⟨hop, harmMem⟩ := mem_children.1 hc
  have harm : c.2.1 ≠ .loopInitial := AuthoredOperation.arm_ne_initial harmMem
  -- the three states: imports reported, arm resolved, results entered
  set arm := makeChildContext s ρ values c.1 c.2.2 with harmContext
  set s₁ := s.report (parameterErrors s ρ values c.1 c.2.2) with hs₁
  set r := resolveRegion g c.2.2 arm false s₁ with hr
  have hresult : resolveChild g ρ values s c =
      addControlIncoming values c.1 c.2.2 r.1 arm c.2.1 r.2.2 := rfl
  have hfirst : Frame c.2.2.nodes c.2.2.nodes s s₁ := frame_report _ _ s _
  have hmiddle : Frame c.2.2.nodes c.2.2.nodes s₁ r.2.2 :=
    (frame_definedState _ _ c.2.2 arm s₁).trans (frame_resolveRegion g c.2.2 arm false s₁)
  have hlast : Frame [] [c.1.id] r.2.2 (resolveChild g ρ values s c) :=
    frame_addControlIncoming values c.1 c.2.2 r.1 arm harm r.2.2
  have hrnone : r.2.2.diagnostics = [] := hlast.accepted hnone
  have hlater : Later s (resolveChild g ρ values s c) :=
    (hfirst.toLater.trans hmiddle.toLater).trans hlast.toLater
  have hresolved : Resolved g r.2.2 c.2.2 arm false (regionValues c.2.2 arm false s₁) := by
    refine hbelow arm s₁ (makeChildContext_keyed s ρ values c.1 c.2.2)
      (hfirst.toLater.rootSound hdefined.rootInput) ?_ hrnone
    intro n hn
    exact huntouched n hn
  have hfinal : r.1 = (regionValues c.2.2 arm false s₁).finalValues :=
    (resolveRegion_eq g c.2.2 arm false s₁).1
  refine ⟨?_, ?_, regionValues c.2.2 arm false s₁, ?_⟩
  · rw [parameterErrors_later hlater]
    have happ : s.diagnostics ++ parameterErrors s ρ values c.1 c.2.2 = [] := hmiddle.accepted hrnone
    exact (append_eq_nil_iff.1 happ).2
  · intro k v hv
    rw [hresult]
    refine arrivals_addControlIncoming harm (outputsApart hdefined c.1.id) ?_ ?_ hv ?_
    · intro m hm
      obtain ⟨hsource, htarget⟩ := hresolved.settled.exports hm
      obtain ⟨w, hw⟩ := Option.isSome_iff_exists.1 htarget
      exact ⟨hfinal ▸ hsource, w, hw, output_of_target hw⟩
    · intro p hp
      obtain ⟨k', hk'⟩ := portCandidates_of_accepted harm _ _ hnone p hp
      have hp2 : p.2 ∈ c.1.ioOutputs.map TokenRef.key :=
        outputPorts_keys c.1 ▸ mem_map_of_mem hp
      obtain ⟨w, hw⟩ := hdefined.output_of_mem hop (AuthoredOperation.mem_producedValues.2 (.inl hp2))
      have hproduced : c.2.2.producers k' ≠ [] :=
        produced_of_portCandidate (by rw [hk']; exact mem_singleton_self k')
      obtain ⟨o, ho⟩ := Defined.finalProducer_isSome hproduced
      obtain ⟨x, hx, -⟩ := hresolved.settled.defined.final_of_producer ho
      refine ⟨⟨k', hk', by rw [hfinal, hx]; rfl⟩, ?_⟩
      exact targeted_of_mem (mem_append_right _ hp2) hw
    · rw [(hfirst.trans hmiddle).incoming hid]
      exact hzero v
  · rw [makeChildContext_later hlater]
    exact hresolved.later hlast fun n hn =>
      ⟨not_mem_nil, fun hmem => hid (mem_singleton.1 hmem ▸ hn)⟩

/-! ## All arms of a region -/

/-- Two arms of a region: different entries, different nodes below. -/
def Apart (c c' : AuthoredOperation × ControlArm × AuthoredRegion) : Prop :=
  (c.1.id ≠ c'.1.id ∨ c.2.1 ≠ c'.2.1) ∧ List.Disjoint c.2.2.nodes c'.2.2.nodes

theorem AuthoredRegion.nodup_parts (h : ρ.nodes.Nodup) :
    ρ.ids.Nodup ∧ (∀ c ∈ ρ.children, c.2.2.nodes.Nodup) ∧
      (∀ c ∈ ρ.children, ∀ n ∈ ρ.ids, n ∉ c.2.2.nodes) ∧ ρ.children.Pairwise Apart := by
  rw [nodes_eq] at h
  obtain ⟨hids, hbelow, hdisjoint⟩ := nodup_append'.1 h
  obtain ⟨hnodup, hnodes⟩ := nodup_flatMap.1 hbelow
  refine ⟨hids, hnodup, ?_, ?_⟩
  · intro c hc n hn hmem
    exact hdisjoint hn (mem_flatMap.2 ⟨c, hc, hmem⟩)
  · -- two arms of one control are different arms, two controls have different ids
    have harms : ρ.children.Pairwise fun c c' => c.1.id ≠ c'.1.id ∨ c.2.1 ≠ c'.2.1 := by
      refine pairwise_flatMap.2 ⟨?_, ?_⟩
      · intro o _
        rw [pairwise_map]
        cases o <;> simp [AuthoredOperation.arms]
      · refine (pairwise_map.1 hids).imp ?_
        intro o o' hne c hc c' hc'
        obtain ⟨arm, -, rfl⟩ := mem_map.1 hc
        obtain ⟨arm', -, rfl⟩ := mem_map.1 hc'
        exact .inl hne
    exact harms.and hnodes

theorem arrivals_resolveChild {s : ResolutionState}
    {c c' : AuthoredOperation × ControlArm × AuthoredRegion} (hc : c ∈ ρ.children)
    (hc' : c' ∈ ρ.children) (hapart : c.1.id ≠ c'.1.id ∨ c.2.1 ≠ c'.2.1)
    (hid : c.1.id ∉ c'.2.2.nodes) (v : ValueId) :
    arrivals c.2.1 ((resolveChild g ρ values s c').incoming c.1.id v) =
      arrivals c.2.1 (s.incoming c.1.id v) := by
  by_cases hsame : c.1.id = c'.1.id
  · have harm : c.2.1 ≠ c'.2.1 := hapart.resolve_left (not_not.2 hsame)
    have hinitial : c.2.1 ≠ .loopInitial :=
      AuthoredOperation.arm_ne_initial (mem_children.1 hc).2
    rw [hsame]
    refine (arrivals_addControlIncoming_ne harm hinitial _ v).trans ?_
    have hframe : Frame c'.2.2.nodes c'.2.2.nodes s (resolveRegion g c'.2.2
        (makeChildContext s ρ values c'.1 c'.2.2) false
        (s.report (parameterErrors s ρ values c'.1 c'.2.2))).2.2 :=
      (frame_report _ _ s _).trans ((frame_definedState _ _ c'.2.2 _ _).trans
        (frame_resolveRegion g c'.2.2 _ false _))
    rw [hframe.incoming (hsame ▸ hid)]
  · rw [(frame_resolveArm hc' s).incoming]
    intro hmem
    obtain heq | hmem := mem_cons.1 hmem
    · exact hsame heq
    · exact hid hmem

/-- The arms that are left, from any state in which none of them has been entered. -/
theorem resolveChildren_spec (hbelow : ∀ c ∈ ρ.children, ResolvesBelow g c.2.2)
    (hids : ∀ c ∈ ρ.children, ∀ n ∈ ρ.ids, n ∉ c.2.2.nodes)
    (cs : List (AuthoredOperation × ControlArm × AuthoredRegion)) (hcs : ∀ c ∈ cs, c ∈ ρ.children)
    (hapart : cs.Pairwise Apart) (s : ResolutionState)
    (hdefined : Defined s ρ context root values)
    (huntouched : ∀ c ∈ cs, ∀ n ∈ c.2.2.nodes, s.Untouched n)
    (hzero : ∀ c ∈ cs, ∀ v, arrivals c.2.1 (s.incoming c.1.id v) = 0)
    (hnone : (cs.foldl (resolveChild g ρ values) s).diagnostics = []) :
    let t := cs.foldl (resolveChild g ρ values) s
    ∀ c ∈ cs, parameterErrors t ρ values c.1 c.2.2 = [] ∧ Merged t values c ∧
      ∃ below, Resolved g t c.2.2 (makeChildContext t ρ values c.1 c.2.2) false below := by
  induction cs generalizing s with
  | nil => intro t c hc; cases hc
  | cons c cs ih =>
    intro t c' hc'
    obtain ⟨hfirst, hrest⟩ := pairwise_cons.1 hapart
    have hmem : c ∈ ρ.children := hcs c mem_cons_self
    have hcs' : ∀ c ∈ cs, c ∈ ρ.children := fun c hc => hcs c (mem_cons_of_mem _ hc)
    have hid : ∀ c ∈ ρ.children, c.1.id ∈ ρ.ids := fun c hc =>
      mem_map_of_mem (mem_children.1 hc).1
    have hstep : Frame c.2.2.nodes (armNodes c) s (resolveChild g ρ values s c) :=
      frame_resolveArm hmem s
    have hlast : Frame (cs.flatMap armNodes) (cs.flatMap armNodes) (resolveChild g ρ values s c) t :=
      Frame.foldl (fun s c hc => (frame_resolveArm (hcs' c hc) s).weaken
        (fun n hn => mem_flatMap.2 ⟨c, hc, mem_cons_of_mem _ hn⟩)
        fun n hn => mem_flatMap.2 ⟨c, hc, hn⟩) _
    obtain rfl | hc' := mem_cons.1 hc'
    · obtain ⟨himports, hmerged, below, hresolved⟩ := resolveChild_spec hmem hdefined
        (hbelow _ hmem) (hids _ hmem _ (hid _ hmem)) (huntouched _ mem_cons_self)
        (hzero _ mem_cons_self) (hlast.accepted hnone)
      refine ⟨?_, ?_, below, ?_⟩
      · rw [parameterErrors_later hlast.toLater]
        exact himports
      · -- the arms after this one keep its count
        have hkeep : ∀ (cs' : List (AuthoredOperation × ControlArm × AuthoredRegion)),
            (∀ c ∈ cs', c ∈ cs) → ∀ (s : ResolutionState) (v : ValueId),
            arrivals c'.2.1 ((cs'.foldl (resolveChild g ρ values) s).incoming c'.1.id v) =
              arrivals c'.2.1 (s.incoming c'.1.id v) := by
          intro cs'
          induction cs' with
          | nil => intro _ s v; rfl
          | cons d cs' ih =>
            intro hsub s v
            have hd : d ∈ cs := hsub d mem_cons_self
            rw [foldl_cons, ih fun c hc => hsub c (mem_cons_of_mem _ hc)]
            exact arrivals_resolveChild hmem (hcs' d hd) (hfirst d hd).1
              (hids d (hcs' d hd) _ (hid _ hmem)) v
        intro k v hv
        exact (hkeep cs (fun c hc => hc) _ v).trans (hmerged k v hv)
      · rw [makeChildContext_later hlast.toLater]
        have hother : ∀ n ∈ c'.2.2.nodes, n ∉ cs.flatMap armNodes := by
          intro n hn hmem'
          obtain ⟨d, hd, hn'⟩ := mem_flatMap.1 hmem'
          obtain rfl | hn' := mem_cons.1 hn'
          · exact hids _ hmem _ (hid d (hcs' d hd)) hn
          · exact (hfirst d hd).2 hn hn'
        exact hresolved.later hlast fun n hn => ⟨hother n hn, hother n hn⟩
    · refine ih hcs' hrest _ (hdefined.later hstep.toLater) ?_ ?_ hnone c' hc'
      · intro d hd n hn
        have hnot : n ∉ c.2.2.nodes := fun hmem' => (hfirst d hd).2 hmem' hn
        refine hstep.untouched hnot ?_ (huntouched d (mem_cons_of_mem _ hd) n hn)
        intro hmem'
        obtain rfl | hmem' := mem_cons.1 hmem'
        · exact hids d (hcs' d hd) _ (hid c hmem) hn
        · exact hnot hmem'
      · intro d hd v
        rw [arrivals_resolveChild (hcs' d hd) hmem ((hfirst d hd).1.imp Ne.symm Ne.symm)
          (hids c hmem _ (hid d (hcs' d hd)))]
        exact hzero d (mem_cons_of_mem _ hd) v

/-! ## The whole tree -/

theorem tables_resolveLocal (g : AuthoredGraph) (ρ : AuthoredRegion) (context : RegionContext)
    (root : Bool) (s : ResolutionState) (n : NodeId) :
    (resolveLocal g ρ context root s).2.recordsOf n = s.recordsOf n ∧
      (n ∉ ρ.ids → (resolveLocal g ρ context root s).2.aliasesOf n = s.aliasesOf n) := by
  have hframe := frame_resolveLocal g ρ context root s
  obtain ⟨hresults, haliases⟩ := tables_definedState ρ context root s
  refine ⟨(hframe.records n not_mem_nil).trans ?_, fun hn => (hframe.aliases n hn).trans ?_⟩
  · rw [ResolutionState.recordsOf, hresults]
    rfl
  · rw [ResolutionState.aliasesOf, haliases]
    rfl

theorem resolveRegion_resolved (g : AuthoredGraph) (ρ : AuthoredRegion) :
    ρ.nodes.Nodup → ∀ context root s, context.Keyed → s.RootSound →
      (∀ n ∈ ρ.nodes, s.Untouched n) →
      (resolveRegion g ρ context root s).2.2.diagnostics = [] →
      Resolved g (resolveRegion g ρ context root s).2.2 ρ context root
        (regionValues ρ context root s) := by
  induction ρ using tree_induction with
  | h ρ ih =>
    intro hnodup context root s hc hs huntouched hnone
    obtain ⟨hids, hbelow, hapart, hpairwise⟩ := nodup_parts hnodup
    rw [(resolveRegion_eq g ρ context root s).2] at hnone ⊢
    set values := regionValues ρ context root s with hvalues
    set s₁ := (resolveLocal g ρ context root s).2 with hs₁
    set s₂ := resolveChildren g ρ values s₁ with hs₂
    have hmark : Frame [] [] s₂ (markRootOutputs ρ root values s₂) :=
      frame_markRootOutputs [] [] ρ root values s₂
    have hchildren : Frame ρ.nodesBelow ρ.nodes s₁ s₂ :=
      frame_resolveChildren (fun c hc s => frame_resolveArm hc s) s₁
    have hsettled : Settled g s₁ ρ context root values :=
      resolveLocal_settled hids hc hs (fun o ho => (huntouched o.id (by
        rw [nodes_eq]
        exact mem_append_left _ (mem_map_of_mem ho))).2)
        (hchildren.accepted (hmark.accepted hnone))
    have hempty : ∀ n ∈ ρ.nodes, s₁.recordsOf n = [] := fun n hn =>
      (tables_resolveLocal g ρ context root s n).1.trans (huntouched n hn).1
    have harms := resolveChildren_spec
      (fun c hc context s hkeyed hroot hrec hdiag =>
        ih c hc (hbelow c hc) context false s hkeyed hroot hrec hdiag)
      hapart ρ.children (fun c hc => hc) hpairwise s₁ hsettled.defined
      (fun c hc n hn => by
        have hmem : n ∈ ρ.nodes := armNodes_subset hc (mem_cons_of_mem _ hn)
        refine ⟨hempty n hmem, ?_⟩
        exact ((tables_resolveLocal g ρ context root s n).2 fun hid => hapart c hc n hid hn).trans
          (huntouched n hmem).2)
      (fun c hc v => by
        rw [ResolutionState.incoming, hempty _ (armNodes_subset hc mem_cons_self)]
        rfl)
      (hmark.accepted hnone)
    -- the arms store no operation of the region itself
    have hself : Settled g s₂ ρ context root values := by
      refine hsettled.later hchildren fun n hn hmem => ?_
      obtain ⟨c, hc, hn'⟩ := mem_flatMap.1 hmem
      exact hapart c hc n hn hn'
    have hresolved : Resolved g s₂ ρ context root values := by
      have hex : ∀ c : AuthoredOperation × ControlArm × AuthoredRegion, ∃ below, c ∈ ρ.children →
          Resolved g s₂ c.2.2 (makeChildContext s₂ ρ values c.1 c.2.2) false below := by
        intro c
        by_cases hc : c ∈ ρ.children
        · obtain ⟨-, -, below, h⟩ := harms c hc
          exact ⟨below, fun _ => h⟩
        · exact ⟨values, fun h => absurd h hc⟩
      choose below hbelow using hex
      exact .mk below hself (fun c hc => (harms c hc).1) (fun c hc => (harms c hc).2.1) hbelow
    exact hresolved.later hmark fun n _ => ⟨not_mem_nil, not_mem_nil⟩

/-! ## Accepted graphs -/

/-- The tables of an accepted graph are those of the last state, which reported nothing. -/
structure Tables (r : ResolvedGraph) (t : ResolutionState) : Prop where
  values : r.values = t.values
  operations : r.operations = t.operations
  aliases : r.aliases = t.boundaryAliases
  controlResults : r.controlResults = t.controlResults
  recordsNodup : t.RecordsNodup
  initialOnce : t.InitialOnce

/-- What an accepted graph has: it passed validation and its root is resolved. -/
theorem resolveGraph_resolved {r : ResolvedGraph} (h : resolveGraph g = .ok r) :
    validateAuthoredGraph g = [] ∧
      ∃ t values, Tables r t ∧ Resolved g t g.root {} true values := by
  unfold resolveGraph at h
  split at h
  · rename_i hvalid
    refine ⟨hvalid, ?_⟩
    unfold resolveValidatedGraph at h
    simp only at h
    split at h
    · rename_i hnone
      rw [List.isEmpty_iff] at hnone
      obtain rfl := Except.ok.inj h
      have hframe := frame_resolveRegion g g.root {} true (.init g)
      have hempty : (definedState g.root {} true (.init g)).controlResults = [] :=
        (tables_definedState g.root {} true (.init g)).1
      refine ⟨_, regionValues g.root {} true (.init g), ⟨rfl, rfl, rfl, rfl, ?_, ?_⟩, ?_⟩
      · exact hframe.recordsNodup (by simp [ResolutionState.RecordsNodup, hempty])
      · exact hframe.initialOnce (by simp [ResolutionState.InitialOnce, hempty])
      · refine resolveRegion_resolved g g.root g.nodup {} true (.init g) ?_ ?_ ?_ hnone
        · intro p hp
          cases hp
        · intro k v hv
          cases hv
        · intro n _
          exact ⟨rfl, rfl⟩
    · cases h
  · cases h

theorem resolveGraph_isOk {g : AuthoredGraph} (h : (resolveGraph g).isOk = true) :
    ∃ r, resolveGraph g = .ok r := by
  cases hr : resolveGraph g with
  | ok r => exact ⟨r, rfl⟩
  | error d => rw [hr] at h; cases h

/-- A region of the graph, with the flag that marks the root. -/
inductive AuthoredGraph.RegionAt (g : AuthoredGraph) : AuthoredRegion → Bool → Prop where
  | root : g.RegionAt g.root true
  | below {ρ : AuthoredRegion} (h : ρ ∈ regionsBelow g.root.operations) : g.RegionAt ρ false

theorem regionsBelow_eq (ρ : AuthoredRegion) :
    regionsBelow ρ.operations = ρ.children.flatMap fun c => c.2.2.regions := by
  have hregions := ρ.regions_eq
  obtain ⟨info, operations⟩ := ρ
  rw [regions] at hregions
  exact (List.cons.inj hregions).2

theorem AuthoredGraph.root_mem (g : AuthoredGraph) : g.root ∈ g.regions := by
  rw [AuthoredGraph.regions, regions_eq]
  exact mem_cons_self

theorem AuthoredGraph.regionAt_of_mem (g : AuthoredGraph) (hρ : ρ ∈ g.regions) :
    ∃ root, g.RegionAt ρ root := by
  rw [AuthoredGraph.regions, regions_eq, ← regionsBelow_eq] at hρ
  obtain rfl | hρ := mem_cons.1 hρ
  · exact ⟨true, .root⟩
  · exact ⟨false, .below hρ⟩

theorem Resolved.regionBelow {t : ResolutionState} (h : Resolved g t ρ context root values)
    {ρ' : AuthoredRegion} (hρ : ρ' ∈ regionsBelow ρ.operations) :
    ∃ context' values', Resolved g t ρ' context' false values' := by
  induction h with
  | @mk ρ context root values below settled imports merged arms ih =>
    rw [regionsBelow_eq] at hρ
    obtain ⟨c, hc, hmem⟩ := mem_flatMap.1 hρ
    rw [regions_eq, ← regionsBelow_eq] at hmem
    obtain rfl | hmem := mem_cons.1 hmem
    · exact ⟨_, _, arms c hc⟩
    · exact ih c hc hmem

theorem Resolved.at {t : ResolutionState} (h : Resolved g t g.root {} true values)
    (hρ : g.RegionAt ρ root) :
    ∃ context values, Resolved g t ρ context root values ∧ (root = true → context = {}) := by
  cases hρ with
  | root => exact ⟨_, _, h, fun _ => rfl⟩
  | below hρ =>
    obtain ⟨context, values, hresolved⟩ := h.regionBelow hρ
    exact ⟨context, values, hresolved, fun hroot => absurd hroot Bool.false_ne_true⟩

end Slash.Pass
