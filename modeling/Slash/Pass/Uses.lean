import Mathlib.Data.List.Induction
import Slash.Pass.Tree

/-!
# Definition before use

When the resolved dependencies order every definition before its uses. `valueForUse` binds what an
operation reads and makes it wait for the producer, and `parentValue` picks what the body of a
control reads; the two are written apart and look in a different order.

* An operation can be bound to its own output: the dependency on itself is dropped, and nothing
  else reports it (`NoSelfRead`).
* At the root a declared input that a loop carries and re-emits is read as the input by
  `valueForUse` and as the loop's result by `parentValue` (`NoReemittedImport`).
* A parameter mapped twice keeps its last source (`OneSource`).
-/

namespace Slash.Pass

open List AuthoredOperation AuthoredRegion
open Lib (OrderedMap)

variable {g : AuthoredGraph}

/-! ## The statement -/

namespace ResolvedGraph

/-- `p` is a resolved dependency of `c`. -/
def Precedes (r : ResolvedGraph) (p c : NodeId) : Prop :=
  ∃ op, r.operations.find? c = some op ∧ p ∈ op.dependencies.map ResolvedDependency.predecessor

def producer (r : ResolvedGraph) (v : ValueId) : Option NodeId :=
  r.values[v]?.bind fun value => value.origin.producer

def aliasesOf (r : ResolvedGraph) (n : NodeId) : List BoundaryAlias :=
  r.aliases.filter fun a => a.boundary = n

end ResolvedGraph

/-- What the operation reads from its own region was produced by another operation, before it. -/
def ReadsDefined (r : ResolvedGraph) (ρ : AuthoredRegion) (o : AuthoredOperation)
    (op : ResolvedOperation) : Prop :=
  ∀ b ∈ op.bindings, b.access.exports = false → ∀ p, r.producer b.value = some p → p ∈ ρ.ids →
    p ≠ o.id ∧ Relation.TransGen r.Precedes p o.id

/-- The values bound at the boundary ports of a control are those aliased into the parameters of
its arms, one for each start mapping, in order. -/
def ImportsAligned (r : ResolvedGraph) (o : AuthoredOperation) (op : ResolvedOperation) : Prop :=
  ((op.bindings.filter fun b => b.access = .boundarySource).map fun b => (b.port, b.value)) =
    ((o.childRegions.flatMap fun child => child.boundaries .start).flatMap fun b =>
      r.aliasesOf b.id).map fun a => ("boundary." ++ a.port, a.source)

def DefinitionBeforeUse (g : AuthoredGraph) (r : ResolvedGraph) : Prop :=
  ∀ ρ ∈ g.regions, ∀ o ∈ ρ.operations, o.isStructural = false →
    ∃ op, r.operations.find? o.id = some op ∧ ReadsDefined r ρ o op ∧ ImportsAligned r o op

/-- No operation reads, but through an inout, a key that it alone produces and does not carry. -/
def NoSelfRead (g : AuthoredGraph) : Prop :=
  ∀ ρ ∈ g.regions, ∀ o ∈ ρ.operations, o.isStructural = false → ∀ u ∈ o.consumers,
    u.access ≠ .inoutInput → u.key ∈ o.loopCarriedValues ∨
      (ρ.producers u.key).map AuthoredOperation.id ≠ [o.id]

/-- No control of the root imports, without carrying it, a declared input that is produced there. -/
def NoReemittedImport (g : AuthoredGraph) : Prop :=
  ∀ o ∈ g.root.operations, ∀ u ∈ o.controlBoundaryInputs,
    g.root.info.declaresInput u.key = true → u.key ∈ g.root.rootInputs.map TokenRef.key →
      u.key ∈ o.loopCarriedValues ∨ g.root.producers u.key = []

/-- The start mappings of an arm that share a target share their source. -/
def OneSource (g : AuthoredGraph) : Prop :=
  ∀ ρ ∈ g.regions, ∀ o ∈ ρ.operations, ∀ child ∈ o.childRegions,
    ∀ m ∈ child.mappings .start, ∀ m' ∈ child.mappings .start,
      m.target.key = m'.target.key → m.source.key = m'.source.key

/-! ## What validation says of producers -/

theorem validate_region (h : validateAuthoredGraph g = []) {ρ : AuthoredRegion} {root : Bool}
    (hρ : g.RegionAt ρ root) : validateRegion g ρ = [] ∧ validateProducers g ρ root = [] := by
  unfold validateAuthoredGraph at h
  obtain ⟨h, hbelow⟩ := append_eq_nil_iff.1 h
  cases hρ with
  | root => exact append_eq_nil_iff.1 (append_eq_nil_iff.1 h).2
  | below hmem => exact append_eq_nil_iff.1 (flatMap_eq_nil_iff.1 hbelow ρ hmem)

theorem validate_producers {ρ : AuthoredRegion} {root : Bool}
    (h : validateProducers g ρ root = []) :
    validateDuplicateProducers ρ root = [] ∧ validateConsumers g ρ root = [] := by
  unfold validateProducers at h
  obtain ⟨h, hconsumers⟩ := append_eq_nil_iff.1 h
  exact ⟨(append_eq_nil_iff.1 h).1, hconsumers⟩

/-- A graph input is produced only by operations that carry it. -/
theorem carried_of_graphInput {ρ : AuthoredRegion} (h : validateDuplicateProducers ρ true = [])
    {k : TokenKey} (hk : k ∈ ρ.info.graphInputs) {o : AuthoredOperation}
    (ho : o ∈ ρ.producers k) : k ∈ o.loopCarriedValues := by
  obtain ⟨homem, hproduced⟩ := mem_producers.1 ho
  have hmem : k ∈ ρ.producedKeys := mem_producedKeys.2 (ne_nil_of_mem ho)
  have hnone := flatMap_eq_nil_iff.1 h k hmem
  simp only [if_true, if_pos hk, expect_eq_nil, decide_eq_true_eq] at hnone
  exact hnone.2 o ho

/-- What a consumed token can come from. -/
theorem consumer_cases {ρ : AuthoredRegion} {root : Bool} (h : validateConsumers g ρ root = [])
    {o : AuthoredOperation} (ho : o ∈ ρ.operations) {u : TokenRef} (hu : u ∈ o.consumers) :
    (∃ p ∈ ρ.producers u.key, p.id ≠ o.id) ∨ u.key ∈ regionParameters ρ root ∨
      u.key.kind = .scalar := by
  have hnone := flatMap_eq_nil_iff.1 (flatMap_eq_nil_iff.1 h o ho) u hu
  simp only [expect_eq_nil, Bool.or_eq_true, any_eq_true, decide_eq_true_eq, or_assoc] at hnone
  obtain hother | hparameter | hscalar := hnone
  · exact .inl hother
  · exact .inr (.inl hparameter)
  · obtain ⟨p, -, hp⟩ := mem_map.1 hscalar
    exact .inr (.inr (hp ▸ rfl))

/-! ## Self reads -/

section Reads

variable {t : ResolutionState} {ρ : AuthoredRegion} {context : RegionContext} {root : Bool}
  {values : RegionValues} {o : AuthoredOperation}

theorem Defined.producers_length (h : Defined t ρ context root values) (k : TokenKey) :
    (ρ.producers k).length ≤ 1 ∨
      (ρ.producers k).length = 2 ∧ (ρ.carriedProducers k).length = 1 := by
  by_cases hk : ρ.producers k = []
  · exact .inl (by simp [hk])
  · have hnone := flatMap_eq_nil_iff.1 h.unambiguous k (mem_producedKeys.2 hk)
    simpa using hnone

variable {k : TokenKey}

theorem Defined.producers_of_final (h : Defined t ρ context root values)
    (ho : ρ.finalProducer k = some o) (hk : k ∉ o.loopCarriedValues) : ρ.producers k = [o] := by
  unfold finalProducer at ho
  split at ho
  · rename_i c a b hcarried hproducers
    obtain rfl := Option.some.inj ho
    have hc : c ∈ ρ.carriedProducers k := by rw [hcarried]; exact mem_cons_self
    exact absurd (of_decide_eq_true (mem_filter.1 hc).2) hk
  · rename_i hmatch
    obtain hone | ⟨htwo, hcarried⟩ := h.producers_length k
    · match hproducers : ρ.producers k with
      | [] => rw [hproducers] at ho; cases ho
      | [a] => rw [hproducers] at ho; rw [Option.some.inj ho]
      | a :: b :: rest => rw [hproducers] at hone; simp at hone
    · obtain ⟨c, hc⟩ := length_eq_one_iff.1 hcarried
      obtain ⟨a, b, hab⟩ := length_eq_two.1 htwo
      exact absurd hab (hmatch c a b hc)

theorem finalProducer_of_singleton (h : ρ.producers k = [o]) :
    ρ.finalProducer k = some o := by
  unfold finalProducer
  rw [h]
  split
  · rename_i heq
    cases heq
  · rfl

theorem eq_of_id (hnodup : ρ.ids.Nodup) {o' : AuthoredOperation} (ho : o ∈ ρ.operations)
    (ho' : o' ∈ ρ.operations) (hid : o'.id = o.id) : o' = o :=
  inj_on_of_nodup_map hnodup ho' ho hid

theorem producers_ids (hnodup : ρ.ids.Nodup) (ho : o ∈ ρ.operations) :
    (ρ.producers k).map AuthoredOperation.id = [o.id] ↔ ρ.producers k = [o] := by
  constructor
  · intro h
    obtain ⟨o', ho', hid⟩ := map_eq_singleton_iff.1 h
    have hmem : o' ∈ ρ.producers k := by rw [ho']; exact mem_singleton_self o'
    rw [ho', eq_of_id hnodup ho (mem_producers.1 hmem).1 hid]
  · intro h
    rw [h]
    rfl

theorem not_rootInput (hdup : validateDuplicateProducers ρ true = [])
    (hproducers : ρ.producers k = [o]) (hk : k ∉ o.loopCarriedValues) :
    k ∉ ρ.rootInputs.map TokenRef.key := by
  have ho : o ∈ ρ.producers k := by rw [hproducers]; exact mem_singleton_self o
  have hinput : k ∉ ρ.info.graphInputs := fun hmem => hk (carried_of_graphInput hdup hmem ho)
  intro hmem
  rw [rootInputs, map_append, mem_append] at hmem
  obtain hscalar | hbuffer := hmem
  · obtain ⟨u, hu, rfl⟩ := mem_map.1 hscalar
    obtain ⟨p, hp, hpu⟩ := mem_filterMap.1 hu
    simp only at hpu
    split at hpu
    · rename_i hcond
      obtain rfl := Option.some.inj hpu
      have hkey : (⟨.scalar, ρ.info.sourceScope, p.1⟩ : TokenKey) =
        TokenRef.key ⟨.scalar ⟨p.2, p.1, ρ.info.sourceScope, 0⟩, p.1, .input⟩ := rfl
      rw [← hkey] at hproducers hk hinput
      simp only [hproducers, isEmpty_cons, Bool.and_false, any_cons, any_nil, hk,
        decide_false, Bool.or_false, Bool.false_or] at hcond
      obtain ⟨type, htype⟩ := Option.isSome_iff_exists.1 hcond
      exact hinput (mem_append_right _
        (mem_map.2 ⟨(p.1, type), mem_of_lookup htype, rfl⟩))
    · cases hpu
  · rw [map_map] at hbuffer
    exact hinput (mem_append_left _ hbuffer)

theorem kind_of_inoutInput (ho : o.isStructural = false) {u : TokenRef} (hu : u ∈ o.consumers)
    (haccess : u.access = .inoutInput) : u.key.kind = .buffer := by
  obtain hu | hu | hu := (mem_consumers ho).1 hu
  · unfold ioInputs at hu
    cases hio : o.ioMap with
    | none => rw [hio] at hu; cases hu
    | some io =>
      rw [hio] at hu
      simp only [Option.map_some, Option.getD_some, PortBindings.ioInputs, mem_append,
        mem_map] at hu
      obtain (⟨p, -, rfl⟩ | ⟨p, -, rfl⟩) | ⟨p, -, rfl⟩ := hu
      · cases haccess
      · cases haccess
      · rfl
  · obtain ⟨child, -, hu⟩ := mem_flatMap.1 hu
    obtain ⟨m, -, rfl⟩ := mem_map.1 hu
    cases haccess
  · obtain h | h := controlScalars_access hu <;> rw [h] at haccess <;> cases haccess

theorem initial_of_inout (h : Settled g t ρ context root values)
    (hvalid : validateProducers g ρ root = []) (ho : o ∈ ρ.operations)
    (hstructural : o.isStructural = false) {u : TokenRef} (hu : u ∈ o.consumers)
    (haccess : u.access = .inoutInput) (hproducers : ρ.producers u.key = [o])
    (hk : u.key ∉ o.loopCarriedValues) : ∃ v, values.initialValues.find? u.key = some v := by
  obtain ⟨hdup, hconsumers⟩ := validate_producers hvalid
  obtain ⟨p, hp, hne⟩ | hparameter | hscalar := consumer_cases hconsumers ho hu
  · rw [hproducers, mem_singleton] at hp
    exact absurd (congrArg AuthoredOperation.id hp) hne
  · obtain hinput | hmapping := mem_append.1 hparameter
    · cases root with
      | false => cases hinput
      | true =>
        have hmem : o ∈ ρ.producers u.key := by rw [hproducers]; exact mem_singleton_self o
        exact absurd (carried_of_graphInput hdup hinput hmem) hk
    · obtain ⟨m, hm, hkey⟩ := mem_map.1 hmapping
      obtain ⟨b, hb, hside, hm⟩ := mem_mappings hm
      obtain ⟨link, v, -, hv, -⟩ := h.imports hb hside hm
      exact ⟨v, hkey ▸ hv⟩
  · rw [kind_of_inoutInput hstructural hu haccess] at hscalar
    cases hscalar

/-- When an operation is bound to its own output. -/
theorem self_read_iff (h : Settled g t ρ context root values)
    (hvalid : validateProducers g ρ root = []) (hroot : root = true → context = {})
    (ho : o ∈ ρ.operations) (hstructural : o.isStructural = false) {u : TokenRef}
    (hu : u ∈ o.consumers) {v : ValueId} (hv : valueForUse t ρ root values o u = .ok v) :
    t.producer v = some o.id ↔
      u.access ≠ .inoutInput ∧ u.key ∉ o.loopCarriedValues ∧ ρ.producers u.key = [o] := by
  have hdefined := h.defined
  constructor
  · intro hp
    obtain ⟨-, hseed⟩ | ⟨-, -, hinit⟩ | ⟨hk, hprefers, hfinal | ⟨-, hscalar⟩⟩ :=
      valueForUse_cases hv
    · obtain ⟨p, his, hne⟩ := hdefined.seed_is h.nodup hseed
      exact absurd (his.producer_eq.symm.trans hp) hne
    · rw [(hdefined.initial _ _ hinit).producer_eq] at hp
      cases hp
    · obtain ⟨p, his, hproducer⟩ := hdefined.final_is hfinal
      rw [his.producer_eq, hproducer, Option.map_eq_some_iff] at hp
      obtain ⟨o', ho', hid⟩ := hp
      have hmem := (mem_producers.1 (Defined.finalProducer_mem ho'))
      obtain rfl := eq_of_id h.nodup ho hmem.1 hid
      have hproducers := hdefined.producers_of_final ho' hk
      refine ⟨fun haccess => ?_, hk, hproducers⟩
      -- an inout prefers the initial value, which is there
      obtain ⟨w, hw⟩ := initial_of_inout h hvalid ho hstructural hu haccess hproducers hk
      obtain ⟨x, hx⟩ := hdefined.output_of_mem ho hmem.2
      have hcontains : values.outputValues.contains (outputKey o'.id u.key) = true := by
        rw [OrderedMap.contains, hx]
        rfl
      rw [hprefers (.inl ⟨haccess, hcontains⟩)] at hw
      cases hw
    · rw [(rootScalar_is hdefined.rootInput hscalar).producer_eq] at hp
      cases hp
  · rintro ⟨haccess, hk, hproducers⟩
    have hchosen : ρ.finalProducer u.key = some o := finalProducer_of_singleton hproducers
    obtain ⟨w, hw, his⟩ := hdefined.final_of_producer hchosen
    obtain ⟨hcarried, -⟩ | ⟨-, hprefers, hinit⟩ | ⟨-, -, hfinal | ⟨hnone, -⟩⟩ :=
      valueForUse_cases hv
    · exact absurd hcarried hk
    · obtain ⟨hinout, -⟩ | ⟨htrue, -⟩ := hprefers
      · exact absurd hinout haccess
      · -- at the root only inputs have an initial value
        subst htrue
        have hsome := (hdefined.initial_iff u.key).1 (by rw [hinit]; rfl)
        rw [hroot rfl] at hsome
        obtain hparameter | ⟨-, hinput⟩ := hsome
        · cases hparameter
        · exact absurd hinput (not_rootInput (validate_producers hvalid).1 hproducers hk)
    · rw [hw] at hfinal
      obtain rfl := Option.some.inj hfinal
      exact his.producer_eq
    · rw [hw] at hnone
      cases hnone

theorem mem_finishDependencies {op : ResolvedOperation} {d : ResolvedDependency} :
    d ∈ op.finishDependencies.dependencies ↔ d ∈ op.dependencies := by
  unfold ResolvedOperation.finishDependencies
  rw [mem_dedup, mem_insertionSort]

theorem dependency_of_bound {d : ResolvedDependency}
    (hd : d ∈ (bindOperation t ρ context root values o).dependencies) :
    d ∈ ((resolvedOperation t ρ context root values o).addOrdering g ρ o).dependencies := by
  refine mem_finishDependencies.2 (mem_append_left _ (mem_append_left _ ?_))
  exact mem_finishDependencies.2 (mem_append_right _ hd)

theorem readsDefined_iff {r : ResolvedGraph} (ht : Tables r t)
    (h : Settled g t ρ context root values) (hvalid : validateProducers g ρ root = [])
    (hroot : root = true → context = {}) (ho : o ∈ ρ.operations)
    (hstructural : o.isStructural = false) :
    ReadsDefined r ρ o ((resolvedOperation t ρ context root values o).addOrdering g ρ o) ↔
      ∀ u ∈ o.consumers, u.access ≠ .inoutInput → u.key ∈ o.loopCarriedValues ∨
        (ρ.producers u.key).map AuthoredOperation.id ≠ [o.id] := by
  have hproducer : ∀ v, r.producer v = t.producer v := by
    intro v
    rw [ResolvedGraph.producer, ht.values]
    rfl
  have hid : o.id ∈ ρ.ids := mem_map_of_mem ho
  constructor
  · intro hreads u hu haccess
    by_contra hself
    obtain ⟨hk, hids⟩ := not_or.1 hself
    rw [not_not, producers_ids h.nodup ho] at hids
    obtain ⟨v, hv⟩ := ok_of_consumer hstructural (h.bound o ho) hu
    obtain ⟨b, hb, hread, rfl⟩ := (read_iff hstructural).2 ⟨u, hu, hv⟩
    have hown : r.producer b.value = some o.id := (hproducer _).trans
      ((self_read_iff h hvalid hroot ho hstructural hu hv).2 ⟨haccess, hk, hids⟩)
    exact (hreads b hb hread o.id hown hid).1 rfl
  · intro hcond b hb hread p hp hmem
    obtain ⟨u, hu, hv⟩ := (read_iff hstructural).1 ⟨b, hb, hread, rfl⟩
    rw [hproducer] at hp
    have hne : p ≠ o.id := by
      rintro rfl
      obtain ⟨haccess, hk, hproducers⟩ := (self_read_iff h hvalid hroot ho hstructural hu hv).1 hp
      obtain hcarried | hother := hcond u hu haccess
      · exact hk hcarried
      · exact hother ((producers_ids h.nodup ho).2 hproducers)
    refine ⟨hne, .single ⟨_, (ht.operations ▸ h.operation o ho), ?_⟩⟩
    have hdep : (⟨p, .data, some b.value⟩ : ResolvedDependency) ∈
        t.dependencyOn o.id b.value .data := by
      simp only [ResolutionState.dependencyOn, hp, if_pos hne, mem_singleton]
    exact mem_map.2 ⟨_, dependency_of_bound (dependencyOn_subset hstructural hu hv hdep), rfl⟩

end Reads

/-! ## Imports -/

section Imports

variable {t : ResolutionState} {ρ : AuthoredRegion} {context : RegionContext} {root : Bool}
  {values : RegionValues} {o : AuthoredOperation}

/-- The token a start mapping makes its control consume. -/
def Mapping.consumed (m : Mapping) : TokenRef := ⟨m.source, "boundary." ++ m.port, .input⟩

/-- The start mappings of the arms of a control, each with its arm. -/
def AuthoredOperation.imports (o : AuthoredOperation) : List (AuthoredRegion × Mapping) :=
  o.childRegions.flatMap fun child => (child.mappings .start).map fun m => (child, m)

def usedValue (t : ResolutionState) (ρ : AuthoredRegion) (root : Bool) (values : RegionValues)
    (o : AuthoredOperation) (u : TokenRef) : Option ValueId :=
  (valueForUse t ρ root values o u).toOption

def RegionContext.linked (context : RegionContext) (k : TokenKey) : Option ValueId :=
  (context.parameters.find? k).map ParameterLink.source

theorem controlBoundaryInputs_eq (o : AuthoredOperation) :
    o.controlBoundaryInputs = o.imports.map fun p => p.2.consumed := by
  simp only [controlBoundaryInputs, AuthoredOperation.imports, map_flatMap,
    map_map]
  rfl

variable {child : AuthoredRegion}

theorem AuthoredOperation.mem_imports {m : Mapping} :
    (child, m) ∈ o.imports ↔ child ∈ o.childRegions ∧ m ∈ child.mappings .start := by
  simp [AuthoredOperation.imports]

theorem mem_controlBoundaryInputs {u : TokenRef} :
    u ∈ o.controlBoundaryInputs ↔
      ∃ child ∈ o.childRegions, ∃ m ∈ child.mappings .start, m.consumed = u := by
  rw [controlBoundaryInputs_eq, mem_map]
  constructor
  · rintro ⟨⟨child, m⟩, hp, rfl⟩
    exact ⟨child, (mem_imports.1 hp).1, m, (mem_imports.1 hp).2,
      rfl⟩
  · rintro ⟨child, hchild, m, hm, rfl⟩
    exact ⟨(child, m), mem_imports.2 ⟨hchild, hm⟩, rfl⟩

theorem sources_bindOperation (hstructural : o.isStructural = false)
    (hnone : (bindOperation t ρ context root values o).diagnostics = []) :
    (((bindOperation t ρ context root values o).bindings.filter fun b =>
      b.access = .boundarySource).map fun b => (b.port, some b.value)) =
      o.imports.map fun p => (p.2.consumed.port, usedValue t ρ root values o p.2.consumed) := by
  have hother : ∀ {α : Type} {f : α → Bound} {as : List α},
      (∀ a ∈ as, ∀ b ∈ (f a).bindings, b.access ≠ .boundarySource) →
      (as.flatMap fun a => (f a).bindings).filter (fun b => b.access = .boundarySource) = [] := by
    intro α f as h
    refine filter_eq_nil_iff.2 fun b hb => ?_
    obtain ⟨a, ha, hb⟩ := mem_flatMap.1 hb
    simpa using h a ha b hb
  have himports : (o.controlBoundaryInputs.flatMap fun u =>
      (bindUse t ρ root values o u.port .boundarySource u).bindings).filter
        (fun b => b.access = .boundarySource) =
      o.controlBoundaryInputs.flatMap fun u =>
        (bindUse t ρ root values o u.port .boundarySource u).bindings := by
    refine filter_eq_self.2 fun b hb => ?_
    obtain ⟨u, -, hb⟩ := mem_flatMap.1 hb
    obtain ⟨v, -, rfl⟩ := mem_bindUse.1 hb
    rfl
  rw [bindOperation_eq hstructural]
  simp only [bindDataOperation, bindControlOperation, bindings_append, bindings_each,
    filter_append]
  rw [hother, hother, himports, hother, hother]
  · simp only [nil_append, append_nil]
    rw [map_flatMap, controlBoundaryInputs_eq, flatMap_map, map_eq_flatMap]
    refine flatMap_congr fun p hp => ?_
    have hu : p.2.consumed ∈ o.consumers := (mem_consumers hstructural).2
      (.inr (.inl (controlBoundaryInputs_eq o ▸ mem_map_of_mem hp)))
    obtain ⟨v, hv⟩ := ok_of_consumer hstructural hnone hu
    simp only [bindUse, usedValue, hv]
    rfl
  · intro u hu b hb
    obtain ⟨v, -, rfl⟩ := mem_bindUse.1 hb
    obtain h | h := controlScalars_access hu <;> simp [h]
  · intro u _ b hb
    obtain ⟨v, -, rfl⟩ := mem_bindOutput.1 hb
    simp
  · intro u hu b hb
    obtain ⟨v, -, rfl⟩ := mem_bindOutput.1 hb
    obtain h | h := ioOutputs_access hu <;> simp [h]
  · intro u hu b hb
    obtain ⟨v, -, rfl⟩ := mem_bindUse.1 hb
    obtain h | h := ioInputs_access hu <;> simp [h]

theorem mem_boundaries {side : BoundarySide} {b : AuthoredBoundary}
    (hb : b ∈ ρ.boundaries side) : boundary b ∈ ρ.operations ∧ b.side = side := by
  obtain ⟨o, ho, hob⟩ := mem_filterMap.1 hb
  cases o with
  | boundary b' =>
    simp only at hob
    split at hob
    · rename_i hside
      obtain rfl := Option.some.inj hob
      exact ⟨ho, hside⟩
    · cases hob
  | kernel k => cases hob
  | reprogram r => cases hob
  | loop l body => cases hob
  | conditional c thenRegion elseRegion => cases hob

theorem aliases_boundaries (h : Settled g t ρ context root values) :
    (((ρ.boundaries .start).flatMap fun b => t.aliasesOf b.id).map fun a =>
      ("boundary." ++ a.port, some a.source)) =
      (ρ.mappings .start).map fun m => (m.consumed.port, context.linked m.target.key) := by
  rw [mappings, map_flatMap, map_flatMap]
  refine flatMap_congr fun b hb => ?_
  obtain ⟨hmem, hside⟩ := mem_boundaries hb
  have hbind : bindOperation t ρ context root values (.boundary b) =
      Bound.each (bindBoundaryParameter ρ context values (.boundary b) b) b.mappings := by
    simp only [bindOperation, bindBoundary, hside]
  rw [show t.aliasesOf b.id = _ from h.aliases _ hmem, hbind, aliases_each, map_flatMap,
    map_eq_flatMap]
  refine flatMap_congr fun m hm => ?_
  obtain ⟨link, v, hlink, -, haliases⟩ := h.imports hmem hside hm
  rw [haliases, RegionContext.linked, hlink]
  rfl

theorem linked_foldl (parameters : OrderedMap TokenKey ParameterLink) (ms : List Mapping)
    (hok : ∀ m ∈ ms, ∃ v, parentValue t ρ values o m.consumed = .ok v) {m : Mapping}
    (hm : m ∈ ms) :
    ∃ m' ∈ ms, m'.target.key = m.target.key ∧
      ((ms.foldl (addParameter t ρ values o) parameters).find? m.target.key).map
        ParameterLink.source = (parentValue t ρ values o m'.consumed).toOption := by
  induction ms using List.reverseRecOn with
  | nil => cases hm
  | append_singleton ms last ih =>
    obtain ⟨v, hv⟩ := hok last (mem_append_right _ (mem_singleton_self last))
    have hstep : (ms ++ [last]).foldl (addParameter t ρ values o) parameters =
        (ms.foldl (addParameter t ρ values o) parameters).insert last.target.key
          ⟨v, ⟨last.target, "boundary." ++ last.port, .boundaryTarget⟩⟩ := by
      rw [foldl_append, foldl_cons, foldl_nil, addParameter,
        show parentValue t ρ values o ⟨last.source, "boundary." ++ last.port, .input⟩ = _ from hv]
    rw [hstep]
    by_cases hlast : last.target.key = m.target.key
    · refine ⟨last, mem_append_right _ (mem_singleton_self last), hlast, ?_⟩
      rw [hlast, OrderedMap.find?_insert_self, hv]
      rfl
    · obtain hm | hm := mem_append.1 hm
      · obtain ⟨m', hm', hkey, hfind⟩ := ih (fun m hm => hok m (mem_append_left _ hm)) hm
        refine ⟨m', mem_append_left _ hm', hkey, ?_⟩
        rw [OrderedMap.find?_insert_ne _ _ (Ne.symm hlast)]
        exact hfind
      · exact absurd (mem_singleton.1 hm ▸ rfl) hlast

theorem parentValue_toOption (u : TokenRef) :
    (parentValue t ρ values o u).toOption =
      ((if u.key ∈ o.loopCarriedValues then
          values.controlInitialValues.find? (outputKey o.id u.key)
        else none) <|> values.finalValues.find? u.key <|> t.rootScalar u.key) := by
  unfold parentValue
  simp only
  split
  · rename_i v hv
    exact hv.symm
  · rename_i hnone
    exact hnone.symm

theorem used_eq_parent (h : Settled g t ρ context root values) (hroot : root = true → context = {})
    {u : TokenRef} (haccess : u.access = .input) {v w : ValueId}
    (hv : valueForUse t ρ root values o u = .ok v)
    (hw : (parentValue t ρ values o u).toOption = some w) :
    v = w ↔ (root = true → ρ.info.declaresInput u.key = true →
      u.key ∈ ρ.rootInputs.map TokenRef.key →
        u.key ∈ o.loopCarriedValues ∨ ρ.producers u.key = []) := by
  have hdefined := h.defined
  rw [parentValue_toOption] at hw
  obtain ⟨hcarried, hseed⟩ | ⟨hcarried, hprefers, hinit⟩ | ⟨hcarried, hprefers, hfinal⟩ :=
    valueForUse_cases hv
  · rw [if_pos hcarried, hseed] at hw
    exact ⟨fun _ _ _ _ => .inl hcarried, fun _ => Option.some.inj hw⟩
  · -- `valueForUse` takes the root's input, `parentValue` the final value
    obtain ⟨hinout, -⟩ | ⟨htrue, hdeclared⟩ := hprefers
    · rw [haccess] at hinout
      cases hinout
    subst htrue
    have hinput : u.key ∈ ρ.rootInputs.map TokenRef.key := by
      have hsome := (hdefined.initial_iff u.key).1 (by rw [hinit]; rfl)
      rw [hroot rfl] at hsome
      obtain hparameter | ⟨-, hinput⟩ := hsome
      · cases hparameter
      · exact hinput
    rw [if_neg hcarried] at hw
    cases hchosen : ρ.finalProducer u.key with
    | none =>
      have hnone : ρ.producers u.key = [] := by
        by_contra hne
        obtain ⟨o', ho'⟩ := Defined.finalProducer_isSome hne
        rw [ho'] at hchosen
        cases hchosen
      rw [hdefined.final_of_none hchosen, hinit] at hw
      exact ⟨fun _ _ _ _ => .inr hnone, fun _ => Option.some.inj hw⟩
    | some o' =>
      obtain ⟨x, hx, his⟩ := hdefined.final_of_producer hchosen
      rw [hx] at hw
      obtain rfl : x = w := Option.some.inj hw
      constructor
      · rintro rfl
        have hproducer := ((hdefined.initial _ _ hinit).unique his).1
        cases hproducer
      · intro hcond
        obtain hmem | hnone := hcond rfl hdeclared hinput
        · exact absurd hmem hcarried
        · have hmem := Defined.finalProducer_mem hchosen
          rw [hnone] at hmem
          cases hmem
  · rw [if_neg hcarried] at hw
    have heq : v = w := by
      obtain hfinal | ⟨hnone, hscalar⟩ := hfinal
      · rw [hfinal] at hw
        exact Option.some.inj hw
      · rw [hnone, hscalar] at hw
        exact Option.some.inj hw
    refine ⟨fun _ htrue hdeclared hinput => ?_, fun _ => heq⟩
    -- an input has an initial value, which would have been taken
    have hsome := (hdefined.initial_iff u.key).2 (.inr ⟨htrue, hinput⟩)
    rw [hprefers (.inr ⟨htrue, hdeclared⟩)] at hsome
    cases hsome

theorem some_of_parameterErrors (h : parameterErrors t ρ values o child = []) {m : Mapping}
    (hm : m ∈ child.mappings .start) :
    ∃ v, parentValue t ρ values o m.consumed = .ok v := by
  have hnone := flatMap_eq_nil_iff.1 h m hm
  split at hnone
  · rename_i v hv
    exact ⟨v, hv⟩
  · cases hnone

/-- The two lookups agree on every import of an arm exactly when its mappings have one source for
each target and none of them imports a re-emitted input. -/
theorem linked_iff (h : Settled g t ρ context root values) (hroot : root = true → context = {})
    (hparameters : parameterErrors t ρ values o child = []) (hused : ∀ m ∈ child.mappings .start,
      ∃ v, valueForUse t ρ root values o m.consumed = .ok v) :
    (∀ m ∈ child.mappings .start, usedValue t ρ root values o m.consumed =
      (makeChildContext t ρ values o child).linked m.target.key) ↔
    (∀ m ∈ child.mappings .start, ∀ m' ∈ child.mappings .start,
      m.target.key = m'.target.key → m.source.key = m'.source.key) ∧
    ∀ m ∈ child.mappings .start, root = true → ρ.info.declaresInput m.source.key = true →
      m.source.key ∈ ρ.rootInputs.map TokenRef.key →
        m.source.key ∈ o.loopCarriedValues ∨ ρ.producers m.source.key = [] := by
  have hlink : ∀ m ∈ child.mappings .start, ∃ m' ∈ child.mappings .start,
      m'.target.key = m.target.key ∧ (makeChildContext t ρ values o child).linked m.target.key =
        (parentValue t ρ values o m'.consumed).toOption := fun m hm =>
    linked_foldl .empty _ (fun m hm => some_of_parameterErrors hparameters hm) hm
  -- the parent value of a mapping depends only on its source
  have hparent : ∀ m m' : Mapping, m.source.key = m'.source.key →
      (parentValue t ρ values o m.consumed).toOption =
        (parentValue t ρ values o m'.consumed).toOption := by
    intro m m' hkey
    rw [parentValue_toOption, parentValue_toOption,
      show m.consumed.key = m'.consumed.key from hkey]
  have hagree : ∀ m ∈ child.mappings .start,
      (usedValue t ρ root values o m.consumed = (parentValue t ρ values o m.consumed).toOption ↔
        (root = true → ρ.info.declaresInput m.source.key = true →
          m.source.key ∈ ρ.rootInputs.map TokenRef.key →
            m.source.key ∈ o.loopCarriedValues ∨ ρ.producers m.source.key = [])) := by
    intro m hm
    obtain ⟨v, hv⟩ := hused m hm
    obtain ⟨w, hw⟩ := some_of_parameterErrors hparameters hm
    have hiff := used_eq_parent h hroot (u := m.consumed) rfl hv (by rw [hw]; rfl)
    rw [usedValue, hv, hw]
    exact Option.some_inj.trans hiff
  constructor
  · intro hall
    have hsource : ∀ m ∈ child.mappings .start, ∀ m' ∈ child.mappings .start,
        m.target.key = m'.target.key → m.source.key = m'.source.key := by
      intro m hm m' hm' htarget
      obtain ⟨v, hv⟩ := hused m hm
      obtain ⟨v', hv'⟩ := hused m' hm'
      have hsame : usedValue t ρ root values o m.consumed =
          usedValue t ρ root values o m'.consumed := by
        rw [hall m hm, hall m' hm', htarget]
      rw [usedValue, usedValue, hv, hv'] at hsame
      obtain rfl : v = v' := Option.some.inj hsame
      obtain ⟨p, his⟩ := valueForUse_is h.defined h.nodup hv
      obtain ⟨p', his'⟩ := valueForUse_is h.defined h.nodup hv'
      exact (his.unique his').2
    refine ⟨hsource, fun m hm => (hagree m hm).1 ?_⟩
    obtain ⟨m', hm', htarget, hlinked⟩ := hlink m hm
    rw [hall m hm, hlinked]
    exact hparent m' m (hsource m' hm' m hm htarget)
  · rintro ⟨hsource, hinputs⟩ m hm
    obtain ⟨m', hm', htarget, hlinked⟩ := hlink m hm
    rw [hlinked, (hagree m hm).2 (hinputs m hm)]
    exact hparent m m' (hsource m' hm' m hm htarget).symm

theorem importsAligned_iff {r : ResolvedGraph} (ht : Tables r t)
    (h : Resolved g t ρ context root values) (hroot : root = true → context = {})
    (ho : o ∈ ρ.operations) (hstructural : o.isStructural = false) :
    ImportsAligned r o ((resolvedOperation t ρ context root values o).addOrdering g ρ o) ↔
      (∀ child ∈ o.childRegions, ∀ m ∈ child.mappings .start, ∀ m' ∈ child.mappings .start,
        m.target.key = m'.target.key → m.source.key = m'.source.key) ∧
      ∀ u ∈ o.controlBoundaryInputs, root = true → ρ.info.declaresInput u.key = true →
        u.key ∈ ρ.rootInputs.map TokenRef.key →
          u.key ∈ o.loopCarriedValues ∨ ρ.producers u.key = [] := by
  cases h with
  | mk below settled imports merged arms =>
  have hchild : ∀ child ∈ o.childRegions, parameterErrors t ρ values o child = [] ∧
      ∃ values', Settled g t child (makeChildContext t ρ values o child) false values' := by
    intro child hmem
    obtain ⟨arm, harm, rfl⟩ := mem_map.1 hmem
    have hc : (o, arm) ∈ ρ.children := mem_children.2 ⟨ho, harm⟩
    exact ⟨imports _ hc, _, (arms _ hc).settled⟩
  have hsources := sources_bindOperation hstructural (settled.bound o ho)
  have haliases : (((o.childRegions.flatMap fun child => child.boundaries .start).flatMap fun b =>
      r.aliasesOf b.id).map fun a => ("boundary." ++ a.port, some a.source)) =
      o.imports.map fun p => (p.2.consumed.port,
        (makeChildContext t ρ values o p.1).linked p.2.target.key) := by
    rw [show (fun b : AuthoredBoundary => r.aliasesOf b.id) = fun b => t.aliasesOf b.id from
      funext fun b => by rw [ResolvedGraph.aliasesOf, ht.aliases]; rfl]
    rw [flatMap_assoc, map_flatMap, AuthoredOperation.imports, map_flatMap]
    refine flatMap_congr fun child hmem => ?_
    obtain ⟨-, values', hsettled⟩ := hchild child hmem
    rw [aliases_boundaries hsettled, map_map]
    rfl
  have hinjective : Function.Injective (Prod.map (id : String → String) (some : ValueId → _)) :=
    Function.injective_id.prodMap (Option.some_injective _)
  unfold ImportsAligned
  rw [← (map_injective_iff.2 hinjective).eq_iff, map_map, map_map]
  refine (show _ ↔ _ from Iff.of_eq (congrArg₂ Eq hsources haliases)).trans ?_
  rw [map_inj_left]
  have hlinked := fun child (hmem : child ∈ o.childRegions) =>
    linked_iff settled hroot (hchild child hmem).1 fun m hm =>
      ok_of_consumer hstructural (settled.bound o ho) ((mem_consumers
        hstructural).2 (.inr (.inl (mem_controlBoundaryInputs.2 ⟨child, hmem, m, hm, rfl⟩))))
  constructor
  · intro hall
    have hboth := fun child (hmem : child ∈ o.childRegions) => (hlinked child hmem).1 fun m hm =>
      (Prod.mk.inj (hall (child, m) (mem_imports.2 ⟨hmem, hm⟩))).2
    refine ⟨fun child hmem => (hboth child hmem).1, fun u hu => ?_⟩
    obtain ⟨child, hmem, m, hm, rfl⟩ := mem_controlBoundaryInputs.1 hu
    exact (hboth child hmem).2 m hm
  · rintro ⟨hsource, hinputs⟩ ⟨child, m⟩ hp
    obtain ⟨hmem, hm⟩ := mem_imports.1 hp
    refine Prod.ext rfl ((hlinked child hmem).2 ⟨hsource child hmem, fun m hm => ?_⟩ m hm)
    exact hinputs m.consumed (mem_controlBoundaryInputs.2 ⟨child, hmem, m, hm, rfl⟩)

end Imports

/-! ## Accepted graphs -/

theorem before_use_iff {r : ResolvedGraph} (h : resolveGraph g = .ok r) {ρ : AuthoredRegion}
    {root : Bool} (hρ : g.RegionAt ρ root) {o : AuthoredOperation} (ho : o ∈ ρ.operations)
    (hstructural : o.isStructural = false) :
    (∃ op, r.operations.find? o.id = some op ∧ ReadsDefined r ρ o op ∧ ImportsAligned r o op) ↔
      (∀ u ∈ o.consumers, u.access ≠ .inoutInput → u.key ∈ o.loopCarriedValues ∨
        (ρ.producers u.key).map AuthoredOperation.id ≠ [o.id]) ∧
      (∀ child ∈ o.childRegions, ∀ m ∈ child.mappings .start, ∀ m' ∈ child.mappings .start,
        m.target.key = m'.target.key → m.source.key = m'.source.key) ∧
      ∀ u ∈ o.controlBoundaryInputs, root = true → ρ.info.declaresInput u.key = true →
        u.key ∈ ρ.rootInputs.map TokenRef.key →
          u.key ∈ o.loopCarriedValues ∨ ρ.producers u.key = [] := by
  obtain ⟨hvalid, t, values, ht, hresolved⟩ := resolveGraph_resolved h
  obtain ⟨context, values, hat, hroot⟩ := hresolved.at hρ
  have hfind := hat.settled.operation o ho
  rw [← ht.operations] at hfind
  rw [← readsDefined_iff ht hat.settled (validate_region hvalid hρ).2 hroot ho hstructural,
    ← importsAligned_iff ht hat hroot ho hstructural, hfind]
  simp

/-- In an accepted graph definitions come before their uses exactly when no operation reads its
own output, no parameter has two sources, and no control imports a re-emitted input. -/
theorem definition_before_use_iff (g : AuthoredGraph) (r : ResolvedGraph)
    (h : resolveGraph g = .ok r) :
    DefinitionBeforeUse g r ↔ NoSelfRead g ∧ OneSource g ∧ NoReemittedImport g := by
  constructor
  · intro hall
    refine ⟨?_, ?_, ?_⟩
    · intro ρ hρ o ho hstructural
      obtain ⟨root, hat⟩ := g.regionAt_of_mem hρ
      exact ((before_use_iff h hat ho hstructural).1 (hall ρ hρ o ho hstructural)).1
    · intro ρ hρ o ho child hchild
      obtain ⟨arm, harm, rfl⟩ := mem_map.1 hchild
      obtain ⟨root, hat⟩ := g.regionAt_of_mem hρ
      have hstructural := isStructural_of_isControl
        (isControl_of_arm harm)
      exact ((before_use_iff h hat ho hstructural).1 (hall ρ hρ o ho hstructural)).2.1 _ hchild
    · intro o ho u hu hdeclared hinput
      obtain ⟨child, hchild, -⟩ := mem_controlBoundaryInputs.1 hu
      obtain ⟨arm, harm, rfl⟩ := mem_map.1 hchild
      have hstructural := isStructural_of_isControl
        (isControl_of_arm harm)
      exact ((before_use_iff h .root ho hstructural).1
        (hall g.root g.root_mem o ho hstructural)).2.2 u hu rfl hdeclared hinput
  · rintro ⟨hself, hsource, hinputs⟩ ρ hρ o ho hstructural
    obtain ⟨root, hat⟩ := g.regionAt_of_mem hρ
    refine (before_use_iff h hat ho hstructural).2
      ⟨hself ρ hρ o ho hstructural, hsource ρ hρ o ho, ?_⟩
    intro u hu htrue hdeclared hinput
    cases hat with
    | root => exact hinputs o ho u hu hdeclared hinput
    | below hmem => cases htrue

/-! ## Two loops, and a counter -/

/-- A loop over `n` rounds: import `source`, run a kernel on it, export its output to `target`. -/
def sweep (first scope : Nat) (source target : String) : AuthoredOperation :=
  let size : GraphScalar := ⟨.u64, "n", 0, 1⟩
  let buffer (scope : AuthoredScopeId) (name : String) : GraphBuffer :=
    ⟨.i32, name, scope, some size, 1⟩
  .loop ⟨first, "loop", {}, {}, some size, none, [], []⟩ <|
    .mk { id := scope, sourceGraph := 1, sourceScope := scope, sourceParentScope := 0 }
      [.boundary ⟨first + 1, "start", .start, 0, scope, [], [⟨buffer 0 source, buffer scope "x"⟩],
          []⟩,
        .kernel ⟨first + 2, "kernel",
          ⟨"blur", .cpu, none, { inputs := [("in", .i32)], outputs := [("out", .i32)] }⟩, "cpu0",
          { inputs := [("in", buffer scope "x")], outputs := [("out", buffer scope "y")] }, []⟩,
        .boundary ⟨first + 3, "end", .finish, 0, scope, [], [⟨buffer scope "y", buffer 0 target⟩],
          []⟩]

/-- Two loops: one from `a` to `target`, one from `source` to `c`. -/
def sweepGraph (target source : String) : AuthoredGraph where
  root := .mk
    { id := 0, sourceGraph := 1, sourceScope := 0, sourceParentScope := 0
      declaredInputBuffers := [("a", ⟨.i32, "a", 0, some ⟨.u64, "n", 0, 1⟩, 1⟩)]
      declaredOutputBuffers := [("c", ⟨.i32, "c", 0, some ⟨.u64, "n", 0, 1⟩, 1⟩)]
      declaredScalars := [("n", .u64)], declaredInputScalars := [("n", .u64)] }
    [sweep 0 1 "a" target, sweep 4 2 source "c"]
  nodup := (by decide : ([0, 4, 1, 2, 3, 5, 6, 7] : List NodeId).Nodup)

theorem definition_before_use_sweepGraph :
    ∃ r, resolveGraph (sweepGraph "b" "b") = .ok r ∧ DefinitionBeforeUse (sweepGraph "b" "b") r := by
  obtain ⟨r, hr⟩ := resolveGraph_isOk (g := sweepGraph "b" "b") (by decide +kernel)
  refine ⟨r, hr, (definition_before_use_iff _ r hr).2 ⟨?_, ?_, ?_⟩⟩
  · unfold NoSelfRead
    decide +kernel
  · unfold OneSource
    decide +kernel
  · have hproduced : ∀ o ∈ (sweepGraph "b" "b").root.operations, ∀ u ∈ o.controlBoundaryInputs,
        u.key ∈ (sweepGraph "b" "b").root.rootInputs.map TokenRef.key →
          ((sweepGraph "b" "b").root.producers u.key).isEmpty = true := by
      decide +kernel
    intro o ho u hu _ hinput
    exact .inr (isEmpty_iff.1 (hproduced o ho u hu hinput))

/-- A kernel that reads and writes the root scalar `s`. -/
def counterGraph : AuthoredGraph where
  root := .mk
    { id := 0, sourceGraph := 1, sourceScope := 0, sourceParentScope := 0
      declaredScalars := [("s", .u64)] }
    [.kernel ⟨0, "kernel",
      ⟨"next", .cpu, none, { inputScalars := [("in", .u64)], outputScalars := [("out", .u64)] }⟩,
      "cpu0",
      { inputScalars := [("in", ⟨.u64, "s", 0, 1⟩)], outputScalars := [("out", ⟨.u64, "s", 0, 1⟩)] },
      []⟩]
  nodup := by decide

/-- Two accepted graphs without definition before use: a kernel bound to its own output, and a
loop whose body reads the result of another loop while it waits for nothing. -/
theorem definition_before_use_fails :
    (∃ r, resolveGraph counterGraph = .ok r ∧ ¬ DefinitionBeforeUse counterGraph r) ∧
    ∃ r, resolveGraph (sweepGraph "a" "a") = .ok r ∧
      ¬ DefinitionBeforeUse (sweepGraph "a" "a") r := by
  constructor
  · obtain ⟨r, hr⟩ := resolveGraph_isOk (g := counterGraph) (by decide +kernel)
    refine ⟨r, hr, fun hall => ?_⟩
    have hself := ((before_use_iff hr .root (mem_singleton_self _) rfl).1
      (hall _ counterGraph.root_mem _ (mem_singleton_self _) rfl)).1
      ⟨.scalar ⟨.u64, "s", 0, 1⟩, "scalar.in", .input⟩ (mem_singleton_self _)
    exact absurd hself (by decide +kernel)
  · obtain ⟨r, hr⟩ := resolveGraph_isOk (g := sweepGraph "a" "a") (by decide +kernel)
    refine ⟨r, hr, fun hall => ?_⟩
    have hmem : sweep 4 2 "a" "c" ∈ (sweepGraph "a" "a").root.operations :=
      mem_cons_of_mem _ (mem_singleton_self _)
    have himport := ((before_use_iff hr .root hmem rfl).1
      (hall _ (sweepGraph "a" "a").root_mem _ hmem rfl)).2.2
      ⟨.buffer ⟨.i32, "a", 0, some ⟨.u64, "n", 0, 1⟩, 1⟩, "boundary.buffer.0", .input⟩
      (mem_singleton_self _) rfl (by decide +kernel) (by decide +kernel)
    obtain hcarried | hnone := himport
    · exact absurd hcarried (by decide +kernel)
    · exact absurd (congrArg List.length hnone) (by decide +kernel)

end Slash.Pass
