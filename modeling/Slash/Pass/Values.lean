import Slash.Pass.Frames

/-!
# The values of a region

What `defineRegionValues` guarantees about the tables it returns. Every entry points at a value
that the value table knows by the same producer and the same key (`Defined`), the tables have an
entry exactly for the parameters, the root inputs and the outputs of the region, and the final
value and the seed of a key are what `finalProducer` and `seed` choose. Nothing later in the pass
looks at the tables in any other way.
-/

namespace Slash.Pass

open List Defining
open Lib (OrderedMap)

@[simp] theorem outputKey_inj {n n' : NodeId} {k k' : TokenKey} :
    outputKey n k = outputKey n' k' ↔ n = n' ∧ k = k' := by
  simp [outputKey]

/-- Every key of the link table is the key of the link's target. -/
def RegionContext.Keyed (context : RegionContext) : Prop :=
  ∀ p ∈ context.parameters.entries, p.2.target.key = p.1

/-- The root inputs are graph inputs under their keys. -/
def ResolutionState.RootSound (s : ResolutionState) : Prop :=
  ∀ k v, s.rootInputValues.find? k = some v → s.Is v none k

theorem Later.rootSound {s t : ResolutionState} (h : Later s t) (hs : s.RootSound) :
    t.RootSound := by
  intro k v hv
  rw [h.rootInputValues] at hv
  exact h.is (hs k v hv)

/-! ## The creating loops -/

namespace Defining

/-- Every entry of the tables points at a value with its producer and its key. -/
structure Sound (d : Defining) : Prop where
  initial : ∀ k v, d.initialValues.find? k = some v → d.state.Is v none k
  output : ∀ n k v, d.outputValues.find? (outputKey n k) = some v → d.state.Is v (some n) k
  rootInput : d.state.RootSound

variable {region : RegionId} {d : Defining}

theorem Sound.parameter (h : d.Sound) {p : TokenKey × ParameterLink} (hp : p.2.target.key = p.1) :
    (d.parameter region p).Sound := by
  have later := (frame_createValue [] [] d.state p.2.target region .regionParameter).toLater
  refine ⟨?_, fun n k v hv => later.is (h.output n k v hv), later.rootSound h.rootInput⟩
  intro k v hv
  obtain rfl | hk := eq_or_ne k p.1
  · obtain rfl : d.state.values.length = v := by simpa [Defining.parameter] using hv
    exact hp ▸ createValue_is d.state p.2.target region .regionParameter
  · rw [Defining.parameter, OrderedMap.find?_insert_ne _ _ hk] at hv
    exact later.is (h.initial k v hv)

theorem Sound.rootInput' (h : d.Sound) (t : TokenRef) : (d.rootInput region t).Sound := by
  have later := (frame_createValue [] [] d.state t region .graphInput).toLater
  have hnew : (d.rootInput region t).state.Is d.state.values.length none t.key :=
    createValue_is d.state t region .graphInput
  refine ⟨?_, fun n k v hv => later.is (h.output n k v hv), ?_⟩
  · intro k v hv
    obtain rfl | hk := eq_or_ne k t.key
    · obtain rfl : d.state.values.length = v := by simpa [Defining.rootInput] using hv
      exact hnew
    · rw [Defining.rootInput, OrderedMap.find?_insert_ne _ _ hk] at hv
      exact later.is (h.initial k v hv)
  · intro k v hv
    obtain rfl | hk := eq_or_ne k t.key
    · obtain rfl : d.state.values.length = v := by simpa [Defining.rootInput] using hv
      exact hnew
    · rw [Defining.rootInput, OrderedMap.find?_insert_ne _ _ hk] at hv
      exact later.is (h.rootInput k v hv)

theorem Sound.output' (h : d.Sound) (p : AuthoredOperation × TokenRef) :
    (d.output region p).Sound := by
  have later := (frame_createValue [] [] d.state p.2 region
    (if p.1.isControl then .controlResult p.1.id else .operationOutput p.1.id)).toLater
  refine ⟨fun k v hv => later.is (h.initial k v hv), ?_, later.rootSound h.rootInput⟩
  intro n k v hv
  by_cases hk : outputKey n k = outputKey p.1.id p.2.key
  · obtain ⟨rfl, rfl⟩ := outputKey_inj.1 hk
    obtain rfl : d.state.values.length = v := by simpa [Defining.output] using hv
    have hnew := createValue_is d.state p.2 region
      (if p.1.isControl then .controlResult p.1.id else .operationOutput p.1.id)
    have hproducer : (p.2.origin region
        (if p.1.isControl then .controlResult p.1.id else .operationOutput p.1.id)).producer =
          some p.1.id := by
      split <;> rfl
    exact hproducer ▸ hnew
  · rw [Defining.output, OrderedMap.find?_insert_ne _ _ hk] at hv
    exact later.is (h.output n k v hv)

theorem Sound.foldl {α : Type} (f : Defining → α → Defining) (as : List α) (h : d.Sound)
    (hf : ∀ d : Defining, d.Sound → ∀ a ∈ as, (f d a).Sound) : (as.foldl f d).Sound := by
  induction as generalizing d with
  | nil => exact h
  | cons a as ih =>
    exact ih (hf d h a mem_cons_self)
      fun d hd a ha => hf d hd a (mem_cons_of_mem _ ha)

theorem isSome_foldl_parameter (ps : List (TokenKey × ParameterLink)) (d : Defining)
    (k : TokenKey) :
    ((ps.foldl (Defining.parameter region) d).initialValues.find? k).isSome ↔
      (d.initialValues.find? k).isSome ∨ k ∈ ps.map Prod.fst := by
  induction ps generalizing d with
  | nil => simp
  | cons p ps ih =>
    rw [foldl_cons, ih, Defining.parameter, OrderedMap.find?_insert, map_cons,
      mem_cons]
    by_cases hk : k = p.1 <;> simp [hk]

theorem isSome_foldl_rootInput (ts : List TokenRef) (d : Defining) (k : TokenKey) :
    ((ts.foldl (Defining.rootInput region) d).initialValues.find? k).isSome ↔
      (d.initialValues.find? k).isSome ∨ k ∈ ts.map TokenRef.key := by
  induction ts generalizing d with
  | nil => simp
  | cons t ts ih =>
    rw [foldl_cons, ih, Defining.rootInput, OrderedMap.find?_insert, map_cons,
      mem_cons]
    by_cases hk : k = t.key <;> simp [hk]

theorem isSome_foldl_output (ps : List (AuthoredOperation × TokenRef)) (d : Defining) (n : NodeId)
    (k : TokenKey) :
    ((ps.foldl (Defining.output region) d).outputValues.find? (outputKey n k)).isSome ↔
      (d.outputValues.find? (outputKey n k)).isSome ∨ ∃ p ∈ ps, p.1.id = n ∧ p.2.key = k := by
  induction ps generalizing d with
  | nil => simp
  | cons p ps ih =>
    rw [foldl_cons, ih, Defining.output, OrderedMap.find?_insert]
    simp only [mem_cons, or_and_right, exists_or, exists_eq_left]
    by_cases hk : outputKey n k = outputKey p.1.id p.2.key
    · obtain ⟨rfl, rfl⟩ := outputKey_inj.1 hk
      simp
    · have hne : ¬(p.1.id = n ∧ p.2.key = k) := fun h => hk (outputKey_inj.2 ⟨h.1.symm, h.2.symm⟩)
      simp [hk, hne]

theorem outputValues_foldl_parameter (ps : List (TokenKey × ParameterLink)) (d : Defining) :
    (ps.foldl (Defining.parameter region) d).outputValues = d.outputValues := by
  induction ps generalizing d with
  | nil => rfl
  | cons p ps ih => rw [foldl_cons, ih]; rfl

theorem outputValues_foldl_rootInput (ts : List TokenRef) (d : Defining) :
    (ts.foldl (Defining.rootInput region) d).outputValues = d.outputValues := by
  induction ts generalizing d with
  | nil => rfl
  | cons t ts ih => rw [foldl_cons, ih]; rfl

theorem initialValues_foldl_output (ps : List (AuthoredOperation × TokenRef)) (d : Defining) :
    (ps.foldl (Defining.output region) d).initialValues = d.initialValues := by
  induction ps generalizing d with
  | nil => rfl
  | cons p ps ih => rw [foldl_cons, ih]; rfl

end Defining

variable {ρ : AuthoredRegion} {context : RegionContext} {s : ResolutionState}

theorem createValues_sound {root : Bool} (hc : context.Keyed) (hs : s.RootSound) :
    (createValues ρ context root s).Sound := by
  have h₀ : Defining.Sound { state := s } :=
    ⟨fun k v hv => by simp at hv, fun n k v hv => by simp at hv, hs⟩
  have h₁ := h₀.foldl (Defining.parameter ρ.info.id) context.parameters.entries
    fun d hd p hp => hd.parameter (hc p hp)
  have h₂ := h₁.foldl (Defining.rootInput ρ.info.id) ρ.rootInputs fun d hd t _ => hd.rootInput' t
  unfold createValues
  cases root with
  | false => exact h₁.foldl _ _ fun d hd p _ => hd.output' p
  | true => exact h₂.foldl _ _ fun d hd p _ => hd.output' p

theorem createValues_initial {root : Bool} (k : TokenKey) :
    ((createValues ρ context root s).initialValues.find? k).isSome ↔
      (context.parameters.find? k).isSome ∨ root = true ∧ k ∈ ρ.rootInputs.map TokenRef.key := by
  have hkeys : k ∈ context.parameters.entries.map Prod.fst ↔ (context.parameters.find? k).isSome :=
    context.parameters.mem_keys
  unfold createValues
  cases root with
  | false => simp [initialValues_foldl_output, isSome_foldl_parameter, hkeys]
  | true =>
    simp only [if_true, initialValues_foldl_output, isSome_foldl_rootInput,
      isSome_foldl_parameter, hkeys]
    simp

theorem createValues_output {root : Bool} (n : NodeId) (k : TokenKey) :
    ((createValues ρ context root s).outputValues.find? (outputKey n k)).isSome ↔
      ∃ o ∈ ρ.operations, o.id = n ∧ k ∈ o.producedValues.map TokenRef.key := by
  have hout : (∃ p ∈ ρ.outputs, p.1.id = n ∧ p.2.key = k) ↔
      ∃ o ∈ ρ.operations, o.id = n ∧ k ∈ o.producedValues.map TokenRef.key := by
    constructor
    · rintro ⟨p, hp, rfl, rfl⟩
      obtain ⟨o, ho, hp⟩ := List.mem_flatMap.1 hp
      obtain ⟨t, ht, rfl⟩ := mem_map.1 hp
      exact ⟨o, ho, rfl, mem_map_of_mem ht⟩
    · rintro ⟨o, ho, rfl, hk⟩
      obtain ⟨t, ht, rfl⟩ := mem_map.1 hk
      exact ⟨(o, t), List.mem_flatMap.2 ⟨o, ho, mem_map_of_mem ht⟩, rfl, rfl⟩
  unfold createValues
  cases root with
  | false => simp [isSome_foldl_output, outputValues_foldl_parameter, hout]
  | true =>
    simp [isSome_foldl_output, outputValues_foldl_rootInput,
      outputValues_foldl_parameter, hout]

theorem frame_createValues (N M : List NodeId) (ρ : AuthoredRegion) (context : RegionContext)
    (s : ResolutionState) : Frame N M s (createValues ρ context false s).state := by
  have hfold : ∀ {α : Type} {f : Defining → α → Defining} (as : List α) (d : Defining),
      (∀ d a, Frame N M d.state (f d a).state) → Frame N M d.state (as.foldl f d).state := by
    intro α f as
    induction as with
    | nil => intro d _; exact Frame.refl N M d.state
    | cons a as ih => intro d hf; exact (hf d a).trans (ih (f d a) hf)
  refine (hfold context.parameters.entries { state := s } ?_).trans
    (hfold ρ.outputs _ ?_)
  · intro d p
    exact frame_createValue N M d.state p.2.target ρ.info.id .regionParameter
  · intro d p
    exact frame_createValue N M d.state p.2 ρ.info.id _

/-! ## Final values and seeds -/

variable {k : TokenKey}

theorem AuthoredOperation.mem_producedValues {o : AuthoredOperation} :
    k ∈ o.producedValues.map TokenRef.key ↔
      k ∈ o.ioOutputs.map TokenRef.key ∨ k ∈ o.controlBoundaryOutputs.map TokenRef.key := by
  rw [← mem_append, ← map_append]
  constructor
  · intro hk
    obtain ⟨t, ht, rfl⟩ := mem_map.1 hk
    exact mem_map_of_mem (mem_of_find?_eq_some (OrderedMap.mem_values_emplaceAll.1 ht))
  · intro hk
    rw [← OrderedMap.mem_keys_emplaceAll, OrderedMap.mem_keys, OrderedMap.find?_emplaceAll] at hk
    obtain ⟨t, ht⟩ := Option.isSome_iff_exists.1 hk
    obtain rfl : t.key = k := by simpa using List.find?_some ht
    exact mem_map_of_mem (OrderedMap.mem_values_emplaceAll.2 ht)

theorem AuthoredRegion.mem_producers {o : AuthoredOperation} :
    o ∈ ρ.producers k ↔ o ∈ ρ.operations ∧ k ∈ o.producedValues.map TokenRef.key := by
  simp [AuthoredRegion.producers]

theorem AuthoredRegion.mem_producedKeys :
    k ∈ ρ.producedKeys ↔ ρ.producers k ≠ [] := by
  rw [AuthoredRegion.producedKeys, OrderedMap.mem_keys_emplaceAll, List.map_id, List.mem_flatMap,
    ne_eq, ← List.isEmpty_iff, Bool.not_eq_true, List.isEmpty_eq_false_iff_exists_mem]
  exact exists_congr fun o => mem_producers.symm

theorem AuthoredRegion.finalProducer_eq_none (h : ρ.producers k = []) :
    ρ.finalProducer k = none := by
  simp [AuthoredRegion.finalProducer, h]

theorem AuthoredRegion.seed_eq_none (initialValues : OrderedMap TokenKey ValueId)
    (outputValues : OrderedMap OutputKey ValueId) (h : ρ.producers k = []) :
    ρ.seed initialValues outputValues k = none := by
  simp [AuthoredRegion.seed, h]

theorem find?_foldl_insert (f : TokenKey → Option ValueId) (keys : List TokenKey)
    (m : OrderedMap TokenKey ValueId) (k : TokenKey) :
    (keys.foldl (fun m k =>
      match f k with
      | some v => m.insert k v
      | none => m) m).find? k = if k ∈ keys then (f k <|> m.find? k) else m.find? k := by
  induction keys generalizing m with
  | nil => simp
  | cons a keys ih =>
    rw [foldl_cons, ih]
    obtain rfl | hk := eq_or_ne k a
    · cases hf : f k <;> simp
    · cases hf : f a <;> simp [hk, OrderedMap.find?_insert]

theorem find?_finalValues (ρ : AuthoredRegion) (initialValues : OrderedMap TokenKey ValueId)
    (outputValues : OrderedMap OutputKey ValueId) (k : TokenKey) :
    (selectFinalProducers ρ initialValues outputValues).finalValues.find? k =
      (((ρ.finalProducer k).bind fun o => outputValues.find? (outputKey o.id k)) <|>
        initialValues.find? k) := by
  refine (find?_foldl_insert (fun k => (ρ.finalProducer k).bind fun o =>
    outputValues.find? (outputKey o.id k)) ρ.producedKeys initialValues k).trans ?_
  split
  · rfl
  · rename_i hk
    rw [AuthoredRegion.mem_producedKeys, not_not] at hk
    simp [AuthoredRegion.finalProducer_eq_none hk]

theorem find?_foldl_seed (f : TokenKey → Option (NodeId × ValueId)) (keys : List TokenKey)
    (m : OrderedMap OutputKey ValueId) (n : NodeId) (k : TokenKey) :
    (keys.foldl (fun m k =>
      match f k with
      | some (n, v) => m.insert (outputKey n k) v
      | none => m) m).find? (outputKey n k) =
      if k ∈ keys then
        (((f k).bind fun p => if p.1 = n then some p.2 else none) <|> m.find? (outputKey n k))
      else m.find? (outputKey n k) := by
  induction keys generalizing m with
  | nil => simp
  | cons a keys ih =>
    rw [foldl_cons, ih]
    obtain rfl | hk := eq_or_ne k a
    · rcases hf : f k with _ | ⟨n', v⟩
      · simp
      · obtain rfl | hn := eq_or_ne n' n
        · simp
        · simp [OrderedMap.find?_insert, hn, Ne.symm hn]
    · rcases hf : f a with _ | ⟨n', v⟩ <;> simp [hk, OrderedMap.find?_insert]

theorem find?_controlInitialValues (ρ : AuthoredRegion)
    (initialValues : OrderedMap TokenKey ValueId) (outputValues : OrderedMap OutputKey ValueId)
    (n : NodeId) (k : TokenKey) :
    (selectFinalProducers ρ initialValues outputValues).controlInitialValues.find? (outputKey n k) =
      (ρ.seed initialValues outputValues k).bind fun p => if p.1 = n then some p.2 else none := by
  refine (find?_foldl_seed (ρ.seed initialValues outputValues) ρ.producedKeys .empty n k).trans ?_
  split
  · cases h : ρ.seed initialValues outputValues k <;> simp
  · rename_i hk
    rw [AuthoredRegion.mem_producedKeys, not_not] at hk
    simp [AuthoredRegion.seed_eq_none _ _ hk]

end Slash.Pass
