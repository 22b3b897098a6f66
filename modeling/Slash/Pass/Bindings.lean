import Slash.Pass.Settled

/-!
# Bindings

What the bindings of a resolved operation are: the values it reads, one for each token it
consumes, and the values it hands out, one for each key it produces.
-/

namespace Slash.Pass

open List AuthoredOperation

/-! ## Accesses -/

/-- The accesses through which a control hands values out. -/
def ValueAccess.exports : ValueAccess → Bool
  | .output | .inoutOutput | .boundaryTarget => true
  | _ => false

theorem AuthoredOperation.isStructural_of_isControl {o : AuthoredOperation}
    (ho : o.isControl = true) : o.isStructural = false := by
  cases o <;> first | rfl | cases ho

theorem AuthoredOperation.isControl_of_arm {o : AuthoredOperation}
    {arm : ControlArm × AuthoredRegion} (harm : arm ∈ o.arms) : o.isControl = true := by
  cases o <;> first | rfl | cases harm

/-! ## The bindings of an operation -/

theorem bindings_each {α : Type} (f : α → Bound) (as : List α) :
    (Bound.each f as).bindings = as.flatMap fun a => (f a).bindings := by
  induction as with
  | nil => rfl
  | cons a as ih =>
    rw [flatMap_cons, ← ih]
    rfl

theorem dependencies_each {α : Type} (f : α → Bound) (as : List α) :
    (Bound.each f as).dependencies = as.flatMap fun a => (f a).dependencies := by
  induction as with
  | nil => rfl
  | cons a as ih =>
    rw [flatMap_cons, ← ih]
    rfl

theorem diagnostics_each {α : Type} (f : α → Bound) (as : List α) :
    (Bound.each f as).diagnostics = as.flatMap fun a => (f a).diagnostics := by
  induction as with
  | nil => rfl
  | cons a as ih =>
    rw [flatMap_cons, ← ih]
    rfl

/-- When a loop reports nothing, no round did. -/
theorem diagnostics_of_each {α : Type} {f : α → Bound} {as : List α}
    (h : (Bound.each f as).diagnostics = []) {a : α} (ha : a ∈ as) : (f a).diagnostics = [] :=
  flatMap_eq_nil_iff.1 (diagnostics_each f as ▸ h) a ha

@[simp] theorem bindings_append (x y : Bound) : (x ++ y).bindings = x.bindings ++ y.bindings := rfl

@[simp] theorem dependencies_append (x y : Bound) :
    (x ++ y).dependencies = x.dependencies ++ y.dependencies := rfl

@[simp] theorem diagnostics_append (x y : Bound) :
    (x ++ y).diagnostics = x.diagnostics ++ y.diagnostics := rfl

section Operation

variable {t : ResolutionState} {ρ : AuthoredRegion} {context : RegionContext} {root : Bool}
  {values : RegionValues} {o : AuthoredOperation}

theorem bindOperation_eq (ho : o.isStructural = false) :
    bindOperation t ρ context root values o =
      bindDataOperation t ρ root values o ++ bindControlOperation t ρ root values o := by
  cases o with
  | boundary b => cases ho
  | kernel k => rfl
  | reprogram r => rfl
  | loop l body => rfl
  | conditional c thenRegion elseRegion => rfl

theorem mem_bindings (ho : o.isStructural = false) {b : ResolvedBinding} :
    b ∈ (bindOperation t ρ context root values o).bindings ↔
      (∃ u ∈ o.ioInputs, b ∈ (bindUse t ρ root values o u.localPort u.access u).bindings) ∨
      (∃ u ∈ o.ioOutputs, b ∈ (bindOutput values o u.localPort u.access u).bindings) ∨
      (∃ u ∈ o.controlBoundaryInputs,
        b ∈ (bindUse t ρ root values o u.port .boundarySource u).bindings) ∨
      (∃ u ∈ o.controlBoundaryOutputs,
        b ∈ (bindOutput values o u.port .boundaryTarget u).bindings) ∨
      ∃ u ∈ o.controlScalars, b ∈ (bindUse t ρ root values o u.port u.access u).bindings := by
  rw [bindOperation_eq ho]
  simp only [bindDataOperation, bindControlOperation, bindings_append, bindings_each,
    mem_append, mem_flatMap, or_assoc]

end Operation

variable {u : TokenRef}

theorem mem_bindUse {t : ResolutionState} {ρ : AuthoredRegion} {root : Bool}
    {values : RegionValues} {o : AuthoredOperation} {localPort : String} {access : ValueAccess}
    {b : ResolvedBinding} :
    b ∈ (bindUse t ρ root values o localPort access u).bindings ↔
      ∃ v, valueForUse t ρ root values o u = .ok v ∧ b = ⟨u.port, localPort, v, access⟩ := by
  unfold bindUse
  split
  · rename_i v hv
    rw [mem_singleton]
    constructor
    · exact fun h => ⟨v, hv, h⟩
    · rintro ⟨w, hw, rfl⟩
      rw [Except.ok.inj (hv.symm.trans hw)]
  · rename_i d hd
    constructor
    · intro h
      cases h
    · rintro ⟨v, hv, -⟩
      rw [hd] at hv
      cases hv

theorem mem_bindOutput {values : RegionValues} {o : AuthoredOperation} {localPort : String}
    {access : ValueAccess} {b : ResolvedBinding} :
    b ∈ (bindOutput values o localPort access u).bindings ↔
      ∃ v, values.outputValues.find? (outputKey o.id u.key) = some v ∧
        b = ⟨u.port, localPort, v, access⟩ := by
  unfold bindOutput
  split
  · rename_i v hv
    rw [mem_singleton]
    constructor
    · exact fun h => ⟨v, hv, h⟩
    · rintro ⟨w, hw, rfl⟩
      rw [Option.some.inj (hv.symm.trans hw)]
  · rename_i hnone
    constructor
    · intro h
      cases h
    · rintro ⟨v, hv, -⟩
      rw [hnone] at hv
      cases hv

theorem ioInputs_access {o : AuthoredOperation} (hu : u ∈ o.ioInputs) :
    u.access = .input ∨ u.access = .inoutInput := by
  unfold ioInputs at hu
  cases hio : o.ioMap with
  | none => rw [hio] at hu; cases hu
  | some io =>
    rw [hio] at hu
    simp only [Option.map_some, Option.getD_some, PortBindings.ioInputs, mem_append,
      mem_map] at hu
    obtain (⟨p, -, rfl⟩ | ⟨p, -, rfl⟩) | ⟨p, -, rfl⟩ := hu
    · exact .inl rfl
    · exact .inl rfl
    · exact .inr rfl

theorem ioOutputs_access {o : AuthoredOperation} (hu : u ∈ o.ioOutputs) :
    u.access = .output ∨ u.access = .inoutOutput := by
  unfold ioOutputs at hu
  cases hio : o.ioMap with
  | none => rw [hio] at hu; cases hu
  | some io =>
    rw [hio] at hu
    simp only [Option.map_some, Option.getD_some, PortBindings.ioOutputs, mem_append,
      mem_map] at hu
    obtain (⟨p, -, rfl⟩ | ⟨p, -, rfl⟩) | ⟨p, -, rfl⟩ := hu
    · exact .inl rfl
    · exact .inl rfl
    · exact .inr rfl

theorem controlScalars_access {o : AuthoredOperation} (hu : u ∈ o.controlScalars) :
    u.access = .tripCount ∨ u.access = .condition := by
  cases o with
  | loop l body =>
    simp only [controlScalars, mem_append, mem_map] at hu
    obtain ⟨p, -, rfl⟩ | ⟨p, -, rfl⟩ := hu
    · exact .inl rfl
    · exact .inr rfl
  | conditional c thenRegion elseRegion =>
    simp only [controlScalars, mem_map] at hu
    obtain ⟨p, -, rfl⟩ := hu
    exact .inr rfl
  | kernel k => cases hu
  | reprogram r => cases hu
  | boundary b => cases hu

/-! ## What an operation reads and hands out -/

section Reads

variable {t : ResolutionState} {ρ : AuthoredRegion} {context : RegionContext} {root : Bool}
  {values : RegionValues} {o : AuthoredOperation}

theorem AuthoredOperation.mem_consumers (ho : o.isStructural = false) {u : TokenRef} :
    u ∈ o.consumers ↔ u ∈ o.ioInputs ∨ u ∈ o.controlBoundaryInputs ∨ u ∈ o.controlScalars := by
  cases o with
  | boundary b => cases ho
  | kernel k => simp [consumers]
  | reprogram r => simp [consumers]
  | loop l body => simp [consumers]
  | conditional c thenRegion elseRegion => simp [consumers]

theorem bound_iff (ho : o.isStructural = false) {exports : Bool} {v : ValueId} :
    (∃ b ∈ (bindOperation t ρ context root values o).bindings,
      b.access.exports = exports ∧ b.value = v) ↔
      (exports = false ∧ ∃ u ∈ o.consumers, valueForUse t ρ root values o u = .ok v) ∨
      exports = true ∧ ∃ k ∈ o.producedValues.map TokenRef.key,
        values.outputValues.find? (outputKey o.id k) = some v := by
  simp only [mem_bindings ho, mem_bindUse, mem_bindOutput]
  constructor
  · rintro ⟨b, ⟨u, hu, v, hv, rfl⟩ | ⟨u, hu, v, hv, rfl⟩ | ⟨u, hu, v, hv, rfl⟩ |
      ⟨u, hu, v, hv, rfl⟩ | ⟨u, hu, v, hv, rfl⟩, rfl, rfl⟩
    · exact .inl ⟨by obtain h | h := ioInputs_access hu <;> rw [h] <;> rfl, u,
        (mem_consumers ho).2 (.inl hu), hv⟩
    · exact .inr ⟨by obtain h | h := ioOutputs_access hu <;> rw [h] <;> rfl, u.key,
        mem_producedValues.2 (.inl (mem_map_of_mem hu)), hv⟩
    · exact .inl ⟨rfl, u, (mem_consumers ho).2 (.inr (.inl hu)), hv⟩
    · exact .inr ⟨rfl, u.key, mem_producedValues.2 (.inr (mem_map_of_mem hu)), hv⟩
    · exact .inl ⟨by obtain h | h := controlScalars_access hu <;> rw [h] <;> rfl, u,
        (mem_consumers ho).2 (.inr (.inr hu)), hv⟩
  · rintro (⟨rfl, u, hu, hv⟩ | ⟨rfl, k, hk, hv⟩)
    · obtain hu | hu | hu := (mem_consumers ho).1 hu
      · refine ⟨_, .inl ⟨u, hu, v, hv, rfl⟩, ?_, rfl⟩
        obtain h | h := ioInputs_access hu <;> simp [h, ValueAccess.exports]
      · exact ⟨_, .inr (.inr (.inl ⟨u, hu, v, hv, rfl⟩)), rfl, rfl⟩
      · refine ⟨_, .inr (.inr (.inr (.inr ⟨u, hu, v, hv, rfl⟩))), ?_, rfl⟩
        obtain h | h := controlScalars_access hu <;> simp [h, ValueAccess.exports]
    · obtain hk | hk := mem_producedValues.1 hk <;> obtain ⟨u, hu, rfl⟩ := mem_map.1 hk
      · refine ⟨_, .inr (.inl ⟨u, hu, v, hv, rfl⟩), ?_, rfl⟩
        obtain h | h := ioOutputs_access hu <;> simp [h, ValueAccess.exports]
      · exact ⟨_, .inr (.inr (.inr (.inl ⟨u, hu, v, hv, rfl⟩))), rfl, rfl⟩

theorem exported_iff (ho : o.isStructural = false) {v : ValueId} :
    (∃ b ∈ (bindOperation t ρ context root values o).bindings,
      b.access.exports = true ∧ b.value = v) ↔
      ∃ k ∈ o.producedValues.map TokenRef.key,
        values.outputValues.find? (outputKey o.id k) = some v := by
  simp [bound_iff ho]

theorem read_iff (ho : o.isStructural = false) {v : ValueId} :
    (∃ b ∈ (bindOperation t ρ context root values o).bindings,
      b.access.exports = false ∧ b.value = v) ↔
      ∃ u ∈ o.consumers, valueForUse t ρ root values o u = .ok v := by
  simp [bound_iff ho]

theorem dependencies_bindUse {localPort : String} {access : ValueAccess} {u : TokenRef}
    {v : ValueId} (hv : valueForUse t ρ root values o u = .ok v) :
    (bindUse t ρ root values o localPort access u).dependencies = t.dependencyOn o.id v .data := by
  simp only [bindUse, hv]

theorem dependencyOn_subset (ho : o.isStructural = false) {u : TokenRef} (hu : u ∈ o.consumers)
    {v : ValueId} (hv : valueForUse t ρ root values o u = .ok v) :
    t.dependencyOn o.id v .data ⊆ (bindOperation t ρ context root values o).dependencies := by
  intro d hd
  rw [bindOperation_eq ho]
  simp only [bindDataOperation, bindControlOperation, dependencies_append, dependencies_each,
    mem_append, mem_flatMap]
  obtain hu | hu | hu := (mem_consumers ho).1 hu
  · exact .inl (.inl ⟨u, hu, by rw [dependencies_bindUse hv]; exact hd⟩)
  · exact .inr (.inl (.inl ⟨u, hu, by rw [dependencies_bindUse hv]; exact hd⟩))
  · exact .inr (.inr ⟨u, hu, by rw [dependencies_bindUse hv]; exact hd⟩)

theorem ok_of_bindUse {localPort : String} {access : ValueAccess} {u : TokenRef}
    (h : (bindUse t ρ root values o localPort access u).diagnostics = []) :
    ∃ v, valueForUse t ρ root values o u = .ok v := by
  unfold bindUse at h
  split at h
  · rename_i v hv
    exact ⟨v, hv⟩
  · cases h

theorem ok_of_consumer (ho : o.isStructural = false)
    (hnone : (bindOperation t ρ context root values o).diagnostics = []) {u : TokenRef}
    (hu : u ∈ o.consumers) : ∃ v, valueForUse t ρ root values o u = .ok v := by
  rw [bindOperation_eq ho] at hnone
  simp only [bindDataOperation, bindControlOperation, diagnostics_append,
    append_eq_nil_iff] at hnone
  obtain ⟨⟨hinputs, -⟩, ⟨himports, -⟩, hscalars⟩ := hnone
  obtain hu | hu | hu := (mem_consumers ho).1 hu
  · exact ok_of_bindUse (diagnostics_of_each hinputs hu)
  · exact ok_of_bindUse (diagnostics_of_each himports hu)
  · exact ok_of_bindUse (diagnostics_of_each hscalars hu)

end Reads

end Slash.Pass
