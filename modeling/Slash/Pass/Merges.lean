import Slash.Pass.Bindings

/-!
# Incoming values of a control result

How often an arm enters the record of a control result. `addExplicitIncoming` adds an entry for
every export of the arm to that result, and `addImplicitIncoming` adds one for an output port of
the control unless the arm has entered already; nothing compares the two counts with one. So an
arm enters as often as it exports the result, or once if it does not export it and the result is
an output port (`armCount`, `count_addControlIncoming`).
-/

namespace Slash.Pass

open List
open Lib (OrderedMap)

def ResolutionState.incoming (s : ResolutionState) (n : NodeId) (v : ValueId) :
    List ControlIncoming :=
  (((s.recordsOf n).find? fun r => r.result = v).map ResolvedControlResult.incoming).getD []

/-- How often an arm enters a result. -/
def arrivals (arm : ControlArm) (incoming : List ControlIncoming) : Nat :=
  incoming.countP fun i => i.arm = arm

section Update

variable {s : ResolutionState} {n : NodeId} {v : ValueId}
  {f : List ControlIncoming → List ControlIncoming}

theorem recordsOf_updateControlResult :
    (s.updateControlResult n v f).recordsOf n =
      if (s.recordsOf n).any fun r => r.result = v then
        (s.recordsOf n).map fun r =>
          if r.result = v then { r with incoming := f r.incoming } else r
      else s.recordsOf n ++ [⟨n, s.resultPort v, v, f []⟩] := by
  have hany : (s.controlResults.any fun r => r.control = n ∧ r.result = v) =
      (s.recordsOf n).any fun r => r.result = v := by
    simp only [ResolutionState.recordsOf, any_filter, Bool.decide_and]
  unfold ResolutionState.updateControlResult
  rw [hany]
  split
  · unfold ResolutionState.recordsOf
    have hfilter : ((fun r : ResolvedControlResult => decide (r.control = n)) ∘ fun r =>
        if r.control = n ∧ r.result = v then { r with incoming := f r.incoming } else r) =
          fun r => decide (r.control = n) := by
      funext r
      by_cases h : r.control = n ∧ r.result = v <;> simp [h]
    rw [filter_map, hfilter]
    refine map_congr_left fun r hr => ?_
    have hcontrol : r.control = n := by simpa using (mem_filter.1 hr).2
    simp [hcontrol]
  · simp [ResolutionState.recordsOf, filter_append]

theorem incoming_updateControlResult (w : ValueId) :
    (s.updateControlResult n v f).incoming n w =
      if w = v then f (s.incoming n v) else s.incoming n w := by
  unfold ResolutionState.incoming
  rw [recordsOf_updateControlResult]
  have hsame : ∀ w : ValueId, ((fun r : ResolvedControlResult => decide (r.result = w)) ∘ fun r =>
      if r.result = v then { r with incoming := f r.incoming } else r) =
        fun r => decide (r.result = w) := by
    intro w
    funext r
    by_cases h : r.result = v <;> simp [h]
  split
  · rename_i hany
    rw [List.find?_map, hsame]
    obtain rfl | hw := eq_or_ne w v
    · obtain ⟨r, hr⟩ := Option.isSome_iff_exists.1 (by
        rw [List.find?_isSome]
        simpa using hany : ((s.recordsOf n).find? fun r => r.result = w).isSome)
      have hresult : r.result = w := by simpa using List.find?_some hr
      simp [hr, hresult]
    · rw [if_neg hw]
      cases hfind : (s.recordsOf n).find? fun r => r.result = w with
      | none => rfl
      | some r =>
        have hresult : r.result = w := by simpa using List.find?_some hfind
        simp [hresult, hw]
  · rename_i hnone
    have hfind : ((s.recordsOf n).find? fun r => r.result = v) = none := by
      rw [List.find?_eq_none]
      simpa using hnone
    rw [List.find?_append]
    obtain rfl | hw := eq_or_ne w v
    · simp [hfind]
    · simp [hw, Ne.symm hw]

end Update

theorem arrivals_addArm (s : ResolutionState) {arm : ControlArm} (harm : arm ≠ .loopInitial)
    (child : AuthoredRegion) (source : ValueId) (initial : Option ValueId)
    (incoming : List ControlIncoming) :
    arrivals arm (addArm s arm child source initial incoming) = arrivals arm incoming + 1 := by
  unfold addArm arrivals
  simp only
  split
  · simp
  · cases initial <;> simp [countP_append, Ne.symm harm]

theorem arrivals_addArm_ne (s : ResolutionState) {arm other : ControlArm} (hother : other ≠ arm)
    (hinitial : other ≠ .loopInitial) (child : AuthoredRegion) (source : ValueId)
    (initial : Option ValueId) (incoming : List ControlIncoming) :
    arrivals other (addArm s arm child source initial incoming) = arrivals other incoming := by
  unfold addArm arrivals
  simp only
  split
  · simp [countP_append, Ne.symm hother]
  · cases initial <;> simp [countP_append, Ne.symm hother, Ne.symm hinitial]

/-! ## One arm -/

section Arm

variable {s : ResolutionState} {values : RegionValues} {o : AuthoredOperation}
  {child : AuthoredRegion} {finalValues : OrderedMap TokenKey ValueId} {context : RegionContext}
  {arm : ControlArm}

theorem arrivals_addControlIncoming_ne {other : ControlArm} (hother : other ≠ arm)
    (hinitial : other ≠ .loopInitial) (s : ResolutionState) (w : ValueId) :
    arrivals other
        ((addControlIncoming values o child finalValues context arm s).incoming o.id w) =
      arrivals other (s.incoming o.id w) := by
  have hfold : ∀ {α : Type} {f : ResolutionState → α → ResolutionState} (as : List α)
      (s : ResolutionState),
      (∀ s a, arrivals other ((f s a).incoming o.id w) = arrivals other (s.incoming o.id w)) →
      arrivals other ((as.foldl f s).incoming o.id w) = arrivals other (s.incoming o.id w) := by
    intro α f as
    induction as with
    | nil => intro s _; rfl
    | cons a as ih => intro s hf; rw [foldl_cons, ih _ hf, hf]
  unfold addControlIncoming
  refine (hfold _ _ ?_).trans (hfold _ _ ?_)
  · intro s p
    unfold addImplicitPortIncoming
    split
    · split
      · rw [incoming_updateControlResult]
        split
        · rename_i hw
          subst hw
          split
          · rfl
          · simp [arrivals, countP_append, Ne.symm hother]
        · rfl
      · rfl
    · rfl
  · intro s m
    unfold addExport
    split
    · rw [incoming_updateControlResult]
      split
      · rename_i hw
        subst hw
        exact arrivals_addArm_ne s hother hinitial child _ _ _
      · rfl
    · rfl

/-- Different outputs of a control have different values. -/
def OutputsApart (values : RegionValues) (n : NodeId) : Prop :=
  ∀ k k' v, values.outputValues.find? (outputKey n k) = some v →
    values.outputValues.find? (outputKey n k') = some v → k = k'

/-- The result target of a key is the control's output. -/
def Targeted (values : RegionValues) (n : NodeId) (context : RegionContext) (k : TokenKey) : Prop :=
  ∃ v, context.resultTargets.find? k = some v ∧
    values.outputValues.find? (outputKey n k) = some v

theorem arrivals_foldl_addExport (harm : arm ≠ .loopInitial) (hapart : OutputsApart values o.id)
    {k : TokenKey} {v : ValueId} (hv : values.outputValues.find? (outputKey o.id k) = some v)
    (ms : List Mapping)
    (hms : ∀ m ∈ ms, (finalValues.find? m.source.key).isSome ∧
      Targeted values o.id context m.target.key) (s : ResolutionState) :
    arrivals arm ((ms.foldl (addExport values o.id child finalValues context arm) s).incoming
        o.id v) =
      arrivals arm (s.incoming o.id v) + ms.countP fun m => m.target.key = k := by
  induction ms generalizing s with
  | nil => simp
  | cons m ms ih =>
    rw [foldl_cons, ih fun m hm => hms m (mem_cons_of_mem _ hm), countP_cons]
    obtain ⟨hsource, w, htarget, hw⟩ := hms m mem_cons_self
    obtain ⟨source, hsource⟩ := Option.isSome_iff_exists.1 hsource
    have hstep : addExport values o.id child finalValues context arm s m =
        s.updateControlResult o.id w (addArm s arm child source
          (initialFor values o.id child m.source.key m.target.key)) := by
      simp only [addExport, hsource, htarget]
    rw [hstep, incoming_updateControlResult]
    -- an export to another result enters another record
    by_cases hk : m.target.key = k
    · obtain rfl : v = w := by
        rw [hk] at hw
        exact Option.some.inj (hv.symm.trans hw)
      rw [if_pos rfl, arrivals_addArm s harm, if_pos (by simpa using hk)]
      omega
    · have hne : v ≠ w := fun heq => hk (hapart _ _ w hw (heq ▸ hv))
      simp [hne, hk]

theorem arrivals_fill (arm : ControlArm) (region : RegionId) (source : ValueId)
    (incoming : List ControlIncoming) :
    arrivals arm (if incoming.any fun i => i.arm = arm then incoming
        else incoming ++ [⟨arm, region, source⟩]) =
      if arrivals arm incoming = 0 then 1 else arrivals arm incoming := by
  have happend : arrivals arm (incoming ++ [⟨arm, region, source⟩]) = arrivals arm incoming + 1 := by
    simp [arrivals, countP_append]
  have hany : (incoming.any fun i => i.arm = arm) = true ↔ arrivals arm incoming ≠ 0 := by
    rw [arrivals, Ne, countP_eq_zero, any_eq_true]
    simp
  by_cases hzero : arrivals arm incoming = 0
  · rw [if_pos hzero, if_neg fun h => hany.1 h hzero, happend, hzero]
  · rw [if_neg hzero, if_pos (hany.2 hzero)]

theorem arrivals_foldl_ports (hapart : OutputsApart values o.id) {k : TokenKey} {v : ValueId}
    (hv : values.outputValues.find? (outputKey o.id k) = some v) (ps : List (String × TokenKey))
    (hps : ∀ p ∈ ps, (∃ k', portCandidates child p.1 p.2.kind = [k'] ∧
      (finalValues.find? k').isSome) ∧ Targeted values o.id context p.2) (s : ResolutionState) :
    arrivals arm ((ps.foldl (addImplicitPortIncoming o.id child finalValues context arm) s).incoming
        o.id v) =
      if arrivals arm (s.incoming o.id v) = 0 ∧ k ∈ ps.map Prod.snd then 1
      else arrivals arm (s.incoming o.id v) := by
  induction ps generalizing s with
  | nil => simp
  | cons p ps ih =>
    rw [foldl_cons, ih fun p hp => hps p (mem_cons_of_mem _ hp)]
    obtain ⟨⟨k', hcandidates, hsource⟩, w, htarget, hw⟩ := hps p mem_cons_self
    obtain ⟨source, hsource⟩ := Option.isSome_iff_exists.1 hsource
    have hstep : addImplicitPortIncoming o.id child finalValues context arm s p =
        s.updateControlResult o.id w fun incoming =>
          if incoming.any fun i => i.arm = arm then incoming
          else incoming ++ [⟨arm, child.info.id, source⟩] := by
      simp only [addImplicitPortIncoming, hcandidates, hsource, htarget]
    rw [hstep, incoming_updateControlResult]
    by_cases hk : p.2 = k
    · obtain rfl : v = w := by
        rw [hk] at hw
        exact Option.some.inj (hv.symm.trans hw)
      rw [if_pos rfl, arrivals_fill]
      by_cases hzero : arrivals arm (s.incoming o.id v) = 0 <;> simp [hzero, hk]
    · have hne : v ≠ w := fun heq => hk (hapart _ _ w hw (heq ▸ hv))
      have hmem : k ∈ (p :: ps).map Prod.snd ↔ k ∈ ps.map Prod.snd := by
        rw [map_cons, mem_cons, or_iff_right (Ne.symm hk)]
      rw [if_neg hne]
      simp only [hmem]

/-- How often an arm enters the result `k` of its control. -/
def armCount (o : AuthoredOperation) (child : AuthoredRegion) (k : TokenKey) : Nat :=
  let exports := (child.mappings .finish).countP fun m => m.target.key = k
  if exports = 0 ∧ k ∈ o.ioOutputs.map TokenRef.key then 1 else exports

theorem outputPorts_keys (o : AuthoredOperation) :
    ((o.ioMap.map PortBindings.outputPorts).getD []).map Prod.snd = o.ioOutputs.map TokenRef.key := by
  unfold AuthoredOperation.ioOutputs
  cases o.ioMap with
  | none => rfl
  | some io =>
    simp [PortBindings.outputPorts, PortBindings.ioOutputs, TokenRef.key, Token.key,
      Function.comp_def]

/-- An arm all of whose exports and ports resolve enters a result `armCount` times. -/
theorem arrivals_addControlIncoming (harm : arm ≠ .loopInitial) (hapart : OutputsApart values o.id)
    (hexports : ∀ m ∈ child.mappings .finish, (finalValues.find? m.source.key).isSome ∧
      Targeted values o.id context m.target.key)
    (hports : ∀ p ∈ (o.ioMap.map PortBindings.outputPorts).getD [],
      (∃ k', portCandidates child p.1 p.2.kind = [k'] ∧ (finalValues.find? k').isSome) ∧
        Targeted values o.id context p.2)
    {k : TokenKey} {v : ValueId} (hv : values.outputValues.find? (outputKey o.id k) = some v)
    (hzero : arrivals arm (s.incoming o.id v) = 0) :
    arrivals arm
        ((addControlIncoming values o child finalValues context arm s).incoming o.id v) =
      armCount o child k := by
  unfold addControlIncoming
  rw [arrivals_foldl_ports hapart hv _ hports, arrivals_foldl_addExport harm hapart hv _ hexports,
    hzero, outputPorts_keys, Nat.zero_add]
  rfl

end Arm

/-! ## The targets of an arm -/

theorem find?_foldl_addTarget (values : RegionValues) (o : AuthoredOperation) (ks : List TokenKey)
    (targets : OrderedMap TokenKey ValueId) (k : TokenKey) :
    (ks.foldl (addTarget values o) targets).find? k =
      if k ∈ ks then (values.outputValues.find? (outputKey o.id k) <|> targets.find? k)
      else targets.find? k := by
  induction ks generalizing targets with
  | nil => simp
  | cons a ks ih =>
    rw [foldl_cons, ih]
    unfold addTarget
    obtain rfl | hk := eq_or_ne k a
    · cases values.outputValues.find? (outputKey o.id k) <;> simp
    · cases values.outputValues.find? (outputKey o.id a) <;> simp [hk, OrderedMap.find?_insert]

variable {ρ : AuthoredRegion}

theorem targeted_of_mem {s : ResolutionState} {values : RegionValues} {o : AuthoredOperation}
    {child : AuthoredRegion} {k : TokenKey} (hk : k ∈ resultKeys o child) {v : ValueId}
    (hv : values.outputValues.find? (outputKey o.id k) = some v) :
    Targeted values o.id (makeChildContext s ρ values o child) k := by
  refine ⟨v, ?_, hv⟩
  have hfind := find?_foldl_addTarget values o (resultKeys o child) .empty k
  rw [if_pos hk, hv] at hfind
  exact hfind

theorem output_of_target {s : ResolutionState} {values : RegionValues} {o : AuthoredOperation}
    {child : AuthoredRegion} {k : TokenKey} {v : ValueId}
    (hv : (makeChildContext s ρ values o child).resultTargets.find? k = some v) :
    values.outputValues.find? (outputKey o.id k) = some v := by
  have hfind := find?_foldl_addTarget values o (resultKeys o child) .empty k
  rw [show (resultKeys o child).foldl (addTarget values o) .empty =
    (makeChildContext s ρ values o child).resultTargets from rfl, hv] at hfind
  split at hfind
  · simpa using hfind.symm
  · simp at hfind

/-! ## What an accepted arm guarantees -/

theorem mem_mappings {side : BoundarySide} {m : Mapping} (hm : m ∈ ρ.mappings side) :
    ∃ b, AuthoredOperation.boundary b ∈ ρ.operations ∧ b.side = side ∧ m ∈ b.mappings := by
  obtain ⟨b, hb, hm⟩ := mem_flatMap.1 hm
  obtain ⟨o, ho, hob⟩ := mem_filterMap.1 hb
  cases o with
  | boundary b' =>
    simp only at hob
    split at hob
    · rename_i hside
      obtain rfl := Option.some.inj hob
      exact ⟨b', ho, hside, hm⟩
    · cases hob
  | kernel k => cases hob
  | reprogram r => cases hob
  | loop l body => cases hob
  | conditional c thenRegion elseRegion => cases hob

theorem Settled.exports {g : AuthoredGraph} {t : ResolutionState} {context : RegionContext}
    {root : Bool} {values : RegionValues} (h : Settled g t ρ context root values) {m : Mapping}
    (hm : m ∈ ρ.mappings .finish) :
    (values.finalValues.find? m.source.key).isSome ∧
      (context.resultTargets.find? m.target.key).isSome := by
  obtain ⟨b, hb, hside, hm⟩ := mem_mappings hm
  have hbound : (Bound.each (bindBoundaryResult t ρ context values (.boundary b) b)
      b.mappings).diagnostics = [] := by
    have := h.bound _ hb
    simpa only [bindOperation, bindBoundary, hside] using this
  have hnone := diagnostics_of_each hbound hm
  unfold bindBoundaryResult at hnone
  split at hnone
  · rename_i source target hsource htarget
    exact ⟨by rw [hsource]; rfl, by rw [htarget]; rfl⟩
  · cases hnone

theorem Settled.imports {g : AuthoredGraph} {t : ResolutionState} {context : RegionContext}
    {root : Bool} {values : RegionValues} (h : Settled g t ρ context root values)
    {b : AuthoredBoundary} (hb : AuthoredOperation.boundary b ∈ ρ.operations)
    (hside : b.side = .start) {m : Mapping} (hm : m ∈ b.mappings) :
    ∃ link v, context.parameters.find? m.target.key = some link ∧
      values.initialValues.find? m.target.key = some v ∧
      (bindBoundaryParameter ρ context values (.boundary b) b m).aliases =
        [⟨b.id, m.port, link.source, v⟩] := by
  have hbind : bindOperation t ρ context root values (.boundary b) =
      Bound.each (bindBoundaryParameter ρ context values (.boundary b) b) b.mappings := by
    simp only [bindOperation, bindBoundary, hside]
  have hnone := diagnostics_of_each (hbind ▸ h.bound _ hb) hm
  unfold bindBoundaryParameter at hnone ⊢
  split at hnone
  · rename_i link v hlink hv
    exact ⟨link, v, hlink, hv, rfl⟩
  · cases hnone

theorem mem_of_lookup {α : Type} {k : String} {a : α} {ps : List (String × α)}
    (h : ps.lookup k = some a) : (k, a) ∈ ps := by
  obtain ⟨l₁, l₂, rfl, -⟩ := lookup_eq_some_iff.1 h
  simp

theorem produced_of_portCandidate {child : AuthoredRegion} {port : String} {kind : ValueKind}
    {k : TokenKey} (hk : k ∈ portCandidates child port kind) : child.producers k ≠ [] := by
  rw [portCandidates, mem_dedup, mem_flatMap] at hk
  obtain ⟨o, ho, hk⟩ := hk
  have hproduced : k ∈ o.ioOutputs.map TokenRef.key := by
    cases hio : o.ioMap with
    | none => rw [hio] at hk; cases hk
    | some io =>
      rw [hio] at hk
      rw [← outputPorts_keys, hio]
      simp only [Option.map_some, Option.getD_some, PortBindings.outputPorts, map_append,
        map_map, mem_append, mem_map, Function.comp_apply]
      cases kind with
      | buffer =>
        simp only [mem_append, mem_map, Option.mem_toList, mem_filter] at hk
        obtain ⟨b, hb, rfl⟩ | ⟨b, ⟨hb, -⟩, rfl⟩ := hk
        · exact .inl (.inr ⟨(port, b), mem_of_lookup hb, rfl⟩)
        · exact .inr ⟨b, hb, rfl⟩
      | scalar =>
        simp only [mem_map, Option.mem_toList] at hk
        obtain ⟨b, hb, rfl⟩ := hk
        exact .inl (.inl ⟨(port, b), mem_of_lookup hb, rfl⟩)
  exact ne_nil_of_mem (AuthoredRegion.mem_producers.2
    ⟨ho, AuthoredOperation.mem_producedValues.2 (.inl hproduced)⟩)

theorem portCandidates_of_accepted {control : NodeId} {child : AuthoredRegion}
    {finalValues : OrderedMap TokenKey ValueId} {context : RegionContext} {arm : ControlArm}
    (harm : arm ≠ .loopInitial) (ps : List (String × TokenKey)) (s : ResolutionState)
    (h : (ps.foldl (addImplicitPortIncoming control child finalValues context arm) s).diagnostics =
      []) : ∀ p ∈ ps, ∃ k, portCandidates child p.1 p.2.kind = [k] := by
  induction ps generalizing s with
  | nil => intro p hp; cases hp
  | cons p ps ih =>
    intro p' hp'
    obtain rfl | hp' := mem_cons.1 hp'
    · have hnone :=
        (Frame.foldl (fun s p _ => frame_addImplicitPortIncoming control child finalValues context
          harm s p) (addImplicitPortIncoming control child finalValues context arm s p')).accepted h
      unfold addImplicitPortIncoming at hnone
      split at hnone
      · rename_i k hk
        exact ⟨k, hk⟩
      · simp [ResolutionState.report] at hnone
    · exact ih _ h p' hp'

end Slash.Pass
