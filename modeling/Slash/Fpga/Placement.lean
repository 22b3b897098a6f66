import Slash.Fpga.Launches
import Slash.Fpga.Stores

/-!
# Buffers in the regions of their ports

A kernel reaches one memory region through each of its ports. `populateBufferRegions` finds the
regions a program asks for and writes them over those of earlier programs; what earlier launches
allocated stays. So an argument lies in the region of its port as long as the program's regions are
not overwritten and no record from another region is reused, which is what `Session.placing` asks of
each step.
-/

namespace Slash.Fpga

open List Device
open Lib (OrderedMap runFrom Along)
open Host (QueueProgram)

/-! ## Regions of a program -/

def Regions.Extends (m m' : Regions) : Prop :=
  ∀ key region, m.find? key = some region → m'.find? key = some region

theorem Regions.Extends.refl (m : Regions) : m.Extends m := fun _ _ h => h

theorem Regions.Extends.trans {m₁ m₂ m₃ : Regions} (h : m₁.Extends m₂) (h' : m₂.Extends m₃) :
    m₁.Extends m₃ :=
  fun key region hregion => h' key region (h key region hregion)

theorem Regions.extends_insert {m : Regions} {key : BufferKey} {region : MemoryConfig}
    (h : ∀ known, m.find? key = some known → known = region) : m.Extends (m.insert key region) := by
  intro key' region' hregion'
  rw [OrderedMap.find?_insert]
  split
  · rename_i heq
    subst heq
    rw [h region' hregion']
  · exact hregion'

theorem recordRegion_spec {resolve : RegionOf} {m m' : Regions} {p : BufferPort}
    (h : recordRegion resolve m p = .ok m') : m.Extends m' ∧
      ∀ region, resolve p.kernel p.port = some region → m'.find? (keyOf p.buffer) = some region := by
  unfold recordRegion at h
  split at h
  · rename_i hnone
    obtain rfl := Except.ok.inj h
    refine ⟨.refl m, ?_⟩
    intro region hregion
    rw [hnone] at hregion
    cases hregion
  · rename_i region hregion
    split at h
    · rename_i hfresh
      obtain rfl := Except.ok.inj h
      refine ⟨Regions.extends_insert ?_, ?_⟩
      · intro known hknown
        rw [hfresh] at hknown
        cases hknown
      · intro region' hregion'
        obtain rfl := Option.some.inj (hregion.symm.trans hregion')
        exact OrderedMap.find?_insert_self _ _ _
    · rename_i known hknown
      split at h
      · rename_i heq
        subst heq
        obtain rfl := Except.ok.inj h
        refine ⟨.refl m, ?_⟩
        intro region' hregion'
        obtain rfl := Option.some.inj (hregion.symm.trans hregion')
        exact hknown
      · cases h

theorem recordRegions_spec {resolve : RegionOf} (ports : List BufferPort) {m m' : Regions}
    (h : ports.foldlM (recordRegion resolve) m = .ok m') : m.Extends m' ∧
      ∀ p ∈ ports, ∀ region, resolve p.kernel p.port = some region →
        m'.find? (keyOf p.buffer) = some region := by
  induction ports generalizing m with
  | nil =>
    obtain rfl := Except.ok.inj h
    refine ⟨.refl m, ?_⟩
    intro p hp
    cases hp
  | cons p ports ih =>
    rw [foldlM_cons] at h
    cases hp : recordRegion resolve m p with
    | error e =>
      rw [hp] at h
      cases h
    | ok m₁ =>
      rw [hp] at h
      obtain ⟨hextends, hrecorded⟩ := recordRegion_spec hp
      obtain ⟨hrest, hports⟩ := ih h
      refine ⟨hextends.trans hrest, ?_⟩
      intro q hq region hregion
      obtain rfl | hq := mem_cons.1 hq
      · exact hrest _ _ (hrecorded region hregion)
      · exact hports q hq region hregion

theorem spreadRegion_extends {acc acc' : Regions × Bool} {edge : BufferKey × BufferKey}
    (h : spreadRegion acc edge = .ok acc') : Regions.Extends acc.1 acc'.1 := by
  unfold spreadRegion at h
  split at h
  · split at h
    · obtain rfl := Except.ok.inj h
      exact .refl _
    · cases h
  · rename_i hnone
    obtain rfl := Except.ok.inj h
    refine Regions.extends_insert ?_
    intro known hknown
    rw [hnone] at hknown
    cases hknown
  · rename_i hnone _
    obtain rfl := Except.ok.inj h
    refine Regions.extends_insert ?_
    intro known hknown
    rw [hnone] at hknown
    cases hknown
  · obtain rfl := Except.ok.inj h
    exact .refl _

theorem spreadRound_extends (edges : List (BufferKey × BufferKey)) {acc acc' : Regions × Bool}
    (h : edges.foldlM spreadRegion acc = .ok acc') : Regions.Extends acc.1 acc'.1 := by
  induction edges generalizing acc with
  | nil =>
    obtain rfl := Except.ok.inj h
    exact .refl _
  | cons edge edges ih =>
    rw [foldlM_cons] at h
    cases hedge : spreadRegion acc edge with
    | error e =>
      rw [hedge] at h
      cases h
    | ok acc₁ =>
      rw [hedge] at h
      exact (spreadRegion_extends hedge).trans (ih h)

theorem spreadRegions_extends (edges : List (BufferKey × BufferKey)) (rounds : Nat)
    {m m' : Regions} (h : spreadRegions edges rounds m = .ok m') : m.Extends m' := by
  induction rounds generalizing m with
  | zero =>
    obtain rfl := Except.ok.inj h
    exact .refl _
  | succ rounds ih =>
    rw [spreadRegions] at h
    cases hround : edges.foldlM spreadRegion (m, false) with
    | error e =>
      rw [hround] at h
      cases h
    | ok acc =>
      rw [hround] at h
      have hextends : m.Extends acc.1 := spreadRound_extends edges hround
      obtain ⟨m₁, changed⟩ := acc
      cases changed with
      | true => exact hextends.trans (ih h)
      | false =>
        obtain rfl := Except.ok.inj h
        exact hextends

theorem resolvedRegions_spec {resolve : RegionOf} {dg : QueueProgram} {resolved : Regions}
    (h : resolvedRegions resolve dg = .ok resolved) {p : BufferPort}
    (hp : p ∈ (kernels dg).flatMap regionPorts) {region : MemoryConfig}
    (hregion : resolve p.kernel p.port = some region) :
    resolved.find? (keyOf p.buffer) = some region := by
  unfold resolvedRegions at h
  cases hdirect : ((kernels dg).flatMap regionPorts).foldlM (recordRegion resolve) .empty with
  | error e =>
    rw [hdirect] at h
    cases h
  | ok direct =>
    rw [hdirect] at h
    exact spreadRegions_extends _ _ h _ _
      ((recordRegions_spec _ hdirect).2 p hp region hregion)

theorem regionPorts_of_argument {dg : QueueProgram} {p : BufferPort}
    (h : p ∈ deferredArguments dg) : p ∈ (kernels dg).flatMap regionPorts := by
  obtain ⟨k, hk, hp⟩ := mem_flatMap.1 h
  refine mem_flatMap.2 ⟨k, hk, ?_⟩
  unfold argumentPorts at hp
  unfold regionPorts
  obtain hp | hp := mem_append.1 hp
  · exact mem_append_left _ hp
  refine mem_append_right _ ?_
  obtain ⟨port, hport, hmap⟩ := mem_filterMap.1 hp
  obtain ⟨b, hb, rfl⟩ := Option.map_eq_some_iff.1 hmap
  refine mem_flatMap.2 ⟨port, hport, mem_flatMap.2 ⟨b, ?_, mem_cons_self⟩⟩
  have hmatch := List.find?_some hb
  exact mem_filter.2 ⟨mem_of_find?_eq_some hb, hmatch⟩

/-! ## The condition -/

/-- The region of a key and that of its canonical key are the same when both are known. -/
def Device.regionAgrees (d : Device) (key : BufferKey) : Bool :=
  match d.canonicalBufferKey key with
  | .ok k =>
    match d.regions.find? key, d.regions.find? k with
    | some region, some known => region = known
    | _, _ => true
  | .error _ => true

/-- No record of another region than the key's is large enough to be reused. -/
def Device.reuseAgrees (d : Device) (key : BufferKey) (n : Nat) : Bool :=
  match d.canonicalBufferKey key with
  | .ok k =>
    match d.regions.find? key, (d.requestRegion key k).reusable k n with
    | some region, some r => r.backing.allocations.all fun a => a.region = region
    | _, _ => true
  | .error _ => true

/-- The regions of `other` are those of `dg` where both have one. -/
def regionsAgree (resolve : RegionOf) (dg other : QueueProgram) : Bool :=
  match resolvedRegions resolve other with
  | .ok resolved => ((kernels dg).flatMap regionPorts).all fun p =>
    match resolve p.kernel p.port, resolved.find? (keyOf p.buffer) with
    | some region, some published => region = published
    | _, _ => true
  | .error _ => true

/-- Two images wire the ports of a program alike. -/
def imagesAgree (resolve : String → RegionOf) (dg : QueueProgram) (imageId next : String) : Bool :=
  ((kernels dg).flatMap regionPorts).all fun p =>
    resolve next p.kernel p.port = resolve imageId p.kernel p.port

namespace Session

variable (resolve : String → RegionOf) (s : Session)

/-- A step of the launch asks for storage in the region of its key only. -/
def placingTick : Phase → Bool
  | .seeding (a :: _) false => s.device.regionAgrees (normalizeBufferKey a.sourceKey)
  | .addressing (a :: _) _ =>
    match a.bytes with
    | .ok n => s.device.regionAgrees a.key && s.device.reuseAgrees a.key n
    | .error _ => true
  | _ => true

/-- A step neither gives another region to a port of the compiled program, nor to the canonical key
of a key that has one, nor reuses a record of another region. -/
def placing : Act → Bool
  | .activate imageId =>
    match s.program with
    | some dg => imagesAgree resolve dg s.activeImage imageId
    | none => true
  | .projectProgram dg =>
    match s.program with
    | some program => regionsAgree (resolve s.activeImage) program dg
    | none => true
  | .setInputBuffer bufferName _ => s.device.regionAgrees (normalizeBufferKey bufferName)
  | .tick =>
    match s.launch with
    | some l => s.placingTick l.phase
    | none => true
  | _ => true

end Session

/-! ## The invariant -/

def Patched.Placed (resolve : RegionOf) (p : Patched) : Prop :=
  ∀ region, resolve p.address.argument.kernel p.address.argument.port = some region →
    ∃ a, p.record.backing = .mem a ∧ a.region = region

def Device.Knows (d : Device) (resolve : RegionOf) (dg : QueueProgram) : Prop :=
  ∀ p ∈ (kernels dg).flatMap regionPorts, ∀ region, resolve p.kernel p.port = some region →
    d.regions.find? (keyOf p.buffer) = some region

def Launch.Placed (resolve : RegionOf) (l : Launch) (dg : QueueProgram) : Prop :=
  (∀ a ∈ l.addresses, a.argument ∈ deferredArguments dg) ∧
  ∀ rest patched, l.phase = .addressing rest patched →
    rest ⊆ l.addresses ∧ ∀ p ∈ patched, p.address ∈ l.addresses ∧ p.Placed resolve

structure Session.Placed (resolve : String → RegionOf) (s : Session) : Prop where
  staging : s.device.staging = true
  known : ∀ dg, s.program = some dg → s.device.Knows (resolve s.activeImage) dg
  launch : ∀ l, s.launch = some l → ∃ dg, s.program = some dg ∧
    l.Placed (resolve s.activeImage) dg

theorem Device.Knows.mono {d d' : Device} {resolve : RegionOf} {dg : QueueProgram}
    (h : d.Knows resolve dg) (hextends : Regions.Extends d.regions d'.regions) :
    d'.Knows resolve dg :=
  fun p hp region hregion => hextends _ _ (h p hp region hregion)

theorem Session.Placed.mono {resolve : String → RegionOf} {s s' : Session} (h : s.Placed resolve)
    (hstaging : s'.device.staging = s.device.staging)
    (hextends : Regions.Extends s.device.regions s'.device.regions)
    (himage : s'.activeImage = s.activeImage) (hprogram : s'.program = s.program)
    (hlaunch : ∀ l, s'.launch = some l → ∃ dg, s.program = some dg ∧
      l.Placed (resolve s.activeImage) dg) : s'.Placed resolve := by
  refine ⟨hstaging.trans h.staging, ?_, ?_⟩
  · intro dg hdg
    rw [himage]
    exact (h.known dg (hprogram.symm.trans hdg)).mono hextends
  · rw [himage, hprogram]
    exact hlaunch

theorem Session.Placed.close {resolve : String → RegionOf} {s : Session} (h : s.Placed resolve) :
    s.close.Placed resolve := by
  refine h.mono rfl (.refl _) rfl rfl ?_
  intro l hl
  cases hl

theorem Session.Placed.go {resolve : String → RegionOf} {s : Session} (h : s.Placed resolve)
    {l : Launch} {dg : QueueProgram} (hdg : s.program = some dg) {phase : Phase}
    (hplaced : ({ l with phase } : Launch).Placed (resolve s.activeImage) dg) :
    (s.go l phase).Placed resolve := by
  refine h.mono rfl (.refl _) rfl rfl ?_
  intro l' hl'
  obtain rfl := Option.some.inj hl'
  exact ⟨dg, hdg, hplaced⟩

/-! ## Storage -/

section Storage

variable {alloc : Allocator} {d : Device} {key k : BufferKey} {n : Nat}

theorem Device.regions_ensureCanonical :
    (d.ensureCanonical alloc k n).2.regions = d.regions := by
  unfold ensureCanonical
  split
  · rfl
  · split <;> rfl

theorem Device.staging_ensureCanonical :
    (d.ensureCanonical alloc k n).2.staging = d.staging := by
  unfold ensureCanonical
  split
  · rfl
  · split <;> rfl

theorem Device.extends_requestRegion (hk : d.canonicalBufferKey key = .ok k)
    (hagrees : d.regionAgrees key = true) :
    Regions.Extends d.regions (d.requestRegion key k).regions := by
  unfold requestRegion
  split
  · rename_i region hregion
    refine Regions.extends_insert ?_
    intro known hknown
    rw [regionAgrees, hk] at hagrees
    simp only [hregion, hknown, decide_eq_true_iff] at hagrees
    exact hagrees.symm
  · exact .refl _

theorem Device.extends_ensureBufferByKey (hagrees : d.regionAgrees key = true) :
    Regions.Extends d.regions (d.ensureBufferByKey alloc key n).2.regions ∧
    (d.ensureBufferByKey alloc key n).2.staging = d.staging := by
  cases hk : d.canonicalBufferKey key with
  | error e =>
    rw [ensureBufferByKey, hk]
    exact ⟨.refl _, rfl⟩
  | ok k =>
    rw [ensureBufferByKey_eq n hk, regions_ensureCanonical,
      staging_ensureCanonical, staging_requestRegion]
    exact ⟨extends_requestRegion hk hagrees, rfl⟩

theorem Device.placed_ensureBufferByKey {r : BufferRecord} {d' : Device} {region : MemoryConfig}
    (h : d.ensureBufferByKey alloc key n = (.ok r, d')) (hstaging : d.staging = true)
    (hregion : d.regions.find? key = some region) (hreuse : d.reuseAgrees key n = true) :
    ∃ a, r.backing = .mem a ∧ a.region = region := by
  cases hk : d.canonicalBufferKey key with
  | error e =>
    rw [ensureBufferByKey, hk] at h
    cases h
  | ok k =>
    have hplacement : (d.requestRegion key k).placement k = some region := by
      rw [placement, staging_requestRegion, hstaging, if_pos rfl,
        requestRegion, hregion]
      exact OrderedMap.find?_insert_self _ _ _
    rw [ensureBufferByKey_eq n hk, ensureCanonical] at h
    split at h
    · rename_i r' hr'
      obtain rfl := Except.ok.inj (Prod.mk.inj h).1
      have hmem := (reusable_eq hr').2.2
      rw [hplacement] at hmem
      rw [reuseAgrees, hk] at hreuse
      simp only [hregion, hr', all_eq_true, decide_eq_true_iff] at hreuse
      cases hb : r'.backing with
      | offset m =>
        rw [hb] at hmem
        cases hmem
      | mem a =>
        refine ⟨a, rfl, hreuse a ?_⟩
        rw [hb]
        exact mem_singleton_self a
    · split at h
      · rename_i r' next hnew
        obtain rfl := Except.ok.inj (Prod.mk.inj h).1
        unfold newRecord at hnew
        rw [hplacement] at hnew
        dsimp only at hnew
        split at hnew
        · obtain rfl := (Prod.mk.inj (Except.ok.inj hnew)).1
          exact ⟨_, rfl, rfl⟩
        · cases hnew
      · cases (Prod.mk.inj h).1

end Storage

theorem Device.Joins.extends {d d' : Device} {t c : BufferKey} (h : d.Joins d' t c) :
    Regions.Extends d.regions d'.regions := by
  rw [h.regions, aliasRegions]
  split
  · rename_i region hc
    refine Regions.extends_insert ?_
    intro known hknown
    exact (h.agree region known hc hknown).symm
  · rename_i region hc ht
    refine Regions.extends_insert ?_
    intro known hknown
    rw [hc] at hknown
    cases hknown
  · exact .refl _

/-! ## Steps -/

section Steps

variable {resolve : String → RegionOf} {alloc : Allocator} {s : Session}

theorem Session.Placed.setInputBuffer (h : s.Placed resolve) {bufferName : String}
    (bytes : List UInt8)
    (hagrees : s.device.regionAgrees (normalizeBufferKey bufferName) = true) :
    (s.setInputBuffer alloc bufferName bytes).2.Placed resolve ∧
    (s.setInputBuffer alloc bufferName bytes).2.launch = s.launch ∧
    (s.setInputBuffer alloc bufferName bytes).2.program = s.program ∧
    (s.setInputBuffer alloc bufferName bytes).2.activeImage = s.activeImage := by
  obtain ⟨hextends, hstaging⟩ :=
    @Device.extends_ensureBufferByKey alloc _ _ bytes.length hagrees
  rw [Session.setInputBuffer, Device.setInputBuffer]
  generalize s.device.ensureBufferByKey alloc (normalizeBufferKey bufferName) bytes.length =
    result at *
  obtain ⟨r | r, d'⟩ := result
  · exact ⟨h.mono hstaging hextends rfl rfl h.launch, rfl, rfl, rfl⟩
  · exact ⟨h.mono hstaging hextends rfl rfl h.launch, rfl, rfl, rfl⟩

theorem Session.Placed.aliasBufferKey (h : s.Placed resolve) (target source : BufferKey) :
    (s.aliasBufferKey target source).2.Placed resolve ∧
    (s.aliasBufferKey target source).2.launch = s.launch ∧
    (s.aliasBufferKey target source).2.program = s.program ∧
    (s.aliasBufferKey target source).2.activeImage = s.activeImage := by
  unfold Session.aliasBufferKey
  cases hresult : s.device.aliasBufferKey target source with
  | error e => exact ⟨h, rfl, rfl, rfl⟩
  | ok d' =>
    refine ⟨?_, rfl, rfl, rfl⟩
    obtain ⟨-, rfl⟩ | ⟨t, c, -, -, hjoins⟩ := aliasBufferKey_cases rfl rfl hresult
    · exact h.mono rfl (.refl _) rfl rfl h.launch
    · exact h.mono hjoins.staging hjoins.extends rfl rfl h.launch

variable {dg : QueueProgram} {l : Launch}

theorem Launch.Placed.early {resolve : RegionOf} (h : l.Placed resolve dg) {phase : Phase}
    (hphase : ∀ rest patched, phase ≠ .addressing rest patched) :
    ({ l with phase } : Launch).Placed resolve dg :=
  ⟨h.1, fun rest patched heq => absurd heq (hphase rest patched)⟩

theorem Launch.Placed.start {resolve : RegionOf} (h : l.Placed resolve dg) :
    ({ l with phase := .addressing l.addresses [] } : Launch).Placed resolve dg := by
  refine ⟨h.1, ?_⟩
  rintro rest patched ⟨⟩
  refine ⟨List.Subset.refl _, ?_⟩
  intro p hp
  cases hp

theorem Session.Placed.resolveAddress (h : s.Placed resolve) (hl : s.launch = some l)
    {a : DeferredAddress} {rest : List DeferredAddress} {patched : List Patched}
    (hphase : l.phase = .addressing (a :: rest) patched) (hplacing : s.placingTick l.phase = true) :
    (s.resolveAddress alloc l a rest patched).Placed resolve := by
  obtain ⟨dg, hdg, haddresses, hpatched⟩ := h.launch l hl
  obtain ⟨hrest, hplaced⟩ := hpatched _ _ hphase
  unfold Session.resolveAddress
  cases hbytes : a.bytes with
  | error e => exact h.close
  | ok n =>
    rw [hphase, Session.placingTick, hbytes, Bool.and_eq_true] at hplacing
    obtain ⟨hagrees, hreuse⟩ := hplacing
    obtain ⟨hextends, hstaging⟩ :=
      @Device.extends_ensureBufferByKey alloc _ _ n hagrees
    dsimp only
    cases hresult : s.device.ensureBufferByKey alloc a.key n with
    | mk outcome d' =>
      rw [hresult] at hextends hstaging
      cases outcome with
      | error e =>
        have hs : ({ s with device := d' } : Session).Placed resolve :=
          h.mono hstaging hextends rfl rfl h.launch
        exact hs.close
      | ok r =>
        have hs : ({ s with
            device := { d' with pins := d'.pins ++ r.backing.allocations } } :
              Session).Placed resolve :=
          h.mono hstaging hextends rfl rfl h.launch
        refine hs.go hdg ⟨haddresses, ?_⟩
        rintro rest' patched' ⟨⟩
        refine ⟨fun b hb => hrest (mem_cons_of_mem _ hb), ?_⟩
        intro p hp
        obtain hp | hp := mem_append.1 hp
        · exact hplaced p hp
        obtain rfl := mem_singleton.1 hp
        refine ⟨hrest mem_cons_self, ?_⟩
        intro region hregion
        have hargument := haddresses a (hrest mem_cons_self)
        have hknown := h.known dg hdg a.argument (regionPorts_of_argument hargument) region hregion
        exact placed_ensureBufferByKey hresult h.staging hknown hreuse

theorem Session.Placed.chooseAlias (h : s.Placed resolve) (hdg : s.program = some dg)
    (hlaunch : l.Placed (resolve s.activeImage) dg) (a : DeferredAlias)
    (pending unresolved : List DeferredAlias) (madeProgress : Bool) :
    (s.chooseAlias l a pending unresolved madeProgress).Placed resolve := by
  have hearly : ∀ pending unresolved madeProgress chosen,
      (s.go l (.aliasing pending unresolved madeProgress chosen)).Placed resolve :=
    fun _ _ _ _ => h.go hdg (hlaunch.early fun _ _ heq => by cases heq)
  unfold Session.chooseAlias
  split
  · exact hearly _ _ _ _
  · exact hearly _ _ _ _
  · exact hearly _ _ _ _
  · exact h.close

theorem Session.Placed.endPass (h : s.Placed resolve) (hdg : s.program = some dg)
    (hlaunch : l.Placed (resolve s.activeImage) dg) (unresolved : List DeferredAlias)
    (madeProgress : Bool) :
    (s.endPass l unresolved madeProgress).Placed resolve := by
  unfold Session.endPass
  split
  · exact h.go hdg hlaunch.start
  split
  · exact h.go hdg (hlaunch.early fun _ _ heq => by cases heq)
  · exact h.go hdg (hlaunch.early fun _ _ heq => by cases heq)

theorem Session.Placed.proceed {result : Bool × Session} (hs : result.2.Placed resolve)
    (hprogram : result.2.program = s.program) (himage : result.2.activeImage = s.activeImage)
    (hdg : s.program = some dg) (hlaunch : l.Placed (resolve s.activeImage) dg) {phase : Phase}
    (hphase : ∀ rest patched, phase ≠ .addressing rest patched) :
    (match result with
      | (true, s) => s.go l phase
      | (false, s) => s.close).Placed resolve := by
  obtain ⟨ok, s'⟩ := result
  cases ok with
  | true => exact hs.go (hprogram.trans hdg) (himage ▸ hlaunch.early hphase)
  | false => exact hs.close

theorem Session.Placed.tick (h : s.Placed resolve) (hplacing : s.placing resolve .tick = true) :
    (s.tick alloc).Placed resolve := by
  unfold Session.tick
  cases hl : s.launch with
  | none => exact h
  | some l =>
    rw [Session.placing, hl] at hplacing
    obtain ⟨dg, hdg, hlaunch⟩ := h.launch l hl
    dsimp only at hplacing ⊢
    split
    · obtain ⟨hs, -, hprogram, himage⟩ := h.aliasBufferKey _ _
      exact hs.proceed hprogram himage hdg hlaunch fun _ _ heq => by cases heq
    · exact h.chooseAlias hdg hlaunch _ _ _ _
    · exact h.endPass hdg hlaunch _ _
    · exact h.go hdg hlaunch.start
    · rename_i a rest hphase
      split
      · exact h.close
      · rw [hphase] at hplacing
        obtain ⟨hs, -, hprogram, himage⟩ := @Session.Placed.setInputBuffer _ alloc _ h _ _ hplacing
        exact hs.proceed hprogram himage hdg hlaunch fun _ _ heq => by cases heq
    · obtain ⟨hs, -, hprogram, himage⟩ := h.aliasBufferKey _ _
      exact hs.proceed hprogram himage hdg hlaunch fun _ _ heq => by cases heq
    · rename_i a rest patched hphase
      exact h.resolveAddress hl hphase hplacing
    · exact h

/-- A program's regions are known once they are published. -/
theorem Device.knows_populate {resolve : RegionOf} {d d' : Device}
    (h : populateBufferRegions resolve d dg = .ok d') : d'.Knows resolve dg := by
  obtain ⟨resolved, hresolved, rfl⟩ := populateBufferRegions_eq h
  intro p hp region hregion
  show OrderedMap.find? _ _ = _
  rw [OrderedMap.find?_assignAll, resolvedRegions_spec hresolved hp hregion]
  rfl

/-- Publishing the regions of another program keeps those of the compiled one. -/
theorem Device.Knows.populate {resolve : RegionOf} {d d' : Device} {dg other : QueueProgram}
    (h : d.Knows resolve dg) (hpopulate : populateBufferRegions resolve d other = .ok d')
    (hagree : regionsAgree resolve dg other = true) : d'.Knows resolve dg := by
  obtain ⟨resolved, hresolved, rfl⟩ := populateBufferRegions_eq hpopulate
  intro p hp region hregion
  rw [regionsAgree, hresolved] at hagree
  have hport := all_eq_true.1 hagree p hp
  rw [hregion] at hport
  show OrderedMap.find? _ _ = _
  rw [OrderedMap.find?_assignAll]
  cases hpublished : resolved.find? (keyOf p.buffer) with
  | none => exact h p hp region hregion
  | some published =>
    rw [hpublished] at hport
    exact congrArg some (of_decide_eq_true hport).symm

theorem Session.Placed.step (h : s.Placed resolve) (act : Act)
    (hplacing : s.placing resolve act = true) : (s.step alloc resolve act).Placed resolve := by
  cases act with
  | setPdiStagingDevice => exact h.mono h.staging.symm (.refl _) rfl rfl h.launch
  | activate imageId =>
    -- the images wire the program's ports alike, so its regions are still the ones it asks for
    have hagree : ∀ dg, s.program = some dg → ∀ p ∈ (kernels dg).flatMap regionPorts,
        resolve imageId p.kernel p.port = resolve s.activeImage p.kernel p.port := by
      intro dg hdg p hp
      rw [Session.placing, hdg] at hplacing
      exact of_decide_eq_true (all_eq_true.1 hplacing p hp)
    refine ⟨h.staging, ?_, ?_⟩
    · intro dg hdg p hp region hregion
      exact h.known dg hdg p hp region ((hagree dg hdg p hp).symm.trans hregion)
    · intro l hl
      obtain ⟨dg, hdg, haddresses, hpatched⟩ := h.launch l hl
      refine ⟨dg, hdg, haddresses, ?_⟩
      intro rest patched hphase
      obtain ⟨hrest, hplaced⟩ := hpatched rest patched hphase
      refine ⟨hrest, fun p hp => ⟨(hplaced p hp).1, ?_⟩⟩
      intro region hregion
      have hport := regionPorts_of_argument (haddresses _ (hplaced p hp).1)
      exact (hplaced p hp).2 region ((hagree dg hdg _ hport).symm.trans hregion)
  | compileProgram dg =>
    unfold Session.step
    dsimp only
    split
    · rename_i d hnone hregions
      obtain ⟨resolved, -, hd⟩ := populateBufferRegions_eq hregions
      refine ⟨?_, ?_, ?_⟩
      · rw [hd]
        exact h.staging
      · rintro dg' ⟨⟩
        exact knows_populate hregions
      · intro l hl
        rw [hnone] at hl
        cases hl
    · exact h
  | projectProgram dg =>
    unfold Session.step
    dsimp only
    split
    · rename_i d hregions
      obtain ⟨resolved, -, hd⟩ := populateBufferRegions_eq hregions
      refine ⟨?_, ?_, h.launch⟩
      · rw [hd]
        exact h.staging
      · intro program hprogram
        rw [Session.placing, hprogram] at hplacing
        exact (h.known program hprogram).populate hregions hplacing
    · exact h
  | setInputBuffer bufferName bytes => exact (h.setInputBuffer bytes hplacing).1
  | launch aliases addresses =>
    unfold Session.step
    dsimp only
    split
    · rename_i dg hprogram hnone
      split
      · rename_i hmem
        refine h.mono rfl (.refl _) rfl rfl ?_
        intro l hl
        obtain rfl := Option.some.inj hl
        refine ⟨dg, hprogram, hmem.2, ?_⟩
        intro rest patched heq
        cases heq
      · exact h
    · exact h
  | tick => exact h.tick hplacing
  | timeout => exact h.close
  | finish m =>
    unfold Session.step Session.finish
    dsimp only
    split
    · refine h.mono rfl (.refl _) rfl rfl ?_
      intro l hl
      cases hl
    · exact h

end Steps

/-! ## Region soundness -/

/-- Every argument of a launch that is ready to be submitted lies in the region of its port. -/
def Session.RegionSound (resolve : String → RegionOf) (s : Session) : Prop :=
  ∀ l patched, s.launch = some l → l.phase = .addressing [] patched →
    ∀ p ∈ patched, p.Placed (resolve s.activeImage)

/-- A device with a staging device. -/
def stagedSession : Session := { device := { staging := true } }

theorem Session.Placed.init (resolve : String → RegionOf) : stagedSession.Placed resolve where
  staging := rfl
  known := by
    intro dg h
    cases h
  launch := by
    intro l h
    cases h

/-- In every history of a device with a staging device whose steps meet the condition, launches are
submitted with every argument in the region of its port. -/
theorem region_sound (alloc : Allocator) (resolve : String → RegionOf) (acts : List Act)
    (hplacing : Along (Session.step alloc resolve) (fun s act => s.placing resolve act = true)
      stagedSession acts) :
    (runFrom (Session.step alloc resolve) stagedSession acts).RegionSound resolve := by
  have hplaced : (runFrom (Session.step alloc resolve) stagedSession acts).Placed resolve :=
    hplacing.invariant (fun _ act hact h => Session.Placed.step h act hact)
      (Session.Placed.init resolve)
  intro l patched hl hphase
  obtain ⟨dg, -, -, hpatched⟩ := hplaced.launch l hl
  intro p hp
  exact ((hpatched [] patched hphase).2 p hp).2

/-- The kernel `name` reads the buffer `x`. -/
def readerProgram (name : String) : QueueProgram where
  commands :=
    [.kernel {
      id := "k1"
      kernel := { name, inputs := ["in"] }
      ioMap := { inputs := [("in", ⟨0, "x", true⟩)] } }]

/-- The kernel `left` reaches one HBM port, and every other kernel another one. -/
def twoPorts : String → RegionOf := fun _ kernel _ =>
  some ⟨.hbm, some (if kernel.name = "left" then 0 else 1)⟩

/-- An allocator with room for one buffer. -/
def oneBuffer : Allocator := fun live _ _ => if live = [] then some 0x4000000000 else none

theorem oneBuffer_lawful : oneBuffer.Lawful := by
  intro live bytes region address h a ha
  unfold oneBuffer at h
  split at h
  · rename_i hempty
    rw [hempty] at ha
    cases ha
  · cases h

/-- A program is compiled, launched with four bytes for `x`, and runs. -/
def launchReader (name : String) : List Act :=
  [.compileProgram (readerProgram name),
   .launch [] ((deferredArguments (readerProgram name)).map fun p => ⟨p, .ok 4⟩), .tick, .tick]

/-- Two launches of one program meet the condition. -/
theorem region_sound_relaunch :
    Along (Session.step oneBuffer twoPorts) (fun s act => s.placing twoPorts act = true)
      stagedSession (launchReader "left" ++ .finish (fun _ _ => 0) :: launchReader "left") ∧
    (runFrom (Session.step oneBuffer twoPorts) stagedSession
      (launchReader "left" ++ .finish (fun _ _ => 0) :: launchReader "left")).submitted =
        some [.mem ⟨0x4000000000, 4, ⟨.hbm, some 0⟩⟩] ∧
    (runFrom (Session.step oneBuffer twoPorts) stagedSession
      (launchReader "left" ++ .finish (fun _ _ => 0) :: launchReader "left")).RegionSound
        twoPorts := by
  refine ⟨by decide +kernel, by decide +kernel, ?_⟩
  exact region_sound oneBuffer twoPorts _ (by decide +kernel)

/-- The second program reads `x` through another HBM port, and is given the buffer of the first. -/
theorem region_sound_other_port :
    oneBuffer.Lawful ∧ ¬ (runFrom (Session.step oneBuffer twoPorts) stagedSession
      (launchReader "left" ++ .finish (fun _ _ => 0) :: launchReader "right")).RegionSound
        twoPorts := by
  refine ⟨oneBuffer_lawful, fun h => ?_⟩
  let p : Patched :=
    ⟨⟨⟨{ name := "right", inputs := ["in"] }, "in", ⟨0, "x", true⟩⟩, .ok 4⟩, 4,
      ⟨4, 4, .mem ⟨0x4000000000, 4, ⟨.hbm, some 0⟩⟩⟩⟩
  have hlaunch : (runFrom (Session.step oneBuffer twoPorts) stagedSession
      (launchReader "left" ++ .finish (fun _ _ => 0) :: launchReader "right")).launch =
        some ⟨[], [p.address], .addressing [] [p]⟩ := by
    decide +kernel
  obtain ⟨a, hbacking, hregion⟩ := h _ [p] hlaunch rfl p mem_cons_self
    ⟨.hbm, some 1⟩ (by decide +kernel)
  obtain rfl := Backing.mem.inj hbacking
  exact absurd hregion (by decide)

end Slash.Fpga
