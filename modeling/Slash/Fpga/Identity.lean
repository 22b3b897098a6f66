import Slash.Fpga.Sessions

/-!
# One buffer for each canonical key

When a launch is submitted, its arguments stand for their tokens: tokens with one canonical key have
one address with room for all of them, other tokens have other memory, and what was staged is there.
It is so in every history whose steps are careful, and not in every history: a request for more
bytes than the record has puts a new record in its place, and the arguments that were patched with
the old one are not revisited.
-/

namespace Slash.Fpga

open List
open Lib (OrderedMap runFrom Along)

/-! ## The steps of a launch -/

theorem Session.Fits.aliasing {s : Session} {l : Launch} {pending unresolved : List DeferredAlias}
    {madeProgress : Bool} {chosen : Option (BufferKey × BufferKey)}
    (hnormal : ∀ a ∈ pending ++ unresolved, a.Normal)
    (hchosen : ∀ target source, chosen = some (target, source) →
      normalizeBufferKey target = target ∧ normalizeBufferKey source = source)
    (haliases : ∀ a ∈ l.aliases, a ∈ pending ++ unresolved ∨
      chosen = some (a.targetKey, a.sourceKey) ∨ chosen = some (a.sourceKey, a.targetKey) ∨
      s.device.SameBuffer a.sourceKey a.targetKey) :
    s.Fits { l with phase := .aliasing pending unresolved madeProgress chosen } :=
  ⟨hnormal, hchosen, haliases⟩

theorem Session.Kept.chooseAlias {s : Session} (h : s.Kept) {l : Launch} {a : DeferredAlias}
    {pending unresolved : List DeferredAlias} (madeProgress : Bool)
    (hnormal : ∀ b ∈ a :: pending ++ unresolved, b.Normal)
    (haliases : ∀ b ∈ l.aliases, b ∈ a :: pending ++ unresolved ∨
      s.device.SameBuffer b.sourceKey b.targetKey) :
    (s.chooseAlias l a pending unresolved madeProgress).Kept := by
  have ha : a.Normal := hnormal a (by simp)
  have hrest : ∀ b ∈ pending ++ unresolved, b.Normal :=
    fun b hb => hnormal b (mem_cons_of_mem _ hb)
  unfold Session.chooseAlias
  split
  · refine h.go (Session.Fits.aliasing hrest ?_ ?_)
    · rintro target source ⟨⟩
      exact ⟨ha.2, ha.1⟩
    · intro b hb
      obtain hmem | hsame := haliases b hb
      · obtain rfl | hmem := mem_cons.1 hmem
        · exact .inr (.inl rfl)
        · exact .inl hmem
      · exact .inr (.inr (.inr hsame))
  · refine h.go (Session.Fits.aliasing hrest ?_ ?_)
    · rintro target source ⟨⟩
      exact ⟨ha.1, ha.2⟩
    · intro b hb
      obtain hmem | hsame := haliases b hb
      · obtain rfl | hmem := mem_cons.1 hmem
        · exact .inr (.inr (.inl rfl))
        · exact .inl hmem
      · exact .inr (.inr (.inr hsame))
  · refine h.go (Session.Fits.aliasing ?_ ?_ ?_)
    · intro b hb
      refine hnormal b ?_
      simp only [mem_append, mem_cons, not_mem_nil, or_false] at hb ⊢
      tauto
    · intro target source hnone
      cases hnone
    · intro b hb
      refine (haliases b hb).imp (fun hmem => ?_) fun hsame => .inr (.inr hsame)
      simp only [cons_append, mem_append, mem_cons, not_mem_nil,
        or_false] at hmem ⊢
      tauto
  · exact h.close

theorem Session.Kept.endPass {s : Session} (h : s.Kept) {l : Launch}
    {unresolved : List DeferredAlias} (madeProgress : Bool)
    (hnormal : ∀ b ∈ unresolved, b.Normal)
    (haliases : ∀ b ∈ l.aliases, b ∈ unresolved ∨ s.device.SameBuffer b.sourceKey b.targetKey) :
    (s.endPass l unresolved madeProgress).Kept := by
  unfold Session.endPass
  split
  · rename_i hempty
    obtain rfl := isEmpty_iff.1 hempty
    refine h.go ⟨fun b hb => (haliases b hb).resolve_left not_mem_nil, ?_, ?_⟩
    · exact nil_append _
    · intro p hp
      cases hp
  split
  · refine h.go (Session.Fits.aliasing ?_ ?_ ?_)
    · rw [append_nil]
      exact hnormal
    · intro target source hnone
      cases hnone
    · intro b hb
      rw [append_nil]
      exact (haliases b hb).imp_right fun hsame => .inr (.inr hsame)
  · refine h.go ⟨hnormal, ?_, haliases⟩
    intro a tail _ hfalse
    cases hfalse

theorem Session.Kept.resolveAddress {alloc : Allocator} (halloc : alloc.Lawful) {s : Session}
    (h : s.Kept) {l : Launch} (hl : s.launch = some l) {a : DeferredAddress}
    {rest : List DeferredAddress} {patched : List Patched}
    (hphase : l.phase = .addressing (a :: rest) patched)
    (hcareful : s.carefulTick l.phase = true) :
    (s.resolveAddress alloc l a rest patched).Kept := by
  unfold Session.resolveAddress
  cases hbytes : a.bytes with
  | error e => exact h.close
  | ok n =>
    obtain ⟨k, hk, ⟨e, he⟩ | ⟨r, d', heq, hsound, hstores, hcapacity, horigin⟩⟩ :=
      h.sound.ensureBufferByKey halloc a.key n
    · simp only [he]
      have hkept : ({ s with device := s.device.requestRegion a.key k } : Session).Kept :=
        h.congr (by simp) (by simp) (by simp) (by simp) rfl h.launch
      exact hkept.close
    simp only [heq]
    have hkeep : s.device.isPatched patched a.key = true ∨ s.isStaged a.key = true →
        s.device.Keeps k r := by
      intro hused
      refine h.keeps hl hphase hk horigin ?_ hused
      rw [hphase, Session.carefulTick, hbytes] at hcareful
      have hor : (s.device.isPatched patched a.key || s.isStaged a.key) = true :=
        Bool.or_eq_true_iff.2 hused
      simpa only [hor, Bool.and_true, Bool.not_eq_true'] using hcareful
    have hmemory : d'.memory = s.device.memory :=
      hstores.memory.trans (Device.memory_requestRegion _ _ _)
    have hkept : ({ s with
        device := { d' with pins := d'.pins ++ r.backing.allocations } } : Session).Kept := by
      refine h.stores hk hsound hstores ?_ rfl rfl rfl rfl (fun _ hsome => hsome) ?_
      · intro l' rest' patched' hl' hphase' hpatched
        obtain rfl := Option.some.inj (hl.symm.trans hl')
        obtain ⟨-, rfl⟩ := Phase.addressing.inj (hphase.symm.trans hphase')
        exact hkeep (.inl hpatched)
      · intro k' bytes hstaged
        obtain ⟨r', hr', hlength, hholds⟩ := h.staged k' bytes hstaged
        simp only [hmemory]
        by_cases hkk : k' = k
        · subst hkk
          obtain ⟨r₀, hr₀, hb₀, hc₀⟩ := hkeep (.inr ((Session.isStaged_iff hk).2 ⟨bytes, hstaged⟩))
          obtain rfl := Option.some.inj (hr'.symm.trans hr₀)
          refine ⟨r, OrderedMap.find?_insert_self _ _ _, hc₀ ▸ hlength, ?_⟩
          rw [← hb₀]
          exact hholds
        · exact ⟨r', (OrderedMap.find?_insert_ne _ _ hkk).trans hr', hlength, hholds⟩
    have hfits := hkept.launch l hl
    unfold Session.Fits at hfits
    rw [hphase] at hfits
    obtain ⟨haliases, haddresses, hpatched⟩ := hfits
    refine hkept.go ⟨haliases, ?_, ?_⟩
    · rw [map_append, append_assoc]
      exact haddresses
    · intro p hp
      obtain hp | hp := mem_append.1 hp
      · exact hpatched p hp
      · obtain rfl := mem_singleton.1 hp
        refine ⟨k, r, ?_, ?_, rfl, rfl, hcapacity⟩
        · exact (Device.canonicalBufferKey_congr
            (hstores.aliases.trans (Device.aliases_requestRegion _ _ _)) _).trans hk
        · show d'.buffers.find? k = some r
          rw [hstores.buffers, OrderedMap.find?_insert_self]

section Tick

variable {alloc : Allocator} {s : Session} {aliases : List DeferredAlias}
  {addresses : List DeferredAddress}

theorem Session.Kept.makeAlias (h : s.Kept) {pending unresolved : List DeferredAlias}
    {madeProgress : Bool} {target source : BufferKey}
    (hl : s.launch = some ⟨aliases, addresses,
      .aliasing pending unresolved madeProgress (some (target, source))⟩)
    (hcareful : s.careful .tick = true) : (s.tick alloc).Kept := by
  obtain ⟨hnormal, hchosen, haliases⟩ := h.launch _ hl
  obtain ⟨htarget, hsource⟩ := hchosen target source rfl
  have hphase : ∀ l rest patched, s.launch = some l → l.phase ≠ .addressing rest patched := by
    intro l rest patched hl' hphase
    obtain rfl := Option.some.inj (hl.symm.trans hl')
    cases hphase
  rw [Session.careful, hl] at hcareful
  obtain ⟨hkept, -, hmono, hdone⟩ := h.aliasBufferKey htarget hsource hphase
    (by simpa [Session.carefulTick, or_assoc] using hcareful)
  unfold Session.tick
  rw [hl]
  dsimp only
  generalize s.aliasBufferKey target source = result at *
  obtain ⟨ok, s'⟩ := result
  cases ok with
  | false => exact hkept.close
  | true =>
    refine hkept.go (Session.Fits.aliasing hnormal ?_ ?_)
    · intro target source hnone
      cases hnone
    · intro a ha
      obtain hmem | hchosen | hchosen | hsame := haliases a ha
      · exact .inl hmem
      · obtain ⟨rfl, rfl⟩ := Prod.mk.inj (Option.some.inj hchosen)
        exact .inr (.inr (.inr (hdone rfl).symm))
      · obtain ⟨rfl, rfl⟩ := Prod.mk.inj (Option.some.inj hchosen)
        exact .inr (.inr (.inr (hdone rfl)))
      · exact .inr (.inr (.inr (hmono _ _ hsame)))

theorem Session.Kept.seed (halloc : alloc.Lawful) (h : s.Kept) {a : DeferredAlias}
    {rest : List DeferredAlias}
    (hl : s.launch = some ⟨aliases, addresses, .seeding (a :: rest) false⟩) :
    (s.tick alloc).Kept := by
  obtain ⟨hnormal, -, -⟩ := h.launch _ hl
  unfold Session.tick
  rw [hl]
  dsimp only
  cases a.bytes with
  | error e => exact h.close
  | ok n =>
    have hcareful : ∀ l, s.launch = some l →
        s.carefulInput a.sourceKey (List.replicate n 0) l.phase = true := by
      intro l hl'
      obtain rfl := Option.some.inj (hl.symm.trans hl')
      rfl
    obtain ⟨hkept, hlaunch, hstaged⟩ := h.setInputBuffer halloc _ _ hcareful
    dsimp only
    generalize s.setInputBuffer alloc a.sourceKey (List.replicate n 0) = result at *
    obtain ⟨ok, s'⟩ := result
    cases ok with
    | false => exact hkept.close
    | true =>
      obtain ⟨-, -, haliases⟩ := hkept.launch _ (hlaunch.trans hl)
      refine hkept.go (l := ⟨aliases, addresses, _⟩) ⟨hnormal, ?_, haliases⟩
      rintro b tail ⟨⟩ -
      have hstaged' := hstaged rfl
      rw [(hnormal a mem_cons_self).1] at hstaged'
      exact hstaged'

theorem Session.Kept.aliasSeeded (h : s.Kept) {a : DeferredAlias} {rest : List DeferredAlias}
    (hl : s.launch = some ⟨aliases, addresses, .seeding (a :: rest) true⟩) :
    (s.tick alloc).Kept := by
  obtain ⟨hnormal, hseeded, haliases⟩ := h.launch _ hl
  obtain ⟨hsource, htarget⟩ := hnormal a mem_cons_self
  have hphase : ∀ l rest patched, s.launch = some l → l.phase ≠ .addressing rest patched := by
    intro l rest patched hl' hphase
    obtain rfl := Option.some.inj (hl.symm.trans hl')
    cases hphase
  obtain ⟨hkept, -, hmono, hdone⟩ := h.aliasBufferKey htarget hsource hphase
    (.inr (.inr (hseeded a rest rfl rfl)))
  unfold Session.tick
  rw [hl]
  dsimp only
  generalize s.aliasBufferKey a.targetKey a.sourceKey = result at *
  obtain ⟨ok, s'⟩ := result
  cases ok with
  | false => exact hkept.close
  | true =>
    refine hkept.go (l := ⟨aliases, addresses, _⟩)
      ⟨fun b hb => hnormal b (mem_cons_of_mem _ hb), ?_, ?_⟩
    · intro _ _ _ hfalse
      cases hfalse
    · intro b hb
      obtain hmem | hsame := haliases b hb
      · obtain rfl | hmem := mem_cons.1 hmem
        · exact .inr (hdone rfl).symm
        · exact .inl hmem
      · exact .inr (hmono _ _ hsame)

theorem Session.Kept.tick (halloc : alloc.Lawful) (h : s.Kept)
    (hcareful : s.careful .tick = true) : (s.tick alloc).Kept := by
  cases hl : s.launch with
  | none =>
    rw [Session.tick, hl]
    exact h
  | some l =>
    obtain ⟨aliases, addresses, phase⟩ := l
    cases phase with
    | aliasing pending unresolved madeProgress chosen =>
      cases chosen with
      | some pair => exact h.makeAlias hl hcareful
      | none =>
        obtain ⟨hnormal, -, haliases⟩ := h.launch _ hl
        have hleft : ∀ a ∈ aliases, a ∈ pending ++ unresolved ∨
            s.device.SameBuffer a.sourceKey a.targetKey := by
          intro a ha
          obtain hmem | hchosen | hchosen | hsame := haliases a ha
          · exact .inl hmem
          · cases hchosen
          · cases hchosen
          · exact .inr hsame
        rw [Session.tick, hl]
        cases pending with
        | cons a pending => exact h.chooseAlias madeProgress hnormal hleft
        | nil => exact h.endPass madeProgress hnormal hleft
    | seeding rest seeded =>
      cases rest with
      | nil =>
        obtain ⟨-, -, haliases⟩ := h.launch _ hl
        rw [Session.tick, hl]
        refine h.go (l := ⟨aliases, addresses, _⟩)
          ⟨fun a ha => (haliases a ha).resolve_left not_mem_nil, nil_append _, ?_⟩
        intro p hp
        cases hp
      | cons a rest =>
        cases seeded with
        | false => exact h.seed halloc hl
        | true => exact h.aliasSeeded hl
    | addressing rest patched =>
      rw [Session.tick, hl]
      cases rest with
      | nil => exact h
      | cons a rest =>
        rw [Session.careful, hl] at hcareful
        exact h.resolveAddress halloc hl rfl hcareful

end Tick

/-- The kernels of a launch write into its own buffers only. -/
theorem Session.Kept.finish {s : Session} (h : s.Kept) (m : Memory) : (s.finish m).Kept := by
  unfold Session.finish
  split
  · rename_i aliases addresses patched hl
    obtain ⟨-, -, hpatched⟩ := h.launch _ hl
    dsimp only
    have hkept : ({ s with
        launch := none
        device := { s.device with
          memory := fun space n =>
            if patched.any fun p => p.covers space n then m space n
            else s.device.memory space n }
        staged := fun k =>
          if patched.any fun p =>
              (s.device.canonicalBufferKey p.address.key).toOption = some k then none
          else s.staged k } : Session).Kept := by
      refine ⟨h.sound.congr rfl rfl rfl, ?_, fun l hl' => by cases hl'⟩
      intro k bytes hbytes
      dsimp only at hbytes ⊢
      split at hbytes
      · cases hbytes
      rename_i hforeign
      obtain ⟨r, hr, hlength, hholds⟩ := h.staged k bytes hbytes
      refine ⟨r, hr, hlength, ?_⟩
      intro i hi
      rw [← hholds i hi]
      refine if_neg ?_
      intro hany
      obtain ⟨p, hp, hcovers⟩ := any_eq_true.1 hany
      obtain ⟨kp, rp, hkp, hrp, hbacking, hcapacity, -⟩ := hpatched p hp
      have hne : kp ≠ k := by
        rintro rfl
        refine hforeign (any_eq_true.2 ⟨p, hp, ?_⟩)
        rw [hkp]
        exact decide_eq_true rfl
      have hapart := h.sound.apart kp k rp r hne hrp hr
      rw [Patched.covers, decide_eq_true_iff, ← hbacking, ← hcapacity] at hcovers
      obtain ⟨hspace, hlow, hhigh⟩ := hcovers
      obtain hspaces | hle | hle := hapart
      · exact hspaces hspace.symm
      · omega
      · omega
    exact hkept.close
  · exact h

/-- The aliases of a program have scoped keys. -/
theorem normal_of_mem {dg : Host.QueueProgram} {a : DeferredAlias}
    (h : (a.sourceKey, a.targetKey) ∈ deferredAliases dg) : a.Normal := by
  have hscoped : ∃ scope name scope' name', a.sourceKey = scopedBufferKey scope name ∧
      a.targetKey = scopedBufferKey scope' name' := by
    obtain hkernel | hboundary := mem_append.1 h
    · obtain ⟨k, -, hk⟩ := mem_flatMap.1 hkernel
      obtain ⟨port, -, hport⟩ := mem_filterMap.1 hk
      obtain ⟨b, -, hb⟩ := Option.map_eq_some_iff.1 hport
      obtain ⟨hsource, htarget⟩ := Prod.mk.inj hb
      exact ⟨_, _, _, _, hsource.symm, htarget.symm⟩
    · obtain ⟨command, -, hcommand⟩ := mem_flatMap.1 hboundary
      cases command with
      | boundary b =>
        obtain ⟨copy, -, hcopy⟩ := mem_map.1 hcommand
        obtain ⟨hsource, htarget⟩ := Prod.mk.inj hcopy
        exact ⟨_, _, _, _, hsource.symm, htarget.symm⟩
      | _ => cases hcommand
  obtain ⟨scope, name, scope', name', hsource, htarget⟩ := hscoped
  rw [DeferredAlias.Normal, hsource, htarget]
  exact ⟨normalizeBufferKey_scoped _ _, normalizeBufferKey_scoped _ _⟩

theorem Session.Kept.step {alloc : Allocator} (halloc : alloc.Lawful) (resolve : String → RegionOf)
    {s : Session} (h : s.Kept) (act : Act) (hcareful : s.careful act = true) :
    (s.step alloc resolve act).Kept := by
  cases act with
  | setPdiStagingDevice => exact h.congr rfl rfl rfl rfl rfl h.launch
  | activate imageId => exact h.congr rfl rfl rfl rfl rfl h.launch
  | compileProgram dg =>
    unfold Session.step
    dsimp only
    split
    · rename_i d hnone hregions
      obtain ⟨resolved, -, rfl⟩ := populateBufferRegions_eq hregions
      exact h.congr rfl rfl rfl rfl rfl h.launch
    · exact h
  | projectProgram dg =>
    unfold Session.step
    dsimp only
    split
    · rename_i d hregions
      obtain ⟨resolved, -, rfl⟩ := populateBufferRegions_eq hregions
      exact h.congr rfl rfl rfl rfl rfl h.launch
    · exact h
  | setInputBuffer bufferName bytes =>
    refine (h.setInputBuffer halloc bufferName bytes ?_).1
    intro l hl
    rw [Session.careful, hl] at hcareful
    exact hcareful
  | launch aliases addresses =>
    unfold Session.step
    dsimp only
    split
    · rename_i dg hprogram hnone
      split
      · rename_i hmem
        refine h.congr rfl rfl rfl rfl rfl ?_
        intro l hl
        obtain rfl := Option.some.inj hl
        refine Session.Fits.aliasing (l := ⟨aliases, addresses, .aliasing aliases [] false none⟩) ?_ ?_ ?_
        · intro a ha
          rw [append_nil] at ha
          exact normal_of_mem (hmem.1 a ha)
        · intro target source hnone
          cases hnone
        · intro a ha
          rw [append_nil]
          exact .inl ha
      · exact h
    · exact h
  | tick => exact h.tick halloc hcareful
  | timeout => exact h.close
  | finish m => exact h.finish m

/-! ## Identity -/

/-- The buffers of a launch that is ready to be submitted. -/
structure Session.Submitted (s : Session) (l : Launch) (patched : List Patched) : Prop where
  /-- Every argument is patched. -/
  complete : patched.map Patched.address = l.addresses
  /-- Tokens with one canonical key have one address, with room for each of them. -/
  address : ∀ p ∈ patched, ∀ p' ∈ patched,
    s.device.SameBuffer p.address.key p'.address.key →
    p.record.backing.deviceAddress = p'.record.backing.deviceAddress ∧
      p'.bytes ≤ p.record.capacity
  /-- Other tokens have other memory. -/
  apart : ∀ p ∈ patched, ∀ p' ∈ patched,
    ¬ s.device.SameBuffer p.address.key p'.address.key → p.record.Apart p'.record
  /-- What was staged is where the argument points. -/
  staged : ∀ p ∈ patched, ∀ k bytes, s.device.canonicalBufferKey p.address.key = .ok k →
    s.staged k = some bytes → s.device.memory.Holds p.record.backing bytes

/-- Buffers keep their identity: every key has a canonical key, the two ends of an alias have the
same one once aliases are resolved, and a launch that is submitted has the right memory. -/
structure Session.Identity (s : Session) : Prop where
  canonical : ∀ key, ∃ k, s.device.canonicalBufferKey key = .ok k
  aliases : ∀ l rest patched, s.launch = some l → l.phase = .addressing rest patched →
    ∀ a ∈ l.aliases, s.device.SameBuffer a.sourceKey a.targetKey
  submitted : ∀ l patched, s.launch = some l → l.phase = .addressing [] patched →
    s.Submitted l patched

theorem Session.Kept.submitted {s : Session} (h : s.Kept) {l : Launch} {patched : List Patched}
    (hl : s.launch = some l) (hphase : l.phase = .addressing [] patched) :
    s.Submitted l patched := by
  have hfits := h.launch l hl
  unfold Session.Fits at hfits
  rw [hphase] at hfits
  obtain ⟨-, haddresses, hbacks⟩ := hfits
  refine ⟨?_, ?_, ?_, ?_⟩
  · rw [append_nil] at haddresses
    exact haddresses
  · intro p hp p' hp' hsame
    obtain ⟨k, r, hk, hr, hbacking, hcapacity, -⟩ := hbacks p hp
    obtain ⟨k', r', hk', hr', hbacking', hcapacity', hbytes'⟩ := hbacks p' hp'
    obtain rfl := Except.ok.inj (hk.symm.trans (hsame.trans hk'))
    obtain rfl := Option.some.inj (hr.symm.trans hr')
    rw [← hbacking, ← hbacking', ← hcapacity]
    exact ⟨rfl, hcapacity' ▸ hbytes'⟩
  · intro p hp p' hp' hdiffer
    obtain ⟨k, r, hk, hr, hbacking, hcapacity, -⟩ := hbacks p hp
    obtain ⟨k', r', hk', hr', hbacking', hcapacity', -⟩ := hbacks p' hp'
    have hne : k ≠ k' := by
      rintro rfl
      exact hdiffer (hk.trans hk'.symm)
    have hapart := h.sound.apart k k' r r' hne hr hr'
    unfold BufferRecord.Apart at hapart ⊢
    rw [← hbacking, ← hbacking', ← hcapacity, ← hcapacity']
    exact hapart
  · intro p hp k bytes hk hbytes
    obtain ⟨kp, r, hkp, hr, hbacking, -⟩ := hbacks p hp
    obtain rfl := Except.ok.inj (hk.symm.trans hkp)
    obtain ⟨r', hr', -, hholds⟩ := h.staged k bytes hbytes
    obtain rfl := Option.some.inj (hr.symm.trans hr')
    rw [← hbacking]
    exact hholds

theorem Session.Kept.identity {s : Session} (h : s.Kept) : s.Identity where
  canonical := h.sound.canonical
  aliases := by
    intro l rest patched hl hphase
    have hfits := h.launch l hl
    unfold Session.Fits at hfits
    rw [hphase] at hfits
    exact hfits.1
  submitted := fun _ _ => h.submitted

def noDeviceMemory : Allocator := fun _ _ _ => none

theorem noDeviceMemory_lawful : noDeviceMemory.Lawful := by
  intro live bytes region address h
  cases h

/-- A kernel that updates `a` in place as `b`, and one that reads `b`. -/
def inPlaceProgram : Host.QueueProgram where
  commands :=
    [.kernel {
      id := "k1"
      kernel := { name := "scale", inouts := [("in", "out")] }
      ioMap := { inouts := [⟨"in", "out", ⟨0, "a", true⟩, ⟨0, "b", true⟩⟩] } },
     .kernel {
      id := "k2"
      kernel := { name := "reduce", inputs := ["x"] }
      ioMap := { inputs := [("x", ⟨0, "b", true⟩)] }
      dependsOn := ["k1"] }]

/-- Four bytes are staged for `a`, and the program is launched with `n` bytes for `b`. -/
def inPlaceHistory (n : Nat) : List Act :=
  [.compileProgram inPlaceProgram, .setInputBuffer "a" [1, 2, 3, 4],
   .launch [⟨"scope:0:a", "scope:0:b", .ok 4⟩]
    ((deferredArguments inPlaceProgram).map fun p =>
      ⟨p, .ok (if p.port = "in" then 4 else n)⟩),
   .tick, .tick, .tick, .tick, .tick]

end Slash.Fpga
