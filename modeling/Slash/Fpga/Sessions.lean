import Slash.Fpga.Launches
import Slash.Fpga.Stores

/-!
# What a careful history keeps

The invariant of a device's history. Between steps the buffer tables are sound, what was staged
under a canonical key lies in the record of that key, and a launch has resolved what its phase says
(`Session.Fits`): no alias is lost between passes, and the record behind a patched argument is
still the record of its canonical key.

Two steps break it, and `Session.careful` is what excludes them. A request for a larger or
differently placed buffer replaces the record of a key that an argument was already patched with, or
that holds staged bytes; and an alias hangs a staged key below one that has a record but no staged
bytes.
-/

namespace Slash.Fpga

open Lib (OrderedMap)

instance (d : Device) (key key' : BufferKey) : Decidable (d.SameBuffer key key') :=
  inferInstanceAs (Decidable (d.canonicalBufferKey key = d.canonicalBufferKey key'))

/-! ## The condition -/

/-- A request for `n` bytes puts a new record in the place of one that is there. -/
def Device.replaces (d : Device) (key : BufferKey) (n : Nat) : Bool :=
  match d.canonicalBufferKey key with
  | .ok k => d.buffers.contains k && ((d.requestRegion key k).reusable k n).isNone
  | .error _ => false

def Device.isPatched (d : Device) (patched : List Patched) (key : BufferKey) : Bool :=
  patched.any fun p => d.SameBuffer p.address.key key

namespace Session

variable (s : Session)

def isStaged (key : BufferKey) : Bool :=
  match s.device.canonicalBufferKey key with
  | .ok k => (s.staged k).isSome
  | .error _ => false

/-- The next step of a launch keeps what was patched and staged. -/
def carefulTick : Phase → Bool
  | .addressing (a :: _) patched =>
    match a.bytes with
    | .ok n =>
      !(s.device.replaces a.key n && (s.device.isPatched patched a.key || s.isStaged a.key))
    | .error _ => true
  | .aliasing _ _ _ (some (target, source)) =>
    s.device.SameBuffer target source || !s.isStaged target || s.isStaged source
  | _ => true

/-- Staging keeps what was patched. -/
def carefulInput (bufferName : String) (bytes : List UInt8) : Phase → Bool
  | .addressing _ patched =>
    !(s.device.replaces (normalizeBufferKey bufferName) bytes.length &&
      s.device.isPatched patched (normalizeBufferKey bufferName))
  | _ => true

/-- A step neither replaces a record that an argument was patched with or that holds staged bytes,
nor hangs a staged key below one without staged bytes. -/
def careful : Act → Bool
  | .setInputBuffer bufferName bytes =>
    match s.launch with
    | some l => s.carefulInput bufferName bytes l.phase
    | none => true
  | .tick =>
    match s.launch with
    | some l => s.carefulTick l.phase
    | none => true
  | _ => true

end Session

/-! ## The invariant -/

/-- The keys of an alias are scoped already. -/
def DeferredAlias.Normal (a : DeferredAlias) : Prop :=
  normalizeBufferKey a.sourceKey = a.sourceKey ∧ normalizeBufferKey a.targetKey = a.targetKey

/-- The record behind a patched argument is the record of its canonical key. -/
def Device.Backs (d : Device) (p : Patched) : Prop :=
  ∃ k r, d.canonicalBufferKey p.address.key = .ok k ∧ d.buffers.find? k = some r ∧
    r.backing = p.record.backing ∧ r.capacity = p.record.capacity ∧ p.bytes ≤ p.record.capacity

/-- What a launch has resolved. -/
def Session.Fits (s : Session) (l : Launch) : Prop :=
  match l.phase with
  | .aliasing pending unresolved _ chosen =>
    (∀ a ∈ pending ++ unresolved, a.Normal) ∧
    (∀ target source, chosen = some (target, source) →
      normalizeBufferKey target = target ∧ normalizeBufferKey source = source) ∧
    ∀ a ∈ l.aliases, a ∈ pending ++ unresolved ∨ chosen = some (a.targetKey, a.sourceKey) ∨
      chosen = some (a.sourceKey, a.targetKey) ∨ s.device.SameBuffer a.sourceKey a.targetKey
  | .seeding rest seeded =>
    (∀ a ∈ rest, a.Normal) ∧
    (∀ a tail, rest = a :: tail → seeded = true → s.isStaged a.sourceKey = true) ∧
    ∀ a ∈ l.aliases, a ∈ rest ∨ s.device.SameBuffer a.sourceKey a.targetKey
  | .addressing rest patched =>
    (∀ a ∈ l.aliases, s.device.SameBuffer a.sourceKey a.targetKey) ∧
    patched.map Patched.address ++ rest = l.addresses ∧ ∀ p ∈ patched, s.device.Backs p

structure Session.Kept (s : Session) : Prop where
  sound : s.device.Sound
  staged : ∀ k bytes, s.staged k = some bytes → ∃ r, s.device.buffers.find? k = some r ∧
    bytes.length ≤ r.capacity ∧ s.device.memory.Holds r.backing bytes
  launch : ∀ l, s.launch = some l → s.Fits l

open Session

theorem Session.Kept.init : ({} : Session).Kept where
  sound := Device.Sound.init
  staged := by
    intro k bytes h
    cases h
  launch := by
    intro l h
    cases h

/-- A launch keeps fitting while aliases and staged bytes stay and its records are not replaced. -/
theorem Session.Fits.mono {s s' : Session} {l : Launch} (h : s.Fits l)
    (hsame : ∀ key key', s.device.SameBuffer key key' → s'.device.SameBuffer key key')
    (hstaged : ∀ key, s.isStaged key = true → s'.isStaged key = true)
    (hbacks : ∀ rest patched, l.phase = .addressing rest patched → ∀ p ∈ patched,
      s.device.Backs p → s'.device.Backs p) : s'.Fits l := by
  unfold Session.Fits at h ⊢
  split at h
  · obtain ⟨hnormal, hchosen, haliases⟩ := h
    refine ⟨hnormal, hchosen, fun a ha => ?_⟩
    obtain hmem | htarget | hsource | hdone := haliases a ha
    · exact .inl hmem
    · exact .inr (.inl htarget)
    · exact .inr (.inr (.inl hsource))
    · exact .inr (.inr (.inr (hsame _ _ hdone)))
  · obtain ⟨hnormal, hseeded, haliases⟩ := h
    refine ⟨hnormal, fun a tail hrest ht => hstaged _ (hseeded a tail hrest ht), fun a ha => ?_⟩
    exact (haliases a ha).imp_right (hsame _ _)
  · rename_i rest patched hphase
    obtain ⟨haliases, haddresses, hpatched⟩ := h
    exact ⟨fun a ha => hsame _ _ (haliases a ha), haddresses,
      fun p hp => hbacks rest patched hphase p hp (hpatched p hp)⟩

variable {key k : BufferKey}

theorem Session.isStaged_iff {s : Session} (hk : s.device.canonicalBufferKey key = .ok k) :
    s.isStaged key = true ↔ ∃ bytes, s.staged k = some bytes := by
  rw [isStaged, hk]
  exact Option.isSome_iff_exists

theorem Session.Kept.congr {s s' : Session} (h : s.Kept)
    (haliases : s'.device.aliases = s.device.aliases)
    (hbuffers : s'.device.buffers = s.device.buffers)
    (hnext : s'.device.nextOffset = s.device.nextOffset)
    (hmemory : s'.device.memory = s.device.memory) (hstaged : s'.staged = s.staged)
    (hlaunch : ∀ l, s'.launch = some l → s.Fits l) : s'.Kept := by
  have hkey : ∀ key, s'.device.canonicalBufferKey key = s.device.canonicalBufferKey key :=
    Device.canonicalBufferKey_congr haliases
  refine ⟨h.sound.congr haliases hbuffers hnext, ?_, fun l hl => (hlaunch l hl).mono ?_ ?_ ?_⟩
  · rw [hstaged, hbuffers, hmemory]
    exact h.staged
  · intro key key' hsame
    unfold Device.SameBuffer
    rw [hkey, hkey]
    exact hsame
  · intro key hstagedKey
    unfold isStaged at hstagedKey ⊢
    rw [hkey, hstaged]
    exact hstagedKey
  · intro rest patched _ p _ hp
    unfold Device.Backs
    rw [hkey, hbuffers]
    exact hp

theorem Session.Kept.close {s : Session} (h : s.Kept) : s.close.Kept := by
  refine h.congr rfl rfl rfl rfl rfl ?_
  intro l hl
  cases hl

theorem Session.Kept.go {s : Session} (h : s.Kept) {l : Launch} {phase : Phase}
    (hfits : s.Fits { l with phase }) : (s.go l phase).Kept := by
  refine h.congr rfl rfl rfl rfl rfl ?_
  intro l' hl'
  obtain rfl := Option.some.inj hl'
  exact hfits

/-! ## Staging -/

/-- A record that was stored in place of `r₀` is what the argument was patched with, unless it
replaced it. -/
theorem Device.Backs.stores {d d' : Device} {p : Patched} {k : BufferKey} {r : BufferRecord}
    (h : d.Backs p) (hstores : d.Stores d' k r)
    (hkeep : d.canonicalBufferKey p.address.key = .ok k → d.Keeps k r) : d'.Backs p := by
  obtain ⟨kp, rp, hkp, hrp, hbacking, hcapacity, hbytes⟩ := h
  have hkp' : d'.canonicalBufferKey p.address.key = .ok kp :=
    (Device.canonicalBufferKey_congr hstores.aliases _).trans hkp
  by_cases hk : kp = k
  · subst hk
    obtain ⟨r₀, hr₀, hb₀, hc₀⟩ := hkeep hkp
    obtain rfl := Option.some.inj (hrp.symm.trans hr₀)
    refine ⟨kp, r, hkp', ?_, hb₀.symm.trans hbacking, hc₀.symm.trans hcapacity, hbytes⟩
    rw [hstores.buffers, OrderedMap.find?_insert_self]
  · refine ⟨kp, rp, hkp', ?_, hbacking, hcapacity, hbytes⟩
    rw [hstores.buffers, OrderedMap.find?_insert_ne _ _ hk]
    exact hrp

theorem Device.Sound.ensureBufferByKey {alloc : Allocator} (halloc : alloc.Lawful) {d : Device}
    (hd : d.Sound) (key : BufferKey) (n : Nat) :
    ∃ k, d.canonicalBufferKey key = .ok k ∧
      ((∃ e, d.ensureBufferByKey alloc key n = (.error e, d.requestRegion key k)) ∨
      ∃ r d', d.ensureBufferByKey alloc key n = (.ok r, d') ∧ d'.Sound ∧
        (d.requestRegion key k).Stores d' k r ∧ n ≤ r.capacity ∧
        (d.Keeps k r ∨ d.replaces key n = true ∨ d.buffers.find? k = none)) := by
  obtain ⟨k, hk⟩ := hd.canonical key
  refine ⟨k, hk, ?_⟩
  rw [Device.ensureBufferByKey_eq n hk]
  obtain ⟨e, he⟩ | ⟨r, d', heq, hstores, hcapacity, horigin⟩ :=
    Device.ensureCanonical_cases halloc (d.requestRegion key k) k n
  · exact .inl ⟨e, he⟩
  right
  have hd' := hd.requestRegion key k
  obtain ⟨hreuse, hnext⟩ | ⟨hnone, hfresh, -⟩ := horigin
  · have hkeeps := (Device.reusable_eq hreuse).2.1
    refine ⟨r, d', heq, hstores.sound hd' (.inl ⟨hkeeps, hnext⟩), hstores, hcapacity, .inl ?_⟩
    unfold Device.Keeps at hkeeps
    rwa [Device.buffers_requestRegion] at hkeeps
  · refine ⟨r, d', heq, hstores.sound hd' (.inr hfresh), hstores, hcapacity, .inr ?_⟩
    cases hfind : d.buffers.find? k with
    | none => exact .inr rfl
    | some r₀ =>
      left
      rw [Device.replaces, hk]
      simp only [OrderedMap.contains, hfind, hnone, Option.isSome_some, Option.isNone_none,
        Bool.and_self]

theorem Session.Kept.stores {s s' : Session} (h : s.Kept) {d' : Device} {r : BufferRecord}
    (hk : s.device.canonicalBufferKey key = .ok k) (hsound : d'.Sound)
    (hstores : (s.device.requestRegion key k).Stores d' k r)
    (hpatched : ∀ l rest patched, s.launch = some l → l.phase = .addressing rest patched →
      s.device.isPatched patched key = true → s.device.Keeps k r) (hlaunch : s'.launch = s.launch)
    (haliases : s'.device.aliases = d'.aliases) (hbuffers : s'.device.buffers = d'.buffers)
    (hnext : s'.device.nextOffset = d'.nextOffset)
    (hmono : ∀ k', (s.staged k').isSome = true → (s'.staged k').isSome = true)
    (hstaged : ∀ k' bytes, s'.staged k' = some bytes → ∃ r',
      (s.device.buffers.insert k r).find? k' = some r' ∧ bytes.length ≤ r'.capacity ∧
      s'.device.memory.Holds r'.backing bytes) : s'.Kept := by
  have hkey : ∀ key, s'.device.canonicalBufferKey key = s.device.canonicalBufferKey key :=
    Device.canonicalBufferKey_congr (haliases.trans
      (hstores.aliases.trans (Device.aliases_requestRegion _ _ _)))
  refine ⟨hsound.congr haliases hbuffers hnext, ?_, fun l hl => ?_⟩
  · rw [hbuffers, hstores.buffers, Device.buffers_requestRegion]
    exact hstaged
  rw [hlaunch] at hl
  refine (h.launch l hl).mono ?_ ?_ ?_
  · intro key₁ key₂ hsame
    unfold Device.SameBuffer
    rw [hkey, hkey]
    exact hsame
  · intro key₁ hstagedKey
    unfold isStaged at hstagedKey ⊢
    rw [hkey]
    split at hstagedKey
    · exact hmono _ hstagedKey
    · cases hstagedKey
  · intro rest patched hphase p hp hbacks
    have hd' : d'.Backs p := by
      have hbacks' : (s.device.requestRegion key k).Backs p := by
        unfold Device.Backs
        rw [Device.buffers_requestRegion,
          Device.canonicalBufferKey_congr (Device.aliases_requestRegion _ _ _)]
        exact hbacks
      refine hbacks'.stores hstores ?_
      intro hkp
      rw [Device.canonicalBufferKey_congr (Device.aliases_requestRegion _ _ _)] at hkp
      unfold Device.Keeps
      rw [Device.buffers_requestRegion]
      refine hpatched l rest patched hl hphase ?_
      rw [Device.isPatched, List.any_eq_true]
      exact ⟨p, hp, decide_eq_true (hkp.trans hk.symm)⟩
    unfold Device.Backs
    rw [Device.canonicalBufferKey_congr haliases, hbuffers]
    exact hd'

/-- A careful request keeps the record of a key that is patched or staged. -/
theorem Session.Kept.keeps {s : Session} (h : s.Kept) {l : Launch} (hl : s.launch = some l)
    {rest : List DeferredAddress} {patched : List Patched}
    (hphase : l.phase = .addressing rest patched) (hk : s.device.canonicalBufferKey key = .ok k)
    {r : BufferRecord} {n : Nat} (horigin : s.device.Keeps k r ∨ s.device.replaces key n = true ∨
      s.device.buffers.find? k = none) (hcareful : s.device.replaces key n = false)
    (hused : s.device.isPatched patched key = true ∨ s.isStaged key = true) :
    s.device.Keeps k r := by
  obtain hkeeps | hreplaces | hnone := horigin
  · exact hkeeps
  · rw [hcareful] at hreplaces
    cases hreplaces
  exfalso
  obtain hpatched | hstaged := hused
  · have hfits := h.launch l hl
    unfold Session.Fits at hfits
    rw [hphase] at hfits
    obtain ⟨p, hp, hsame⟩ := List.any_eq_true.1 hpatched
    obtain ⟨kp, rp, hkp, hrp, -⟩ := hfits.2.2 p hp
    have hkk : Except.ok kp = Except.ok k := hkp.symm.trans ((of_decide_eq_true hsame).trans hk)
    obtain rfl := Except.ok.inj hkk
    rw [hnone] at hrp
    cases hrp
  · obtain ⟨bytes, hbytes⟩ := (isStaged_iff hk).1 hstaged
    obtain ⟨r', hr', -⟩ := h.staged k bytes hbytes
    rw [hnone] at hr'
    cases hr'

/-- `setInputBuffer` keeps the invariant, and on success its bytes are staged. -/
theorem Session.Kept.setInputBuffer {alloc : Allocator} (halloc : alloc.Lawful) {s : Session}
    (h : s.Kept) (bufferName : String) (bytes : List UInt8)
    (hcareful : ∀ l, s.launch = some l → s.carefulInput bufferName bytes l.phase = true) :
    (s.setInputBuffer alloc bufferName bytes).2.Kept ∧
    (s.setInputBuffer alloc bufferName bytes).2.launch = s.launch ∧
    ((s.setInputBuffer alloc bufferName bytes).1 = true →
      (s.setInputBuffer alloc bufferName bytes).2.isStaged (normalizeBufferKey bufferName) =
        true) := by
  obtain ⟨k, hk, ⟨e, he⟩ | ⟨r, d', heq, hsound, hstores, hcapacity, horigin⟩⟩ :=
    h.sound.ensureBufferByKey halloc (normalizeBufferKey bufferName) bytes.length
  · rw [Session.setInputBuffer, Device.setInputBuffer, he]
    refine ⟨h.congr (by simp) (by simp) (by simp) (by simp) rfl h.launch, rfl, ?_⟩
    intro hfalse
    cases hfalse
  rw [Session.setInputBuffer, Device.setInputBuffer, heq]
  have hmemory : d'.memory = s.device.memory :=
    hstores.memory.trans (Device.memory_requestRegion _ _ _)
  refine ⟨h.stores hk hsound hstores ?_ rfl rfl rfl rfl ?_ ?_, rfl, fun _ => ?_⟩
  · -- an argument that was patched keeps its record, because the step is careful
    intro l rest patched hl hphase hpatched
    have hcare := hcareful l hl
    simp only [hphase, carefulInput, hpatched, Bool.and_true, Bool.not_eq_true'] at hcare
    exact h.keeps hl hphase hk horigin hcare (.inl hpatched)
  · intro k' hsome
    simp only [hk, Except.toOption]
    split
    · rfl
    · exact hsome
  · intro k' bytes' hbytes'
    simp only [hk, Except.toOption, Option.some.injEq] at hbytes'
    simp only [hmemory]
    split at hbytes'
    · rename_i hkk
      obtain rfl := Option.some.inj hbytes'
      subst hkk
      exact ⟨r, OrderedMap.find?_insert_self _ _ _, hcapacity, Memory.holds_write _ _ _⟩
    · rename_i hne
      obtain ⟨r', hr', hlength, hholds⟩ := h.staged k' bytes' hbytes'
      have hr'' : d'.buffers.find? k' = some r' := by
        rw [hstores.buffers, Device.buffers_requestRegion,
          OrderedMap.find?_insert_ne _ _ (Ne.symm hne)]
        exact hr'
      have hr : d'.buffers.find? k = some r := by
        rw [hstores.buffers, OrderedMap.find?_insert_self]
      refine ⟨r', ?_, hlength, hholds.write (hsound.apart k' k r' r (Ne.symm hne) hr'' hr)
        hlength hcapacity⟩
      rw [OrderedMap.find?_insert_ne _ _ (Ne.symm hne)]
      exact hr'
  · rw [isStaged_iff (k := k)]
    · exact ⟨bytes, by simp only [hk, Except.toOption, if_pos]⟩
    · refine Eq.trans ?_ hk
      exact Device.canonicalBufferKey_congr
        (hstores.aliases.trans (Device.aliases_requestRegion _ _ _)) _

/-! ## Aliasing -/

/-- `aliasBufferKey` keeps the invariant while no argument is patched, and on success makes one
buffer of the two. -/
theorem Session.Kept.aliasBufferKey {s : Session} (h : s.Kept) {target source : BufferKey}
    (htarget : normalizeBufferKey target = target) (hsource : normalizeBufferKey source = source)
    (hphase : ∀ l rest patched, s.launch = some l → l.phase ≠ .addressing rest patched)
    (hcareful : s.device.SameBuffer target source ∨ s.isStaged target = false ∨
      s.isStaged source = true) :
    (s.aliasBufferKey target source).2.Kept ∧
    (s.aliasBufferKey target source).2.launch = s.launch ∧
    (∀ key key', s.device.SameBuffer key key' →
      (s.aliasBufferKey target source).2.device.SameBuffer key key') ∧
    ((s.aliasBufferKey target source).1 = true →
      (s.aliasBufferKey target source).2.device.SameBuffer target source) := by
  unfold Session.aliasBufferKey
  cases hresult : s.device.aliasBufferKey target source with
  | error e =>
    refine ⟨h, rfl, fun _ _ hsame => hsame, fun hfalse => ?_⟩
    cases hfalse
  | ok d' =>
    obtain ⟨hsame, rfl⟩ | ⟨t, c, ht, hc, hjoins⟩ :=
      Device.aliasBufferKey_cases htarget hsource hresult
    · have hmerge : s.mergeStaged target source = s.staged := by
        obtain ⟨k, hk⟩ := h.sound.canonical target
        have hk' : s.device.canonicalBufferKey source = .ok k := hsame.symm.trans hk
        simp only [mergeStaged, hk, hk', Except.toOption, if_pos]
      simp only [hmerge]
      exact ⟨h, trivial, fun _ _ hsame => hsame, fun _ => hsame⟩
    · have htroot := h.sound.root ht
      have hcroot := h.sound.root hc
      have hmerge : ∀ k, s.mergeStaged target source k =
          if k = t then none else if k = c then s.staged c <|> s.staged t else s.staged k := by
        intro k
        simp only [mergeStaged, ht, hc, Except.toOption, if_neg hjoins.ne]
      have hsameMono : ∀ key key', s.device.SameBuffer key key' → d'.SameBuffer key key' :=
        fun _ _ => hjoins.sameBuffer h.sound htroot hcroot
      refine ⟨⟨hjoins.sound h.sound htroot hcroot, ?_, ?_⟩, rfl, hsameMono, fun _ => ?_⟩
      · intro k bytes hbytes
        rw [hjoins.buffers, hjoins.memory]
        have hbytes' : (if k = t then none else
            if k = c then s.staged c <|> s.staged t else s.staged k) = some bytes :=
          (hmerge k).symm.trans hbytes
        split at hbytes'
        · cases hbytes'
        split at hbytes'
        · rename_i hkc
          subst hkc
          cases hstaged : s.staged k with
          | some bytes' =>
            rw [hstaged] at hbytes'
            obtain rfl := Option.some.inj hbytes'
            exact h.staged k bytes' hstaged
          | none =>
            -- the target is staged and the source is not, which a careful step excludes
            rw [hstaged] at hbytes'
            obtain hsame | hnot | hyes := hcareful
            · exact absurd (Except.ok.inj (ht.symm.trans (hsame.trans hc))) hjoins.ne
            · rw [(isStaged_iff ht).2 ⟨bytes, hbytes'⟩] at hnot
              cases hnot
            · obtain ⟨bytes', hsome⟩ := (isStaged_iff hc).1 hyes
              rw [hstaged] at hsome
              cases hsome
        · exact h.staged k bytes hbytes'
      · intro l hl
        refine (h.launch l hl).mono hsameMono ?_ ?_
        · intro key hkey
          obtain ⟨k, hk⟩ := h.sound.canonical key
          obtain ⟨bytes, hbytes⟩ := (isStaged_iff hk).1 hkey
          rw [isStaged_iff (hjoins.canonical h.sound htroot hcroot hk)]
          simp only [hmerge]
          by_cases hkt : k = t
          · subst hkt
            rw [if_pos rfl, if_neg (Ne.symm hjoins.ne), if_pos rfl, hbytes]
            cases s.staged c with
            | none => exact ⟨bytes, rfl⟩
            | some bytes' => exact ⟨bytes', rfl⟩
          · rw [if_neg hkt, if_neg hkt]
            by_cases hkc : k = c
            · subst hkc
              rw [if_pos rfl, hbytes]
              exact ⟨bytes, rfl⟩
            · rw [if_neg hkc]
              exact ⟨bytes, hbytes⟩
        · intro rest patched heq
          exact absurd heq (hphase l rest patched hl)
      · show d'.canonicalBufferKey target = d'.canonicalBufferKey source
        rw [hjoins.canonical h.sound htroot hcroot ht, hjoins.canonical h.sound htroot hcroot hc,
          if_pos rfl, if_neg (Ne.symm hjoins.ne)]

end Slash.Fpga
