import Slash.Fpga.Buffers

/-!
# What the store keeps

The invariant of the buffer tables: aliases are a forest, and two records never share memory. One
lemma says everything `ensureBufferByKey` can do (`ensureBufferByKey_cases`): it fails and stores
nothing, it keeps the memory of the record that was there, or it puts a record with memory of its
own in its place.
-/

namespace Slash.Fpga

open Lib (OrderedMap rootOf IsForest)

/-! ## Memory -/

def BufferRecord.Apart (r r' : BufferRecord) : Prop :=
  r.backing.space ≠ r'.backing.space ∨ r.backing.base + r.capacity ≤ r'.backing.base ∨
    r'.backing.base + r'.capacity ≤ r.backing.base

theorem BufferRecord.Apart.symm {r r' : BufferRecord} (h : r.Apart r') : r'.Apart r := by
  obtain h | h | h := h
  · exact .inl (Ne.symm h)
  · exact .inr (.inr h)
  · exact .inr (.inl h)

/-- The bytes stand one after the other from where the backing begins. -/
def Memory.Holds (m : Memory) (b : Backing) (bytes : List UInt8) : Prop :=
  ∀ i, i < bytes.length → m b.space (b.base + i) = bytes.getD i 0

theorem Memory.holds_write (m : Memory) (b : Backing) (bytes : List UInt8) :
    (m.write b bytes).Holds b bytes := by
  intro i hi
  unfold Memory.write
  rw [if_pos ⟨rfl, by omega, by omega⟩, Nat.add_sub_cancel_left]

theorem Memory.Holds.write {m : Memory} {r r' : BufferRecord} {bytes bytes' : List UInt8}
    (h : m.Holds r.backing bytes) (hapart : r.Apart r') (hbytes : bytes.length ≤ r.capacity)
    (hbytes' : bytes'.length ≤ r'.capacity) :
    (m.write r'.backing bytes').Holds r.backing bytes := by
  intro i hi
  rw [← h i hi, Memory.write, if_neg]
  rintro ⟨hspace, hlow, hhigh⟩
  obtain hne | hle | hle := hapart
  · exact hne hspace
  · omega
  · omega

/-! ## The invariant -/

/-- Aliases are a forest, and records have memory of their own: what lies in the window lies below
the fill mark, and an allocation is as large as the record says. -/
structure Device.Sound (d : Device) : Prop where
  forest : IsForest d.aliases
  apart : ∀ k k' r r', k ≠ k' → d.buffers.find? k = some r → d.buffers.find? k' = some r' →
    r.Apart r'
  below : ∀ k r n, d.buffers.find? k = some r → r.backing = .offset n →
    n + r.capacity ≤ d.nextOffset
  exact : ∀ k r a, d.buffers.find? k = some r → r.backing = .mem a → a.bytes = r.capacity

open Device

theorem Device.Sound.init : ({} : Device).Sound where
  forest := Lib.isForest_empty
  apart := by
    intro k k' r r' _ hr
    cases hr
  below := by
    intro k r n hr
    cases hr
  exact := by
    intro k r a hr
    cases hr

theorem Device.Sound.congr {d d' : Device} (h : d.Sound) (haliases : d'.aliases = d.aliases)
    (hbuffers : d'.buffers = d.buffers) (hnext : d'.nextOffset = d.nextOffset) : d'.Sound where
  forest := haliases ▸ h.forest
  apart := hbuffers ▸ h.apart
  below := by
    rw [hbuffers, hnext]
    exact h.below
  exact := hbuffers ▸ h.exact

theorem Device.Sound.canonical {d : Device} (h : d.Sound) (key : BufferKey) :
    ∃ k, d.canonicalBufferKey key = .ok k := by
  obtain ⟨k, hk⟩ := h.forest.rootOf_isSome key
  exact ⟨k, by rw [canonicalBufferKey, hk]⟩

theorem Device.canonicalBufferKey_iff {d : Device} {key k : BufferKey} :
    d.canonicalBufferKey key = .ok k ↔ rootOf d.aliases key = some k := by
  unfold canonicalBufferKey
  split
  · rename_i k' hk
    rw [hk, Except.ok.injEq, Option.some.injEq]
  · rename_i hk
    rw [hk]
    constructor <;> intro h <;> cases h

theorem Device.Sound.root {d : Device} (h : d.Sound) {key k : BufferKey}
    (hk : d.canonicalBufferKey key = .ok k) : d.aliases.find? k = none :=
  h.forest.find?_rootOf (canonicalBufferKey_iff.1 hk)

/-! ## Making records -/

/-- A record with memory that no other record has. -/
structure Device.Fresh (d : Device) (r : BufferRecord) (next : Nat) : Prop where
  le : d.nextOffset ≤ next
  window : ∀ n, r.backing = .offset n → d.nextOffset ≤ n ∧ n + r.capacity ≤ next
  exact : ∀ a, r.backing = .mem a → a.bytes = r.capacity
  device : ∀ a, r.backing = .mem a → ∀ b ∈ d.live,
    a.address + a.bytes ≤ b.address ∨ b.address + b.bytes ≤ a.address

/-- From `d` to `d'` the record under `k` became `r`, and nothing else changed. -/
structure Device.Stores (d d' : Device) (k : BufferKey) (r : BufferRecord) : Prop where
  buffers : d'.buffers = d.buffers.insert k r
  aliases : d'.aliases = d.aliases
  regions : d'.regions = d.regions
  staging : d'.staging = d.staging
  pins : d'.pins = d.pins
  memory : d'.memory = d.memory

/-- The record under a key, with the same memory. -/
def Device.Keeps (d : Device) (k : BufferKey) (r : BufferRecord) : Prop :=
  ∃ r₀, d.buffers.find? k = some r₀ ∧ r₀.backing = r.backing ∧ r₀.capacity = r.capacity

variable {r : BufferRecord}

theorem Device.reusable_eq {d : Device} {k : BufferKey} {n : Nat} (h : d.reusable k n = some r) :
    n ≤ r.capacity ∧ d.Keeps k r ∧ r.backing.isMem = (d.placement k).isSome := by
  unfold reusable at h
  split at h
  · rename_i r₀ hr₀
    split at h
    · rename_i hfits
      obtain rfl := Option.some.inj h
      exact ⟨hfits.1, ⟨r₀, hr₀, rfl, rfl⟩, hfits.2⟩
    · cases h
  · cases h

variable {alloc : Allocator}

theorem Device.newRecord_eq (halloc : alloc.Lawful) {d : Device} {k : BufferKey} {n next : Nat}
    (h : d.newRecord alloc k n = .ok (r, next)) :
    n ≤ r.capacity ∧ d.Fresh r next ∧
      ∀ region, d.placement k = some region → ∃ a, r.backing = .mem a ∧ a.region = region := by
  unfold newRecord at h
  split at h
  · rename_i region hregion
    simp only at h
    split at h
    · rename_i address haddress
      obtain ⟨rfl, rfl⟩ := Prod.mk.inj (Except.ok.inj h)
      refine ⟨le_max_left _ _, ⟨le_refl _, ?_, ?_, ?_⟩, ?_⟩
      · intro n hn
        cases hn
      · intro a ha
        cases ha
        rfl
      · intro a ha b hb
        cases ha
        exact halloc _ _ _ _ haddress b hb
      · intro region' hregion'
        obtain rfl := Option.some.inj (hregion.symm.trans hregion')
        exact ⟨_, rfl, rfl⟩
    · cases h
  · rename_i hnone
    simp only at h
    split at h
    · cases h
    · obtain ⟨rfl, rfl⟩ := Prod.mk.inj (Except.ok.inj h)
      have haligned : d.nextOffset ≤ d.alignedOffset := by
        unfold alignedOffset
        omega
      refine ⟨le_refl _, ⟨by omega, ?_, ?_, ?_⟩, ?_⟩
      · intro m hm
        cases hm
        exact ⟨haligned, le_refl _⟩
      · intro a ha
        cases ha
      · intro a ha
        cases ha
      · intro region hregion
        rw [hnone] at hregion
        cases hregion

theorem Device.ensureCanonical_cases (halloc : alloc.Lawful) (d : Device) (k : BufferKey)
    (n : Nat) :
    (∃ e, d.ensureCanonical alloc k n = (.error e, d)) ∨
    ∃ r d', d.ensureCanonical alloc k n = (.ok r, d') ∧ d.Stores d' k r ∧ n ≤ r.capacity ∧
      (d.reusable k n = some r ∧ d'.nextOffset = d.nextOffset ∨
        d.reusable k n = none ∧ d.Fresh r d'.nextOffset ∧
        ∀ region, d.placement k = some region → ∃ a, r.backing = .mem a ∧ a.region = region) := by
  unfold ensureCanonical
  split
  · rename_i r hr
    exact .inr ⟨r, _, rfl, ⟨rfl, rfl, rfl, rfl, rfl, rfl⟩, (reusable_eq hr).1,
      .inl ⟨hr, rfl⟩⟩
  · rename_i hnone
    split
    · rename_i r next hnew
      obtain ⟨hfits, hfresh, hregion⟩ := newRecord_eq halloc hnew
      exact .inr ⟨r, _, rfl, ⟨rfl, rfl, rfl, rfl, rfl, rfl⟩, hfits, .inr ⟨hnone, hfresh, hregion⟩⟩
    · rename_i e _
      exact .inl ⟨e, rfl⟩

/-! ## Steps of the store -/

section Request

variable (d : Device) (key k : BufferKey)

@[simp] theorem Device.buffers_requestRegion : (d.requestRegion key k).buffers = d.buffers := by
  unfold requestRegion
  split <;> rfl

@[simp] theorem Device.aliases_requestRegion : (d.requestRegion key k).aliases = d.aliases := by
  unfold requestRegion
  split <;> rfl

@[simp] theorem Device.nextOffset_requestRegion :
    (d.requestRegion key k).nextOffset = d.nextOffset := by
  unfold requestRegion
  split <;> rfl

@[simp] theorem Device.staging_requestRegion : (d.requestRegion key k).staging = d.staging := by
  unfold requestRegion
  split <;> rfl

@[simp] theorem Device.memory_requestRegion : (d.requestRegion key k).memory = d.memory := by
  unfold requestRegion
  split <;> rfl

end Request

theorem Device.Sound.requestRegion {d : Device} (h : d.Sound) (key k : BufferKey) :
    (d.requestRegion key k).Sound :=
  h.congr (d.aliases_requestRegion key k) (d.buffers_requestRegion key k)
    (d.nextOffset_requestRegion key k)

theorem Device.ensureBufferByKey_eq {d : Device} {key k : BufferKey} (n : Nat)
    (hk : d.canonicalBufferKey key = .ok k) :
    d.ensureBufferByKey alloc key n = (d.requestRegion key k).ensureCanonical alloc k n := by
  rw [ensureBufferByKey, hk]

theorem Device.Fresh.apart {d : Device} (hd : d.Sound) {next : Nat} (hr : d.Fresh r next)
    {k' : BufferKey} {r' : BufferRecord} (hr' : d.buffers.find? k' = some r') : r.Apart r' := by
  cases hb : r.backing with
  | mem a =>
    cases hb' : r'.backing with
    | mem b =>
      have hlive : b ∈ d.live := by
        refine List.mem_append_left _ (List.mem_flatMap.2 ⟨r', d.buffers.mem_values.2 ⟨k', hr'⟩, ?_⟩)
        rw [hb']
        exact List.mem_singleton_self b
      have hdisjoint := hr.device a hb b hlive
      rw [hr.exact a hb, hd.exact k' r' b hr' hb'] at hdisjoint
      right
      rw [hb, hb']
      exact hdisjoint
    | offset m =>
      left
      rw [hb, hb']
      exact fun h => by cases h
  | offset n =>
    cases hb' : r'.backing with
    | mem b =>
      left
      rw [hb, hb']
      exact fun h => by cases h
    | offset m =>
      have hbelow := hd.below k' r' m hr' hb'
      have habove := (hr.window n hb).1
      right
      right
      rw [hb, hb']
      exact hbelow.trans habove

/-- Storing a record keeps the invariant when the record has the memory that was there, or memory
of its own. -/
theorem Device.Stores.sound {d d' : Device} {k : BufferKey} (h : d.Stores d' k r) (hd : d.Sound)
    (horigin : d.Keeps k r ∧ d'.nextOffset = d.nextOffset ∨ d.Fresh r d'.nextOffset) :
    d'.Sound := by
  have hnext : d.nextOffset ≤ d'.nextOffset := by
    obtain ⟨-, heq⟩ | hfresh := horigin
    · exact heq.ge
    · exact hfresh.le
  have hapart : ∀ k' r', k' ≠ k → d.buffers.find? k' = some r' → r.Apart r' := by
    intro k' r' hne hr'
    obtain ⟨⟨r₀, hr₀, hbacking, hcapacity⟩, -⟩ | hfresh := horigin
    · have h₀ := hd.apart k k' r₀ r' (Ne.symm hne) hr₀ hr'
      unfold BufferRecord.Apart at h₀ ⊢
      rw [← hbacking, ← hcapacity]
      exact h₀
    · exact hfresh.apart hd hr'
  refine ⟨h.aliases ▸ hd.forest, ?_, ?_, ?_⟩
  · intro k₁ k₂ r₁ r₂ hne h₁ h₂
    rw [h.buffers, OrderedMap.find?_insert] at h₁ h₂
    split at h₁
    · rename_i heq₁
      obtain rfl := Option.some.inj h₁
      rw [if_neg (fun h => hne (heq₁.trans h.symm))] at h₂
      exact hapart k₂ r₂ (fun h => hne (heq₁.trans h.symm)) h₂
    · rename_i hne₁
      split at h₂
      · obtain rfl := Option.some.inj h₂
        exact (hapart k₁ r₁ hne₁ h₁).symm
      · exact hd.apart k₁ k₂ r₁ r₂ hne h₁ h₂
  · intro k₁ r₁ n h₁ hn
    rw [h.buffers, OrderedMap.find?_insert] at h₁
    split at h₁
    · obtain rfl := Option.some.inj h₁
      obtain ⟨⟨r₀, hr₀, hbacking, hcapacity⟩, -⟩ | hfresh := horigin
      · rw [← hcapacity]
        exact (hd.below k r₀ n hr₀ (hbacking.trans hn)).trans hnext
      · exact (hfresh.window n hn).2
    · exact (hd.below k₁ r₁ n h₁ hn).trans hnext
  · intro k₁ r₁ a h₁ ha
    rw [h.buffers, OrderedMap.find?_insert] at h₁
    split at h₁
    · obtain rfl := Option.some.inj h₁
      obtain ⟨⟨r₀, hr₀, hbacking, hcapacity⟩, -⟩ | hfresh := horigin
      · rw [← hcapacity]
        exact hd.exact k r₀ a hr₀ (hbacking.trans ha)
      · exact hfresh.exact a ha
    · exact hd.exact k₁ r₁ a h₁ ha

/-! ## Aliases -/

def Device.SameBuffer (d : Device) (key key' : BufferKey) : Prop :=
  d.canonicalBufferKey key = d.canonicalBufferKey key'

/-- From `d` to `d'` the root `t` was hung below the root `c`, which has a record; nothing else
but the regions changed. -/
structure Device.Joins (d d' : Device) (t c : BufferKey) : Prop where
  ne : t ≠ c
  record : (d.buffers.find? c).isSome
  aliases : d'.aliases = d.aliases.insert t c
  buffers : d'.buffers = d.buffers
  regions : d'.regions = d.aliasRegions t c
  agree : ∀ a b, d.regions.find? c = some a → d.regions.find? t = some b → a = b
  staging : d'.staging = d.staging
  pins : d'.pins = d.pins
  memory : d'.memory = d.memory
  nextOffset : d'.nextOffset = d.nextOffset

theorem Device.aliasCanonical_cases {d d' : Device} {t c : BufferKey} {target source : String}
    (h : d.aliasCanonical t c target source = .ok d') : t = c ∧ d' = d ∨ d.Joins d' t c := by
  unfold aliasCanonical at h
  split at h
  · rename_i heq
    exact .inl ⟨heq, (Except.ok.inj h).symm⟩
  rename_i hne
  split at h
  · cases h
  rename_i hrecord
  have hsome : (d.buffers.find? c).isSome := by
    rw [OrderedMap.contains, Bool.not_eq_true', Bool.not_eq_false] at hrecord
    exact hrecord
  right
  split at h
  · rename_i a b ha hb
    split at h
    · rename_i hab
      obtain rfl := Except.ok.inj h
      refine ⟨hne, hsome, rfl, rfl, rfl, ?_, rfl, rfl, rfl, rfl⟩
      intro a' b' ha' hb'
      obtain rfl := Option.some.inj (ha.symm.trans ha')
      obtain rfl := Option.some.inj (hb.symm.trans hb')
      exact hab
    · cases h
  · rename_i hnone
    obtain rfl := Except.ok.inj h
    refine ⟨hne, hsome, rfl, rfl, rfl, ?_, rfl, rfl, rfl, rfl⟩
    intro a b ha hb
    exact absurd hb (hnone a b ha)

theorem Device.aliasBufferKey_cases {d d' : Device} {targetName sourceName : String}
    {target source : BufferKey} (htarget : normalizeBufferKey targetName = target)
    (hsource : normalizeBufferKey sourceName = source)
    (h : d.aliasBufferKey targetName sourceName = .ok d') :
    d.SameBuffer target source ∧ d' = d ∨
    ∃ t c, d.canonicalBufferKey target = .ok t ∧ d.canonicalBufferKey source = .ok c ∧
      d.Joins d' t c := by
  unfold aliasBufferKey at h
  simp only [htarget, hsource] at h
  split at h
  · rename_i heq
    exact .inl ⟨congrArg d.canonicalBufferKey heq, (Except.ok.inj h).symm⟩
  · cases hc : d.canonicalBufferKey source with
    | error e =>
      rw [hc] at h
      cases h
    | ok c =>
      cases ht : d.canonicalBufferKey target with
      | error e =>
        rw [hc, ht] at h
        cases h
      | ok t =>
        rw [hc, ht] at h
        obtain ⟨rfl, heq⟩ | hjoins := aliasCanonical_cases h
        · exact .inl ⟨ht.trans hc.symm, heq⟩
        · exact .inr ⟨t, c, rfl, rfl, hjoins⟩

section Joins

variable {d d' : Device} {t c : BufferKey}

theorem Device.Joins.sound (h : d.Joins d' t c) (hd : d.Sound) (ht : d.aliases.find? t = none)
    (hc : d.aliases.find? c = none) : d'.Sound where
  forest := h.aliases ▸ hd.forest.insert ht hc (Ne.symm h.ne)
  apart := h.buffers ▸ hd.apart
  below := by
    rw [h.buffers, h.nextOffset]
    exact hd.below
  exact := h.buffers ▸ hd.exact

theorem Device.Joins.canonical (h : d.Joins d' t c) (hd : d.Sound)
    (ht : d.aliases.find? t = none) (hc : d.aliases.find? c = none) {key k : BufferKey}
    (hk : d.canonicalBufferKey key = .ok k) :
    d'.canonicalBufferKey key = .ok (if k = t then c else k) := by
  rw [canonicalBufferKey_iff, h.aliases]
  exact hd.forest.rootOf_insert ht hc (Ne.symm h.ne) (canonicalBufferKey_iff.1 hk)

theorem Device.Joins.sameBuffer (h : d.Joins d' t c) (hd : d.Sound)
    (ht : d.aliases.find? t = none) (hc : d.aliases.find? c = none) {key key' : BufferKey}
    (hsame : d.SameBuffer key key') : d'.SameBuffer key key' := by
  obtain ⟨k, hk⟩ := hd.canonical key
  have hk' : d.canonicalBufferKey key' = .ok k := hsame.symm.trans hk
  unfold Device.SameBuffer
  rw [h.canonical hd ht hc hk, h.canonical hd ht hc hk']

end Joins

theorem Device.canonicalBufferKey_congr {d d' : Device} (h : d'.aliases = d.aliases)
    (key : BufferKey) : d'.canonicalBufferKey key = d.canonicalBufferKey key := by
  rw [canonicalBufferKey, canonicalBufferKey, h]

theorem startsWith_append (head rest : String) : startsWith (head ++ rest) head = true := by
  rw [startsWith, List.isPrefixOf_iff_prefix, String.toList_append]
  exact List.prefix_append _ _

theorem normalizeBufferKey_scoped (scopeId : Nat) (name : String) :
    normalizeBufferKey (scopedBufferKey scopeId name) = scopedBufferKey scopeId name := by
  rw [normalizeBufferKey, if_pos]
  rw [scopedBufferKey, String.append_assoc, String.append_assoc]
  exact startsWith_append _ _

end Slash.Fpga
