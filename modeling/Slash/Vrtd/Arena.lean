import Slash.Vrtd.Allocator

/-!
# What the clients of the allocator hold

The calls of all clients, one after another, with what the replies told each client: `Arena` is
the map together with the live allocations. A free may give back part of an allocation, so an
allocation is a run of subregions and a free may split it.
-/

namespace Slash.Vrtd

open Lib List

/-! ## What the clients hold -/

/-- An allocation, or what partial frees left of one: `count` subregions from number `first` of
its class on, counted across regions. -/
structure Block where
  cls : MemoryClass
  first : Nat
  count : Nat
  owner : U64
  deriving DecidableEq, Repr

def Block.addr (b : Block) : Nat := b.cls.startAddress + b.first * subregionSize

theorem Block.aligned (b : Block) : subregionSize ∣ b.addr := by
  refine Nat.dvd_add ?_ (Nat.dvd_mul_left _ _)
  cases b.cls <;> decide

def Block.Covers (b : Block) (cls : MemoryClass) (g : Nat) : Prop :=
  b.cls = cls ∧ b.first ≤ g ∧ g < b.first + b.count

/-- The parts of a block outside the subregions `lo … hi - 1` of a class. -/
def Block.without (b : Block) (cls : MemoryClass) (lo hi : Nat) : List Block :=
  if b.cls = cls then
    [{ b with count := min (b.first + b.count) lo - b.first },
      { b with
        first := max b.first hi
        count := b.first + b.count - max b.first hi }].filter fun b => 0 < b.count
  else [b]

structure Arena where
  map : DeviceMemoryMap
  live : List Block

open Arena

inductive Request where
  | allocate (type : AllocationType) (size arg clientId : U64)
  | free (type : AllocationType) (addr size clientId : U64)

/-- The subregion that holds byte `addr` of a class. -/
def MemoryClass.subregionOf (cls : MemoryClass) (addr : Nat) : Nat :=
  (addr - cls.startAddress) / subregionSize

/-- One call. A successful allocation gives its client the bytes of the reply; a successful free
takes the subregions its byte range touches. -/
def Arena.call (a : Arena) : Request → Arena
  | .allocate type size arg id =>
    let (reply, m) := deviceMemoryMapAllocate a.map type size arg id
    match reply, type.memoryClass with
    | .success out, some cls =>
      ⟨m, ⟨cls, cls.subregionOf out.addr.toNat, out.size.toNat / subregionSize, id⟩ :: a.live⟩
    | _, _ => ⟨m, a.live⟩
  | .free type addr size id =>
    let (reply, m) := deviceMemoryMapFree a.map type addr size id
    match reply, type.memoryClass with
    | .success (), some cls =>
      ⟨m, a.live.flatMap fun b => b.without cls (cls.subregionOf addr.toNat)
        (cls.subregionOf (addr.toNat + size.toNat - 1) + 1)⟩
    | _, _ => ⟨m, a.live⟩

/-- Any calls by any clients, from an empty map. -/
def Arena.after (requests : List Request) : Arena :=
  requests.foldl call ⟨deviceMemoryMapCreate, []⟩

/-! ## Blocks -/

/-- Subregion `s` of a region, counted across the regions of its class. -/
def subregion (region s : Nat) : Nat := subregionsPerRegion * region + s

theorem covers_without {b : Block} {cls c : MemoryClass} {lo hi g : Nat} :
    (∃ b' ∈ b.without cls lo hi, b'.Covers c g) ↔
      b.Covers c g ∧ ¬ (c = cls ∧ lo ≤ g ∧ g < hi) := by
  unfold Block.without Block.Covers
  by_cases hc : b.cls = cls
  · rw [if_pos hc]
    simp only [mem_filter, mem_cons, not_mem_nil, or_false, decide_eq_true_eq]
    constructor
    · rintro ⟨b', ⟨rfl | rfl, hpos⟩, rfl, hlo, hhi⟩
      · simp only [] at hpos hlo hhi ⊢
        exact ⟨⟨trivial, by omega, by omega⟩, by omega⟩
      · simp only [] at hpos hlo hhi ⊢
        exact ⟨⟨trivial, by omega, by omega⟩, by omega⟩
    · rintro ⟨⟨rfl, hlo, hhi⟩, hout⟩
      have hside : g < lo ∨ hi ≤ g := by
        by_contra hmid
        exact hout ⟨hc, by omega, by omega⟩
      rcases hside with hside | hside
      · exact ⟨_, ⟨.inl rfl, by simp only []; omega⟩, rfl, hlo, by simp only []; omega⟩
      · exact ⟨_, ⟨.inr rfl, by simp only []; omega⟩, rfl, by simp only []; omega, by
          simp only []; omega⟩
  · rw [if_neg hc]
    simp only [mem_singleton, exists_eq_left]
    refine ⟨fun hcov => ⟨hcov, fun hin => hc (hcov.1.trans hin.1)⟩, And.left⟩

variable {cls : MemoryClass}

theorem mem_without {b b' : Block} {lo hi : Nat} (h : b' ∈ b.without cls lo hi)
    (hpos : 0 < b.count) :
    b'.cls = b.cls ∧ b'.owner = b.owner ∧ 0 < b'.count ∧ b.first ≤ b'.first ∧
      b'.first + b'.count ≤ b.first + b.count := by
  unfold Block.without at h
  split at h
  · simp only [mem_filter, mem_cons, not_mem_nil, or_false,
      decide_eq_true_eq] at h
    obtain ⟨rfl | rfl, hcount⟩ := h
    · simp only [] at hcount ⊢
      exact ⟨trivial, trivial, hcount, by omega, by omega⟩
    · simp only [] at hcount ⊢
      exact ⟨trivial, trivial, hcount, by omega, by omega⟩
  · rw [mem_singleton.mp h]
    exact ⟨rfl, rfl, hpos, by omega, by omega⟩

def Block.Disjoint (b b' : Block) : Prop := ∀ c g, b.Covers c g → ¬ b'.Covers c g

theorem without_pairwise (b : Block) (cls : MemoryClass) {lo hi : Nat} (hle : lo ≤ hi) :
    (b.without cls lo hi).Pairwise Block.Disjoint := by
  unfold Block.without
  split
  · refine List.Pairwise.filter _ ?_
    simp only [pairwise_cons, mem_singleton, forall_eq, not_mem_nil,
      false_implies, implies_true, List.Pairwise.nil, and_true]
    rintro c g ⟨-, hlo, hhi⟩ ⟨-, hlo', hhi'⟩
    simp only [] at hlo hhi hlo' hhi'
    omega
  · exact pairwise_singleton _ _

theorem disjoint_without {a b : Block} {lo hi : Nat} (h : a.Disjoint b) :
    ∀ a' ∈ a.without cls lo hi, ∀ b' ∈ b.without cls lo hi,
      a'.Disjoint b' := by
  intro a' ha' b' hb' c g hca hcb
  exact h c g (covers_without.mp ⟨a', ha', hca⟩).1 (covers_without.mp ⟨b', hb', hcb⟩).1

/-! ## The map and the blocks -/

/-- The blocks lie apart, each inside one region and on subregion boundaries, and the map holds
each block's owner on its subregions and 0 elsewhere. -/
structure Arena.Sound (a : Arena) : Prop where
  disjoint : a.live.Pairwise Block.Disjoint
  inside : ∀ b ∈ a.live, 0 < b.count ∧ ∃ r < b.cls.regions,
    subregion r 0 ≤ b.first ∧ b.first + b.count ≤ subregion (r + 1) 0
  owner : ∀ b ∈ a.live, b.owner ≠ 0
  stamped : ∀ b ∈ a.live, ∀ c r s, s < subregionsPerRegion → b.Covers c (subregion r s) →
    a.map c r s = b.owner
  vacant : ∀ c r s, s < subregionsPerRegion → (∀ b ∈ a.live, ¬ b.Covers c (subregion r s)) →
    a.map c r s = 0

theorem Arena.Sound.init : Arena.Sound ⟨deviceMemoryMapCreate, []⟩ where
  disjoint := List.Pairwise.nil
  inside := fun _ hb => absurd hb not_mem_nil
  owner := fun _ hb => absurd hb not_mem_nil
  stamped := fun _ hb => absurd hb not_mem_nil
  vacant := fun _ _ _ _ _ => rfl

variable {a : Arena}

/-- Stamping a free run with a client's id and giving the client the block. -/
theorem Arena.Sound.take (h : a.Sound) {id : U64} {n region s : Nat} (hid : id ≠ 0) (hn : 0 < n)
    (hr : region < cls.regions) (hrun : FreeRun a.map cls n region s) :
    Arena.Sound ⟨a.map.stamp cls region s n id, ⟨cls, subregion region s, n, id⟩ :: a.live⟩ := by
  obtain ⟨hfit, hfree⟩ := hrun
  rw [subregionsPerRegion_eq] at hfit
  have hcovers : ∀ c r s', s' < 8 →
      ((⟨cls, subregion region s, n, id⟩ : Block).Covers c (subregion r s') ↔
        c = cls ∧ r = region ∧ s ≤ s' ∧ s' < s + n) := by
    intro c r s' hs'
    simp only [Block.Covers, subregion, subregionsPerRegion_eq]
    constructor
    · rintro ⟨rfl, hlo, hhi⟩
      exact ⟨rfl, by omega, by omega, by omega⟩
    · rintro ⟨rfl, rfl, hlo, hhi⟩
      exact ⟨rfl, by omega, by omega⟩
  -- a block that covered one of the cells would have left its owner there
  have hclear : ∀ b ∈ a.live, Block.Disjoint ⟨cls, subregion region s, n, id⟩ b := by
    rintro b hb c g ⟨rfl, hlo, hhi⟩ hb'
    simp only [subregion, subregionsPerRegion_eq] at hlo hhi
    have hcell : g = subregion region (s + (g - subregion region s)) := by
      simp only [subregion, subregionsPerRegion_eq]
      omega
    have hzero := hfree (g - subregion region s) (by
      simp only [subregion, subregionsPerRegion_eq]; omega)
    rw [hcell] at hb'
    refine h.owner b hb ((h.stamped b hb _ region _ ?_ hb').symm.trans hzero)
    simp only [subregion, subregionsPerRegion_eq]
    omega
  constructor
  · exact pairwise_cons.mpr ⟨hclear, h.disjoint⟩
  · intro b hb
    rcases mem_cons.mp hb with rfl | hb
    · refine ⟨hn, region, hr, ?_⟩
      simp only [subregion, subregionsPerRegion_eq]
      omega
    · exact h.inside b hb
  · intro b hb
    rcases mem_cons.mp hb with rfl | hb
    · exact hid
    · exact h.owner b hb
  · intro b hb c r s' hs' hcov
    show a.map.stamp cls region s n id c r s' = b.owner
    rw [stamp_apply]
    rcases mem_cons.mp hb with rfl | hb
    · rw [if_pos ((hcovers c r s' hs').mp hcov)]
    · have hnot : ¬ (c = cls ∧ r = region ∧ s ≤ s' ∧ s' < s + n) := fun hin =>
        hclear b hb c _ ((hcovers c r s' hs').mpr hin) hcov
      rw [if_neg hnot]
      exact h.stamped b hb c r s' hs' hcov
  · intro c r s' hs' hno
    have hnot : ¬ (c = cls ∧ r = region ∧ s ≤ s' ∧ s' < s + n) := fun hin =>
      hno _ mem_cons_self ((hcovers c r s' hs').mpr hin)
    show a.map.stamp cls region s n id c r s' = 0
    rw [stamp_apply, if_neg hnot]
    exact h.vacant c r s' hs' fun b hb => hno b (mem_cons_of_mem _ hb)

/-- Clearing a run and taking it from the blocks that hold it. -/
theorem Arena.Sound.release (h : a.Sound) {n region start : Nat} (hfit : start + n ≤ 8) :
    Arena.Sound ⟨a.map.stamp cls region start n 0, a.live.flatMap fun b =>
      b.without cls (subregion region start) (subregion region start + n)⟩ := by
  have hle : subregion region start ≤ subregion region start + n := Nat.le_add_right _ _
  have hcell : ∀ c r s, s < 8 →
      ((c = cls ∧ subregion region start ≤ subregion r s ∧
        subregion r s < subregion region start + n) ↔
      (c = cls ∧ r = region ∧ start ≤ s ∧ s < start + n)) := by
    intro c r s hs
    simp only [subregion, subregionsPerRegion_eq]
    exact and_congr Iff.rfl (by omega)
  constructor
  · refine pairwise_flatMap.mpr ⟨fun b _ => without_pairwise b cls hle, ?_⟩
    exact h.disjoint.imp fun hab => disjoint_without hab
  · intro b' hb'
    obtain ⟨b, hb, hpart⟩ := mem_flatMap.mp hb'
    obtain ⟨hpos, r, hr, hlo, hhi⟩ := h.inside b hb
    obtain ⟨hcls, -, hpos', hfirst, hlast⟩ := mem_without hpart hpos
    rw [hcls]
    exact ⟨hpos', r, hr, by omega, by omega⟩
  · intro b' hb'
    obtain ⟨b, hb, hpart⟩ := mem_flatMap.mp hb'
    rw [(mem_without hpart (h.inside b hb).1).2.1]
    exact h.owner b hb
  · intro b' hb' c r s hs hcov
    obtain ⟨b, hb, hpart⟩ := mem_flatMap.mp hb'
    obtain ⟨hcov', hout⟩ := covers_without.mp ⟨b', hpart, hcov⟩
    show a.map.stamp cls region start n 0 c r s = b'.owner
    rw [stamp_apply, if_neg fun hin => hout ((hcell c r s hs).mpr hin),
      (mem_without hpart (h.inside b hb).1).2.1]
    exact h.stamped b hb c r s hs hcov'
  · intro c r s hs hno
    show a.map.stamp cls region start n 0 c r s = 0
    rw [stamp_apply]
    split
    · rfl
    · rename_i hnot
      refine h.vacant c r s hs fun b hb hcov => ?_
      obtain ⟨b', hpart, hcov'⟩ := covers_without.mpr
        ⟨hcov, fun hin => hnot ((hcell c r s hs).mp hin)⟩
      exact hno b' (mem_flatMap.mpr ⟨b, hb, hpart⟩) hcov'

variable {live : List Block}

/-- A whole block goes and its subregions are cleared. -/
theorem Arena.Sound.drop (h : a.Sound) {b : Block} (hperm : a.live.Perm (b :: live))
    {n region start : Nat} (hfit : start + n ≤ 8) (hfirst : b.first = subregion region start)
    (hcount : b.count = n) :
    Arena.Sound ⟨a.map.stamp b.cls region start n 0, live⟩ := by
  have hmem : ∀ {b'}, b' ∈ live → b' ∈ a.live := fun hb' =>
    hperm.mem_iff.mpr (mem_cons_of_mem _ hb')
  have hpair := (hperm.pairwise_iff fun {x y} (hxy : Block.Disjoint x y) c g hy hx =>
    hxy c g hx hy).mp h.disjoint
  have hcell : ∀ c r s, s < 8 →
      (b.Covers c (subregion r s) ↔ c = b.cls ∧ r = region ∧ start ≤ s ∧ s < start + n) := by
    intro c r s hs
    rw [Block.Covers, hfirst, hcount]
    simp only [subregion, subregionsPerRegion_eq]
    exact ⟨fun ⟨hc, hlo, hhi⟩ => ⟨hc.symm, by omega, by omega, by omega⟩,
      fun ⟨hc, hr, hlo, hhi⟩ => ⟨hc.symm, by omega, by omega⟩⟩
  constructor
  · exact (pairwise_cons.mp hpair).2
  · exact fun b' hb' => h.inside b' (hmem hb')
  · exact fun b' hb' => h.owner b' (hmem hb')
  · intro b' hb' c r s hs hcov
    show a.map.stamp b.cls region start n 0 c r s = b'.owner
    rw [stamp_apply, if_neg, h.stamped b' (hmem hb') c r s hs hcov]
    exact fun hin => (pairwise_cons.mp hpair).1 b' hb' c _ ((hcell c r s hs).mpr hin) hcov
  · intro c r s hs hno
    show a.map.stamp b.cls region start n 0 c r s = 0
    rw [stamp_apply]
    split
    · rfl
    · rename_i hnot
      refine h.vacant c r s hs fun b' hb' hcov => ?_
      rcases mem_cons.mp (hperm.mem_iff.mp hb') with rfl | hb'
      · exact hnot ((hcell c r s hs).mp hcov)
      · exact hno b' hb' hcov

theorem Arena.Sound.perm (h : a.Sound) (hperm : a.live.Perm live) : Arena.Sound ⟨a.map, live⟩ where
  disjoint := (hperm.pairwise_iff fun {x y} (hxy : Block.Disjoint x y) c g hy hx =>
    hxy c g hx hy).mp h.disjoint
  inside := fun b hb => h.inside b (hperm.mem_iff.mpr hb)
  owner := fun b hb => h.owner b (hperm.mem_iff.mpr hb)
  stamped := fun b hb => h.stamped b (hperm.mem_iff.mpr hb)
  vacant := fun c r s hs hno => h.vacant c r s hs fun b hb => hno b (hperm.mem_iff.mp hb)

variable {type : AllocationType}

/-- The block of a live allocation is the client's to free, and freeing it takes the whole block. -/
theorem Arena.Sound.free (h : a.Sound) {b : Block} (hperm : a.live.Perm (b :: live))
    {addr size : U64} (hcls : type.memoryClass = some b.cls) (haddr : addr.toNat = b.addr)
    (hsize : size.toNat = b.count * subregionSize) :
    Arena.Sound ⟨(deviceMemoryMapFree a.map type addr size b.owner).2, live⟩ := by
  have hb : b ∈ a.live := hperm.mem_iff.mpr mem_cons_self
  obtain ⟨hpos, r, hr, hlo, hhi⟩ := h.inside b hb
  have hregions : b.cls.regions = 64 := by cases b.cls <;> rfl
  have hbound : size.toNat + subregionSize ≤ 2 ^ 64 := by
    simp only [subregion, subregionsPerRegion_eq, subregionSize] at hlo hhi hsize ⊢
    omega
  have hown : Owns a.map b.cls b.owner addr.toNat size.toNat := by
    rw [haddr, hsize]
    simp only [subregion, subregionsPerRegion_eq] at hlo hhi
    refine ⟨h.owner b hb, ?_, ?_, ?_, ⟨r, hr, ?_, ?_⟩, fun r' s hs ht => ?_⟩
    · exact Nat.mul_pos hpos (by decide)
    · exact Nat.le_add_right _ _
    · rw [Block.addr, Nat.add_sub_cancel_left]
      exact Nat.dvd_mul_left _ _
    · simp only [Block.addr, regionSize, subregionSize]
      omega
    · simp only [Block.addr, regionSize, subregionSize]
      omega
    · refine h.stamped b hb b.cls r' s hs ⟨rfl, ?_, ?_⟩
      · simp only [Touches, Block.addr, regionSize, subregionSize, subregion,
          subregionsPerRegion_eq] at ht hs ⊢
        omega
      · simp only [Touches, Block.addr, regionSize, subregionSize, subregion,
          subregionsPerRegion_eq] at ht hs ⊢
        omega
  rcases free_spec a.map type addr b.owner hbound with
    ⟨cls, n, r', start, hcls', -, hspan, hfit, heq⟩ | ⟨-, hno⟩
  · rw [hcls, Option.some_inj] at hcls'
    subst hcls'
    rw [heq]
    obtain ⟨hat, hle, hlt⟩ := hspan
    rw [haddr, Block.addr] at hat
    rw [hsize] at hle hlt
    simp only [regionSize, subregionSize] at hat hle hlt
    exact h.drop hperm hfit (by simp only [subregion, subregionsPerRegion_eq]; omega) (by omega)
  · exact absurd hown (hno _ hcls)

variable {m : DeviceMemoryMap} {size arg id : U64}

theorem Arena.Sound.allocate (h : a.Sound) {out : Allocated}
    (heq : deviceMemoryMapAllocate a.map type size arg id = (.success out, m)) :
    ∃ b : Block, type.memoryClass = some b.cls ∧ b.first = b.cls.subregionOf out.addr.toNat ∧
      b.count = out.size.toNat / subregionSize ∧ b.owner = id ∧ out.addr.toNat = b.addr ∧
      out.size.toNat = b.count * subregionSize ∧ Arena.Sound ⟨m, b :: a.live⟩ := by
  rcases allocate_spec a.map type size arg id with
    ⟨cls, r, s, out', m', hcls, hid, hpos, heq', hp⟩ | ⟨reply, heq', hreply, -⟩
  · rw [heq] at heq'
    obtain ⟨rfl, rfl⟩ : out = out' ∧ m = m' := by simpa using heq'
    have hr := lt_of_mem_candidates hp.candidate
    have haddr := hp.addr
    refine ⟨⟨cls, subregion r s, (numSubregions size).toNat, id⟩, hcls, ?_, ?_, rfl, ?_, hp.size,
      ?_⟩
    · have hbound := hp.run.1
      rw [MemoryClass.subregionOf, haddr]
      simp only [subregion, subregionsPerRegion_eq, regionSize, subregionSize] at hbound ⊢
      omega
    · rw [hp.size]
      exact (Nat.mul_div_cancel _ (by decide)).symm
    · rw [haddr]
      simp only [Block.addr, subregion, subregionsPerRegion_eq, regionSize, subregionSize]
      omega
    · rw [hp.map]
      exact h.take hid hpos (by cases cls <;> exact hr) hp.run
  · rw [heq] at heq'
    obtain ⟨rfl, -⟩ : AllocationResult.success out = reply ∧ m = a.map := by simpa using heq'
    exact absurd rfl (hreply out)

/-- Giving an allocation back at once restores the map. -/
theorem free_allocate {m m' : DeviceMemoryMap} {out : Allocated}
    (heq : deviceMemoryMapAllocate m type size arg id = (.success out, m')) :
    (deviceMemoryMapFree m' type out.addr out.size id).2 = m := by
  rcases allocate_spec m type size arg id with
    ⟨cls, r, s, out', m'', hcls, hid, hpos, heq', hp⟩ | ⟨reply, heq', hreply, -⟩
  · rw [heq] at heq'
    obtain ⟨rfl, rfl⟩ : out = out' ∧ m' = m'' := by simpa using heq'
    obtain ⟨hfit, hzero⟩ := hp.run
    have hr := lt_of_mem_candidates hp.candidate
    have hregions : cls.regions = 64 := by cases cls <;> rfl
    have haddr := hp.addr
    have hsize := hp.size
    rw [subregionsPerRegion_eq] at hfit
    have hbound : out.size.toNat + subregionSize ≤ 2 ^ 64 := by
      simp only [subregionSize] at hsize ⊢
      omega
    have hown : Owns m' cls id out.addr.toNat out.size.toNat := by
      rw [haddr, hsize, hp.map]
      simp only [regionSize, subregionSize]
      refine ⟨hid, by omega, by omega, ?_, ⟨r, by omega, ?_, ?_⟩, fun r' s' hs' ht => ?_⟩
      · simp only [subregionSize]
        omega
      · simp only [regionSize]
        omega
      · simp only [regionSize]
        omega
      · simp only [Touches, regionSize, subregionSize, subregionsPerRegion_eq] at ht hs'
        rw [stamp_apply, if_pos ⟨rfl, by omega, by omega, by omega⟩]
    rcases free_spec m' type out.addr id hbound with
      ⟨cls', n, r', start, hcls', -, hspan, hfit', hfree⟩ | ⟨-, hno⟩
    · rw [hcls, Option.some_inj] at hcls'
      subst hcls'
      rw [hfree, hp.map]
      obtain ⟨hat, hle, hlt⟩ := hspan
      rw [haddr] at hat
      rw [hsize] at hle hlt
      simp only [regionSize, subregionSize] at hat hle hlt
      obtain ⟨rfl, rfl, rfl⟩ : r' = r ∧ start = s ∧ n = (numSubregions size).toNat := by omega
      funext c r'' s''
      show DeviceMemoryMap.stamp _ _ _ _ _ _ c r'' s'' = _
      rw [stamp_apply, stamp_apply]
      split
      · rename_i hin
        obtain ⟨rfl, rfl, hlo, hhi⟩ := hin
        have hcell := hzero (s'' - start) (by omega)
        rw [show start + (s'' - start) = s'' by omega] at hcell
        exact hcell.symm
      · rfl
    · exact absurd hown (hno _ hcls)
  · rw [heq] at heq'
    obtain ⟨rfl, -⟩ : AllocationResult.success out = reply ∧ m' = m := by simpa using heq'
    exact absurd rfl (hreply out)

/-! ## Any calls -/

/-- The rounding of a free's size does not wrap. -/
def Request.Bounded : Request → Prop
  | .allocate .. => True
  | .free _ _ size _ => size.toNat + subregionSize ≤ 2 ^ 64

theorem call_allocate_sound (h : a.Sound) (type : AllocationType) (size arg id : U64) :
    (a.call (.allocate type size arg id)).Sound := by
  rcases allocate_spec a.map type size arg id with
    ⟨cls, r, s, out, m', hcls, hid, hpos, heq, hp⟩ | ⟨reply, heq, hreply, -⟩
  · have hr := lt_of_mem_candidates hp.candidate
    have hfirst : cls.subregionOf out.addr.toNat = subregion r s := by
      have hbound := hp.run.1
      rw [MemoryClass.subregionOf, hp.addr]
      simp only [subregion, subregionsPerRegion_eq, regionSize, subregionSize] at hbound ⊢
      omega
    have hcount : out.size.toNat / subregionSize = (numSubregions size).toNat := by
      rw [hp.size]
      exact Nat.mul_div_cancel _ (by decide)
    have hcall : a.call (.allocate type size arg id) =
        ⟨m', ⟨cls, cls.subregionOf out.addr.toNat, out.size.toNat / subregionSize, id⟩ ::
          a.live⟩ := by
      simp only [call, heq, hcls]
    rw [hcall, hfirst, hcount, hp.map]
    exact h.take hid hpos (by cases cls <;> exact hr) hp.run
  · have hcall : a.call (.allocate type size arg id) = a := by
      cases reply with
      | success out => exact absurd rfl (hreply out)
      | noMemory => simp only [call, heq]
      | badArgument => simp only [call, heq]
    rw [hcall]
    exact h

theorem call_free_sound (h : a.Sound) (type : AllocationType) (addr : U64) {size : U64} (id : U64)
    (hsize : size.toNat + subregionSize ≤ 2 ^ 64) :
    (a.call (.free type addr size id)).Sound := by
  rcases free_spec a.map type addr id hsize with
    ⟨cls, n, r, start, hcls, hown, hspan, hfit, heq⟩ | ⟨heq, -⟩
  · have hpos := hown.nonempty
    have hlo : cls.subregionOf addr.toNat = subregion r start := by
      have haddr := hspan.addr_eq
      simp only [MemoryClass.subregionOf, subregion, subregionsPerRegion_eq, regionSize,
        subregionSize] at haddr ⊢
      omega
    have hhi : cls.subregionOf (addr.toNat + size.toNat - 1) + 1 = subregion r start + n := by
      obtain ⟨haddr, hle, hlt⟩ := hspan
      simp only [MemoryClass.subregionOf, subregion, subregionsPerRegion_eq, regionSize,
        subregionSize] at haddr hle hlt ⊢
      omega
    have hcall : a.call (.free type addr size id) =
        ⟨a.map.stamp cls r start n 0, a.live.flatMap fun b =>
          b.without cls (cls.subregionOf addr.toNat)
            (cls.subregionOf (addr.toNat + size.toNat - 1) + 1)⟩ := by
      simp only [call, heq, hcls]
    rw [hcall, hlo, hhi]
    exact h.release hfit
  · have hcall : a.call (.free type addr size id) = a := by
      simp only [call, heq]
    rw [hcall]
    exact h

theorem call_sound {request : Request} (h : a.Sound) (hb : request.Bounded) :
    (a.call request).Sound := by
  cases request with
  | allocate type size arg id => exact call_allocate_sound h type size arg id
  | free type addr size id => exact call_free_sound h type addr id hb

theorem foldl_call_sound (h : a.Sound) {requests : List Request} (hb : ∀ r ∈ requests, r.Bounded) :
    (requests.foldl call a).Sound := by
  induction requests generalizing a with
  | nil => exact h
  | cons request requests ih =>
    exact ih (call_sound h (hb _ mem_cons_self)) fun r hr => hb r (mem_cons_of_mem _ hr)

/-- Allocation of at most one region, as clients may rely on it. -/
structure AllocateSpec (m : DeviceMemoryMap) (type : AllocationType) (size arg id : U64) (n : Nat) :
    Prop where
  succeeds_iff : (∃ out, (deviceMemoryMapAllocate m type size arg id).1 = .success out) ↔
    id ≠ 0 ∧ ∃ cls, type.memoryClass = some cls ∧ ∃ r ∈ candidates type arg, ∃ s,
      FreeRun m cls n r s
  first : ∀ out, (deviceMemoryMapAllocate m type size arg id).1 = .success out →
    ∃ cls r s, type.memoryClass = some cls ∧
      Placed m cls (candidates type arg) id n r s out (deviceMemoryMapAllocate m type size arg id).2

/-- Release of a byte range, as clients may rely on it. -/
structure FreeSpec (m : DeviceMemoryMap) (type : AllocationType) (addr size id : U64) : Prop where
  succeeds_iff : (deviceMemoryMapFree m type addr size id).1 = .success () ↔
    ∃ cls, type.memoryClass = some cls ∧ Owns m cls id addr.toNat size.toNat
  clears : (deviceMemoryMapFree m type addr size id).1 = .success () → ∀ c r s,
    s < subregionsPerRegion → (deviceMemoryMapFree m type addr size id).2 c r s =
      if type.memoryClass = some c ∧ Touches c addr.toNat size.toNat r s then 0 else m c r s

theorem allocateSpec_of_fits (m : DeviceMemoryMap) (type : AllocationType) {size : U64}
    (arg id : U64) (h : Fits size) :
    AllocateSpec m type size arg id ((size.toNat + subregionSize - 1) / subregionSize) := by
  rw [← h.num.1]
  rcases allocate_spec m type size arg id with
    ⟨cls, r, s, out, m', hcls, hid, -, heq, hp⟩ | ⟨reply, heq, hreply, hno⟩
  · constructor
    · rw [heq]
      exact ⟨fun _ => ⟨hid, cls, hcls, r, hp.candidate, s, hp.run⟩, fun _ => ⟨out, rfl⟩⟩
    · rw [heq]
      rintro out' ⟨⟩
      exact ⟨cls, r, s, hcls, hp⟩
  · constructor
    · rw [heq]
      refine ⟨fun ⟨out, hout⟩ => absurd hout (hreply out), ?_⟩
      rintro ⟨hid, cls, hcls, r, hr, s, hs⟩
      exact absurd hs (hno hid h cls hcls r hr s)
    · rw [heq]
      exact fun out hout => absurd hout (hreply out)

theorem freeSpec_of_bounded (m : DeviceMemoryMap) (type : AllocationType) (addr : U64) {size : U64}
    (id : U64) (hsize : size.toNat + subregionSize ≤ 2 ^ 64) : FreeSpec m type addr size id := by
  rcases free_spec m type addr id hsize with
    ⟨cls, n, r, start, hcls, hown, hspan, hfit, heq⟩ | ⟨heq, hno⟩
  · constructor
    · rw [heq]
      exact ⟨fun _ => ⟨cls, hcls, hown⟩, fun _ => rfl⟩
    · intro _ c r' s hs
      rw [heq]
      show m.stamp cls r start n 0 c r' s = _
      rw [stamp_apply]
      refine if_congr ?_ rfl rfl
      rw [hcls, Option.some_inj]
      constructor
      · rintro ⟨rfl, hin⟩
        exact ⟨rfl, (hspan.touches_iff hfit hown.nonempty hs).mpr hin⟩
      · rintro ⟨rfl, ht⟩
        exact ⟨rfl, (hspan.touches_iff hfit hown.nonempty hs).mp ht⟩
  · constructor
    · rw [heq]
      constructor
      · rintro ⟨⟩
      · rintro ⟨cls, hcls, hown⟩
        exact absurd hown (hno cls hcls)
    · rw [heq]
      rintro ⟨⟩

theorem allocate_failure
    (h : ∀ out, (deviceMemoryMapAllocate m type size arg id).1 ≠ .success out) :
    (deviceMemoryMapAllocate m type size arg id).2 = m := by
  rcases allocate_spec m type size arg id with ⟨_, _, _, out, _, _, _, _, heq, _⟩ | ⟨_, heq, _⟩
  · exact absurd (congrArg Prod.fst heq) (h out)
  · rw [heq]

theorem free_failure {addr size id : U64}
    (h : (deviceMemoryMapFree m type addr size id).1 ≠ .success ()) :
    (deviceMemoryMapFree m type addr size id).2 = m := by
  revert h
  unfold deviceMemoryMapFree
  cases type.memoryClass with
  | none => split <;> exact fun _ => rfl
  | some cls =>
    simp only []
    split_ifs <;> first | exact fun _ => rfl | exact fun h => absurd rfl h

/-- Any calls by any clients, none of whose frees names a size within 64 MiB of 2⁶⁴: the clients'
allocations lie apart and the map says whose they are, a further allocation is first fit, and
a further free clears exactly the range its client owns. A call that fails changes nothing. -/
theorem subregion_allocator {requests : List Request} (h : ∀ r ∈ requests, r.Bounded) :
    (after requests).Sound ∧
    (∀ b ∈ (after requests).live, subregionSize ∣ b.addr) ∧
    (∀ type size arg id, Fits size → AllocateSpec (after requests).map type size arg id
      ((size.toNat + subregionSize - 1) / subregionSize)) ∧
    (∀ type addr size id, (Request.free type addr size id).Bounded →
      FreeSpec (after requests).map type addr size id) ∧
    (∀ type size arg id, (∀ out,
      (deviceMemoryMapAllocate (after requests).map type size arg id).1 ≠ .success out) →
      (deviceMemoryMapAllocate (after requests).map type size arg id).2 =
        (after requests).map) ∧
    ∀ type addr size id,
      (deviceMemoryMapFree (after requests).map type addr size id).1 ≠ .success () →
      (deviceMemoryMapFree (after requests).map type addr size id).2 =
        (after requests).map := by
  refine ⟨foldl_call_sound Arena.Sound.init h, fun b _ => b.aligned, ?_, ?_, ?_, ?_⟩
  · exact fun type size arg id hfits => allocateSpec_of_fits _ type arg id hfits
  · exact fun type addr size id hb => freeSpec_of_bounded _ type addr id hb
  · exact fun type size arg id hfail => allocate_failure hfail
  · exact fun type addr size id hfail => free_failure hfail

/-- One client takes 100 MiB of HBM region 3 and frees the first half again. -/
def halfFreed : List Request :=
  [.allocate .hbm 0x6400000#64 3#64 7#64, .free .hbmVnoc 0x4060000000#64 0x4000000#64 7#64]

theorem halfFreed_sound : (after halfFreed).Sound ∧
    (after halfFreed).live = [⟨.hbm, 25, 1, 7#64⟩] := by
  have hb : ∀ r ∈ halfFreed, r.Bounded := by
    intro r hr
    rcases mem_cons.mp hr with rfl | hr
    · trivial
    · rw [mem_singleton.mp hr]
      show (0x4000000#64).toNat + subregionSize ≤ 2 ^ 64
      decide
  exact ⟨(subregion_allocator hb).1, by decide +kernel⟩

/-- A client that owns nothing frees all of memory but one byte, from the base of HBM on. The
rounding wraps to no subregions, nothing is looked at, and the reply is success. -/
theorem wrapped_free_succeeds :
    ¬ FreeSpec (after []).map .hbm 0x4000000000#64 0xFFFFFFFFFFFFFFFF#64 1#64 := by
  intro h
  obtain ⟨cls, -, hown⟩ := h.succeeds_iff.mp (by decide +kernel)
  obtain ⟨r, hr, -, hhi⟩ := hown.inside
  have hreg : cls.regions = 64 := by cases cls <;> rfl
  have hsize : (0xFFFFFFFFFFFFFFFF#64).toNat = 0xFFFFFFFFFFFFFFFF := rfl
  have hstart : cls.startAddress ≤ 0x60000000000 := by cases cls <;> decide
  rw [hsize] at hhi
  rw [hreg] at hr
  simp only [regionSize] at hhi
  omega

end Slash.Vrtd
