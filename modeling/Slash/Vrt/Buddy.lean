import Mathlib.Order.Bounds.Defs
import Slash.Lib.Buckets
import Slash.Lib.Dyadic
import Slash.Lib.SwapRemove

/-!
# The buddy superblock

`BuddySuperblockBase` of the vrt allocator: blocks of 2^MIN_K to 2^MAX_K bytes, one free list for
each size. An allocation takes the smallest block that is large enough and cuts it in half until
it fits, a deallocation joins a block with its buddy for as long as the buddy is free.

The blocks are dyadic intervals of the superblock (`UntypedBuffer.block`), so that the free and
the live blocks are a tiling and every step of either loop is `tiles_parent`. Sizes are at most
2^63: nothing here wraps.
-/

namespace Slash.Vrt

open Lib List Dyad

/-! ## The source -/

/-- A slice of a device buffer; `physBase` is the address of the backing buffer. -/
structure UntypedBuffer where
  physBase : Nat
  size : Nat
  offset : Nat
  deriving DecidableEq, Repr

/-- The slice constructor. The largest 64-bit size stands for all of the parent. -/
def UntypedBuffer.slice (parent : UntypedBuffer) (size offset : Nat) : UntypedBuffer where
  physBase := parent.physBase
  size := if size = 2 ^ 64 - 1 then parent.size else size
  offset := parent.offset + offset

def UntypedBuffer.getPhysAddr (b : UntypedBuffer) : Nat := b.physBase + b.offset

abbrev FreeList := Nat → List UntypedBuffer

section
variable (minK maxK : Nat)

/-- `kNumBuckets`. -/
def numBuckets : Nat := maxK - minK + 1

/-- `64 - __builtin_clzll(n)` is the bit length of `n`. -/
def sizeToIndex (size : Nat) : Nat :=
  if size ≤ 2 ^ minK then 0 else Nat.log2 (size - 1) + 1 - minK

/-- `seed`, on the empty free lists of a new superblock. -/
def seed (whole : UntypedBuffer) : Option FreeList :=
  let index := sizeToIndex minK whole.size
  if index ≥ numBuckets minK maxK then none
  else some (upd (fun _ => []) index [whole])

/-- The scan for the first bucket from `i` on that is not empty, with its last block. -/
def firstFree (fl : FreeList) : Nat → Nat → Option (Nat × UntypedBuffer)
  | 0, _ => none
  | n + 1, i =>
    match (fl i).getLast? with
    | none => firstFree fl n (i + 1)
    | some buffer => some (i, buffer)

/-- The inner loop of `allocate`, from bucket `index + n` down to `index`. The upper half goes
back to the free list, the lower half is cut further. -/
def splitDown (index : Nat) : Nat → FreeList → UntypedBuffer → UntypedBuffer × FreeList
  | 0, fl, buffer => (buffer, fl)
  | n + 1, fl, buffer =>
    let i := index + n
    let halfSize := 2 ^ (minK + i)
    splitDown index n (upd fl i (fl i ++ [buffer.slice halfSize halfSize]))
      (buffer.slice halfSize 0)

/-- `allocate`; `none` is `std::bad_alloc`. -/
def allocate (fl : FreeList) (size : Nat) : Option (UntypedBuffer × FreeList) :=
  let index := sizeToIndex minK size
  if index ≥ numBuckets minK maxK then none
  else
    match firstFree fl (numBuckets minK maxK - index) index with
    | none => none
    | some (i, buffer) =>
      some (splitDown minK index (i - index) (upd fl i (fl i).dropLast) buffer)

/-- The coalescing loop of `deallocate`, with at most `n` rounds to go. -/
def coalesce (base : Nat) : Nat → FreeList → Nat → Nat → Nat → FreeList × Nat × Nat × Nat
  | 0, fl, i, offset, size => (fl, i, offset, size)
  | n + 1, fl, i, offset, size =>
    let buddyOffset := offset ^^^ size
    match (fl i).findIdx? fun b => b.getPhysAddr - base = buddyOffset with
    | none => (fl, i, offset, size)
    | some j =>
      coalesce base n (upd fl i (swapRemove (fl i) j)) (i + 1) (min offset buddyOffset) (size * 2)

/-- `deallocate`; `none` stands for the two exceptions. -/
def deallocate (whole : UntypedBuffer) (fl : FreeList) (buffer : UntypedBuffer) :
    Option FreeList :=
  let index := sizeToIndex minK buffer.size
  if index ≥ numBuckets minK maxK then none
  else
    let base := whole.getPhysAddr
    let offset := buffer.getPhysAddr - base
    if offset + buffer.size > whole.size then none
    else
      let (fl, i, offset, size) :=
        coalesce base (numBuckets minK maxK - 1 - index) fl index offset buffer.size
      some (upd fl i (fl i ++ [whole.slice size offset]))

def isFree (whole : UntypedBuffer) (fl : FreeList) : Bool :=
  (fl (sizeToIndex minK whole.size)).length == 1

/-! ## Runs -/

/-- The superblock and the blocks it has handed out. -/
structure Pool where
  freeList : FreeList
  live : List UntypedBuffer

inductive Act where
  | allocate (size : Nat)
  | deallocate (block : UntypedBuffer)
  deriving DecidableEq, Repr

/-- One call. Callers give back only what they hold. -/
def Pool.step (whole : UntypedBuffer) (p : Pool) : Act → Pool
  | .allocate size =>
    match Vrt.allocate minK maxK p.freeList size with
    | none => p
    | some (block, fl) => ⟨fl, block :: p.live⟩
  | .deallocate block =>
    if block ∈ p.live then
      match Vrt.deallocate minK maxK whole p.freeList block with
      | none => p
      | some fl => ⟨fl, p.live.erase block⟩
    else p

/-- Any calls, on a superblock that has just been seeded. -/
def Pool.after (whole : UntypedBuffer) (acts : List Act) : Option Pool :=
  (seed minK maxK whole).map fun fl => acts.foldl (Pool.step minK maxK whole) ⟨fl, []⟩

def Pool.free (p : Pool) : List UntypedBuffer := contents p.freeList (numBuckets minK maxK)

end

/-! ## Blocks of the superblock -/

/-- The block of the superblock that an interval stands for. -/
def UntypedBuffer.block (whole : UntypedBuffer) (d : Dyad) : UntypedBuffer :=
  ⟨whole.physBase, d.size, whole.offset + d.start⟩

theorem slice_two_pow (parent : UntypedBuffer) (k offset : Nat) :
    parent.slice (2 ^ k) offset = ⟨parent.physBase, 2 ^ k, parent.offset + offset⟩ := by
  have hne : 2 ^ k ≠ 2 ^ 64 - 1 := by
    cases k with
    | zero => decide
    | succ k =>
      rw [Nat.pow_succ]
      omega
  simp only [UntypedBuffer.slice, if_neg hne]

theorem order_eq_of_size {d : Dyad} {k : Nat} (h : d.size = 2 ^ k) : d.order = k :=
  Nat.pow_right_injective (le_refl 2) h

theorem block_injective (whole : UntypedBuffer) : Function.Injective whole.block := by
  intro d e h
  have hsize : d.size = e.size := congrArg UntypedBuffer.size h
  have hoff : whole.offset + d.start = whole.offset + e.start :=
    congrArg UntypedBuffer.offset h
  exact eq_of_start (order_eq_of_size hsize) (by omega)

theorem block_phys_sub (whole : UntypedBuffer) (d : Dyad) :
    (whole.block d).getPhysAddr - whole.getPhysAddr = d.start := by
  simp only [UntypedBuffer.block, UntypedBuffer.getPhysAddr]
  omega

/-! ## Free lists -/

/-- The free lists hold the intervals `F`, each in the bucket of its length. -/
structure Bucketed (minK maxK : Nat) (whole : UntypedBuffer) (fl : FreeList)
    (F : List Dyad) : Prop where
  perm : (contents fl (numBuckets minK maxK)).Perm (F.map whole.block)
  size : ∀ i < numBuckets minK maxK, ∀ b ∈ fl i, b.size = 2 ^ (minK + i)

section
variable {minK maxK : Nat} {whole : UntypedBuffer} {fl : FreeList} {F : List Dyad}

variable (h : Bucketed minK maxK whole fl F)
include h

theorem Bucketed.mem_iff {i : Nat} (hi : i < numBuckets minK maxK) {b : UntypedBuffer} :
    b ∈ fl i ↔ ∃ d ∈ F, d.order = minK + i ∧ b = whole.block d := by
  constructor
  · intro hb
    have hmem := h.perm.mem_iff.mp (mem_contents.mpr ⟨i, hi, hb⟩)
    obtain ⟨d, hd, rfl⟩ := mem_map.mp hmem
    exact ⟨d, hd, order_eq_of_size (h.size i hi _ hb), rfl⟩
  · rintro ⟨d, hd, ho, rfl⟩
    obtain ⟨j, hj, hb⟩ := mem_contents.mp (h.perm.mem_iff.mpr (mem_map_of_mem hd))
    have hij : d.order = minK + j := order_eq_of_size (h.size j hj _ hb)
    have : j = i := by omega
    rwa [this] at hb

theorem Bucketed.order {d : Dyad} (hd : d ∈ F) :
    ∃ i < numBuckets minK maxK, d.order = minK + i := by
  obtain ⟨i, hi, hb⟩ := mem_contents.mp (h.perm.mem_iff.mpr (mem_map_of_mem hd))
  exact ⟨i, hi, order_eq_of_size (h.size i hi _ hb)⟩

theorem Bucketed.push {i : Nat} (hi : i < numBuckets minK maxK) {d : Dyad}
    (hd : d.order = minK + i) :
    Bucketed minK maxK whole (upd fl i (fl i ++ [whole.block d])) (d :: F) := by
  refine ⟨(contents_push_perm fl hi _).trans (h.perm.cons _), fun j hj b hb => ?_⟩
  by_cases hij : j = i
  · subst hij
    rw [upd_same, mem_append, mem_singleton] at hb
    rcases hb with hb | rfl
    · exact h.size j hj b hb
    · show 2 ^ d.order = 2 ^ (minK + j)
      rw [hd]
  · rw [upd_ne fl _ hij] at hb
    exact h.size j hj b hb

theorem Bucketed.pop {i : Nat} (hi : i < numBuckets minK maxK) {d : Dyad} {l : List UntypedBuffer}
    (hp : (fl i).Perm (whole.block d :: l)) :
    ∃ F', F.Perm (d :: F') ∧ d.order = minK + i ∧ Bucketed minK maxK whole (upd fl i l) F' := by
  have hmem : whole.block d ∈ fl i := hp.mem_iff.mpr mem_cons_self
  obtain ⟨e, he, ho, heq⟩ := (h.mem_iff hi).mp hmem
  obtain rfl := block_injective whole heq
  have hF : F.Perm (d :: F.erase d) := perm_cons_erase he
  refine ⟨F.erase d, hF, ho, ?_, fun j hj b hb => ?_⟩
  · refine List.Perm.cons_inv (a := whole.block d) ?_
    exact (contents_pop_perm fl hi hp).symm.trans (h.perm.trans (hF.map _))
  · by_cases hij : j = i
    · subst hij
      rw [upd_same] at hb
      exact h.size j hj b (hp.mem_iff.mpr (mem_cons_of_mem _ hb))
    · rw [upd_ne fl _ hij] at hb
      exact h.size j hj b hb

end

/-! ## Sizes -/

/-- The sizes that hold `size` bytes. -/
def Sizes (minK size : Nat) : Set Nat := fun n => ∃ k, minK ≤ k ∧ n = 2 ^ k ∧ size ≤ n

theorem sizeToIndex_isLeast (minK size : Nat) :
    IsLeast (Sizes minK size) (2 ^ (minK + sizeToIndex minK size)) := by
  unfold sizeToIndex
  split
  · rename_i hle
    refine ⟨⟨minK, Nat.le_refl _, rfl, hle⟩, ?_⟩
    rintro n ⟨k, hk, rfl, -⟩
    exact Nat.pow_le_pow_right (by decide) hk
  · rename_i hgt
    have hpos : size - 1 ≠ 0 := by
      have := Nat.two_pow_pos minK
      omega
    have hlog : minK ≤ Nat.log2 (size - 1) := (Nat.le_log2 hpos).mpr (by omega)
    have hk : minK + (Nat.log2 (size - 1) + 1 - minK) = Nat.log2 (size - 1) + 1 := by omega
    rw [hk]
    have hlt : size - 1 < 2 ^ (Nat.log2 (size - 1) + 1) := Nat.lt_log2_self
    refine ⟨⟨_, by omega, rfl, by omega⟩, ?_⟩
    rintro n ⟨k, -, rfl, hn⟩
    refine Nat.pow_le_pow_right (by decide) ?_
    have : Nat.log2 (size - 1) < k := (Nat.log2_lt hpos).mpr (by omega)
    omega

theorem sizeToIndex_two_pow (minK i : Nat) : sizeToIndex minK (2 ^ (minK + i)) = i := by
  have hleast := sizeToIndex_isLeast minK (2 ^ (minK + i))
  have hself : 2 ^ (minK + i) ∈ Sizes minK (2 ^ (minK + i)) :=
    ⟨minK + i, Nat.le_add_right _ _, rfl, Nat.le_refl _⟩
  obtain ⟨k, -, -, hle⟩ := hleast.1
  have heq : minK + sizeToIndex minK (2 ^ (minK + i)) = minK + i :=
    Nat.pow_right_injective (le_refl 2) (Nat.le_antisymm (hleast.2 hself) hle)
  omega

theorem sizeToIndex_whole {minK K : Nat} {whole : UntypedBuffer} (hmin : minK ≤ K)
    (hwhole : whole.size = 2 ^ K) : sizeToIndex minK whole.size = K - minK := by
  have hsum : minK + (K - minK) = K := by omega
  have := sizeToIndex_two_pow minK (K - minK)
  rwa [hsum, ← hwhole] at this

/-! ## Allocation -/

/-- No two of the intervals are buddies. -/
def Unpaired (F : List Dyad) : Prop := ∀ d ∈ F, d.buddy ∉ F

section
variable {minK maxK : Nat} {whole : UntypedBuffer} {fl : FreeList} {F : List Dyad}

theorem Unpaired.subset {F F' : List Dyad} (h : Unpaired F) (hs : ∀ d ∈ F', d ∈ F) :
    Unpaired F' := fun d hd hb => h d (hs d hd) (hs _ hb)

theorem Unpaired.cons {d : Dyad} (h : Unpaired F) (hd : d.buddy ∉ F) : Unpaired (d :: F) := by
  intro e he hb
  rcases mem_cons.mp he with rfl | he
  · rcases mem_cons.mp hb with heq | hb
    · exact e.buddy_ne heq
    · exact hd hb
  · rcases mem_cons.mp hb with heq | hb
    · exact hd (heq ▸ (buddy_buddy e).symm ▸ he)
    · exact h e he hb

theorem block_lower (whole : UntypedBuffer) {d : Dyad} {k : Nat} (hd : d.order = k + 1) :
    (whole.block d).slice (2 ^ k) 0 = whole.block d.lower ∧
    (whole.block d).slice (2 ^ k) (2 ^ k) = whole.block d.lower.buddy := by
  have hpos : 0 < d.order := by omega
  have hsize : d.lower.size = 2 ^ k := by
    simp only [size, lower, hd, Nat.add_sub_cancel]
  have hbuddy : d.lower.buddy.size = 2 ^ k := hsize
  rw [slice_two_pow, slice_two_pow]
  simp only [UntypedBuffer.block, hsize, hbuddy, start_lower hpos,
    start_buddy_lower hpos, Nat.add_zero, Nat.add_assoc, and_self]

/-- Cutting a block down leaves one free block of each length in between. -/
theorem splitDown_spec (index n : Nat) : ∀ (fl : FreeList) (F : List Dyad) (d : Dyad),
    Bucketed minK maxK whole fl F → index + n < numBuckets minK maxK →
    d.order = minK + index + n →
    (∀ e ∈ F, ¬ (minK + index ≤ e.order ∧ e.order < minK + index + n)) → Unpaired F →
    ∃ d' P, (splitDown minK index n fl (whole.block d)).1 = whole.block d' ∧
      d'.order = minK + index ∧
      Bucketed minK maxK whole (splitDown minK index n fl (whole.block d)).2 (P ++ F) ∧
      Unpaired (P ++ F) ∧
      ∀ K l, Dyad.Tiles K (d :: l) → Dyad.Tiles K (d' :: P ++ l) := by
  induction n with
  | zero =>
    intro fl F d hb _ hd _ hun
    exact ⟨d, [], rfl, hd, hb, hun, fun K l h => h⟩
  | succ n ih =>
    intro fl F d hb hn hd hgap hun
    have horder : d.order = minK + (index + n) + 1 := by omega
    obtain ⟨hlow, hup⟩ := block_lower whole horder
    have hlo : d.lower.order = minK + (index + n) := by
      simp only [lower, horder, Nat.add_sub_cancel]
    have hpush := hb.push (i := index + n) (d := d.lower.buddy) (by omega) hlo
    have hun' : Unpaired (d.lower.buddy :: F) := by
      refine hun.cons ?_
      rw [buddy_buddy]
      exact fun hmem => hgap _ hmem ⟨by omega, by omega⟩
    have hgap' : ∀ e ∈ d.lower.buddy :: F,
        ¬ (minK + index ≤ e.order ∧ e.order < minK + index + n) := by
      intro e he hin
      rcases mem_cons.mp he with rfl | he
      · have : d.lower.buddy.order = minK + (index + n) := hlo
        omega
      · exact hgap e he ⟨hin.1, by omega⟩
    obtain ⟨d', P, hfst, hord, hbk, hunp, htiles⟩ :=
      ih _ _ d.lower hpush (by omega) (by omega) hgap' hun'
    refine ⟨d', P ++ [d.lower.buddy], ?_, hord, ?_, ?_, fun K l ht => ?_⟩
    · simp only [splitDown, hlow, hup]
      exact hfst
    · simp only [splitDown, hlow, hup, append_assoc, singleton_append]
      exact hbk
    · rw [append_assoc, singleton_append]
      exact hunp
    · have hhalves : Dyad.Tiles K (d.lower :: d.lower.buddy :: l) := by
        rw [← tiles_parent, parent_lower (by omega)]
        exact ht
      have := htiles K _ hhalves
      rw [cons_append, append_assoc, singleton_append]
      exact this

theorem firstFree_some {n i j : Nat} {b : UntypedBuffer} (h : firstFree fl n i = some (j, b)) :
    i ≤ j ∧ j < i + n ∧ (fl j).getLast? = some b ∧ ∀ m, i ≤ m → m < j → fl m = [] := by
  induction n generalizing i with
  | zero => cases h
  | succ n ih =>
    unfold firstFree at h
    split at h
    · rename_i hnone
      obtain ⟨h1, h2, h3, h4⟩ := ih h
      refine ⟨by omega, by omega, h3, fun m hm hmj => ?_⟩
      rcases Nat.eq_or_lt_of_le hm with rfl | hlt
      · exact List.getLast?_eq_none_iff.mp hnone
      · exact h4 m hlt hmj
    · rename_i b' hb'
      cases h
      exact ⟨Nat.le_refl _, by omega, hb', fun m hm hmj => by omega⟩

theorem firstFree_none {n i : Nat} (h : firstFree fl n i = none) :
    ∀ m, i ≤ m → m < i + n → fl m = [] := by
  induction n generalizing i with
  | zero => exact fun m h1 h2 => by omega
  | succ n ih =>
    unfold firstFree at h
    split at h
    · rename_i hnone
      intro m hm hmn
      rcases Nat.eq_or_lt_of_le hm with rfl | hlt
      · exact List.getLast?_eq_none_iff.mp hnone
      · exact ih h m hlt (by omega)
    · cases h

/-- An allocation fails when every free block is too short, and otherwise takes a block out of a
free one and leaves the rest of it free. -/
theorem allocate_spec (hb : Bucketed minK maxK whole fl F) (hun : Unpaired F) (size : Nat) :
    (allocate minK maxK fl size = none ∧
      ∀ d ∈ F, d.order < minK + sizeToIndex minK size) ∨
    ∃ fl' d d' P F', allocate minK maxK fl size = some (whole.block d', fl') ∧
      F.Perm (d :: F') ∧ minK + sizeToIndex minK size ≤ d.order ∧
      d'.order = minK + sizeToIndex minK size ∧
      Bucketed minK maxK whole fl' (P ++ F') ∧ Unpaired (P ++ F') ∧
      ∀ K l, Dyad.Tiles K (d :: l) → Dyad.Tiles K (d' :: P ++ l) := by
  unfold allocate
  by_cases hbig : sizeToIndex minK size ≥ numBuckets minK maxK
  · refine .inl ⟨if_pos hbig, fun d hd => ?_⟩
    obtain ⟨i, hi, ho⟩ := hb.order hd
    omega
  simp only [if_neg hbig]
  generalize sizeToIndex minK size = index at *
  cases hscan : firstFree fl (numBuckets minK maxK - index) index with
  | none =>
    refine .inl ⟨rfl, fun d hd => ?_⟩
    obtain ⟨i, hi, ho⟩ := hb.order hd
    by_contra hge
    have hempty := firstFree_none hscan i (by omega) (by omega)
    have hmem := (hb.mem_iff hi).mpr ⟨d, hd, ho, rfl⟩
    rw [hempty] at hmem
    cases hmem
  | some found =>
    obtain ⟨i, b⟩ := found
    obtain ⟨hle, hlt, hlast, hgap⟩ := firstFree_some hscan
    have hi : i < numBuckets minK maxK := by omega
    obtain ⟨d, hd, ho, rfl⟩ := (hb.mem_iff hi).mp (mem_of_getLast? hlast)
    have hp : (fl i).Perm (whole.block d :: (fl i).dropLast) := by
      have heq : fl i = (fl i).dropLast ++ [whole.block d] :=
        (dropLast_append_getLast? _ hlast).symm
      rw [heq]
      simp
    obtain ⟨F', hF, -, hb'⟩ := hb.pop hi hp
    have hsub : ∀ e ∈ F', e ∈ F := fun e he => hF.mem_iff.mpr (mem_cons_of_mem _ he)
    have hgap' : ∀ e ∈ F', ¬ (minK + index ≤ e.order ∧ e.order < minK + index + (i - index)) := by
      rintro e he ⟨hlo, hhi⟩
      have hmem := (hb.mem_iff (i := e.order - minK) (by omega)).mpr
        ⟨e, hsub e he, by omega, rfl⟩
      rw [hgap _ (by omega) (by omega)] at hmem
      cases hmem
    obtain ⟨d', P, hfst, hord, hbk, hunp, htiles⟩ :=
      splitDown_spec index (i - index) _ F' d hb' (by omega) (by omega) hgap' (hun.subset hsub)
    refine .inr ⟨_, d, d', P, F', ?_, hF, by omega, hord, hbk, hunp, htiles⟩
    simp only [Option.some.injEq]
    exact Prod.ext hfst rfl

/-! ## Deallocation -/

/-- The search for the buddy finds it when it is free. -/
theorem findIdx?_buddy (hb : Bucketed minK maxK whole fl F) {i : Nat}
    (hi : i < numBuckets minK maxK) {d : Dyad} (hd : d.order = minK + i) :
    ((fl i).findIdx? (fun b => decide (b.getPhysAddr - whole.getPhysAddr = d.start ^^^ d.size)) =
        none ∧ d.buddy ∉ F) ∨
    ∃ j, (fl i).findIdx? (fun b =>
        decide (b.getPhysAddr - whole.getPhysAddr = d.start ^^^ d.size)) = some j ∧
      (fl i)[j]? = some (whole.block d.buddy) := by
  rw [← start_buddy]
  cases hfind : (fl i).findIdx? (fun b =>
      decide (b.getPhysAddr - whole.getPhysAddr = d.buddy.start)) with
  | none =>
    refine .inl ⟨rfl, fun hmem => ?_⟩
    have hb' := (hb.mem_iff hi).mpr ⟨d.buddy, hmem, hd, rfl⟩
    have hno := List.findIdx?_eq_none_iff.mp hfind _ hb'
    simp [block_phys_sub] at hno
  | some j =>
    obtain ⟨hj, hhit, -⟩ := List.findIdx?_eq_some_iff_getElem.mp hfind
    refine .inr ⟨j, rfl, ?_⟩
    obtain ⟨e, -, ho, heq⟩ := (hb.mem_iff hi).mp (getElem_mem hj)
    rw [heq, decide_eq_true_eq, block_phys_sub] at hhit
    have : e = d.buddy := eq_of_start (ho.trans hd.symm) hhit
    rw [List.getElem?_eq_getElem hj, heq, this]

/-- Joining a block with its buddy for as long as that is free. -/
theorem coalesce_spec (n : Nat) : ∀ (fl : FreeList) (F : List Dyad) (i : Nat) (d : Dyad),
    Bucketed minK maxK whole fl F → i + n + 1 = numBuckets minK maxK → d.order = minK + i →
    ∃ fl' j d' R, coalesce whole.getPhysAddr n fl i d.start d.size =
        (fl', j, d'.start, d'.size) ∧
      j < numBuckets minK maxK ∧ d'.order = minK + j ∧ Bucketed minK maxK whole fl' R ∧
      (∀ e ∈ R, e ∈ F) ∧ (d'.buddy ∉ R ∨ j + 1 = numBuckets minK maxK) ∧
      ∀ K l, Dyad.Tiles K (d :: F ++ l) → Dyad.Tiles K (d' :: R ++ l) := by
  induction n with
  | zero =>
    intro fl F i d hb hn hd
    exact ⟨fl, i, d, F, rfl, by omega, hd, hb, fun e he => he, .inr (by omega), fun K l h => h⟩
  | succ n ih =>
    intro fl F i d hb hn hd
    have hi : i < numBuckets minK maxK := by omega
    rcases findIdx?_buddy hb hi hd with ⟨hnone, hno⟩ | ⟨j, hsome, hget⟩
    · refine ⟨fl, i, d, F, ?_, hi, hd, hb, fun e he => he, .inl hno, fun K l h => h⟩
      simp only [coalesce, hnone]
    · obtain ⟨F', hF, -, hb'⟩ := hb.pop hi (perm_cons_swapRemove hget)
      have hparent : d.parent.order = minK + (i + 1) := by
        simp only [parent, hd]
        omega
      obtain ⟨fl', j', d', R, heq, hj', ho', hbk, hsub, hend, htiles⟩ :=
        ih _ F' (i + 1) d.parent hb' (by omega) hparent
      refine ⟨fl', j', d', R, ?_, hj', ho', hbk, ?_, hend, fun K l ht => htiles K l ?_⟩
      · have hsize : d.size * 2 = d.parent.size := rfl
        simp only [coalesce, hsome]
        rw [hsize, ← start_buddy, min_start_buddy]
        exact heq
      · exact fun e he => hF.mem_iff.mpr (mem_cons_of_mem _ (hsub e he))
      · rw [cons_append, tiles_parent]
        refine ht.perm ?_
        exact ((hF.append_right l).cons d)

theorem deallocate_spec (hb : Bucketed minK maxK whole fl F) (hun : Unpaired F) {K : Nat}
    (hK : K ≤ maxK) (hwhole : whole.size = 2 ^ K) {d : Dyad} {L : List Dyad}
    (hd : minK ≤ d.order) (ht : Dyad.Tiles K (d :: F ++ L)) :
    ∃ fl' F', deallocate minK maxK whole fl (whole.block d) = some fl' ∧
      Bucketed minK maxK whole fl' F' ∧ Unpaired F' ∧ Dyad.Tiles K (F' ++ L) := by
  have htop : d.order ≤ K := ht.order_le mem_cons_self
  have hindex : sizeToIndex minK d.size = d.order - minK := by
    have hsize : d.size = 2 ^ (minK + (d.order - minK)) := by
      rw [Nat.add_sub_cancel' hd]
      rfl
    rw [hsize, sizeToIndex_two_pow]
  have hnum : numBuckets minK maxK = maxK - minK + 1 := rfl
  have hfit : ¬ (d.start + d.size > 2 ^ K) :=
    Nat.not_lt.mpr (ht.inside mem_cons_self)
  have hsize : (whole.block d).size = d.size := rfl
  obtain ⟨fl', j, d', R, heq, hj, ho, hbk, hsub, hend, htiles⟩ :=
    coalesce_spec (numBuckets minK maxK - 1 - (d.order - minK)) fl F (d.order - minK) d hb
      (by omega) (by omega)
  have ht' := htiles K L ht
  refine ⟨upd fl' j (fl' j ++ [whole.block d']), d' :: R, ?_, hbk.push hj ho, ?_, ht'⟩
  · unfold deallocate
    simp only [hsize, hindex, block_phys_sub, hwhole, if_neg hfit, heq]
    rw [if_neg (by omega)]
    simp only [size, slice_two_pow]
    rfl
  · refine (hun.subset hsub).cons ?_
    rcases hend with hno | hlast
    · exact hno
    · -- a block of the largest size is the whole superblock and has no buddy in it
      intro hmem
      have hmem' : d'.buddy ∈ d' :: R ++ L := mem_cons_of_mem _ (mem_append_left _ hmem)
      have hself : d' ∈ d' :: R ++ L := mem_cons_self
      have hle := ht'.order_le hself
      have hzero : ∀ e ∈ d' :: R ++ L, e.order = K → e = ⟨K, 0⟩ := by
        intro e he heK
        refine eq_of_covers heK e.covers_start (covers_iff.mpr ⟨?_, ?_⟩)
        · simp [start]
        · have := ht'.lt he e.covers_start
          simpa [start, size] using this
      have hdK : d'.order = K := by omega
      exact d'.buddy_ne ((hzero _ hmem' hdK).trans (hzero _ hself hdK).symm)

end

/-! ## The superblock in any run -/

/-- The free lists hold the intervals `F`, the callers hold `L`, together they tile the
superblock, and what could be joined is. -/
structure Pool.Tiled (minK maxK K : Nat) (whole : UntypedBuffer) (p : Pool) (F L : List Dyad) :
    Prop where
  free : Bucketed minK maxK whole p.freeList F
  unpaired : Unpaired F
  live : p.live.Perm (L.map whole.block)
  floor : ∀ d ∈ L, minK ≤ d.order
  tiles : Dyad.Tiles K (F ++ L)

section
variable {minK maxK K : Nat} {whole : UntypedBuffer} {p : Pool} {F L : List Dyad}

theorem seed_tiled (hmin : minK ≤ K) (hmax : K ≤ maxK) (hwhole : whole.size = 2 ^ K) :
    ∃ fl, seed minK maxK whole = some fl ∧
      Pool.Tiled minK maxK K whole ⟨fl, []⟩ [⟨K, 0⟩] [] := by
  have hindex := sizeToIndex_whole hmin hwhole
  have hnum : numBuckets minK maxK = maxK - minK + 1 := rfl
  have hblock : whole = whole.block ⟨K, 0⟩ := by
    cases whole
    simp_all [UntypedBuffer.block, size, start]
  refine ⟨upd (fun _ => []) (K - minK) [whole], ?_, ?_, fun d hd => ?_, List.Perm.nil,
    fun d hd => absurd hd not_mem_nil, tiles_whole K⟩
  · unfold seed
    simp only [hindex]
    exact if_neg (by omega)
  · have hempty : Bucketed minK maxK whole (fun _ => []) [] := by
      refine ⟨?_, fun i _ b hb => by cases hb⟩
      simp [contents]
    have hpush := hempty.push (i := K - minK) (d := ⟨K, 0⟩) (by omega)
      (by show K = _; omega)
    rw [← hblock] at hpush
    exact hpush
  · rw [mem_singleton.mp hd, mem_singleton]
    exact buddy_ne _

theorem Pool.Tiled.allocate (h : p.Tiled minK maxK K whole F L) (size : Nat) :
    ∃ F' L', (p.step minK maxK whole (.allocate size)).Tiled minK maxK K whole F' L' := by
  rcases allocate_spec h.free h.unpaired size with
    ⟨hnone, -⟩ | ⟨fl', d, d', P, F', heq, hF, -, hord, hb, hun, htiles⟩
  · refine ⟨F, L, ?_⟩
    simp only [Pool.step, hnone]
    exact h
  · refine ⟨P ++ F', d' :: L, ?_⟩
    simp only [Pool.step, heq]
    refine ⟨hb, hun, h.live.cons _, fun e he => ?_, ?_⟩
    · rcases mem_cons.mp he with rfl | he
      · omega
      · exact h.floor e he
    · have hcut := htiles K (F' ++ L) (h.tiles.perm (hF.append_right L))
      refine hcut.perm ?_
      rw [cons_append, ← append_assoc]
      exact perm_middle.symm

theorem Pool.Tiled.deallocate (h : p.Tiled minK maxK K whole F L) (hK : K ≤ maxK)
    (hwhole : whole.size = 2 ^ K) {b : UntypedBuffer} (hb : b ∈ p.live) :
    ∃ fl F' L', Vrt.deallocate minK maxK whole p.freeList b = some fl ∧
      Pool.Tiled minK maxK K whole ⟨fl, p.live.erase b⟩ F' L' := by
  obtain ⟨d, hd, rfl⟩ := mem_map.mp (h.live.mem_iff.mp hb)
  have hL : L.Perm (d :: L.erase d) := perm_cons_erase hd
  have ht : Dyad.Tiles K (d :: F ++ L.erase d) :=
    h.tiles.perm ((hL.append_left F).trans perm_middle)
  obtain ⟨fl, F', heq, hbk, hun, htiles⟩ :=
    deallocate_spec h.free h.unpaired hK hwhole (h.floor d hd) ht
  refine ⟨fl, F', L.erase d, heq, hbk, hun, ?_, ?_, htiles⟩
  · refine List.Perm.cons_inv (a := whole.block d) ?_
    exact (perm_cons_erase hb).symm.trans (h.live.trans (hL.map _))
  · exact fun e he => h.floor e (mem_of_mem_erase he)

theorem Pool.Tiled.step (h : p.Tiled minK maxK K whole F L) (hK : K ≤ maxK)
    (hwhole : whole.size = 2 ^ K) (act : Act) :
    ∃ F' L', (p.step minK maxK whole act).Tiled minK maxK K whole F' L' := by
  cases act with
  | allocate size => exact h.allocate size
  | deallocate b =>
    simp only [Pool.step]
    split
    · rename_i hb
      obtain ⟨fl, F', L', heq, ht⟩ := h.deallocate hK hwhole hb
      rw [heq]
      exact ⟨F', L', ht⟩
    · exact ⟨F, L, h⟩

theorem Pool.Tiled.foldl (hK : K ≤ maxK) (hwhole : whole.size = 2 ^ K) (acts : List Act) :
    ∀ {p : Pool} {F L : List Dyad}, p.Tiled minK maxK K whole F L →
      ∃ F' L', (acts.foldl (Pool.step minK maxK whole) p).Tiled minK maxK K whole F' L' := by
  induction acts with
  | nil => exact fun h => ⟨_, _, h⟩
  | cons act acts ih =>
    intro p F L h
    obtain ⟨F', L', h'⟩ := h.step hK hwhole act
    exact ih h'

end

/-! ## What the callers see -/

/-- The blocks tile the superblock, each a power of two long and aligned to its length. -/
structure Partition (minK maxK : Nat) (whole : UntypedBuffer) (blocks : List UntypedBuffer) :
    Prop where
  backing : ∀ b ∈ blocks, b.physBase = whole.physBase
  aligned : ∀ b ∈ blocks, ∃ k i, minK ≤ k ∧ k ≤ maxK ∧ b.size = 2 ^ k ∧
    b.offset = whole.offset + i * 2 ^ k
  inside : ∀ b ∈ blocks, b.offset + b.size ≤ whole.offset + whole.size
  covered : ∀ x, whole.offset ≤ x → x < whole.offset + whole.size →
    ∃ b ∈ blocks, b.offset ≤ x ∧ x < b.offset + b.size
  apart : blocks.Pairwise fun b c => b.offset + b.size ≤ c.offset ∨ c.offset + c.size ≤ b.offset

/-- Two blocks of one length whose offsets differ in the bit of that length. -/
def Buddies (whole a b : UntypedBuffer) : Prop :=
  a.size = b.size ∧ (a.offset - whole.offset) ^^^ a.size = b.offset - whole.offset

/-- An allocation of `size` bytes in this state: the block is `n` bytes long. -/
structure AllocateSpec (minK maxK : Nat) (p : Pool) (size n : Nat) : Prop where
  least : IsLeast (Sizes minK size) n
  returns : ∀ b fl, allocate minK maxK p.freeList size = some (b, fl) → b.size = n
  fails_iff : allocate minK maxK p.freeList size = none ↔ ∀ b ∈ p.free minK maxK, b.size < n

section
variable {minK maxK K : Nat} {whole : UntypedBuffer} {p : Pool} {F L : List Dyad}

theorem apart_of_covers {d e : Dyad} (h : ∀ x, d.Covers x → ¬ e.Covers x) :
    d.start + d.size ≤ e.start ∨ e.start + e.size ≤ d.start := by
  by_contra hno
  have hd := d.size_pos
  have he := e.size_pos
  refine h (max d.start e.start) (covers_iff.mpr ?_) (covers_iff.mpr ?_) <;> omega

variable (h : p.Tiled minK maxK K whole F L)
include h

theorem Pool.Tiled.blocks :
    (p.free minK maxK ++ p.live).Perm ((F ++ L).map whole.block) := by
  rw [map_append]
  exact h.free.perm.append h.live

theorem Pool.Tiled.partition (hK : K ≤ maxK) (hwhole : whole.size = 2 ^ K) :
    Partition minK maxK whole (p.free minK maxK ++ p.live) := by
  have hmem : ∀ b ∈ p.free minK maxK ++ p.live, ∃ d ∈ F ++ L, whole.block d = b := fun b hb =>
    mem_map.mp (h.blocks.mem_iff.mp hb)
  refine ⟨fun b hb => ?_, fun b hb => ?_, fun b hb => ?_, fun x hlo hhi => ?_, ?_⟩
  · obtain ⟨d, -, rfl⟩ := hmem b hb
    rfl
  · obtain ⟨d, hd, rfl⟩ := hmem b hb
    have hfloor : minK ≤ d.order := by
      rcases mem_append.mp hd with hF | hL
      · obtain ⟨i, -, ho⟩ := h.free.order hF
        omega
      · exact h.floor d hL
    exact ⟨d.order, d.index, hfloor, le_trans (h.tiles.order_le hd) hK, rfl, rfl⟩
  · obtain ⟨d, hd, rfl⟩ := hmem b hb
    have := h.tiles.inside hd
    simp only [UntypedBuffer.block]
    omega
  · obtain ⟨d, hd, hcov⟩ := h.tiles.exists_covers (x := x - whole.offset) (by omega)
    refine ⟨whole.block d, h.blocks.mem_iff.mpr (mem_map_of_mem hd), ?_⟩
    obtain ⟨h1, h2⟩ := covers_iff.mp hcov
    simp only [UntypedBuffer.block]
    omega
  · refine h.blocks.symm.pairwise (List.Pairwise.map _ (fun d e hde => ?_) h.tiles.apart) Or.symm
    have := apart_of_covers hde
    simp only [UntypedBuffer.block]
    omega

theorem Pool.Tiled.not_buddies {a b : UntypedBuffer} (ha : a ∈ p.free minK maxK)
    (hb : b ∈ p.free minK maxK) : ¬ Buddies whole a b := by
  obtain ⟨d, hd, rfl⟩ := mem_map.mp (h.free.perm.mem_iff.mp ha)
  obtain ⟨e, he, rfl⟩ := mem_map.mp (h.free.perm.mem_iff.mp hb)
  rintro ⟨hsize, hoff⟩
  have hstart : d.buddy.start = e.start := by
    simp only [UntypedBuffer.block, Nat.add_sub_cancel_left] at hoff
    rw [start_buddy, hoff]
  have heq : d.buddy = e := eq_of_start (order_eq_of_size hsize) hstart
  exact h.unpaired d hd (heq ▸ he)

theorem Pool.Tiled.allocateSpec (size : Nat) :
    AllocateSpec minK maxK p size (2 ^ (minK + sizeToIndex minK size)) := by
  have hlt : ∀ {d : Dyad} {k : Nat}, d.size < 2 ^ k ↔ d.order < k := fun {d k} =>
    Nat.pow_lt_pow_iff_right (by decide)
  rcases allocate_spec h.free h.unpaired size with
    ⟨hnone, hsmall⟩ | ⟨fl', d, d', P, F', heq, hF, hbig, hord, -, -, -⟩
  · refine ⟨sizeToIndex_isLeast minK size, fun b fl hb => ?_, ?_⟩
    · rw [hnone] at hb
      cases hb
    · refine iff_of_true hnone fun b hb => ?_
      obtain ⟨d, hd, rfl⟩ := mem_map.mp (h.free.perm.mem_iff.mp hb)
      exact hlt.mpr (hsmall d hd)
  · refine ⟨sizeToIndex_isLeast minK size, fun b fl hb => ?_, ?_⟩
    · rw [heq] at hb
      cases hb
      rw [← hord]
      rfl
    · refine iff_of_false (by rw [heq]; exact nofun) fun hall => ?_
      have hd : d ∈ F := hF.mem_iff.mpr mem_cons_self
      have := hlt.mp (hall (whole.block d) (h.free.perm.mem_iff.mpr (mem_map_of_mem hd)))
      omega

theorem Pool.Tiled.isFree_iff (hmin : minK ≤ K) (hK : K ≤ maxK) (hwhole : whole.size = 2 ^ K) :
    isFree minK whole p.freeList = true ↔ p.live = [] := by
  have hi : K - minK < numBuckets minK maxK := by
    unfold numBuckets
    omega
  rw [isFree, sizeToIndex_whole hmin hwhole, beq_iff_eq]
  constructor
  · intro hone
    obtain ⟨b, hb⟩ := length_eq_one_iff.mp hone
    have hmem : b ∈ p.freeList (K - minK) := hb ▸ mem_cons_self
    obtain ⟨d, hd, ho, -⟩ := (h.free.mem_iff hi).mp hmem
    have hall : ∀ x < 2 ^ K, d.Covers x := by
      intro x hx
      have hin := h.tiles.inside (mem_append_left L hd)
      have hsize : d.size = 2 ^ K := by
        rw [size, ho]
        congr 1
        omega
      refine covers_iff.mpr ⟨by omega, by omega⟩
    have hnil : L = [] := by
      rw [eq_nil_iff_forall_not_mem]
      intro e he
      have hlt := h.tiles.lt (mem_append_right F he) e.covers_start
      exact (pairwise_append.mp h.tiles.apart).2.2 d hd e he _ (hall _ hlt) e.covers_start
    have := h.live
    rw [hnil] at this
    exact this.eq_nil
  · intro hnil
    have hL : L = [] := by
      have := h.live
      rw [hnil] at this
      exact map_eq_nil_iff.mp this.symm.eq_nil
    have ht := h.tiles
    rw [hL, append_nil] at ht
    have hF := ht.eq_whole h.unpaired
    have hmem : whole.block ⟨K, 0⟩ ∈ p.freeList (K - minK) := by
      refine (h.free.mem_iff hi).mpr ⟨⟨K, 0⟩, hF ▸ mem_cons_self, ?_, rfl⟩
      show K = _
      omega
    have hpop := contents_pop_perm p.freeList hi (perm_cons_erase hmem)
    have hlen := (hpop.symm.trans h.free.perm).length_eq
    rw [hF] at hlen
    simp only [length_cons, map_cons, map_nil, length_nil] at hlen
    have hrest : (p.freeList (K - minK)).erase (whole.block ⟨K, 0⟩) = [] := by
      rw [eq_nil_iff_forall_not_mem]
      intro b hb
      have hcontents : b ∈ contents (upd p.freeList (K - minK)
          ((p.freeList (K - minK)).erase (whole.block ⟨K, 0⟩))) (numBuckets minK maxK) :=
        mem_contents.mpr ⟨_, hi, by rw [upd_same]; exact hb⟩
      have := length_pos_of_mem hcontents
      omega
    have hlen' := (perm_cons_erase hmem).length_eq
    rw [hrest] at hlen'
    exact hlen'

end

/-- Any allocations and deallocations of live blocks on a superblock of 2^K bytes. -/
theorem buddy_superblock {minK maxK K : Nat} (hmin : minK ≤ K) (hmax : K ≤ maxK)
    {whole : UntypedBuffer} (hwhole : whole.size = 2 ^ K) (acts : List Act) :
    ∃ p, Pool.after minK maxK whole acts = some p ∧
      Partition minK maxK whole (p.free minK maxK ++ p.live) ∧
      (∀ a ∈ p.free minK maxK, ∀ b ∈ p.free minK maxK, ¬ Buddies whole a b) ∧
      (∀ size, ∃ n, AllocateSpec minK maxK p size n) ∧
      (∀ b ∈ p.live, (deallocate minK maxK whole p.freeList b).isSome) ∧
      (isFree minK whole p.freeList = true ↔ p.live = []) := by
  obtain ⟨fl, hseed, hinit⟩ := seed_tiled hmin hmax hwhole
  obtain ⟨F, L, h⟩ := Pool.Tiled.foldl hmax hwhole acts hinit
  refine ⟨_, by rw [Pool.after, hseed]; rfl, h.partition hmax hwhole, ?_, ?_, ?_, ?_⟩
  · exact fun a ha b hb => h.not_buddies ha hb
  · exact fun size => ⟨_, h.allocateSpec size⟩
  · intro b hb
    obtain ⟨fl', -, -, heq, -⟩ := h.deallocate hmax hwhole hb
    rw [heq]
    rfl
  · exact h.isFree_iff hmin hmax hwhole

/-- A `LargeBlockSuperblock`: 4 MiB and 2 MiB are taken from 64 MiB, and the first is returned. -/
def churned : List Act :=
  [.allocate 0x300000, .allocate 1, .deallocate ⟨0x4000000000, 0x400000, 0⟩]

theorem churned_superblock :
    ∃ p, Pool.after 21 26 ⟨0x4000000000, 0x4000000, 0⟩ churned = some p ∧
      p.live = [⟨0x4000000000, 0x200000, 0x400000⟩] ∧
      Partition 21 26 ⟨0x4000000000, 0x4000000, 0⟩ (p.free 21 26 ++ p.live) := by
  have hlive : (Pool.after 21 26 ⟨0x4000000000, 0x4000000, 0⟩ churned).map Pool.live =
      some [⟨0x4000000000, 0x200000, 0x400000⟩] := by decide +kernel
  obtain ⟨p, hp, hpart, -⟩ := buddy_superblock (K := 26) (by decide : 21 ≤ 26) (le_refl 26)
    (by decide : (⟨0x4000000000, 0x4000000, 0⟩ : UntypedBuffer).size = 2 ^ 26) churned
  rw [hp] at hlive
  exact ⟨p, hp, Option.some.inj hlive, hpart⟩

end Slash.Vrt
