import Mathlib.Algebra.Group.Nat.Defs
import Slash.Lib.FirstRun
import Slash.Lib.Update

/-!
# The subregion allocator

`allocator.c` of vrtd: 512 MiB regions of eight 64 MiB subregions, each stamped with the id of
the connection that owns it, 0 when it is free. Allocation is first fit over the candidate
regions; a free names a byte range, which must belong to the caller.
-/

namespace Slash.Vrtd

open Lib List

abbrev U64 := BitVec 64

/-! ## The map -/

def hbmRegions : Nat := 64
def ddrRegions : Nat := 64
def regionSize : Nat := 512 * 1024 * 1024
def subregionSize : Nat := 64 * 1024 * 1024
def subregionsPerRegion : Nat := regionSize / subregionSize

inductive MemoryClass where
  | ddr
  | hbm
  deriving DecidableEq, Repr

/-- `HBM_START_ADDRESS` and `DDR_START_ADDRESS`. -/
def MemoryClass.startAddress : MemoryClass → Nat
  | ddr => 0x60000000000
  | hbm => 0x4000000000

def MemoryClass.regions : MemoryClass → Nat
  | ddr => ddrRegions
  | hbm => hbmRegions

/-- `enum allocation_type`; a C enum may hold any value. -/
inductive AllocationType where
  | ddr
  | hbm
  | hbmVnoc
  | other (value : Nat)
  deriving DecidableEq, Repr

def AllocationType.memoryClass : AllocationType → Option MemoryClass
  | ddr => some .ddr
  | hbm | hbmVnoc => some .hbm
  | other _ => none

/-- `ddr_regions[r].client_id[s]` and `hbm_regions[r].client_id[s]`. -/
abbrev DeviceMemoryMap := MemoryClass → Nat → Nat → U64

def deviceMemoryMapCreate : DeviceMemoryMap := fun _ _ _ => 0

/-- The loop that writes `id` to `num` subregions from `start` on. -/
def DeviceMemoryMap.stamp (m : DeviceMemoryMap) (cls : MemoryClass) (region start num : Nat)
    (id : U64) : DeviceMemoryMap := fun c =>
  if c = cls then
    upd (m c) region (fill (m c region) ((List.range num).map (start + ·)) id)
  else m c

inductive AllocationResult (α : Type) where
  | success (out : α)
  | noMemory
  | badArgument
  deriving DecidableEq, Repr

/-- `*size` and `*addr_out` of a successful allocation. -/
structure Allocated where
  size : U64
  addr : U64
  deriving DecidableEq, Repr

/-- `(size + SUBREGION_SIZE - 1) / SUBREGION_SIZE`, on 64-bit words. -/
def numSubregions (size : U64) : U64 :=
  (size + BitVec.ofNat 64 subregionSize - 1) / BitVec.ofNat 64 subregionSize

/-- The scan of the regions listed, first fit, and the stamping of the run found. -/
def DeviceMemoryMap.firstFit (m : DeviceMemoryMap) (cls : MemoryClass) (num : U64) (id : U64) :
    List Nat → AllocationResult Allocated × DeviceMemoryMap
  | [] => (.noMemory, m)
  | region :: regions =>
    match firstRun (fun s => m cls region s = 0) num.toNat subregionsPerRegion 0 0 with
    | some start =>
      (.success {
        addr := BitVec.ofNat 64 cls.startAddress +
          BitVec.ofNat 64 region * BitVec.ofNat 64 regionSize +
          BitVec.ofNat 64 start * BitVec.ofNat 64 subregionSize
        size := num * BitVec.ofNat 64 subregionSize },
        m.stamp cls region start num.toNat id)
    | none => m.firstFit cls num id regions

def deviceMemoryMapAllocate (m : DeviceMemoryMap) (type : AllocationType)
    (size arg clientId : U64) : AllocationResult Allocated × DeviceMemoryMap :=
  if size = 0 then (.badArgument, m)
  else
    let num := numSubregions size
    if clientId = 0 then (.badArgument, m)
    else
      match type with
      | .ddr =>
        if num.toNat > subregionsPerRegion then (.badArgument, m)
        else m.firstFit .ddr num clientId (List.range ddrRegions)
      | .hbm =>
        -- the caller pins the region
        if arg.toNat ≥ hbmRegions ∨ num.toNat > subregionsPerRegion then (.badArgument, m)
        else m.firstFit .hbm num clientId [arg.toNat]
      | .hbmVnoc =>
        if num.toNat > subregionsPerRegion then (.badArgument, m)
        else m.firstFit .hbm num clientId (List.range hbmRegions)
      | .other _ => (.badArgument, m)

def deviceMemoryMapFree (m : DeviceMemoryMap) (type : AllocationType)
    (addr size clientId : U64) : AllocationResult Unit × DeviceMemoryMap :=
  if size = 0 ∨ clientId = 0 then (.badArgument, m)
  else
    match type.memoryClass with
    | none => (.badArgument, m)
    | some cls =>
      let base := BitVec.ofNat 64 cls.startAddress
      let maxSize := BitVec.ofNat 64 (cls.regions * regionSize)
      if addr < base ∨ addr ≥ base + maxSize then (.badArgument, m)
      else
        let offset := (addr - base).toNat
        if offset % subregionSize ≠ 0 then (.badArgument, m)
        else
          let num := (numSubregions size).toNat
          let region := offset / regionSize
          let start := offset % regionSize / subregionSize
          if num > subregionsPerRegion ∨ start + num > subregionsPerRegion then (.badArgument, m)
          -- first verify, then clear
          else if (List.range num).any fun i => m cls region (start + i) ≠ clientId then
            (.badArgument, m)
          else (.success (), m.stamp cls region start num 0)

/-! ## Words and subregions -/

@[simp] theorem subregionsPerRegion_eq : subregionsPerRegion = 8 := rfl

theorem numSubregions_toNat {size : U64} (h : size.toNat + subregionSize ≤ 2 ^ 64) :
    (numSubregions size).toNat = (size.toNat + subregionSize - 1) / subregionSize := by
  have hsum : (size + BitVec.ofNat 64 subregionSize - 1).toNat =
      size.toNat + subregionSize - 1 := by
    simp only [subregionSize] at h ⊢
    bv_omega
  rw [numSubregions, BitVec.toNat_udiv, hsum]
  rfl

theorem stamp_apply (m : DeviceMemoryMap) (cls c : MemoryClass) (r r' start num s : Nat)
    (id : U64) : m.stamp cls r start num id c r' s =
      if c = cls ∧ r' = r ∧ start ≤ s ∧ s < start + num then id else m c r' s := by
  unfold DeviceMemoryMap.stamp
  by_cases hc : c = cls
  · rw [if_pos hc, upd_apply]
    by_cases hr : r' = r
    · have hcell : s ∈ (List.range num).map (start + ·) ↔ start ≤ s ∧ s < start + num := by
        simp only [mem_map, mem_range]
        exact ⟨fun ⟨i, hi, he⟩ => by omega, fun h => ⟨s - start, by omega, by omega⟩⟩
      rw [if_pos hr, fill_apply, hr]
      exact if_congr (by rw [hcell]; simp [hc]) rfl rfl
    · rw [if_neg hr, if_neg fun h => hr h.2.1]
  · rw [if_neg hc, if_neg fun h => hc h.1]

/-! ## Allocation -/

/-- The regions an allocation may use. -/
def candidates : AllocationType → U64 → List Nat
  | .ddr, _ => List.range ddrRegions
  | .hbm, arg => if arg.toNat < hbmRegions then [arg.toNat] else []
  | .hbmVnoc, _ => List.range hbmRegions
  | .other _, _ => []

/-- `n` free subregions of a region, from number `s` on. -/
def FreeRun (m : DeviceMemoryMap) (cls : MemoryClass) (n region s : Nat) : Prop :=
  RunAt (fun s => m cls region s = 0) n subregionsPerRegion s

/-- The reply and the map of an allocation of `n` subregions at the first run there is. -/
structure Placed (m : DeviceMemoryMap) (cls : MemoryClass) (regions : List Nat) (id : U64)
    (n region s : Nat) (out : Allocated) (m' : DeviceMemoryMap) : Prop where
  candidate : region ∈ regions
  run : FreeRun m cls n region s
  first : ∀ r' ∈ regions, ∀ s', FreeRun m cls n r' s' → region < r' ∨ region = r' ∧ s ≤ s'
  addr : out.addr.toNat = cls.startAddress + region * regionSize + s * subregionSize
  size : out.size.toNat = n * subregionSize
  map : m' = m.stamp cls region s n id

theorem addr_toNat (cls : MemoryClass) {region s : Nat} (hr : region < 64) (hs : s < 8) :
    (BitVec.ofNat 64 cls.startAddress + BitVec.ofNat 64 region * BitVec.ofNat 64 regionSize +
      BitVec.ofNat 64 s * BitVec.ofNat 64 subregionSize).toNat =
      cls.startAddress + region * regionSize + s * subregionSize := by
  cases cls <;> simp only [MemoryClass.startAddress, regionSize, subregionSize] <;> bv_omega

theorem firstFit_spec (m : DeviceMemoryMap) (cls : MemoryClass) {num : U64} (id : U64)
    (hpos : 0 < num.toNat) (hle : num.toNat ≤ 8) : ∀ (regions : List Nat),
    regions.Pairwise (· < ·) → (∀ r ∈ regions, r < 64) →
    (∃ r s out m', m.firstFit cls num id regions = (.success out, m') ∧
      Placed m cls regions id num.toNat r s out m') ∨
    (m.firstFit cls num id regions = (.noMemory, m) ∧
      ∀ r ∈ regions, ∀ s, ¬ FreeRun m cls num.toNat r s)
  | [], _, _ => .inr ⟨rfl, fun r hr => absurd hr not_mem_nil⟩
  | region :: regions, hsorted, hlt => by
    obtain ⟨hhead, htail⟩ := pairwise_cons.mp hsorted
    unfold DeviceMemoryMap.firstFit
    cases hscan : firstRun (fun s => m cls region s = 0) num.toNat subregionsPerRegion 0 0 with
    | some start =>
      obtain ⟨hrun, hfirst⟩ := firstRun_eq_some hpos hscan
      refine .inl ⟨region, start, _, _, rfl, mem_cons_self, hrun, ?_, ?_, ?_, rfl⟩
      · intro r' hr' s' hs'
        rcases mem_cons.mp hr' with rfl | hr'
        · exact .inr ⟨rfl, hfirst s' hs'⟩
        · exact .inl (hhead r' hr')
      · have hbound := hrun.1
        rw [subregionsPerRegion_eq] at hbound
        exact addr_toNat cls (hlt region mem_cons_self) (by omega)
      · simp only [subregionSize]
        bv_omega
    | none =>
      have hnone := firstRun_eq_none hpos hscan
      have hlt' : ∀ r ∈ regions, r < 64 := fun r hr => hlt r (mem_cons_of_mem _ hr)
      rcases firstFit_spec m cls id hpos hle regions htail hlt' with
        ⟨r, s, out, m', heq, hp⟩ | ⟨heq, hno⟩
      · refine .inl ⟨r, s, out, m', heq, mem_cons_of_mem _ hp.candidate, hp.run, ?_,
          hp.addr, hp.size, hp.map⟩
        intro r' hr' s' hs'
        rcases mem_cons.mp hr' with rfl | hr'
        · exact absurd hs' (hnone s')
        · exact hp.first r' hr' s' hs'
      · refine .inr ⟨heq, fun r hr => ?_⟩
        rcases mem_cons.mp hr with rfl | hr
        · exact hnone
        · exact hno r hr

theorem firstFit_zero (m : DeviceMemoryMap) (cls : MemoryClass) {num : U64} (id : U64)
    (h : num.toNat = 0) (regions : List Nat) :
    m.firstFit cls num id regions = (.noMemory, m) := by
  induction regions with
  | nil => rfl
  | cons region regions ih =>
    unfold DeviceMemoryMap.firstFit
    rw [h, firstRun_zero]
    exact ih

theorem candidates_sorted (type : AllocationType) (arg : U64) :
    (candidates type arg).Pairwise (· < ·) := by
  cases type with
  | hbm =>
    simp only [candidates]
    split <;> simp
  | other v => exact List.Pairwise.nil
  | ddr => exact pairwise_lt_range
  | hbmVnoc => exact pairwise_lt_range

theorem lt_of_mem_candidates {type : AllocationType} {arg : U64} {r : Nat}
    (h : r ∈ candidates type arg) : r < 64 := by
  cases type with
  | hbm =>
    simp only [candidates] at h
    split at h
    · rename_i harg
      rw [mem_singleton.mp h]
      exact harg
    · cases h
  | other v => cases h
  | ddr => exact mem_range.mp h
  | hbmVnoc => exact mem_range.mp h

/-- Allocation, past its argument checks, is first fit over the candidates. -/
theorem allocate_eq (m : DeviceMemoryMap) (type : AllocationType) {size arg id : U64} :
    (∃ cls, type.memoryClass = some cls ∧ size ≠ 0 ∧ id ≠ 0 ∧ (numSubregions size).toNat ≤ 8 ∧
      deviceMemoryMapAllocate m type size arg id =
        m.firstFit cls (numSubregions size) id (candidates type arg)) ∨
    (deviceMemoryMapAllocate m type size arg id = (.badArgument, m) ∧
      (size = 0 ∨ id = 0 ∨ 8 < (numSubregions size).toNat ∨ candidates type arg = [])) := by
  unfold deviceMemoryMapAllocate
  by_cases hsize : size = 0
  · exact .inr ⟨by rw [if_pos hsize], .inl hsize⟩
  by_cases hid : id = 0
  · exact .inr ⟨by rw [if_neg hsize, if_pos hid], .inr (.inl hid)⟩
  simp only [if_neg hsize, if_neg hid, subregionsPerRegion_eq]
  by_cases hnum : (numSubregions size).toNat > 8
  · refine .inr ⟨?_, .inr (.inr (.inl hnum))⟩
    cases type <;> simp [hnum]
  have hle : (numSubregions size).toNat ≤ 8 := by omega
  cases type with
  | ddr => exact .inl ⟨.ddr, rfl, hsize, hid, hle, if_neg hnum⟩
  | hbmVnoc => exact .inl ⟨.hbm, rfl, hsize, hid, hle, if_neg hnum⟩
  | other v => exact .inr ⟨rfl, .inr (.inr (.inr rfl))⟩
  | hbm =>
    by_cases harg : arg.toNat < hbmRegions
    · have hok : ¬ (arg.toNat ≥ hbmRegions ∨ (numSubregions size).toNat > 8) := by omega
      refine .inl ⟨.hbm, rfl, hsize, hid, hle, ?_⟩
      rw [candidates, if_pos harg]
      exact if_neg hok
    · have hbad : arg.toNat ≥ hbmRegions ∨ (numSubregions size).toNat > 8 := by omega
      exact .inr ⟨if_pos hbad, .inr (.inr (.inr (if_neg harg)))⟩

/-- `size` bytes are one to eight subregions. -/
def Fits (size : U64) : Prop := size ≠ 0 ∧ size.toNat ≤ regionSize

theorem Fits.num {size : U64} (h : Fits size) :
    (numSubregions size).toNat = (size.toNat + subregionSize - 1) / subregionSize ∧
    0 < (numSubregions size).toNat ∧ (numSubregions size).toNat ≤ 8 := by
  obtain ⟨hne, hle⟩ := h
  have hpos : 0 < size.toNat := by
    rw [Nat.pos_iff_ne_zero]
    exact fun h0 => hne (BitVec.eq_of_toNat_eq h0)
  simp only [regionSize] at hle
  have hnum : (numSubregions size).toNat = _ :=
    numSubregions_toNat (by simp only [subregionSize]; omega)
  refine ⟨hnum, ?_⟩
  rw [hnum]
  simp only [subregionSize]
  omega

/-- An allocation takes the first run, or fails and leaves the map; it fails only when its
arguments are bad or there is no run. -/
theorem allocate_spec (m : DeviceMemoryMap) (type : AllocationType) (size arg id : U64) :
    (∃ cls r s out m', type.memoryClass = some cls ∧ id ≠ 0 ∧ 0 < (numSubregions size).toNat ∧
      deviceMemoryMapAllocate m type size arg id = (.success out, m') ∧
      Placed m cls (candidates type arg) id (numSubregions size).toNat r s out m') ∨
    (∃ reply, deviceMemoryMapAllocate m type size arg id = (reply, m) ∧
      (∀ out, reply ≠ .success out) ∧
      (id ≠ 0 → Fits size → ∀ cls, type.memoryClass = some cls → ∀ r ∈ candidates type arg,
        ∀ s, ¬ FreeRun m cls (numSubregions size).toNat r s)) := by
  rcases allocate_eq m type with ⟨cls, hcls, hsize, hid, hle, heq⟩ | ⟨heq, hbad⟩
  · by_cases hpos : 0 < (numSubregions size).toNat
    · rcases firstFit_spec m cls id hpos hle _ (candidates_sorted type arg)
        (fun r hr => lt_of_mem_candidates hr) with ⟨r, s, out, m', hfit, hp⟩ | ⟨hfit, hno⟩
      · exact .inl ⟨cls, r, s, out, m', hcls, hid, hpos, heq.trans hfit, hp⟩
      · refine .inr ⟨.noMemory, heq.trans hfit, by simp, fun _ _ cls' hcls' => ?_⟩
        rw [hcls] at hcls'
        cases hcls'
        exact hno
    · refine .inr ⟨.noMemory, heq.trans (firstFit_zero m cls id (by omega) _), by simp, ?_⟩
      exact fun _ hfits => absurd hfits.num.2.1 hpos
  · refine .inr ⟨.badArgument, heq, by simp, fun hid hfits cls hcls r hr => ?_⟩
    rcases hbad with h | h | h | h
    · exact absurd h hfits.1
    · exact absurd h hid
    · exact absurd hfits.num.2.2 (by omega)
    · rw [h] at hr
      cases hr

/-! ## Release -/

/-- The byte range `[addr, addr + size)` meets subregion `s` of a region. -/
def Touches (cls : MemoryClass) (addr size region s : Nat) : Prop :=
  cls.startAddress + region * regionSize + s * subregionSize < addr + size ∧
  addr < cls.startAddress + region * regionSize + (s + 1) * subregionSize

instance (cls : MemoryClass) (addr size region s : Nat) :
    Decidable (Touches cls addr size region s) := inferInstanceAs (Decidable (_ ∧ _))

/-- The byte range starts on a subregion boundary, lies inside one region of the class, and every
subregion it meets is the client's. Ids start at 1, and a range of no bytes starts nowhere. -/
structure Owns (m : DeviceMemoryMap) (cls : MemoryClass) (id : U64) (addr size : Nat) : Prop where
  client : id ≠ 0
  nonempty : 0 < size
  base_le : cls.startAddress ≤ addr
  aligned : subregionSize ∣ addr - cls.startAddress
  inside : ∃ r < cls.regions, cls.startAddress + r * regionSize ≤ addr ∧
    addr + size ≤ cls.startAddress + (r + 1) * regionSize
  owned : ∀ r s, s < subregionsPerRegion → Touches cls addr size r s → m cls r s = id

/-- Where a free starts, and how many subregions it is about. -/
structure Span (cls : MemoryClass) (addr size n region start : Nat) : Prop where
  addr_eq : addr = cls.startAddress + region * regionSize + start * subregionSize
  size_le : size ≤ n * subregionSize
  lt_size : n * subregionSize < size + subregionSize

/-- The subregions a span touches are the ones its loops run over. -/
theorem Span.touches_iff {cls : MemoryClass} {addr size n region start : Nat}
    (h : Span cls addr size n region start) (hfit : start + n ≤ 8) (hpos : 0 < size) {r s : Nat}
    (hs : s < 8) : Touches cls addr size r s ↔ r = region ∧ start ≤ s ∧ s < start + n := by
  obtain ⟨haddr, hle, hlt⟩ := h
  unfold Touches
  simp only [regionSize, subregionSize] at haddr hle hlt ⊢
  omega

theorem outside_iff (cls : MemoryClass) (addr : U64) :
    (addr < BitVec.ofNat 64 cls.startAddress ∨ addr ≥ BitVec.ofNat 64 cls.startAddress +
      BitVec.ofNat 64 (cls.regions * regionSize)) ↔
    (addr.toNat < cls.startAddress ∨ cls.startAddress + 64 * regionSize ≤ addr.toNat) := by
  cases cls <;> simp only [MemoryClass.startAddress, MemoryClass.regions, hbmRegions, ddrRegions,
    regionSize] <;> bv_omega

theorem offset_toNat {cls : MemoryClass} {addr : U64} (h : cls.startAddress ≤ addr.toNat) :
    (addr - BitVec.ofNat 64 cls.startAddress).toNat = addr.toNat - cls.startAddress := by
  cases cls <;> simp only [MemoryClass.startAddress] at h ⊢ <;> bv_omega

/-- A range that is aligned and owned passes every check of a free, and its subregions are the
ones the free looks at. -/
theorem Owns.inside_eight {m : DeviceMemoryMap} {cls : MemoryClass} {id : U64}
    {addr size n region start : Nat} (h : Owns m cls id addr size)
    (hspan : Span cls addr size n region start) (hstart : start < 8) :
    start + n ≤ 8 := by
  obtain ⟨r, -, hlo, hhi⟩ := h.inside
  obtain ⟨haddr, hle, hlt⟩ := hspan
  have hpos := h.nonempty
  simp only [regionSize, subregionSize] at *
  omega

/-- A free clears the range when the client owns it, and otherwise fails and leaves the map. -/
theorem free_spec (m : DeviceMemoryMap) (type : AllocationType) (addr : U64) {size : U64}
    (id : U64) (hsize : size.toNat + subregionSize ≤ 2 ^ 64) :
    (∃ cls n r start, type.memoryClass = some cls ∧ Owns m cls id addr.toNat size.toNat ∧
      Span cls addr.toNat size.toNat n r start ∧ start + n ≤ 8 ∧
      deviceMemoryMapFree m type addr size id = (.success (), m.stamp cls r start n 0)) ∨
    (deviceMemoryMapFree m type addr size id = (.badArgument, m) ∧
      ∀ cls, type.memoryClass = some cls → ¬ Owns m cls id addr.toNat size.toNat) := by
  unfold deviceMemoryMapFree
  by_cases hargs : size = 0 ∨ id = 0
  · refine .inr ⟨if_pos hargs, fun cls _ h => ?_⟩
    rcases hargs with h0 | h0
    · exact absurd h.nonempty (by simp [h0])
    · exact h.client h0
  rw [if_neg hargs]
  obtain ⟨hne, hid⟩ := not_or.mp hargs
  have hpos : 0 < size.toNat := Nat.pos_of_ne_zero fun h0 => hne (BitVec.eq_of_toNat_eq h0)
  cases hcls : type.memoryClass with
  | none => exact .inr ⟨rfl, fun cls h => absurd h (by simp)⟩
  | some cls =>
    simp only [outside_iff]
    by_cases hout : addr.toNat < cls.startAddress ∨
        cls.startAddress + 64 * regionSize ≤ addr.toNat
    · refine .inr ⟨if_pos hout, fun cls' hcls' h => ?_⟩
      cases hcls'
      obtain ⟨r, hr, hlo, hhi⟩ := h.inside
      have hbase := h.base_le
      have hreg : cls.regions = 64 := by cases cls <;> rfl
      rw [hreg] at hr
      have hsz := h.nonempty
      simp only [regionSize] at hout hlo hhi
      omega
    rw [if_neg hout]
    have hbase : cls.startAddress ≤ addr.toNat := by omega
    rw [offset_toNat hbase]
    by_cases halign : (addr.toNat - cls.startAddress) % subregionSize ≠ 0
    · refine .inr ⟨if_pos halign, fun cls' hcls' h => ?_⟩
      cases hcls'
      exact halign (Nat.mod_eq_zero_of_dvd h.aligned)
    rw [if_neg halign, numSubregions_toNat hsize]
    have hspan : Span cls addr.toNat size.toNat
        ((size.toNat + subregionSize - 1) / subregionSize)
        ((addr.toNat - cls.startAddress) / regionSize)
        ((addr.toNat - cls.startAddress) % regionSize / subregionSize) := by
      constructor <;> simp only [regionSize, subregionSize] at halign ⊢ <;> omega
    have hstart : (addr.toNat - cls.startAddress) % regionSize / subregionSize < 8 := by
      simp only [regionSize, subregionSize]
      omega
    have hregion : (addr.toNat - cls.startAddress) / regionSize < 64 := by
      simp only [regionSize] at hout ⊢
      omega
    generalize (size.toNat + subregionSize - 1) / subregionSize = n at hspan ⊢
    generalize (addr.toNat - cls.startAddress) / regionSize = r at hspan hregion ⊢
    generalize (addr.toNat - cls.startAddress) % regionSize / subregionSize = start
      at hspan hstart ⊢
    by_cases hfit : n > 8 ∨ start + n > 8
    · refine .inr ⟨if_pos hfit, fun cls' hcls' h => ?_⟩
      cases hcls'
      have := h.inside_eight hspan hstart
      omega
    have hfit' : start + n ≤ 8 := by omega
    rw [subregionsPerRegion_eq, if_neg hfit]
    by_cases hown : ((List.range n).any fun i => m cls r (start + i) ≠ id) = true
    · refine .inr ⟨if_pos hown, fun cls' hcls' h => ?_⟩
      cases hcls'
      obtain ⟨i, hi, hne⟩ := any_eq_true.mp hown
      rw [mem_range] at hi
      refine of_decide_eq_true hne (h.owned r (start + i) (by rw [subregionsPerRegion_eq]; omega) ?_)
      exact (hspan.touches_iff hfit' hpos (by omega)).mpr ⟨rfl, by omega, by omega⟩
    · refine .inl ⟨cls, n, r, start, rfl, ?_, hspan, hfit', if_neg hown⟩
      have hall : ∀ i < n, m cls r (start + i) = id := by simpa using hown
      refine ⟨hid, hpos, hbase, Nat.dvd_of_mod_eq_zero (not_not.mp halign), ?_, ?_⟩
      · refine ⟨r, by cases cls <;> exact hregion, ?_⟩
        obtain ⟨haddr, hle, hlt⟩ := hspan
        simp only [regionSize, subregionSize] at haddr hle hlt ⊢
        omega
      · intro r' s hs ht
        obtain ⟨rfl, hlo, hhi⟩ := (hspan.touches_iff hfit' hpos hs).mp ht
        have h := hall (s - start) (by omega)
        have hcell : start + (s - start) = s := by omega
        rwa [hcell] at h

end Slash.Vrtd
