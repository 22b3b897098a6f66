import Mathlib.Algebra.Group.Nat.Defs
import Mathlib.Data.Nat.Basic
import Slash.Lib.Update

/-!
# A ring with free-running cursors

One producer and one consumer share `size` cells, `size` a power of two. Each owns a cursor that
counts entries and wraps with the machine word; the cell of a cursor is its low bits, and the
occupancy is the difference of the two. `Holds` relates the cells and the cursors to the list of
all entries ever produced: the entries not yet released lie in their cells, in order. Cursors
wrap, positions in the list do not, so nothing here bounds how long the ring is used.
-/

namespace Slash.Lib

variable {w : Nat} {α : Type}

def ringCell (size cursor : BitVec w) : Nat := (cursor &&& (size - 1)).toNat

def RingSize (size : BitVec w) : Prop := size ≠ 0 ∧ size &&& (size - 1) = 0

theorem RingSize.eq_two_pow {size : BitVec w} (h : RingSize size) :
    ∃ k < w, size.toNat = 2 ^ k := by
  have hne : size.toNat ≠ 0 := fun h0 => h.1 (BitVec.eq_of_toNat_eq (by simpa using h0))
  have hand : size.toNat &&& (size.toNat - 1) = 0 := by
    have h2 := congrArg BitVec.toNat h.2
    have hone : (1 : BitVec w).toNat ≤ size.toNat := by
      simp only [BitVec.ofNat_eq_ofNat, BitVec.toNat_ofNat]
      exact Nat.le_trans (Nat.mod_le _ _) (Nat.one_le_iff_ne_zero.mpr hne)
    have hw : 1 % 2 ^ w = 1 := by
      refine Nat.mod_eq_of_lt ?_
      have := size.isLt
      omega
    rw [BitVec.toNat_and, BitVec.toNat_sub_of_le hone] at h2
    simpa [hw] using h2
  obtain ⟨k, hk⟩ := (Nat.and_sub_one_eq_zero_iff_isPowerOfTwo hne).mp hand
  refine ⟨k, ?_, hk⟩
  have hlt := size.isLt
  rw [hk] at hlt
  exact (Nat.pow_lt_pow_iff_right (by omega)).mp hlt

theorem ringCell_ofNat {size : BitVec w} (h : RingSize size) (n : Nat) :
    ringCell size (BitVec.ofNat w n) = n % size.toNat := by
  obtain ⟨k, hk, hs⟩ := h.eq_two_pow
  have hpos : 0 < 2 ^ k := Nat.two_pow_pos k
  have hone : (1 : BitVec w).toNat = 1 := by
    simp only [BitVec.ofNat_eq_ofNat, BitVec.toNat_ofNat]
    refine Nat.mod_eq_of_lt ?_
    have := Nat.pow_lt_pow_right (show 1 < 2 by omega) hk
    omega
  have hmask : (size - 1).toNat = 2 ^ k - 1 := by
    rw [BitVec.toNat_sub_of_le]
    · rw [hs, hone]
    · rw [BitVec.le_def, hs, hone]
      omega
  rw [ringCell, BitVec.toNat_and, hmask, Nat.and_two_pow_sub_one_eq_mod, BitVec.toNat_ofNat, hs,
    Nat.mod_mod_of_dvd]
  exact Nat.pow_dvd_pow 2 (Nat.le_of_lt hk)

theorem ringCell_ne {size : BitVec w} (h : RingSize size) {m n : Nat} (hlt : m < n)
    (hspan : n < m + size.toNat) :
    ringCell size (BitVec.ofNat w m) ≠ ringCell size (BitVec.ofNat w n) := by
  rw [ringCell_ofNat h, ringCell_ofNat h]
  intro heq
  have hdvd : size.toNat ∣ n - m :=
    Nat.dvd_of_mod_eq_zero (Nat.sub_mod_eq_zero_of_mod_eq heq.symm)
  have := Nat.le_of_dvd (by omega) hdvd
  omega

/-- The distance of two cursors is that of the positions they stand for. -/
theorem toNat_ofNat_sub {m n : Nat} (hle : m ≤ n) (hlt : n - m < 2 ^ w) :
    (BitVec.ofNat w n - BitVec.ofNat w m).toNat = n - m := by
  have hsub : BitVec.ofNat w n = BitVec.ofNat w (n - m) + BitVec.ofNat w m := by
    rw [← BitVec.ofNat_add]
    congr 1
    omega
  rw [hsub, BitVec.add_sub_cancel, BitVec.toNat_ofNat, Nat.mod_eq_of_lt hlt]

/-- The ring after `items` were produced, oldest first and numbered from `base`, and the first
`taken` of them released. -/
structure RingHolds (size : BitVec w) (cells : Nat → α) (write read : BitVec w) (base : Nat)
    (items : List α) (taken : Nat) : Prop where
  pow2 : RingSize size
  write_eq : write = BitVec.ofNat w (base + items.length)
  read_eq : read = BitVec.ofNat w (base + taken)
  taken_le : taken ≤ items.length
  fits : items.length ≤ taken + size.toNat
  content : ∀ k, taken ≤ k → k < items.length →
    items[k]? = some (cells (ringCell size (BitVec.ofNat w (base + k))))

namespace RingHolds

variable {size write read : BitVec w} {cells : Nat → α} {base taken : Nat} {items : List α}

variable (h : RingHolds size cells write read base items taken)
include h

theorem used :
    (write - read).toNat = items.length - taken := by
  have hle := h.taken_le
  have hfits := h.fits
  have hlt := size.isLt
  rw [h.write_eq, h.read_eq, toNat_ofNat_sub (by omega) (by omega)]
  omega

theorem used_le : write - read ≤ size := by
  have hle := h.taken_le
  have hfits := h.fits
  rw [BitVec.le_def, h.used]
  omega

theorem push (a : α) (hroom : write - read ≠ size) :
    RingHolds size (upd cells (ringCell size write) a) (write + 1) read base (items ++ [a])
      taken := by
  have hle := h.taken_le
  have hfits := h.fits
  have hlt : items.length < taken + size.toNat := by
    have hne : (write - read).toNat ≠ size.toNat := fun he => hroom (BitVec.eq_of_toNat_eq he)
    rw [h.used] at hne
    omega
  refine ⟨h.pow2, ?_, h.read_eq, ?_, ?_, ?_⟩
  · rw [h.write_eq, List.length_append, List.length_singleton, ← Nat.add_assoc,
      BitVec.ofNat_add (base + items.length) 1]
    rfl
  · rw [List.length_append]
    omega
  · rw [List.length_append, List.length_singleton]
    omega
  · intro k hk hklt
    rw [List.length_append, List.length_singleton] at hklt
    rcases Nat.lt_or_ge k items.length with hold | hnew
    · -- an older entry: the new one is less than a ring away
      have hcell : ringCell size (BitVec.ofNat w (base + k)) ≠ ringCell size write := by
        rw [h.write_eq]
        exact ringCell_ne h.pow2 (by omega) (by omega)
      rw [List.getElem?_append_left hold, upd_ne _ _ hcell]
      exact h.content k hk hold
    · have hkeq : k = items.length := by omega
      subst hkeq
      rw [← h.write_eq, upd_same]
      simp

theorem release {n : Nat} (hle : taken ≤ n) (hn : n ≤ items.length) :
    RingHolds size cells write (BitVec.ofNat w (base + n)) base items n := by
  have hfits := h.fits
  exact ⟨h.pow2, h.write_eq, rfl, hn, by omega, fun k hk hlt => h.content k (by omega) hlt⟩

theorem entry {k : Nat} (hk : taken + k < items.length) :
    items[taken + k]? = some (cells (ringCell size (read + BitVec.ofNat w k))) := by
  rw [h.content (taken + k) (by omega) hk, h.read_eq, ← BitVec.ofNat_add, Nat.add_assoc]

end RingHolds

/-- What lies between two cursors. -/
def ringContent (size : BitVec w) (cells : Nat → α) (write read : BitVec w) : List α :=
  (List.range (write - read).toNat).map fun k => cells (ringCell size (read + BitVec.ofNat w k))

/-- Any two cursors at most a ring apart hold what lies between them. -/
theorem ringHolds_content {size : BitVec w} (cells : Nat → α) {write read : BitVec w}
    (hsize : RingSize size) (hused : write - read ≤ size) :
    RingHolds size cells write read read.toNat (ringContent size cells write read) 0 := by
  have hlen : (ringContent size cells write read).length = (write - read).toNat := by
    simp [ringContent]
  refine ⟨hsize, ?_, ?_, Nat.zero_le _, ?_, ?_⟩
  · rw [hlen, Nat.add_comm, BitVec.ofNat_add, BitVec.ofNat_toNat, BitVec.ofNat_toNat,
      BitVec.setWidth_eq, BitVec.setWidth_eq, BitVec.sub_add_cancel]
  · simp
  · rw [hlen]
    have := BitVec.le_def.mp hused
    omega
  · intro k _ hk
    rw [hlen] at hk
    have hread : BitVec.ofNat w (read.toNat + k) = read + BitVec.ofNat w k := by
      rw [BitVec.ofNat_add]
      simp
    rw [ringContent, List.getElem?_map, List.getElem?_range hk, hread]
    rfl

end Slash.Lib
