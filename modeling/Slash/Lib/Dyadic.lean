import Mathlib.Data.List.Count
import Mathlib.Data.List.Pairwise
import Mathlib.Data.List.Perm.Basic
import Mathlib.Data.Nat.Bitwise
import Mathlib.Data.Nat.Find
import Mathlib.Order.Lattice

/-!
# Dyadic intervals

The interval number `index` of length `2 ^ order`. Two of them are nested or apart, an interval
and its buddy make up their parent, and a list of them tiles `[0, 2 ^ n)` when every point lies
in exactly one. `Tiles.eq_whole` is what coalescing is for: a tiling in which no two intervals
are buddies is the whole.
-/

namespace Slash.Lib

open List

structure Dyad where
  order : Nat
  index : Nat
  deriving DecidableEq, Repr

namespace Dyad

def size (d : Dyad) : Nat := 2 ^ d.order

def start (d : Dyad) : Nat := d.index * d.size

/-- The other half of the parent. -/
def buddy (d : Dyad) : Dyad := ⟨d.order, d.index ^^^ 1⟩

def parent (d : Dyad) : Dyad := ⟨d.order + 1, d.index / 2⟩

/-- The first half, of an interval of length two or more. -/
def lower (d : Dyad) : Dyad := ⟨d.order - 1, 2 * d.index⟩

def Covers (d : Dyad) (x : Nat) : Prop := x / d.size = d.index

instance (d : Dyad) (x : Nat) : Decidable (d.Covers x) :=
  inferInstanceAs (Decidable (_ = _))

/-! ## One interval -/

theorem size_pos (d : Dyad) : 0 < d.size := Nat.two_pow_pos _

theorem covers_iff {d : Dyad} {x : Nat} :
    d.Covers x ↔ d.start ≤ x ∧ x < d.start + d.size := by
  unfold Covers start
  rw [Nat.div_eq_iff d.size_pos, Nat.mul_comm]
  have := d.size_pos
  constructor
  · rintro ⟨h1, h2⟩
    exact ⟨h1, by omega⟩
  · rintro ⟨h1, h2⟩
    exact ⟨h1, by omega⟩

theorem covers_start (d : Dyad) : d.Covers d.start :=
  Nat.mul_div_cancel _ d.size_pos

theorem xor_one (n : Nat) : n ^^^ 1 = if n % 2 = 0 then n + 1 else n - 1 := by
  split
  · rename_i h
    exact Nat.xor_one_of_even (Nat.even_iff.mpr h)
  · rename_i h
    exact Nat.xor_one_of_odd (Nat.odd_iff.mpr (by omega))

@[simp] theorem buddy_buddy (d : Dyad) : d.buddy.buddy = d := by
  simp [buddy]

theorem buddy_ne (d : Dyad) : d.buddy ≠ d := by
  intro h
  have hindex : d.index ^^^ 1 = d.index := congrArg Dyad.index h
  rw [xor_one] at hindex
  split at hindex <;> omega

theorem start_buddy (d : Dyad) : d.buddy.start = d.start ^^^ d.size := by
  have hone : d.size = 1 <<< d.order := by simp [size, Nat.shiftLeft_eq]
  have hsize : d.buddy.size = d.size := rfl
  show (d.index ^^^ 1) * d.buddy.size = d.index * d.size ^^^ d.size
  rw [hsize, size, ← Nat.shiftLeft_eq, ← Nat.shiftLeft_eq, Nat.shiftLeft_xor_distrib,
    Nat.shiftLeft_eq 1, Nat.one_mul]

theorem min_start_buddy (d : Dyad) : min d.start d.buddy.start = d.parent.start := by
  have hsize : d.parent.size = 2 * d.size := by
    simp only [size, parent]
    rw [Nat.pow_succ, Nat.mul_comm]
  have hbuddy : d.buddy.start = (d.index ^^^ 1) * d.size := rfl
  have hparent : d.parent.start = d.index / 2 * (2 * d.size) := by
    rw [start, hsize]
    rfl
  rw [hbuddy, hparent, xor_one, start, ← Nat.mul_assoc]
  split
  · have : d.index / 2 * 2 = d.index := by omega
    rw [this, Nat.min_eq_left]
    exact Nat.mul_le_mul_right _ (by omega)
  · have : d.index / 2 * 2 = d.index - 1 := by omega
    rw [this, Nat.min_eq_right]
    exact Nat.mul_le_mul_right _ (by omega)

theorem parent_lower {d : Dyad} (h : 0 < d.order) : d.lower.parent = d := by
  have horder : d.order - 1 + 1 = d.order := by omega
  have hindex : 2 * d.index / 2 = d.index := by omega
  simp only [parent, lower, horder, hindex]

theorem start_lower {d : Dyad} (h : 0 < d.order) : d.lower.start = d.start := by
  have hmin := min_start_buddy d.lower
  have heven : (2 * d.index) ^^^ 1 = 2 * d.index + 1 := by
    rw [xor_one, if_pos (by omega)]
  have hle : d.lower.start ≤ d.lower.buddy.start := by
    refine Nat.mul_le_mul_right _ ?_
    show 2 * d.index ≤ (2 * d.index) ^^^ 1
    omega
  rw [parent_lower h, Nat.min_eq_left hle] at hmin
  exact hmin

theorem start_buddy_lower {d : Dyad} (h : 0 < d.order) :
    d.lower.buddy.start = d.start + d.lower.size := by
  rw [← start_lower h]
  show ((2 * d.index) ^^^ 1) * d.lower.size = 2 * d.index * d.lower.size + d.lower.size
  rw [xor_one, if_pos (by omega), Nat.add_mul, Nat.one_mul]

theorem covers_parent_iff {d : Dyad} {x : Nat} :
    d.parent.Covers x ↔ d.Covers x ∨ d.buddy.Covers x := by
  have hdiv : x / d.parent.size = x / d.size / 2 := by
    rw [Nat.div_div_eq_div_mul]
    rfl
  have hbuddy : x / d.buddy.size = x / d.size := rfl
  unfold Covers
  rw [hdiv, hbuddy]
  simp only [parent, buddy, xor_one]
  split <;> omega

theorem not_covers_buddy {d : Dyad} {x : Nat} (h : d.Covers x) : ¬ d.buddy.Covers x := by
  intro hb
  exact d.buddy_ne (congrArg (Dyad.mk d.order) (hb.symm.trans h))

/-- An interval that meets a shorter one contains it. -/
theorem Covers.mono {d e : Dyad} {x y : Nat} (hle : d.order ≤ e.order) (hd : d.Covers x)
    (he : e.Covers x) (hy : d.Covers y) : e.Covers y := by
  have hsize : e.size = d.size * 2 ^ (e.order - d.order) := by
    simp only [size]
    rw [← Nat.pow_add, Nat.add_sub_cancel' hle]
  unfold Covers at *
  rw [hsize, ← Nat.div_div_eq_div_mul] at he ⊢
  rw [hy, ← hd]
  exact he

theorem eq_of_covers {d e : Dyad} {x : Nat} (ho : d.order = e.order) (hd : d.Covers x)
    (he : e.Covers x) : d = e := by
  have hindex : d.index = e.index := by
    unfold Covers size at hd he
    rw [← hd, ← he, ho]
  cases d
  cases e
  simp_all

theorem eq_of_start {d e : Dyad} (ho : d.order = e.order) (hs : d.start = e.start) : d = e :=
  eq_of_covers ho d.covers_start (hs ▸ e.covers_start)

/-! ## Tilings -/

/-- Every point below `2 ^ n`, and no other, lies in exactly one interval of the list. -/
def Tiles (n : Nat) (l : List Dyad) : Prop :=
  ∀ x, l.countP (fun d => decide (d.Covers x)) = if x < 2 ^ n then 1 else 0

theorem tiles_whole (n : Nat) : Tiles n [⟨n, 0⟩] := by
  intro x
  have hcovers : (⟨n, 0⟩ : Dyad).Covers x ↔ x < 2 ^ n := by
    rw [covers_iff]
    simp [start, size]
  by_cases h : x < 2 ^ n <;> simp [hcovers, h]

theorem Tiles.perm {n : Nat} {l l' : List Dyad} (h : Tiles n l) (hp : l.Perm l') :
    Tiles n l' := fun x => (hp.countP_eq _).symm.trans (h x)

/-- Cutting an interval in half, and joining two buddies. -/
theorem tiles_parent {n : Nat} (d : Dyad) (l : List Dyad) :
    Tiles n (d.parent :: l) ↔ Tiles n (d :: d.buddy :: l) := by
  refine forall_congr' fun x => ?_
  have hcount : (d.parent :: l).countP (fun d => decide (d.Covers x)) =
      (d :: d.buddy :: l).countP (fun d => decide (d.Covers x)) := by
    simp only [countP_cons, decide_eq_true_eq, covers_parent_iff]
    by_cases h : d.Covers x
    · simp [h, not_covers_buddy h]
    · simp [h]
  rw [hcount]

section
variable {n : Nat} {l : List Dyad} (h : Tiles n l)
include h

theorem Tiles.lt {d : Dyad} (hd : d ∈ l) {x : Nat} (hx : d.Covers x) : x < 2 ^ n := by
  by_contra hge
  have hcount := h x
  rw [if_neg hge, countP_eq_zero] at hcount
  exact hcount d hd (decide_eq_true hx)

theorem Tiles.inside {d : Dyad} (hd : d ∈ l) : d.start + d.size ≤ 2 ^ n := by
  have hpos := d.size_pos
  have hlast := h.lt hd (covers_iff.mpr ⟨by omega, by omega⟩ :
    d.Covers (d.start + d.size - 1))
  omega

theorem Tiles.order_le {d : Dyad} (hd : d ∈ l) : d.order ≤ n := by
  have hle : 2 ^ d.order ≤ 2 ^ n := le_trans (Nat.le_add_left _ _) (h.inside hd)
  exact (Nat.pow_le_pow_iff_right (by decide)).mp hle

theorem Tiles.exists_covers {x : Nat} (hx : x < 2 ^ n) : ∃ d ∈ l, d.Covers x := by
  have hcount := h x
  rw [if_pos hx] at hcount
  have hpos : 0 < l.countP (fun d => decide (d.Covers x)) := by omega
  obtain ⟨d, hd, hc⟩ := countP_pos_iff.mp hpos
  exact ⟨d, hd, of_decide_eq_true hc⟩

theorem Tiles.apart : l.Pairwise fun d e => ∀ x, d.Covers x → ¬ e.Covers x := by
  have hle : ∀ x, l.countP (fun d => decide (d.Covers x)) ≤ 1 := fun x => by
    rw [h x]
    split <;> decide
  clear h
  induction l with
  | nil => exact List.Pairwise.nil
  | cons d l ih =>
    refine pairwise_cons.mpr ⟨fun e he x hd hex => ?_, ih fun x => ?_⟩
    · have hpos : 0 < l.countP (fun d => decide (d.Covers x)) :=
        countP_pos_iff.mpr ⟨e, he, decide_eq_true hex⟩
      have := hle x
      rw [countP_cons, if_pos (decide_eq_true hd)] at this
      omega
    · exact le_trans (List.Sublist.countP_le (sublist_cons_self d l)) (hle x)

theorem Tiles.eq_of_mem {d e : Dyad} (hd : d ∈ l) (he : e ∈ l) {x : Nat} (hdx : d.Covers x)
    (hex : e.Covers x) : d = e := by
  by_contra hne
  have hsymm : Std.Symm fun d e : Dyad => ∀ x, d.Covers x → ¬ e.Covers x :=
    ⟨fun d e hde x hex hdx => hde x hdx hex⟩
  exact h.apart.forall hd he hne x hdx hex

/-- The shortest interval of a tiling has its buddy beside it, unless it is the whole. -/
theorem Tiles.buddy_mem {d : Dyad} (hd : d ∈ l) (hmin : ∀ e ∈ l, d.order ≤ e.order)
    (hlt : d.order < n) : d.buddy ∈ l := by
  have hpoint : d.buddy.start < 2 ^ n := by
    have hin := h.inside hd
    have hparent : d.parent.start + d.parent.size ≤ 2 ^ n := by
      have hdvd : d.parent.size ∣ 2 ^ n := Nat.pow_dvd_pow 2 hlt
      have hstart := h.lt hd d.covers_start
      have hcov : d.parent.Covers d.start := covers_parent_iff.mpr (.inl d.covers_start)
      obtain ⟨hlo, -⟩ := covers_iff.mp hcov
      obtain ⟨a, ha⟩ := hdvd
      have ha' : 2 ^ n = a * d.parent.size := by rw [ha, Nat.mul_comm]
      have hidx : d.parent.index < a := by
        by_contra hge
        have : a * d.parent.size ≤ d.parent.start := Nat.mul_le_mul_right _ (by omega)
        omega
      have : (d.parent.index + 1) * d.parent.size ≤ a * d.parent.size :=
        Nat.mul_le_mul_right _ hidx
      rw [Nat.add_mul, Nat.one_mul] at this
      show d.parent.index * d.parent.size + d.parent.size ≤ 2 ^ n
      omega
    have hcov : d.parent.Covers d.buddy.start := covers_parent_iff.mpr (.inr (covers_start _))
    have := (covers_iff.mp hcov).2
    omega
  obtain ⟨e, he, hcov⟩ := h.exists_covers hpoint
  rcases Nat.lt_or_ge d.order e.order with horder | horder
  · -- a longer interval over the buddy would hold the interval itself
    have hparent : e.Covers d.start :=
      Covers.mono (d := d.parent) horder (covers_parent_iff.mpr (.inr (covers_start d.buddy))) hcov
        (covers_parent_iff.mpr (.inl d.covers_start))
    have heq := h.eq_of_mem hd he d.covers_start hparent
    rw [heq] at horder
    exact absurd horder (Nat.lt_irrefl _)
  · have heq : d.buddy = e :=
      eq_of_covers (Nat.le_antisymm (hmin e he) horder) (covers_start d.buddy) hcov
    rw [heq]
    exact he

theorem Tiles.eq_whole (hno : ∀ d ∈ l, d.buddy ∉ l) : l = [⟨n, 0⟩] := by
  classical
  obtain ⟨d₀, hd₀, -⟩ := h.exists_covers (Nat.two_pow_pos n)
  have hex : ∃ m, ∃ e ∈ l, e.order = m := ⟨_, d₀, hd₀, rfl⟩
  obtain ⟨d, hd, horder⟩ := Nat.find_spec hex
  have hmin : ∀ e ∈ l, d.order ≤ e.order := fun e he =>
    horder.le.trans (Nat.find_min' hex ⟨e, he, rfl⟩)
  have htop : d.order = n := by
    refine Nat.le_antisymm (h.order_le hd) (Nat.le_of_not_lt fun hlt => ?_)
    exact hno d hd (h.buddy_mem hd hmin hlt)
  have hwhole : ∀ e ∈ l, e = ⟨n, 0⟩ := by
    intro e he
    have hn : e.order = n := Nat.le_antisymm (h.order_le he) (htop ▸ hmin e he)
    have hzero : (⟨n, 0⟩ : Dyad).Covers e.start := by
      refine covers_iff.mpr ⟨by simp [start], ?_⟩
      have := h.lt he e.covers_start
      simpa [start, size] using this
    exact eq_of_covers hn e.covers_start hzero
  -- one copy only, or the points would be covered twice
  have hcount := h 0
  have hall : l.countP (fun d => decide (d.Covers 0)) = l.length := by
    refine countP_eq_length.mpr fun e he => decide_eq_true ?_
    rw [hwhole e he]
    exact Nat.zero_div _
  rw [hall, if_pos (Nat.two_pow_pos n)] at hcount
  obtain ⟨e, rfl⟩ := length_eq_one_iff.mp hcount
  rw [hwhole e mem_cons_self]

end

end Dyad

end Slash.Lib
