import Mathlib.Data.List.Nodup
import Mathlib.Data.List.Range
import Mathlib.Logic.Equiv.Basic
import Mathlib.Order.Lattice
import Slash.Lib.Update

/-!
# Shortlists

A shortlist keeps the best of the items that are offered to it, in an array with room for so many:
an item is appended while there is room, and takes the place of the worst one after that if it is
better. At the end the array is put in order by exchanges.

`less` is the comparison that the program makes. It compares keys in a linear order; items with
the same key need not be equal.
-/

namespace Slash.Lib

open List

/-- An array, of which the first `count` cells are in use. -/
structure Shortlist (α : Type) where
  count : Nat
  cells : Nat → α

namespace Shortlist

variable {α : Type}

def listed (b : Shortlist α) : List α := (List.range b.count).map b.cells

variable (less : α → α → Bool)

/-- The first of the worst items. -/
def worstIndex (b : Shortlist α) : Nat :=
  (List.range' 1 (b.count - 1)).foldl (fun w i => if less (b.cells w) (b.cells i) then i else w) 0

/-- Offer an item to a shortlist with room for `max` items. -/
def offer (max : Nat) (b : Shortlist α) (c : α) : Shortlist α :=
  if b.count < max then ⟨b.count + 1, upd b.cells b.count c⟩
  else if less c (b.cells (b.worstIndex less)) then
    { b with cells := upd b.cells (b.worstIndex less) c }
  else b

def exchange (i : Nat) (b : Shortlist α) (j : Nat) : Shortlist α :=
  if less (b.cells j) (b.cells i) then
    { b with cells := upd (upd b.cells i (b.cells j)) j (b.cells i) }
  else b

/-- Bring the best of the items from `i` on to place `i`. -/
def settle (b : Shortlist α) (i : Nat) : Shortlist α :=
  (List.range' (i + 1) (b.count - (i + 1))).foldl (exchange less i) b

/-- Put the array in order. -/
def sort (b : Shortlist α) : Shortlist α := (List.range b.count).foldl (settle less) b

variable {less}

theorem mem_listed {b : Shortlist α} {x : α} : x ∈ b.listed ↔ ∃ i < b.count, b.cells i = x := by
  simp only [listed, mem_map, mem_range]

theorem nodup_listed {b : Shortlist α} :
    b.listed.Nodup ↔ ∀ i < b.count, ∀ j < b.count, b.cells i = b.cells j → i = j := by
  rw [listed, nodup_map_iff_inj_on nodup_range]
  simp only [mem_range]

section
variable {κ : Type} [LinearOrder κ] {key : α → κ}

/-! ## Offers -/

variable {b : Shortlist α}

theorem worstIndex_spec (hless : ∀ a b, less a b = true ↔ key a < key b) (hpos : 0 < b.count) :
    b.worstIndex less < b.count ∧
      ∀ i < b.count, key (b.cells i) ≤ key (b.cells (b.worstIndex less)) := by
  -- the scan has seen the first `n` items
  have hscan : ∀ n, n < b.count →
      (List.range' 1 n).foldl (fun w i => if less (b.cells w) (b.cells i) then i else w) 0 ≤ n ∧
      ∀ i ≤ n, key (b.cells i) ≤ key (b.cells ((List.range' 1 n).foldl
        (fun w i => if less (b.cells w) (b.cells i) then i else w) 0)) := by
    intro n
    induction n with
    | zero =>
      intro _
      refine ⟨Nat.le_refl _, fun i hi => ?_⟩
      rw [Nat.le_zero.mp hi]
      exact le_refl _
    | succ n ih =>
      intro hn
      obtain ⟨hle, hworst⟩ := ih (Nat.lt_of_succ_lt hn)
      rw [range'_1_concat, foldl_append, foldl_cons, foldl_nil]
      rw [Nat.add_comm 1 n]
      split
      · rename_i hbetter
        refine ⟨Nat.le_refl _, fun i hi => ?_⟩
        rcases Nat.lt_or_ge n i with hgt | hle'
        · rw [Nat.le_antisymm hi hgt]
        · exact (hworst i hle').trans (le_of_lt ((hless _ _).mp hbetter))
      · rename_i hnot
        refine ⟨Nat.le_succ_of_le hle, fun i hi => ?_⟩
        rcases Nat.lt_or_ge n i with hgt | hle'
        · rw [Nat.le_antisymm hi hgt]
          exact not_lt.mp fun hlt => hnot ((hless _ _).mpr hlt)
        · exact hworst i hle'
  obtain ⟨hle, hworst⟩ := hscan (b.count - 1) (by omega)
  exact ⟨by rw [worstIndex]; omega, fun i hi => hworst i (by omega)⟩

/-- The shortlist holds the best of what was seen, as many as fit. -/
structure Best (key : α → κ) (max : Nat) (seen : List α) (b : Shortlist α) : Prop where
  fits : b.count ≤ max
  sub : ∀ x ∈ b.listed, x ∈ seen
  nodup : b.listed.Nodup
  /-- Nothing is turned away while there is room. -/
  full : ∀ x ∈ seen, x ∉ b.listed → b.count = max
  rest : ∀ x ∈ seen, x ∉ b.listed → ∀ y ∈ b.listed, key y ≤ key x

theorem Best.empty (max : Nat) (cells : Nat → α) : Best key max [] ⟨0, cells⟩ where
  fits := Nat.zero_le _
  sub := fun x hx => by simp [listed] at hx
  nodup := nodup_nil
  full := fun x hx => by cases hx
  rest := fun x hx => by cases hx

theorem mem_append_cell {c x : α} :
    x ∈ (⟨b.count + 1, upd b.cells b.count c⟩ : Shortlist α).listed ↔ x ∈ b.listed ∨ x = c := by
  simp only [mem_listed]
  constructor
  · rintro ⟨i, hi, rfl⟩
    by_cases heq : i = b.count
    · rw [heq, upd_same]
      exact .inr rfl
    · rw [upd_ne _ _ heq]
      exact .inl ⟨i, by omega, rfl⟩
  · rintro (⟨i, hi, rfl⟩ | rfl)
    · exact ⟨i, by omega, upd_ne _ _ (Nat.ne_of_lt hi)⟩
    · exact ⟨b.count, Nat.lt_succ_self _, upd_same _ _ _⟩

section

variable (hless : ∀ a b, less a b = true ↔ key a < key b)
include hless

theorem Best.offer {max : Nat} (hmax : 0 < max) {seen : List α} (h : Best key max seen b) {c : α}
    (hc : c ∉ seen) :
    Best key max (seen ++ [c]) (b.offer less max c) := by
  have hfits := h.fits
  have hinj := nodup_listed.mp h.nodup
  have hnew : ∀ i < b.count, b.cells i ≠ c := fun i hi heq =>
    hc (h.sub c (mem_listed.mpr ⟨i, hi, heq⟩))
  rw [Shortlist.offer]
  split
  · -- there is room
    rename_i hroom
    have hlisted : ∀ x ∈ seen ++ [c],
        x ∈ (⟨b.count + 1, upd b.cells b.count c⟩ : Shortlist α).listed := by
      intro x hx
      rw [mem_append_cell]
      rcases mem_append.mp hx with hold | hnew'
      · by_contra hnot
        exact absurd (h.full x hold fun hin => hnot (.inl hin)) (Nat.ne_of_lt hroom)
      · exact .inr (mem_singleton.mp hnew')
    refine ⟨hroom, fun x hx => ?_, nodup_listed.mpr fun i hi j hj heq => ?_,
      fun x hx hnot => absurd (hlisted x hx) hnot, fun x hx hnot => absurd (hlisted x hx) hnot⟩
    · rcases mem_append_cell.mp hx with hold | rfl
      · exact mem_append_left _ (h.sub x hold)
      · exact mem_append_right _ (mem_singleton_self _)
    · replace hi : i < b.count + 1 := hi
      replace hj : j < b.count + 1 := hj
      replace heq : upd b.cells b.count c i = upd b.cells b.count c j := heq
      by_cases hin : i = b.count <;> by_cases hjn : j = b.count
      · omega
      · rw [hin, upd_same, upd_ne _ _ hjn] at heq
        exact absurd heq.symm (hnew j (by omega))
      · rw [hjn, upd_same, upd_ne _ _ hin] at heq
        exact absurd heq (hnew i (by omega))
      · rw [upd_ne _ _ hin, upd_ne _ _ hjn] at heq
        exact hinj i (by omega) j (by omega) heq
  · rename_i hfull
    have hpos : 0 < b.count := by omega
    obtain ⟨hw, hworst⟩ := worstIndex_spec hless hpos
    generalize b.worstIndex less = w at hw hworst
    have hcount : b.count = max := Nat.le_antisymm hfits (Nat.not_lt.mp hfull)
    split
    · -- the new item takes the place of the worst
      rename_i hbetter
      replace hbetter := (hless _ _).mp hbetter
      have hmem : ∀ x, x ∈ (⟨b.count, upd b.cells w c⟩ : Shortlist α).listed ↔
          x = c ∨ ∃ i < b.count, i ≠ w ∧ b.cells i = x := by
        intro x
        rw [mem_listed]
        constructor
        · rintro ⟨i, hi, rfl⟩
          by_cases hiw : i = w
          · rw [hiw]
            exact .inl (upd_same _ _ _)
          · exact .inr ⟨i, hi, hiw, (upd_ne _ _ hiw).symm⟩
        · rintro (rfl | ⟨i, hi, hiw, rfl⟩)
          · exact ⟨w, hw, upd_same _ _ _⟩
          · exact ⟨i, hi, upd_ne _ _ hiw⟩
      refine ⟨hfits, fun x hx => ?_, nodup_listed.mpr fun i hi j hj heq => ?_,
        fun _ _ _ => hcount, fun x hx hnot y hy => ?_⟩
      · rcases (hmem x).mp hx with rfl | ⟨i, hi, -, rfl⟩
        · exact mem_append_right _ (mem_singleton_self _)
        · exact mem_append_left _ (h.sub _ (mem_listed.mpr ⟨i, hi, rfl⟩))
      · replace hi : i < b.count := hi
        replace hj : j < b.count := hj
        replace heq : upd b.cells w c i = upd b.cells w c j := heq
        by_cases hiw : i = w <;> by_cases hjw : j = w
        · rw [hiw, hjw]
        · rw [hiw, upd_same, upd_ne _ _ hjw] at heq
          exact absurd heq.symm (hnew j hj)
        · rw [hjw, upd_same, upd_ne _ _ hiw] at heq
          exact absurd heq (hnew i hi)
        · rw [upd_ne _ _ hiw, upd_ne _ _ hjw] at heq
          exact hinj i hi j hj heq
      · -- what is not listed is at least the item that left
        have hleft : key (b.cells w) ≤ key x := by
          rcases mem_append.mp hx with hold | hnew'
          · by_cases hin : x ∈ b.listed
            · obtain ⟨i, hi, rfl⟩ := mem_listed.mp hin
              by_cases hiw : i = w
              · rw [hiw]
              · exact absurd ((hmem _).mpr (.inr ⟨i, hi, hiw, rfl⟩)) hnot
            · exact h.rest x hold hin _ (mem_listed.mpr ⟨w, hw, rfl⟩)
          · exact absurd ((hmem x).mpr (.inl (mem_singleton.mp hnew'))) hnot
        rcases (hmem y).mp hy with rfl | ⟨i, hi, -, rfl⟩
        · exact (le_of_lt hbetter).trans hleft
        · exact (hworst i hi).trans hleft
    · -- it is turned away
      rename_i hnot'
      have hge : key (b.cells w) ≤ key c := not_lt.mp fun hlt => hnot' ((hless _ _).mpr hlt)
      refine ⟨hfits, fun x hx => mem_append_left _ (h.sub x hx), h.nodup,
        fun _ _ _ => hcount, fun x hx hnot y hy => ?_⟩
      rcases mem_append.mp hx with hold | hnew'
      · exact h.rest x hold hnot y hy
      · obtain ⟨i, hi, rfl⟩ := mem_listed.mp hy
        rw [mem_singleton.mp hnew']
        exact (hworst i hi).trans hge

/-- A whole run of offers. -/
theorem Best.offers {max : Nat} (hmax : 0 < max) :
    ∀ (items seen : List α) (b : Shortlist α), Best key max seen b → (seen ++ items).Nodup →
      Best key max (seen ++ items) (items.foldl (Shortlist.offer less max) b) := by
  intro items
  induction items with
  | nil =>
    intro seen b h _
    rw [append_nil]
    exact h
  | cons c items ih =>
    intro seen b h hnodup
    have hc : c ∉ seen := fun hmem =>
      (nodup_append.mp hnodup).2.2 c hmem c mem_cons_self rfl
    rw [append_cons] at hnodup ⊢
    exact ih _ _ (h.offer hless hmax hc) hnodup

theorem Best.of_offers {max : Nat} (hmax : 0 < max) {items : List α} (hnodup : items.Nodup)
    (cells : Nat → α) :
    Best key max items (items.foldl (Shortlist.offer less max) ⟨0, cells⟩) :=
  Best.offers hless hmax items [] ⟨0, cells⟩ (Best.empty max cells) hnodup

end

theorem Best.covers {max : Nat} {seen : List α} (h : Best key max seen b) (hmax : 0 < max) :
    ∀ x ∈ seen, ∃ y ∈ b.listed, key y ≤ key x := by
  intro x hx
  by_cases hin : x ∈ b.listed
  · exact ⟨x, hin, le_refl _⟩
  · have hpos : 0 < b.count := (h.full x hx hin).symm ▸ hmax
    have hmem : b.cells 0 ∈ b.listed := mem_listed.mpr ⟨0, hpos, rfl⟩
    exact ⟨b.cells 0, hmem, h.rest x hx hin _ hmem⟩

/-! ## Putting in order -/

theorem exchange_perm (less : α → α → Bool) (i j : Nat) (b : Shortlist α) (hi : i < b.count) (hj : j < b.count) :
    (b.exchange less i j).count = b.count ∧ (b.exchange less i j).listed.Perm b.listed := by
  rw [exchange]
  split
  · refine ⟨rfl, ?_⟩
    have hswap : upd (upd b.cells i (b.cells j)) j (b.cells i) = b.cells ∘ Equiv.swap i j := by
      funext k
      rw [Function.comp_apply, Equiv.swap_apply_def, upd_apply, upd_apply]
      by_cases hkj : k = j
      · by_cases hij : j = i
        · rw [if_pos hkj, if_pos (hkj.trans hij), hij]
        · rw [if_pos hkj, if_neg fun hki => hij (hkj.symm.trans hki), if_pos hkj]
      · by_cases hki : k = i
        · rw [if_neg hkj, if_pos hki, if_pos hki]
        · rw [if_neg hkj, if_neg hki, if_neg hki, if_neg hkj]
    rw [listed, listed, hswap, ← map_map]
    refine List.Perm.map _ ((perm_ext_iff_of_nodup ?_ nodup_range).mpr fun k => ?_)
    · exact nodup_range.map (Equiv.injective _)
    · rw [mem_range, mem_map]
      have hin : ∀ k, Equiv.swap i j k < b.count ↔ k < b.count := by
        intro k
        rw [Equiv.swap_apply_def]
        split
        · omega
        · split <;> omega
      constructor
      · rintro ⟨l, hl, rfl⟩
        exact (hin l).mpr (mem_range.mp hl)
      · intro hk
        exact ⟨Equiv.swap i j k, mem_range.mpr ((hin k).mpr hk), Equiv.swap_apply_self i j k⟩
  · exact ⟨rfl, List.Perm.refl _⟩

/-- The first `n` places are settled, and place `n` against those before place `k`. -/
def Settled (key : α → κ) (b : Shortlist α) (n k : Nat) : Prop :=
  (∀ i < n, ∀ j < b.count, i < j → key (b.cells i) ≤ key (b.cells j)) ∧
    ∀ j < k, n < j → key (b.cells n) ≤ key (b.cells j)

section

variable (hless : ∀ a b, less a b = true ↔ key a < key b)
include hless

theorem Settled.exchange {n k : Nat} (h : Settled key b n k) (hnk : n < k) (hk : k < b.count) :
    Settled key (b.exchange less n k) n (k + 1) := by
  obtain ⟨hbefore, hplace⟩ := h
  rw [Shortlist.exchange]
  split
  · rename_i hbetter
    replace hbetter := (hless _ _).mp hbetter
    have hn : upd (upd b.cells n (b.cells k)) k (b.cells n) n = b.cells k := by
      rw [upd_ne _ _ (Nat.ne_of_lt hnk), upd_same]
    refine ⟨fun i hi j hj hij => ?_, fun j hj hnj => ?_⟩
    · show key (upd (upd b.cells n (b.cells k)) k (b.cells n) i) ≤
        key (upd (upd b.cells n (b.cells k)) k (b.cells n) j)
      rw [upd_ne _ _ (show i ≠ k by omega), upd_ne _ _ (show i ≠ n by omega)]
      by_cases hjk : j = k
      · rw [hjk, upd_same]
        exact hbefore i hi n (by omega) hi
      · rw [upd_ne _ _ hjk]
        by_cases hjn : j = n
        · rw [hjn, upd_same]
          exact hbefore i hi k hk (by omega)
        · rw [upd_ne _ _ hjn]
          exact hbefore i hi j hj hij
    · show key (upd (upd b.cells n (b.cells k)) k (b.cells n) n) ≤
        key (upd (upd b.cells n (b.cells k)) k (b.cells n) j)
      rw [hn]
      by_cases hjk : j = k
      · rw [hjk, upd_same]
        exact le_of_lt hbetter
      · rw [upd_ne _ _ hjk, upd_ne _ _ (show j ≠ n by omega)]
        exact (le_of_lt hbetter).trans (hplace j (by omega) hnj)
  · rename_i hnot
    refine ⟨hbefore, fun j hj hnj => ?_⟩
    by_cases hjk : j = k
    · rw [hjk]
      exact not_lt.mp fun hlt => hnot ((hless _ _).mpr hlt)
    · exact hplace j (by omega) hnj

theorem settle_spec {n : Nat} (h : Settled key b n 0) (hn : n < b.count) :
    (b.settle less n).count = b.count ∧ (b.settle less n).listed.Perm b.listed ∧
      Settled key (b.settle less n) (n + 1) 0 := by
  have hscan : ∀ m, n + 1 + m ≤ b.count →
      ((List.range' (n + 1) m).foldl (Shortlist.exchange less n) b).count = b.count ∧
      ((List.range' (n + 1) m).foldl (Shortlist.exchange less n) b).listed.Perm b.listed ∧
      Settled key ((List.range' (n + 1) m).foldl (Shortlist.exchange less n) b) n (n + 1 + m) := by
    intro m
    induction m with
    | zero =>
      intro _
      exact ⟨rfl, List.Perm.refl _, h.1, fun j hj hnj => absurd hnj (by omega)⟩
    | succ m ih =>
      intro hm
      obtain ⟨hcount, hperm, hsettled⟩ := ih (by omega)
      rw [range'_1_concat, foldl_append, foldl_cons, foldl_nil]
      obtain ⟨hcount', hperm'⟩ := exchange_perm less n (n + 1 + m) _
        (hcount.symm ▸ hn) (hcount.symm ▸ (by omega : n + 1 + m < b.count))
      refine ⟨hcount'.trans hcount, hperm'.trans hperm, ?_⟩
      exact hsettled.exchange hless (by omega) (by omega)
  obtain ⟨hcount, hperm, hsettled⟩ := hscan (b.count - (n + 1)) (by omega)
  refine ⟨hcount, hperm, fun i hi j hj hij => ?_, fun j hj => absurd hj (Nat.not_lt_zero j)⟩
  rcases Nat.lt_or_ge i n with hlt | hge
  · exact hsettled.1 i hlt j hj hij
  · have heq : i = n := by omega
    subst heq
    exact hsettled.2 j (by rw [settle, hcount] at hj; omega) hij

theorem sort_spec (b : Shortlist α) :
    (b.sort less).listed.Perm b.listed ∧
      (b.sort less).listed.Pairwise fun x y => key x ≤ key y := by
  have hscan : ∀ n, n ≤ b.count →
      ((List.range n).foldl (settle less) b).count = b.count ∧
      ((List.range n).foldl (settle less) b).listed.Perm b.listed ∧
      Settled key ((List.range n).foldl (settle less) b) n 0 := by
    intro n
    induction n with
    | zero =>
      intro _
      exact ⟨rfl, List.Perm.refl _, fun i hi => absurd hi (Nat.not_lt_zero i),
        fun j hj => absurd hj (Nat.not_lt_zero j)⟩
    | succ n ih =>
      intro hn
      obtain ⟨hcount, hperm, hsettled⟩ := ih (Nat.le_of_succ_le hn)
      rw [range_succ, foldl_append, foldl_cons, foldl_nil]
      obtain ⟨hcount', hperm', hsettled'⟩ := settle_spec hless hsettled (hcount.symm ▸ hn)
      exact ⟨hcount'.trans hcount, hperm'.trans hperm, hsettled'⟩
  obtain ⟨hcount, hperm, hsettled⟩ := hscan b.count (Nat.le_refl _)
  refine ⟨hperm, ?_⟩
  rw [sort, listed, pairwise_map, hcount]
  refine List.Pairwise.imp_of_mem (fun {i j} hi hj hij => ?_) (pairwise_lt_range)
  exact hsettled.1 i (mem_range.mp hi) j (hcount.symm ▸ mem_range.mp hj) hij

end

end

end Shortlist

end Slash.Lib
