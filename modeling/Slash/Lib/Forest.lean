import Mathlib.Data.List.Perm.Subperm
import Slash.Lib.OrderedMap

/-!
# Forests of links

A map from keys to keys read as links: a key without an entry is a root. `Chain f k n r` says that
`n` links lead from `k` to the root `r`; it determines both. A map in which every key has a chain
is a forest, `follow` finds the root of every key in it, and linking one root to another keeps it a
forest and merges exactly the two trees (`Chain.insert`).
-/

namespace Slash.Lib

open List

variable {α : Type} [LinearOrder α] {f : OrderedMap α α}

/-- `n` links lead from `k` to the root `r`. -/
inductive Chain (f : OrderedMap α α) : α → Nat → α → Prop where
  | root {k : α} (h : f.find? k = none) : Chain f k 0 k
  | link {k k' r : α} {n : Nat} (h : f.find? k = some k') (hc : Chain f k' n r) :
      Chain f k (n + 1) r

/-- Every key leads to a root. -/
def IsForest (f : OrderedMap α α) : Prop := ∀ k, ∃ n r, Chain f k n r

theorem Chain.root_eq_none {k r : α} {n : Nat} (h : Chain f k n r) : f.find? r = none := by
  induction h with
  | root h => exact h
  | link h hc ih => exact ih

theorem Chain.unique {k r r' : α} {n n' : Nat} (h : Chain f k n r) (h' : Chain f k n' r') :
    n = n' ∧ r = r' := by
  induction h generalizing n' with
  | root h =>
    cases h' with
    | root h' => exact ⟨rfl, rfl⟩
    | link h' hc => rw [h] at h'; cases h'
  | link h hc ih =>
    cases h' with
    | root h' => rw [h] at h'; cases h'
    | link h' hc' =>
      obtain rfl := Option.some.inj (h.symm.trans h')
      obtain ⟨hn, hr⟩ := ih hc'
      exact ⟨congrArg (· + 1) hn, hr⟩

theorem isForest_empty : IsForest (OrderedMap.empty : OrderedMap α α) :=
  fun k => ⟨0, k, .root (OrderedMap.find?_empty k)⟩

/-! ## Following links -/

/-- Follow the links from a key, and give up at a key that was seen before. Each round sees a new
key with an entry, so one round more than there are entries is enough. -/
def follow (f : OrderedMap α α) : Nat → List α → α → Option α
  | 0, _, _ => none
  | fuel + 1, seen, k =>
    if k ∈ seen then none
    else
      match f.find? k with
      | none => some k
      | some k' => follow f fuel (k :: seen) k'

def rootOf (f : OrderedMap α α) (k : α) : Option α := follow f (f.entries.length + 1) [] k

theorem length_le_entries {seen : List α} (hnodup : seen.Nodup) (hkeys : seen ⊆ f.keys) :
    seen.length ≤ f.entries.length := by
  have h := (subperm_of_subset hnodup hkeys).length_le
  rwa [OrderedMap.keys, length_map] at h

theorem follow_eq {k r : α} {n : Nat} (h : Chain f k n r) {fuel : Nat} {seen : List α}
    (hnodup : seen.Nodup) (hkeys : seen ⊆ f.keys) (hfuel : f.entries.length < fuel + seen.length)
    (hseen : ∀ x ∈ seen, ∃ m, n < m ∧ Chain f x m r) : follow f fuel seen k = some r := by
  -- the keys seen lie further from the root, so this one is new
  have hnew : ∀ {k : α} {n : Nat} {seen : List α}, Chain f k n r →
      (∀ x ∈ seen, ∃ m, n < m ∧ Chain f x m r) → k ∉ seen := by
    intro k n seen h hseen hmem
    obtain ⟨m, hlt, hm⟩ := hseen k hmem
    exact absurd (h.unique hm).1 (Nat.ne_of_lt hlt)
  have hlength := length_le_entries hnodup hkeys
  obtain ⟨fuel, rfl⟩ : ∃ n, fuel = n + 1 := ⟨fuel - 1, by omega⟩
  induction h generalizing fuel seen with
  | root h => rw [follow, if_neg (hnew (.root h) hseen), h]
  | @link k k' r n h hc ih =>
    have hk : k ∉ seen := hnew (.link h hc) hseen
    rw [follow, if_neg hk, h]
    have hseen' : ∀ x ∈ k :: seen, ∃ m, n < m ∧ Chain f x m r := by
      intro x hx
      obtain rfl | hx := mem_cons.1 hx
      · exact ⟨n + 1, Nat.lt_succ_self n, .link h hc⟩
      · obtain ⟨m, hlt, hm⟩ := hseen x hx
        exact ⟨m, by omega, hm⟩
    have hkeys' : k :: seen ⊆ f.keys := by
      refine cons_subset.2 ⟨f.mem_keys.2 (by rw [h]; rfl), hkeys⟩
    have hnodup' : (k :: seen).Nodup := nodup_cons.2 ⟨hk, hnodup⟩
    have hlength' := length_le_entries hnodup' hkeys'
    rw [length_cons] at hlength'
    obtain ⟨fuel, rfl⟩ : ∃ n, fuel = n + 1 := ⟨fuel - 1, by omega⟩
    exact ih hnodup' hkeys' hseen' hnew hlength' fuel (by rw [length_cons]; omega)

theorem rootOf_eq {k r : α} {n : Nat} (h : Chain f k n r) : rootOf f k = some r :=
  follow_eq h nodup_nil (nil_subset _) (by simp) fun x hx => absurd hx not_mem_nil

/-- In a forest the root of a key is what its chain leads to. -/
theorem IsForest.rootOf_iff (h : IsForest f) {k r : α} :
    rootOf f k = some r ↔ ∃ n, Chain f k n r := by
  constructor
  · intro hr
    obtain ⟨n, r', hc⟩ := h k
    rw [rootOf_eq hc] at hr
    exact ⟨n, Option.some.inj hr ▸ hc⟩
  · rintro ⟨n, hc⟩
    exact rootOf_eq hc

theorem IsForest.rootOf_isSome (h : IsForest f) (k : α) : ∃ r, rootOf f k = some r := by
  obtain ⟨n, r, hc⟩ := h k
  exact ⟨r, rootOf_eq hc⟩

/-! ## Linking roots -/

/-- Linking the root `t` to another root `s` moves the tree of `t` under `s`. -/
theorem Chain.insert {t s k r : α} {n : Nat} (hs : f.find? s = none) (hne : s ≠ t)
    (h : Chain f k n r) (ht : f.find? t = none) :
    ∃ m, Chain (f.insert t s) k m (if r = t then s else r) := by
  induction h with
  | @root k h =>
    by_cases hk : k = t
    · subst hk
      rw [if_pos rfl]
      refine ⟨1, .link (OrderedMap.find?_insert_self f k s) (.root ?_)⟩
      rw [OrderedMap.find?_insert_ne f s hne]
      exact hs
    · rw [if_neg hk]
      refine ⟨0, .root ?_⟩
      rw [OrderedMap.find?_insert_ne f s hk]
      exact h
  | @link k k' r n h hc ih =>
    obtain ⟨m, hm⟩ := ih
    have hk : k ≠ t := by
      rintro rfl
      rw [ht] at h
      cases h
    refine ⟨m + 1, .link ?_ hm⟩
    rw [OrderedMap.find?_insert_ne f s hk]
    exact h

theorem IsForest.insert (h : IsForest f) {t s : α} (ht : f.find? t = none) (hs : f.find? s = none)
    (hne : s ≠ t) : IsForest (f.insert t s) := by
  intro k
  obtain ⟨n, r, hc⟩ := h k
  obtain ⟨m, hm⟩ := hc.insert hs hne ht
  exact ⟨m, _, hm⟩

theorem IsForest.rootOf_insert (h : IsForest f) {t s : α} (ht : f.find? t = none)
    (hs : f.find? s = none) (hne : s ≠ t) {k r : α} (hr : rootOf f k = some r) :
    rootOf (f.insert t s) k = some (if r = t then s else r) := by
  obtain ⟨n, hc⟩ := h.rootOf_iff.1 hr
  obtain ⟨m, hm⟩ := hc.insert hs hne ht
  exact rootOf_eq hm

theorem IsForest.find?_rootOf (h : IsForest f) {k r : α} (hr : rootOf f k = some r) :
    f.find? r = none := by
  obtain ⟨n, hc⟩ := h.rootOf_iff.1 hr
  exact hc.root_eq_none

end Slash.Lib
