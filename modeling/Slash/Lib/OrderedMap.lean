import Mathlib.Data.List.Basic
import Mathlib.Order.Lattice

/-!
# Maps in key order

A finite map kept as the list of its entries in strictly increasing key order: what an ordered
map of the standard library iterates over. The order is a field, so a map with a key twice cannot
be built, and an entry of the list is exactly what a lookup finds (`mem_entries`). Assignment and
`emplace` differ only in which entry wins when the key is there already.
-/

namespace Slash.Lib

open List

variable {α β γ : Type} [LinearOrder α]

/-- Assign `v` to `k` in a list of entries in key order. -/
def assign (k : α) (v : β) : List (α × β) → List (α × β)
  | [] => [(k, v)]
  | e :: es =>
    if k = e.1 then (k, v) :: es
    else if k < e.1 then (k, v) :: e :: es
    else e :: assign k v es

theorem assign_keys (k : α) (v : β) (es : List (α × β)) {a : α}
    (h : a ∈ (assign k v es).map Prod.fst) : a = k ∨ a ∈ es.map Prod.fst := by
  induction es with
  | nil => simpa [assign] using h
  | cons e es ih =>
    simp only [assign] at h
    split at h
    · rename_i heq
      subst heq
      exact .inr (by simpa using h)
    · split at h
      · simpa using h
      · simp only [map_cons, mem_cons] at h ⊢
        obtain h | h := h
        · exact .inr (.inl h)
        · exact (ih h).imp id .inr

theorem assign_sorted (k : α) (v : β) {es : List (α × β)}
    (h : (es.map Prod.fst).Pairwise (· < ·)) :
    ((assign k v es).map Prod.fst).Pairwise (· < ·) := by
  induction es with
  | nil => simp [assign]
  | cons e es ih =>
    obtain ⟨hlt, hes⟩ := pairwise_cons.1 h
    simp only [assign]
    split
    · rename_i heq
      subst heq
      exact h
    · rename_i hne
      split
      · rename_i hk
        refine pairwise_cons.2 ⟨?_, h⟩
        intro a ha
        obtain rfl | ha := mem_cons.1 ha
        · exact hk
        · exact lt_trans hk (hlt a ha)
      · rename_i hk
        have hek : e.1 < k := lt_of_le_of_ne (not_lt.1 hk) (Ne.symm hne)
        refine pairwise_cons.2 ⟨?_, ih hes⟩
        intro a ha
        obtain rfl | ha := assign_keys k v es ha
        · exact hek
        · exact hlt a ha

/-- The value under `k` in a list of entries. -/
def lookup (k : α) : List (α × β) → Option β
  | [] => none
  | e :: es => if k = e.1 then some e.2 else lookup k es

theorem lookup_assign (k a : α) (v : β) (es : List (α × β)) :
    lookup a (assign k v es) = if a = k then some v else lookup a es := by
  induction es with
  | nil => simp [assign, lookup]
  | cons e es ih =>
    simp only [assign]
    split
    · rename_i heq
      subst heq
      by_cases ha : a = e.1 <;> simp [lookup, ha]
    · rename_i hne
      split
      · simp only [lookup]
      · by_cases ha : a = e.1
        · have hak : a ≠ k := fun h => hne (h ▸ ha)
          rw [if_neg hak, lookup, lookup, if_pos ha, if_pos ha]
        · simp [lookup, ha, ih]

/-- The order field makes the first entry under a key the only one. -/
theorem mem_iff_lookup {es : List (α × β)} (h : (es.map Prod.fst).Pairwise (· < ·)) {k : α}
    {v : β} : (k, v) ∈ es ↔ lookup k es = some v := by
  induction es with
  | nil => simp [lookup]
  | cons e es ih =>
    obtain ⟨hlt, hes⟩ := pairwise_cons.1 h
    by_cases hk : k = e.1
    · subst hk
      have hnot : (e.1, v) ∉ es := fun hm =>
        lt_irrefl _ (hlt _ (mem_map.2 ⟨_, hm, rfl⟩))
      simp only [lookup, if_true, mem_cons, Option.some.injEq, hnot, or_false]
      exact ⟨fun h => (congrArg Prod.snd h).symm, fun h => h ▸ rfl⟩
    · have hne : (k, v) ≠ e := fun h => hk (congrArg Prod.fst h)
      simp [lookup, hk, hne, ih hes]

/-- A map as its entries in key order. -/
structure OrderedMap (α β : Type) [LinearOrder α] where
  entries : List (α × β)
  sorted : (entries.map Prod.fst).Pairwise (· < ·)

namespace OrderedMap

def empty : OrderedMap α β := ⟨[], List.Pairwise.nil⟩

def find? (m : OrderedMap α β) (k : α) : Option β := lookup k m.entries

/-- `count`. -/
def contains (m : OrderedMap α β) (k : α) : Bool := (m.find? k).isSome

/-- `operator[]` assigned to: an entry that is there is replaced. -/
def insert (m : OrderedMap α β) (k : α) (v : β) : OrderedMap α β :=
  ⟨assign k v m.entries, assign_sorted k v m.sorted⟩

/-- `emplace`: an entry that is there is kept. -/
def emplace (m : OrderedMap α β) (k : α) (v : β) : OrderedMap α β :=
  if m.contains k then m else m.insert k v

def keys (m : OrderedMap α β) : List α := m.entries.map Prod.fst

def values (m : OrderedMap α β) : List β := m.entries.map Prod.snd

/-- The values `bs` emplaced one after the other under their keys. -/
def emplaceAll (key : β → α) (bs : List β) : OrderedMap α β :=
  bs.foldl (fun m b => m.emplace (key b) b) empty

@[simp] theorem find?_empty (k : α) : (empty : OrderedMap α β).find? k = none := rfl

variable (m : OrderedMap α β)

theorem find?_insert (k a : α) (v : β) :
    (m.insert k v).find? a = if a = k then some v else m.find? a :=
  lookup_assign k a v m.entries

@[simp] theorem find?_insert_self (k : α) (v : β) :
    (m.insert k v).find? k = some v := by
  simp [find?_insert]

theorem find?_insert_ne {k a : α} (v : β) (h : a ≠ k) :
    (m.insert k v).find? a = m.find? a := by
  simp [find?_insert, h]

theorem mem_entries {k : α} {v : β} :
    (k, v) ∈ m.entries ↔ m.find? k = some v :=
  mem_iff_lookup m.sorted

theorem mem_keys {k : α} : k ∈ m.keys ↔ (m.find? k).isSome := by
  rw [keys, mem_map, Option.isSome_iff_exists]
  constructor
  · rintro ⟨⟨k, v⟩, hmem, rfl⟩
    exact ⟨v, m.mem_entries.1 hmem⟩
  · rintro ⟨v, hv⟩
    exact ⟨(k, v), m.mem_entries.2 hv, rfl⟩

theorem mem_values {v : β} : v ∈ m.values ↔ ∃ k, m.find? k = some v := by
  rw [values, mem_map]
  constructor
  · rintro ⟨⟨k, v⟩, hmem, rfl⟩
    exact ⟨k, m.mem_entries.1 hmem⟩
  · rintro ⟨k, hk⟩
    exact ⟨(k, v), m.mem_entries.2 hk, rfl⟩

/-- The entries of `m'` assigned one after the other: they win. -/
theorem find?_assignAll (m m' : OrderedMap α β) (a : α) :
    (m'.entries.foldl (fun m e => m.insert e.1 e.2) m).find? a = (m'.find? a <|> m.find? a) := by
  obtain ⟨es, hsorted⟩ := m'
  show _ = (lookup a es <|> m.find? a)
  induction es generalizing m with
  | nil => rfl
  | cons e es ih =>
    obtain ⟨hlt, hes⟩ := pairwise_cons.1 hsorted
    rw [foldl_cons, ih _ hes, find?_insert, lookup]
    by_cases ha : a = e.1
    · subst ha
      -- the keys after `e` are larger, so none of them is assigned again
      have hnone : lookup e.1 es = none := by
        cases hlookup : lookup e.1 es with
        | none => rfl
        | some v =>
          have hmem := (mem_iff_lookup hes).2 hlookup
          exact absurd (hlt e.1 (mem_map.2 ⟨_, hmem, rfl⟩)) (lt_irrefl _)
      simp [hnone]
    · simp [ha]

theorem find?_emplace (k a : α) (v : β) :
    (m.emplace k v).find? a = (m.find? a <|> if a = k then some v else none) := by
  unfold emplace contains
  split
  · rename_i hsome
    obtain ⟨w, hw⟩ := Option.isSome_iff_exists.1 hsome
    by_cases ha : a = k
    · subst ha
      simp [hw]
    · simp [ha]
  · rename_i hnone
    rw [Option.not_isSome_iff_eq_none] at hnone
    by_cases ha : a = k
    · subst ha
      simp [hnone]
    · simp [find?_insert_ne m v ha, ha]

theorem assign_perm {k : α} {v : β} {es : List (α × β)} (h : k ∉ es.map Prod.fst) :
    (assign k v es).Perm ((k, v) :: es) := by
  induction es with
  | nil => exact List.Perm.refl _
  | cons e es ih =>
    rw [map_cons, mem_cons, not_or] at h
    unfold assign
    rw [if_neg h.1]
    split
    · exact List.Perm.refl _
    · exact ((ih h.2).cons e).trans (List.Perm.swap _ _ _)

theorem values_emplace_perm {m : OrderedMap α β} {k : α} {v : β} (h : m.find? k = none) :
    (m.emplace k v).values.Perm (v :: m.values) := by
  have hcontains : ¬ m.contains k = true := by
    rw [contains, h]
    exact Bool.false_ne_true
  have hkeys : k ∉ m.entries.map Prod.fst := by
    intro hmem
    have hsome := m.mem_keys.1 hmem
    rw [h] at hsome
    exact Bool.false_ne_true hsome
  unfold emplace
  rw [if_neg hcontains]
  exact (assign_perm hkeys).map Prod.snd

/-- Of several values under one key the first stays. -/
theorem find?_emplaceAll (key : β → α) (bs : List β) (a : α) :
    (emplaceAll key bs).find? a = bs.find? fun b => key b = a := by
  have hfold : ∀ m : OrderedMap α β,
      (bs.foldl (fun m b => m.emplace (key b) b) m).find? a =
        (m.find? a <|> bs.find? fun b => key b = a) := by
    induction bs with
    | nil => intro m; simp
    | cons b bs ih =>
      intro m
      rw [foldl_cons, ih, find?_emplace]
      by_cases hb : key b = a
      · simp [hb]
      · have hb' : a ≠ key b := Ne.symm hb
        simp [hb, hb']
  rw [emplaceAll, hfold, find?_empty]
  rfl

theorem mem_keys_emplaceAll {key : β → α} {bs : List β} {a : α} :
    a ∈ (emplaceAll key bs).keys ↔ a ∈ bs.map key := by
  rw [mem_keys, find?_emplaceAll, List.find?_isSome, mem_map]
  simp

theorem mem_values_emplaceAll {key : β → α} {bs : List β} {b : β} :
    b ∈ (emplaceAll key bs).values ↔ (bs.find? fun c => key c = key b) = some b := by
  rw [mem_values]
  constructor
  · rintro ⟨k, hk⟩
    rw [find?_emplaceAll] at hk
    obtain rfl : key b = k := by simpa using List.find?_some hk
    exact hk
  · intro hb
    exact ⟨key b, by rw [find?_emplaceAll, hb]⟩

end OrderedMap

end Slash.Lib
