import Mathlib.Data.List.Perm.Basic
import Slash.Lib.Update

/-!
# Stores of lists

A table of buckets is a store of lists. What the buckets hold all together is a list up to order:
a push adds an element to it and a removal takes one away.
-/

namespace Slash.Lib

variable {α : Type}

def contents (f : Nat → List α) (n : Nat) : List α := (List.range n).flatMap f

theorem mem_contents {f : Nat → List α} {n : Nat} {a : α} :
    a ∈ contents f n ↔ ∃ i < n, a ∈ f i := by
  simp [contents]

variable (f : Nat → List α)

theorem contents_upd_cons_perm {i n : Nat} (h : i < n) (a : α) (l : List α) :
    (contents (upd f i (a :: l)) n).Perm (a :: contents (upd f i l) n) := by
  have hbelow : ∀ m ≤ i, ∀ l', (List.range m).flatMap (upd f i l') = (List.range m).flatMap f := by
    intro m hm l'
    refine List.flatMap_congr fun j hj => upd_ne f l' ?_
    have := List.mem_range.mp hj
    omega
  unfold contents
  induction n with
  | zero => omega
  | succ n ih =>
    simp only [List.range_succ, List.flatMap_append, List.flatMap_cons, List.flatMap_nil,
      List.append_nil]
    rcases Nat.lt_or_ge i n with hlt | hge
    · rw [upd_ne f _ (by omega : n ≠ i), upd_ne f _ (by omega : n ≠ i)]
      exact (ih hlt).append_right _
    · have heq : n = i := by omega
      subst heq
      rw [hbelow n (Nat.le_refl n), hbelow n (Nat.le_refl n), upd_same, upd_same]
      exact List.perm_middle

theorem contents_upd_perm {i n : Nat} {l l' : List α} (hp : l.Perm l') :
    (contents (upd f i l) n).Perm (contents (upd f i l') n) := by
  refine List.Perm.flatMap_left _ fun j _ => ?_
  by_cases hj : j = i
  · rw [hj, upd_same, upd_same]
    exact hp
  · rw [upd_ne f _ hj, upd_ne f _ hj]

@[simp] theorem upd_self (i : Nat) : upd f i (f i) = f := by
  funext j
  by_cases h : j = i <;> simp [upd, h]

theorem contents_push_perm {i n : Nat} (h : i < n) (a : α) :
    (contents (upd f i (f i ++ [a])) n).Perm (a :: contents f n) := by
  have hp : (f i ++ [a]).Perm (a :: f i) := List.perm_append_singleton a (f i)
  refine (contents_upd_perm f hp).trans ((contents_upd_cons_perm f h a (f i)).trans ?_)
  rw [upd_self]

theorem contents_pop_perm {i n : Nat} (h : i < n) {a : α} {l : List α} (hp : (f i).Perm (a :: l)) :
    (contents f n).Perm (a :: contents (upd f i l) n) := by
  refine List.Perm.trans ?_ (contents_upd_cons_perm f h a l)
  refine List.Perm.trans ?_ (contents_upd_perm f hp)
  rw [upd_self]

end Slash.Lib
