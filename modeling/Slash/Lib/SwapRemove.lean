import Mathlib.Data.List.Perm.Basic

/-!
# Removal by swapping with the last element

The unordered table idiom `count--; if (i < count) t[i] = t[count];`. As a multiset it is the
removal of the `i`-th element, which is all a table without an order needs.
-/

namespace Slash.Lib

open List

variable {α : Type}

/-- Remove index `i`, moving the last element into its place. -/
def swapRemove (l : List α) (i : Nat) : List α :=
  match l.getLast? with
  | none => []
  | some last => (l.set i last).dropLast

theorem swapRemove_concat (l : List α) (a : α) (i : Nat) :
    swapRemove (l ++ [a]) i = if i < l.length then l.set i a else l := by
  have hlast : (l ++ [a]).getLast? = some a := by simp
  simp only [swapRemove, hlast]
  split
  · rename_i hi
    rw [set_append_left _ _ hi, dropLast_concat]
  · rename_i hi
    rw [set_append_right _ _ (by omega)]
    cases hd : i - l.length <;> simp

theorem swapRemove_perm {l : List α} {i : Nat} (hi : i < l.length) :
    (swapRemove l i).Perm (l.eraseIdx i) := by
  rcases eq_nil_or_concat l with rfl | ⟨init, a, rfl⟩
  · simp at hi
  · rw [concat_eq_append] at hi ⊢
    rw [swapRemove_concat]
    split
    · rename_i hlt
      rw [eraseIdx_append_of_lt_length hlt]
      exact (set_perm_cons_eraseIdx hlt a).trans (perm_append_singleton a _).symm
    · rename_i hge
      have hend : i = init.length := by
        simp at hi
        omega
      subst hend
      simp [eraseIdx_append_of_length_le]

theorem perm_cons_swapRemove {l : List α} {i : Nat} {a : α} (h : l[i]? = some a) :
    l.Perm (a :: swapRemove l i) := by
  obtain ⟨hi, rfl⟩ := List.getElem?_eq_some_iff.mp h
  exact (getElem_cons_eraseIdx_perm hi).symm.trans ((swapRemove_perm hi).symm.cons _)

theorem mem_of_mem_swapRemove {l : List α} {i : Nat} {a : α} (h : a ∈ swapRemove l i) :
    a ∈ l := by
  by_cases hi : i < l.length
  · exact mem_of_mem_eraseIdx ((swapRemove_perm hi).mem_iff.mp h)
  · rcases eq_nil_or_concat l with rfl | ⟨init, b, rfl⟩
    · simp [swapRemove] at h
    · rw [concat_eq_append] at hi h ⊢
      rw [swapRemove_concat, if_neg (by simp at hi; omega)] at h
      exact mem_append_left _ h

end Slash.Lib
