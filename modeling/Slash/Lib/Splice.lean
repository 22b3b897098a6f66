import Mathlib.Algebra.Group.Nat.Defs
import Mathlib.Data.List.Basic

/-!
# Blocks in a flat store

`splice m a xs` is the store `m` with the block `xs` written from address `a` on. A block written
in pieces, one after the other, is the block written at once; what lies inside a block is the
block, what lies outside is as before.
-/

namespace Slash.Lib

variable {α : Type}

def splice (m : Nat → α) (a : Nat) (xs : List α) : Nat → α :=
  fun i => if a ≤ i then (xs[i - a]?).getD (m i) else m i

variable (m : Nat → α)

@[simp] theorem splice_nil (a : Nat) : splice m a [] = m := by
  funext i
  simp [splice]

theorem splice_below {a i : Nat} (xs : List α) (h : i < a) :
    splice m a xs i = m i := by
  rw [splice, if_neg (by omega)]

theorem splice_above {a i : Nat} {xs : List α} (h : a + xs.length ≤ i) :
    splice m a xs i = m i := by
  rw [splice, if_pos (by omega), List.getElem?_eq_none (by omega), Option.getD_none]

theorem splice_outside {a i : Nat} {xs : List α} (h : i < a ∨ a + xs.length ≤ i) :
    splice m a xs i = m i :=
  h.elim (splice_below m xs) (splice_above m)

theorem splice_inside (a : Nat) {xs : List α} {k : Nat} (h : k < xs.length) :
    splice m a xs (a + k) = xs[k] := by
  rw [splice, if_pos (by omega), show a + k - a = k by omega, List.getElem?_eq_getElem h,
    Option.getD_some]

theorem splice_append (a : Nat) (xs ys : List α) :
    splice (splice m a xs) (a + xs.length) ys = splice m a (xs ++ ys) := by
  funext i
  rcases Nat.lt_or_ge i (a + xs.length) with hlt | hge
  · rw [splice_below _ ys hlt]
    unfold splice
    split
    · rw [List.getElem?_append_left (by omega)]
    · rfl
  · have hindex : i - a - xs.length = i - (a + xs.length) := by omega
    have hright : (xs ++ ys)[i - a]? = ys[i - (a + xs.length)]? := by
      rw [List.getElem?_append_right (by omega), hindex]
    have hold : splice m a xs i = m i := splice_above m hge
    rw [splice, if_pos hge, hold, splice, if_pos (show a ≤ i by omega), hright]

/-- A block written over cells that differ hides the difference. -/
theorem splice_congr {m m' : Nat → α} {a : Nat} {xs : List α}
    (h : ∀ i, i < a ∨ a + xs.length ≤ i → m i = m' i) : splice m a xs = splice m' a xs := by
  funext i
  rcases Nat.lt_or_ge i a with hlt | hge
  · rw [splice_below m xs hlt, splice_below m' xs hlt, h i (.inl hlt)]
  · rcases Nat.lt_or_ge i (a + xs.length) with hin | hout
    · obtain ⟨k, rfl⟩ := Nat.exists_eq_add_of_le hge
      have hk : k < xs.length := by omega
      rw [splice_inside m a hk, splice_inside m' a hk]
    · rw [splice_above m hout, splice_above m' hout, h i (.inr hout)]

end Slash.Lib
