import Mathlib.Data.List.Basic

/-!
# Flat stores

A store indexed by a number is a function `Nat → α`; `upd` writes one cell and `fill` writes
one value to a list of cells. Both come with the two lemmas a proof about a store needs: what
a written cell holds, and that every other cell is unchanged.
-/

namespace Slash.Lib

variable {α : Type}

def upd (f : Nat → α) (i : Nat) (v : α) : Nat → α :=
  fun j => if j = i then v else f j

theorem upd_apply (f : Nat → α) (i j : Nat) (v : α) :
    upd f i v j = if j = i then v else f j := rfl

@[simp] theorem upd_same (f : Nat → α) (i : Nat) (v : α) : upd f i v i = v := by
  simp [upd]

theorem upd_ne (f : Nat → α) {i j : Nat} (v : α) (h : j ≠ i) : upd f i v j = f j := by
  simp [upd, h]

def fill (f : Nat → α) (cells : List Nat) (v : α) : Nat → α :=
  cells.foldl (fun g i => upd g i v) f

theorem fill_apply (v : α) (j : Nat) : ∀ (f : Nat → α) (cells : List Nat),
    fill f cells v j = if j ∈ cells then v else f j
  | f, [] => by simp [fill]
  | f, c :: cells => by
    have ih := fill_apply v j (upd f c v) cells
    simp only [fill, List.foldl_cons, List.mem_cons] at ih ⊢
    rw [ih]
    by_cases hm : j ∈ cells
    · simp [hm]
    · by_cases hc : j = c <;> simp [hm, hc, upd]

theorem fill_mem (f : Nat → α) {cells : List Nat} {j : Nat} (v : α) (h : j ∈ cells) :
    fill f cells v j = v := by
  rw [fill_apply, if_pos h]

theorem fill_not_mem (f : Nat → α) {cells : List Nat} {j : Nat} (v : α) (h : j ∉ cells) :
    fill f cells v j = f j := by
  rw [fill_apply, if_neg h]

end Slash.Lib
