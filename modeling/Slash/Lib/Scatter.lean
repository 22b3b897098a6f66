import Mathlib.Data.List.Basic

/-!
# Buffers of pairs, patched in place

A buffer of interleaved pairs, and a list of stores to single cells of a buffer. Stores that all
agree with a wanted buffer, and reach every cell that differs from it, produce it; in which order
they come, and whether two of them hit the same cell, does not matter.
-/

namespace Slash.Lib

open List

variable {α : Type}

/-- The two halves of each pair, one after the other. -/
def interleave (ps : List (α × α)) : List α := ps.flatMap fun p => [p.1, p.2]

@[simp] theorem interleave_nil : interleave ([] : List (α × α)) = [] := rfl

@[simp] theorem interleave_cons (p : α × α) (ps : List (α × α)) :
    interleave (p :: ps) = p.1 :: p.2 :: interleave ps := rfl

theorem interleave_append (ps qs : List (α × α)) :
    interleave (ps ++ qs) = interleave ps ++ interleave qs :=
  flatMap_append

theorem length_interleave (ps : List (α × α)) : (interleave ps).length = 2 * ps.length := by
  induction ps with
  | nil => rfl
  | cons p ps ih =>
    rw [interleave_cons, length_cons, length_cons, ih, length_cons]
    omega

theorem interleave_even (ps : List (α × α)) (k : Nat) :
    (interleave ps)[2 * k]? = ps[k]?.map Prod.fst := by
  induction ps generalizing k with
  | nil => simp
  | cons p ps ih =>
    cases k with
    | zero => simp
    | succ k =>
      have := ih k
      simp only [Nat.mul_succ, interleave_cons, List.getElem?_cons_succ]
      exact this

theorem interleave_odd (ps : List (α × α)) (k : Nat) :
    (interleave ps)[2 * k + 1]? = ps[k]?.map Prod.snd := by
  induction ps generalizing k with
  | nil => simp
  | cons p ps ih =>
    cases k with
    | zero => simp
    | succ k =>
      have := ih k
      have hk : 2 * (k + 1) + 1 = 2 * k + 1 + 1 + 1 := by omega
      rw [hk, interleave_cons, List.getElem?_cons_succ, List.getElem?_cons_succ,
        List.getElem?_cons_succ]
      exact this

/-! ## Stores -/

/-- Store each value to its cell, in order. -/
def scatter (buf : List α) (ws : List (Nat × α)) : List α :=
  ws.foldl (fun b w => b.set w.1 w.2) buf

@[simp] theorem scatter_nil (buf : List α) : scatter buf [] = buf := rfl

theorem scatter_append (buf : List α) (ws vs : List (Nat × α)) :
    scatter buf (ws ++ vs) = scatter (scatter buf ws) vs :=
  foldl_append

@[simp] theorem length_scatter (buf : List α) (ws : List (Nat × α)) :
    (scatter buf ws).length = buf.length := by
  induction ws generalizing buf with
  | nil => rfl
  | cons w ws ih => exact (ih (buf.set w.1 w.2)).trans length_set

theorem scatter_apply_of_not_mem {buf : List α} {ws : List (Nat × α)} {p : Nat}
    (h : ∀ w ∈ ws, w.1 ≠ p) : (scatter buf ws)[p]? = buf[p]? := by
  induction ws generalizing buf with
  | nil => rfl
  | cons w ws ih =>
    have hw : w.1 ≠ p := h w mem_cons_self
    refine (ih fun v hv => h v (mem_cons_of_mem _ hv)).trans ?_
    exact List.getElem?_set_ne hw

/-- Stores that agree with `target` and reach every cell that differs from it. -/
theorem scatter_eq {target : List α} : ∀ {ws : List (Nat × α)} {buf : List α},
    (∀ w ∈ ws, target[w.1]? = some w.2) → buf.length = target.length →
    (∀ p, buf[p]? = target[p]? ∨ ∃ v, (p, v) ∈ ws) → scatter buf ws = target
  | [], buf, _, _, hcover => by
    refine ext_getElem? fun p => ?_
    rcases hcover p with h | ⟨v, hv⟩
    · exact h
    · cases hv
  | w :: ws, buf, hagree, hlen, hcover => by
    have hw : target[w.1]? = some w.2 := hagree w mem_cons_self
    have hlt : w.1 < buf.length := by
      rw [hlen]
      exact (List.getElem?_eq_some_iff.mp hw).1
    have hcover' (p : Nat) : (buf.set w.1 w.2)[p]? = target[p]? ∨ ∃ v, (p, v) ∈ ws := by
      by_cases hp : w.1 = p
      · left
        rw [← hp, List.getElem?_set_self hlt, hw]
      · rw [List.getElem?_set_ne hp]
        rcases hcover p with h | ⟨v, hv⟩
        · exact .inl h
        · rcases mem_cons.mp hv with h | h
          · exact absurd (congrArg Prod.fst h).symm hp
          · exact .inr ⟨v, h⟩
    show scatter (buf.set w.1 w.2) ws = target
    exact scatter_eq (fun v hv => hagree v (mem_cons_of_mem _ hv))
      (length_set.trans hlen) hcover'

/-- A loop that looks a value up for each item and stores what it says: if every lookup succeeds,
it is one list of stores. -/
theorem foldlM_scatter {ε δ β : Type} [Inhabited β] {get : δ → Except ε β}
    {stores : δ → β → List (Nat × α)} : ∀ {ds : List δ} {buf buf' : List α},
    ds.foldlM (fun buf d => do
      let v ← get d
      pure (scatter buf (stores d v))) buf = .ok buf' →
    ∃ v : δ → β, (∀ d ∈ ds, get d = .ok (v d)) ∧
      buf' = scatter buf (ds.flatMap fun d => stores d (v d)) := by
  intro ds buf buf' h
  have hget {d : δ} {w : β} (hw : get d = .ok w) : get d = .ok ((get d).toOption.getD default) := by
    rw [hw]
    rfl
  refine ⟨fun d => (get d).toOption.getD default, ?_⟩
  induction ds generalizing buf with
  | nil =>
    cases h
    exact ⟨by simp, rfl⟩
  | cons d ds ih =>
    rw [foldlM_cons] at h
    cases hd : get d with
    | error e =>
      rw [hd] at h
      cases h
    | ok w =>
      rw [hd] at h
      obtain ⟨hfound, hbuf⟩ := ih h
      refine ⟨fun e he => ?_, ?_⟩
      · rcases mem_cons.mp he with rfl | he
        · exact hget hd
        · exact hfound e he
      · rw [hbuf, flatMap_cons, scatter_append]
        simp only [hd]
        rfl

end Slash.Lib
