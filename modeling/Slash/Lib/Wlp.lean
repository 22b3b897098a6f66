import Mathlib.Control.Monad.Basic
import Mathlib.Tactic.Common

/-!
# Weakest liberal preconditions for state with exceptions

A builder that may reject its input is a program in `StateT σ (Except ε)`. `Ensures m s Q` says
that if `m` accepts from `s`, its result and final state meet `Q`; nothing is said about inputs
it rejects. The rules below take a program apart along its binds and loops, so a caller uses a
callee's `Ensures` lemma and never its definition.
-/

namespace Slash.Lib

variable {σ ε α β : Type}

/-- If `m` accepts from `s`, its result and final state meet `Q`. -/
def Ensures (m : StateT σ (Except ε) α) (s : σ) (Q : α → σ → Prop) : Prop :=
  ∀ a t, m.run s = .ok (a, t) → Q a t

variable {s : σ}

theorem Ensures.mono {m : StateT σ (Except ε) α} {Q R : α → σ → Prop} (h : Ensures m s Q)
    (hqr : ∀ a t, Q a t → R a t) : Ensures m s R :=
  fun a t hm => hqr a t (h a t hm)

variable {Q : α → σ → Prop}

theorem ensures_pure {a : α} (h : Q a s) :
    Ensures (pure a : StateT σ (Except ε) α) s Q := by
  intro b t hm
  cases hm
  exact h

theorem Ensures.bind {m : StateT σ (Except ε) α} {f : α → StateT σ (Except ε) β}
    {R : β → σ → Prop} (h : Ensures m s fun a t => Ensures (f a) t R) :
    Ensures (m >>= f) s R := by
  intro b u hb
  rw [StateT.run_bind] at hb
  cases hm : m.run s with
  | error e => rw [hm] at hb; cases hb
  | ok p => rw [hm] at hb; exact h p.1 p.2 hm b u hb

theorem ensures_throw {e : ε} :
    Ensures (throw e : StateT σ (Except ε) α) s Q := by
  intro a t hm
  cases hm

theorem ensures_get {Q : σ → σ → Prop} (h : Q s s) :
    Ensures (get : StateT σ (Except ε) σ) s Q := by
  intro a t hm
  cases hm
  exact h

theorem ensures_set {s t : σ} {Q : PUnit → σ → Prop} (h : Q ⟨⟩ t) :
    Ensures (set t : StateT σ (Except ε) PUnit) s Q := by
  intro a u hm
  cases hm
  exact h

theorem ensures_modify {f : σ → σ} {Q : PUnit → σ → Prop} (h : Q ⟨⟩ (f s)) :
    Ensures (modify f : StateT σ (Except ε) PUnit) s Q := by
  intro a u hm
  cases hm
  exact h

theorem ensures_lift {x : Except ε α} (h : ∀ a, x = .ok a → Q a s) :
    Ensures (liftM x : StateT σ (Except ε) α) s Q := by
  intro a t hm
  cases x with
  | error e => cases hm
  | ok v => cases hm; exact h _ rfl

theorem ensures_ite {p : Prop} [Decidable p] {m n : StateT σ (Except ε) α}
    (hm : p → Ensures m s Q) (hn : ¬ p → Ensures n s Q) :
    Ensures (if p then m else n) s Q := by
  split
  · exact hm ‹_›
  · exact hn ‹_›

/-! ## Computations without a state -/

theorem bind_ok {ε α β : Type} {x : Except ε α} {f : α → Except ε β} {b : β}
    (h : x >>= f = .ok b) : ∃ a, x = .ok a ∧ f a = .ok b := by
  cases x with
  | error e => cases h
  | ok a => exact ⟨a, rfl, h⟩

end Slash.Lib
