import Mathlib.Control.Monad.Basic
import Mathlib.Tactic.Common

/-!
# Programs that may fail half way

A program in `EStateM ε σ` keeps what it did to the state when it throws. The rules here take
such a program apart along its binds, for both endings: how a bind ends well, how it fails, what
every ending keeps of the state, and which errors can come out.
-/

namespace Slash.Lib

variable {ε σ α β : Type}

theorem run_bind_ok {m : EStateM ε σ α} {f : α → EStateM ε σ β} {s s' : σ} {b : β}
    (h : (m >>= f) s = .ok b s') : ∃ a t, m s = .ok a t ∧ f a t = .ok b s' := by
  change EStateM.bind m f s = _ at h
  unfold EStateM.bind at h
  cases hm : m s with
  | ok a t => rw [hm] at h; exact ⟨a, t, rfl, h⟩
  | error e t => rw [hm] at h; cases h

theorem run_bind_error {m : EStateM ε σ α} {f : α → EStateM ε σ β} {s s' : σ} {e : ε}
    (h : (m >>= f) s = .error e s') :
    m s = .error e s' ∨ ∃ a t, m s = .ok a t ∧ f a t = .error e s' := by
  change EStateM.bind m f s = _ at h
  unfold EStateM.bind at h
  cases hm : m s with
  | ok a t => rw [hm] at h; exact .inr ⟨a, t, rfl, h⟩
  | error e' t => rw [hm] at h; cases h; exact .inl rfl

theorem run_bind_of_ok {m : EStateM ε σ α} {f : α → EStateM ε σ β} {s t : σ} {a : α}
    (h : m s = .ok a t) : (m >>= f) s = f a t := by
  change EStateM.bind m f s = _
  rw [EStateM.bind, h]

theorem run_bind_of_error {m : EStateM ε σ α} {f : α → EStateM ε σ β} {s t : σ} {e : ε}
    (h : m s = .error e t) : (m >>= f) s = .error e t := by
  change EStateM.bind m f s = _
  rw [EStateM.bind, h]

theorem run_get_bind {f : σ → EStateM ε σ β} {s : σ} : (get >>= f) s = f s s := rfl

theorem run_modify_bind {g : σ → σ} {f : PUnit → EStateM ε σ β} {s : σ} :
    (modify g >>= f) s = f ⟨⟩ (g s) := rfl

/-! ## What every ending keeps -/

/-- However `m` ends, the final state is related to the first by `R`. -/
def Moves (m : EStateM ε σ α) (R : σ → σ → Prop) : Prop :=
  ∀ s, (∀ a s', m s = .ok a s' → R s s') ∧ (∀ e s', m s = .error e s' → R s s')

/-- Every error of `m` is one of `E`. -/
def Throws (m : EStateM ε σ α) (E : ε → Prop) : Prop :=
  ∀ s e s', m s = .error e s' → E e

section Rules

variable {R : σ → σ → Prop} {E : ε → Prop} {m : EStateM ε σ α} {f : α → EStateM ε σ β}

theorem Moves.bind (htrans : ∀ {s t u}, R s t → R t u → R s u) (hm : Moves m R)
    (hf : ∀ a, Moves (f a) R) : Moves (m >>= f) R := by
  intro s
  refine ⟨fun b s' h => ?_, fun e s' h => ?_⟩
  · obtain ⟨a, t, hfirst, hsecond⟩ := run_bind_ok h
    exact htrans ((hm s).1 a t hfirst) ((hf a t).1 b s' hsecond)
  · rcases run_bind_error h with hfirst | ⟨a, t, hfirst, hsecond⟩
    · exact (hm s).2 e s' hfirst
    · exact htrans ((hm s).1 a t hfirst) ((hf a t).2 e s' hsecond)

theorem Moves.pure (hrefl : ∀ s, R s s) (a : α) : Moves (pure a : EStateM ε σ α) R := by
  intro s
  refine ⟨fun b s' h => ?_, fun e s' h => ?_⟩
  · cases h
    exact hrefl s
  · cases h

theorem Moves.throw (hrefl : ∀ s, R s s) (e : ε) : Moves (throw e : EStateM ε σ α) R := by
  intro s
  refine ⟨fun b s' h => ?_, fun e' s' h => ?_⟩
  · cases h
  · cases h
    exact hrefl s

theorem Moves.modify {g : σ → σ} (hg : ∀ s, R s (g s)) :
    Moves (modify g : EStateM ε σ PUnit) R := by
  intro s
  refine ⟨fun b s' h => ?_, fun e s' h => ?_⟩
  · cases h
    exact hg s
  · cases h

theorem Moves.ite {p : Prop} [Decidable p] {n : EStateM ε σ α} (hm : p → Moves m R)
    (hn : ¬ p → Moves n R) : Moves (if p then m else n) R := by
  split
  · exact hm ‹_›
  · exact hn ‹_›

theorem Throws.bind (hm : Throws m E) (hf : ∀ a, Throws (f a) E) : Throws (m >>= f) E := by
  intro s e s' h
  rcases run_bind_error h with hfirst | ⟨a, t, -, hsecond⟩
  · exact hm s e s' hfirst
  · exact hf a t e s' hsecond

theorem Throws.pure (a : α) : Throws (pure a : EStateM ε σ α) E := by
  intro s e s' h
  cases h

theorem Throws.throw {e : ε} (he : E e) : Throws (throw e : EStateM ε σ α) E := by
  intro s e' s' h
  cases h
  exact he

theorem Throws.get : Throws (get : EStateM ε σ σ) E := by
  intro s e s' h
  cases h

theorem Throws.modify {g : σ → σ} : Throws (modify g : EStateM ε σ PUnit) E := by
  intro s e s' h
  cases h

theorem Throws.ite {p : Prop} [Decidable p] {n : EStateM ε σ α} (hm : p → Throws m E)
    (hn : ¬ p → Throws n E) : Throws (if p then m else n) E := by
  split
  · exact hm ‹_›
  · exact hn ‹_›

theorem Throws.forM {γ : Type} {g : γ → EStateM ε σ PUnit} :
    ∀ (l : List γ), (∀ x ∈ l, Throws (g x) E) → Throws (l.forM g) E
  | [], _ => Throws.pure _
  | x :: l, h => Throws.bind (h x List.mem_cons_self) fun _ =>
      Throws.forM l fun y hy => h y (List.mem_cons_of_mem _ hy)

end Rules

end Slash.Lib
