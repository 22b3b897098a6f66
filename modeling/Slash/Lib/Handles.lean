import Mathlib.Data.List.MinMax
import Mathlib.Order.Nat

/-!
# Tables of numbered handles

A kernel hands out small numbers and takes them back; a number that is free may be given to
anything next. `Handles δ` is such a table: which numbers are in use and what each stands for.
Whoever hands out a number may choose any that is free: `unused` takes the wish if it can.
-/

namespace Slash.Lib

/-- The wish if it is not in use, else a number above all in use. -/
def unused (used : List Nat) (wish : Nat) : Nat :=
  if wish ∈ used then used.foldr max 0 + 1 else wish

theorem unused_notMem (used : List Nat) (wish : Nat) : unused used wish ∉ used := by
  unfold unused
  split
  · intro h
    exact absurd (List.le_max_of_le h le_rfl) (Nat.not_succ_le_self _)
  · assumption

abbrev Handles (δ : Type) := List (Nat × δ)

namespace Handles

variable {δ : Type} (t : Handles δ)

def get? (n : Nat) : Option δ := (t.find? fun e => e.1 = n).map Prod.snd

def numbers : List Nat := t.map Prod.fst

def erase (n : Nat) : Handles δ := t.filter fun e => e.1 ≠ n

def eraseAll (ns : List Nat) : Handles δ := ns.foldl erase t

def set (n : Nat) (v : δ) : Handles δ := (n, v) :: t.erase n

@[simp] theorem get?_nil (n : Nat) : get? ([] : Handles δ) n = none := rfl

theorem get?_erase (n m : Nat) : (t.erase n).get? m = if m = n then none else t.get? m := by
  unfold get? erase
  rw [List.find?_filter]
  split
  · rename_i h
    rw [List.find?_eq_none.mpr]
    · rfl
    · rintro e - he
      simp only [ne_eq, decide_not, Bool.not_eq_eq_eq_not, Bool.not_true,
        decide_eq_false_iff_not, decide_eq_true_eq] at he
      exact he.1 (he.2.trans h)
  · rename_i h
    congr 2
    funext e
    by_cases hm : e.1 = m
    · simp [hm, h]
    · simp [hm]

theorem get?_set (n m : Nat) (v : δ) :
    (t.set n v).get? m = if m = n then some v else t.get? m := by
  unfold set
  by_cases h : m = n
  · simp [get?, h]
  · have hne : ¬ n = m := fun he => h he.symm
    have hhead : get? ((n, v) :: t.erase n) m = (t.erase n).get? m := by
      simp [get?, hne]
    rw [hhead, get?_erase, if_neg h, if_neg h]

theorem get?_eraseAll (ns : List Nat) (m : Nat) :
    (t.eraseAll ns).get? m = if m ∈ ns then none else t.get? m := by
  unfold eraseAll
  induction ns generalizing t with
  | nil => simp
  | cons n ns ih =>
    rw [List.foldl_cons, ih, get?_erase]
    by_cases hmem : m ∈ ns
    · simp [hmem]
    · by_cases hmn : m = n
      · simp [hmn]
      · simp [hmem, hmn]

theorem get?_unused (wish : Nat) : t.get? (unused t.numbers wish) = none := by
  have h := unused_notMem t.numbers wish
  rw [get?, List.find?_eq_none.mpr]
  · rfl
  · rintro e he heq
    simp only [decide_eq_true_eq] at heq
    exact h (List.mem_map.mpr ⟨e, he, heq⟩)

/-! ## What a change of the table leaves alone -/

/-- Every handle whose meaning satisfies `P` still means the same. -/
def Keeps (P : δ → Prop) (t t' : Handles δ) : Prop :=
  ∀ n d, t.get? n = some d → P d → t'.get? n = some d

variable {t} {t' t'' : Handles δ} {P Q : δ → Prop}

theorem Keeps.refl (P : δ → Prop) (t : Handles δ) : t.Keeps P t := fun _ _ h _ => h

theorem Keeps.trans (h : t.Keeps P t') (h' : t'.Keeps P t'') : t.Keeps P t'' :=
  fun n d hn hp => h' n d (h n d hn hp) hp

theorem Keeps.mono (h : t.Keeps P t') (hPQ : ∀ d, Q d → P d) : t.Keeps Q t' :=
  fun n d hn hq => h n d hn (hPQ d hq)

theorem keeps_set_unused (P : δ → Prop) (t : Handles δ) (wish : Nat) (v : δ) :
    t.Keeps P (t.set (unused t.numbers wish) v) := by
  intro n d hn _
  rw [get?_set, if_neg, hn]
  rintro rfl
  rw [get?_unused] at hn
  cases hn

theorem keeps_set {n : Nat} (v : δ) (h : ∀ d, t.get? n = some d → ¬ P d) :
    t.Keeps P (t.set n v) := by
  intro m d hm hp
  rw [get?_set, if_neg, hm]
  rintro rfl
  exact h d hm hp

theorem keeps_eraseAll {ns : List Nat} (h : ∀ n ∈ ns, ∀ d, t.get? n = some d → ¬ P d) :
    t.Keeps P (t.eraseAll ns) := by
  intro m d hm hp
  rw [get?_eraseAll, if_neg, hm]
  exact fun hmem => h m hmem d hm hp

theorem get?_of_eraseAll {ns : List Nat} {n : Nat} {d : δ}
    (h : (t.eraseAll ns).get? n = some d) : t.get? n = some d ∧ n ∉ ns := by
  rw [get?_eraseAll] at h
  split at h
  · cases h
  · exact ⟨h, by assumption⟩

end Handles
end Slash.Lib
