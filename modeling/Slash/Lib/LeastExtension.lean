import Mathlib.Order.Preorder.Finite
import Mathlib.Data.Set.Finite.List

/-!
# Least linear extensions

A relation `dep p x` on a finite list of nodes says that `p` comes before `x`. Taking the least
ready node again and again lists exactly the nodes that no cycle holds back, and among all the
lists of these nodes that put every node after its predecessors it is the first one in
lexicographic order. Being the first, it is determined by the relation alone.
-/

namespace Slash.Lib

open List

variable {α : Type} {dep : α → α → Prop} {nodes : List α}

/-- A node that lies on a cycle. -/
def OnCycle (dep : α → α → Prop) (x : α) : Prop := Relation.TransGen dep x x

/-- A node that lies on a cycle or depends on one. -/
def Blocked (dep : α → α → Prop) (x : α) : Prop :=
  ∃ c, OnCycle dep c ∧ Relation.ReflTransGen dep c x

/-- Every node of the list comes after its predecessors, those of `done` taken as listed. -/
def Follows (dep : α → α → Prop) (done l : List α) : Prop :=
  ∀ before x after, l = before ++ x :: after → ∀ p, dep p x → p ∈ done ++ before

theorem Follows.nil (done : List α) : Follows dep done [] := by
  intro before x after heq
  cases before <;> cases heq

theorem follows_cons {done l : List α} {x : α} :
    Follows dep done (x :: l) ↔ (∀ p, dep p x → p ∈ done) ∧ Follows dep (done ++ [x]) l := by
  constructor
  · intro h
    refine ⟨fun p hp => ?_, fun before y after heq p hp => ?_⟩
    · have hmem := h [] x l rfl p hp
      rwa [append_nil] at hmem
    · have hmem := h (x :: before) y after (by rw [heq, cons_append]) p hp
      rwa [← append_cons]
  · rintro ⟨hx, hl⟩ before y after heq p hp
    cases before with
    | nil =>
      obtain ⟨rfl, rfl⟩ := List.cons.inj heq
      rw [append_nil]
      exact hx p hp
    | cons z before =>
      obtain ⟨rfl, rfl⟩ := List.cons.inj heq
      have hmem := hl before y after rfl p hp
      rwa [← append_cons] at hmem

/-- A list of the nodes in `S`, each after its predecessors. -/
structure LinearExtension (dep : α → α → Prop) (S : α → Prop) (l : List α) : Prop where
  nodup : l.Nodup
  mem : ∀ x, x ∈ l ↔ S x
  follows : Follows dep [] l

/-- The first linear extension in lexicographic order. -/
structure LeastExtension [LinearOrder α] (dep : α → α → Prop) (S : α → Prop) (l : List α) : Prop
    extends LinearExtension dep S l where
  least : ∀ l', LinearExtension dep S l' → l ≤ l'

/-- The least extension is determined by the relation and the nodes. -/
theorem LeastExtension.unique [LinearOrder α] {S : α → Prop} {l l' : List α}
    (h : LeastExtension dep S l) (h' : LeastExtension dep S l') : l = l' :=
  le_antisymm (h.least l' h'.toLinearExtension) (h'.least l h.toLinearExtension)

/-! ## Ready nodes -/

def Ready (dep : α → α → Prop) (nodes done : List α) (x : α) : Prop :=
  x ∈ nodes ∧ x ∉ done ∧ ∀ p, dep p x → p ∈ done

/-- The list that takes the least ready node until none is ready. -/
inductive Greedy [LinearOrder α] (dep : α → α → Prop) (nodes : List α) : List α → List α → Prop
  | stop {done : List α} (none : ∀ x, ¬ Ready dep nodes done x) : Greedy dep nodes done []
  | take {done l : List α} {x : α} (ready : Ready dep nodes done x)
      (least : ∀ y, Ready dep nodes done y → x ≤ y)
      (rest : Greedy dep nodes (done ++ [x]) l) : Greedy dep nodes done (x :: l)

section Greedy

variable [LinearOrder α] {done g : List α}

variable (h : Greedy dep nodes done g)
include h

theorem Greedy.nodup (hdone : done.Nodup) : (done ++ g).Nodup := by
  induction h with
  | stop _ => rwa [append_nil]
  | take ready _ _ ih =>
    rw [append_cons]
    refine ih (nodup_append'.2 ⟨hdone, nodup_singleton _, ?_⟩)
    intro y hy hyx
    rw [mem_singleton.1 hyx] at hy
    exact ready.2.1 hy

theorem Greedy.subset : g ⊆ nodes := by
  induction h with
  | stop _ => exact nil_subset _
  | take ready _ _ ih => exact cons_subset.2 ⟨ready.1, ih⟩

theorem Greedy.follows : Follows dep done g := by
  induction h with
  | stop _ => exact Follows.nil _
  | take ready _ _ ih => exact follows_cons.2 ⟨ready.2.2, ih⟩

theorem Greedy.stuck (x : α) : ¬ Ready dep nodes (done ++ g) x := by
  induction h with
  | stop none => rw [append_nil]; exact none x
  | take _ _ _ ih => rw [append_cons]; exact ih

/-- No list of ready nodes that is as long comes earlier: where the two first differ, the greedy
list took the least node that was ready and the other list took a ready one. -/
theorem Greedy.le {l : List α} (hl : Follows dep done l) (hnodup : (done ++ l).Nodup)
    (hmem : l ⊆ nodes) (hlen : g.length = l.length) : g ≤ l := by
  induction h generalizing l with
  | stop _ =>
    rw [eq_nil_of_length_eq_zero hlen.symm]
  | @take done g x ready least rest ih =>
    cases l with
    | nil => exact absurd hlen (Nat.succ_ne_zero _)
    | cons y l =>
      obtain ⟨hy, hl⟩ := follows_cons.1 hl
      have hfresh : y ∉ done := fun hdone =>
        disjoint_of_nodup_append hnodup hdone mem_cons_self
      have hle : x ≤ y := least y ⟨hmem mem_cons_self, hfresh, hy⟩
      obtain hlt | rfl := lt_or_eq_of_le hle
      · exact le_of_lt (List.Lex.rel hlt)
      · rw [append_cons] at hnodup
        have htail := ih hl hnodup (fun z hz => hmem (mem_cons_of_mem _ hz))
          (Nat.succ.inj hlen)
        exact cons_le_cons x htail

end Greedy

/-! ## What a cycle holds back -/

/-- Along a list in which every node follows its predecessors the positions increase. -/
theorem Follows.idxOf_lt [DecidableEq α] {l : List α} (h : Follows dep [] l) (hnodup : l.Nodup)
    {p x : α} (hx : x ∈ l) (hdep : dep p x) : p ∈ l ∧ l.idxOf p < l.idxOf x := by
  obtain ⟨before, after, rfl⟩ := append_of_mem hx
  have hp : p ∈ before := h before x after rfl p hdep
  have hx' : x ∉ before := fun hmem =>
    disjoint_of_nodup_append hnodup hmem mem_cons_self
  refine ⟨mem_append_left _ hp, ?_⟩
  rw [idxOf_append_of_mem hp, idxOf_append_of_notMem hx', idxOf_cons_self]
  exact idxOf_lt_length_of_mem hp

theorem Follows.not_blocked {l : List α} (h : Follows dep [] l) (hnodup : l.Nodup) {x : α}
    (hx : x ∈ l) : ¬ Blocked dep x := by
  classical
  rintro ⟨c, hcycle, hpath⟩
  -- the list holds everything a listed node depends on
  have hback : ∀ y, Relation.ReflTransGen dep y x → y ∈ l := by
    intro y hy
    induction hy using Relation.ReflTransGen.head_induction_on with
    | refl => exact hx
    | head hdep _ ih => exact (h.idxOf_lt hnodup ih hdep).1
  have hup : ∀ y, Relation.TransGen dep c y → y ∈ l → l.idxOf c < l.idxOf y := by
    intro y hy
    induction hy with
    | single hdep =>
      intro hmem
      exact (h.idxOf_lt hnodup hmem hdep).2
    | tail _ hdep ih =>
      intro hmem
      obtain ⟨hbefore, hlt⟩ := h.idxOf_lt hnodup hmem hdep
      exact lt_trans (ih hbefore) hlt
  exact lt_irrefl _ (hup c hcycle (hback c hpath))

/-- Where no cycle holds a node back, some node it depends on (or itself) is ready. -/
theorem exists_ready (hdep : ∀ p x, dep p x → p ∈ nodes) {done : List α} {x : α} (hx : x ∈ nodes)
    (hdone : x ∉ done) (hfree : ¬ Blocked dep x) : ∃ y, Ready dep nodes done y := by
  -- the open nodes below `x`; a descending chain of them would run into a cycle
  let Below := {y : {y // y ∈ nodes} // y.1 ∉ done ∧ Relation.ReflTransGen dep y.1 x}
  have : Finite {y // y ∈ nodes} := (finite_toSet nodes).to_subtype
  have : Finite Below := Subtype.finite
  have : IsTrans Below fun a b => Relation.TransGen dep a.1.1 b.1.1 :=
    ⟨fun _ _ _ hab hbc => hab.trans hbc⟩
  have : Std.Irrefl fun a b : Below => Relation.TransGen dep a.1.1 b.1.1 :=
    ⟨fun a ha => hfree ⟨a.1.1, ha, a.2.2⟩⟩
  have hwf : WellFounded fun a b : Below => Relation.TransGen dep a.1.1 b.1.1 :=
    Finite.wellFounded_of_trans_of_irrefl _
  obtain ⟨⟨⟨y, hy⟩, hopen, hpath⟩, -, hmin⟩ :=
    hwf.has_min Set.univ ⟨(⟨⟨x, hx⟩, hdone, .refl⟩ : Below), trivial⟩
  refine ⟨y, hy, hopen, fun p hp => ?_⟩
  by_contra hpopen
  exact hmin ⟨⟨p, hdep p y hp⟩, hpopen, .head hp hpath⟩ trivial (.single hp)

section Least

variable [LinearOrder α] {g : List α}

/-- The greedy list holds exactly what no cycle holds back. -/
theorem Greedy.mem_iff (h : Greedy dep nodes [] g) (hdep : ∀ p x, dep p x → p ∈ nodes) (x : α) :
    x ∈ g ↔ x ∈ nodes ∧ ¬ Blocked dep x := by
  constructor
  · intro hx
    exact ⟨h.subset hx, h.follows.not_blocked (h.nodup nodup_nil) hx⟩
  · rintro ⟨hx, hfree⟩
    by_contra hopen
    obtain ⟨y, hy⟩ := exists_ready hdep hx hopen hfree
    exact h.stuck y hy

/-- And it is the least extension on them. -/
theorem Greedy.leastExtension (h : Greedy dep nodes [] g) (hdep : ∀ p x, dep p x → p ∈ nodes) :
    LeastExtension dep (fun x => x ∈ nodes ∧ ¬ Blocked dep x) g where
  nodup := h.nodup nodup_nil
  mem := h.mem_iff hdep
  follows := h.follows
  least := by
    intro l hl
    refine h.le hl.follows hl.nodup (fun x hx => ((hl.mem x).1 hx).1) ?_
    refine List.Perm.length_eq ((perm_ext_iff_of_nodup (h.nodup nodup_nil) hl.nodup).2 ?_)
    intro x
    rw [hl.mem x]
    exact h.mem_iff hdep x

/-- It leaves a node out iff there is a cycle. -/
theorem Greedy.length_ne_iff (h : Greedy dep nodes [] g) (hnodes : nodes.Nodup)
    (hdep : ∀ p x, dep p x → p ∈ nodes) :
    g.length ≠ nodes.length ↔ ∃ x, OnCycle dep x := by
  have hnodup : g.Nodup := h.nodup nodup_nil
  constructor
  · intro hne
    by_contra hnone
    refine hne (List.Perm.length_eq ((perm_ext_iff_of_nodup hnodup hnodes).2 fun x => ?_))
    rw [h.mem_iff hdep x]
    refine and_iff_left ?_
    rintro ⟨c, hcycle, -⟩
    exact hnone ⟨c, hcycle⟩
  · rintro ⟨c, hcycle⟩ heq
    have hperm := (subperm_of_subset hnodup h.subset).perm_of_length_le (le_of_eq heq.symm)
    -- a node on a cycle has a predecessor on it, so it is one of the nodes
    obtain ⟨x, hcx, -⟩ := (Relation.TransGen.head'_iff).1 hcycle
    have hc : c ∈ g := hperm.symm.subset (hdep c x hcx)
    exact ((h.mem_iff hdep c).1 hc).2 ⟨c, hcycle, .refl⟩

end Least

end Slash.Lib
