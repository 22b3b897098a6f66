import Mathlib.Data.List.Count
import Slash.Lib.Handles
import Slash.Lib.Keys

/-!
# What was handed out and what was given back

A table of handles forgets what was returned. A `Ledger` is its other half: the objects that were
ever handed out, and every call that gave a number back with what the number stood for then.
`Balanced` is the conservation law between the two: what was handed out is what the table still has
and what was given back, and no number was given back that was not in use.
-/

namespace Slash.Lib

open List

/-- Newest first. -/
structure Ledger (δ : Type) where
  opened : List Nat := []
  closed : List (Nat × Option δ) := []
  deriving DecidableEq, Repr

namespace Ledger

variable {δ : Type}

def handOut (l : Ledger δ) (object : Nat) : Ledger δ := { l with opened := object :: l.opened }

/-- The numbers are given back one after the other. -/
def giveBack (l : Ledger δ) (t : Handles δ) : List Nat → Ledger δ
  | [] => l
  | n :: ns => { l with closed := (n, t.get? n) :: l.closed }.giveBack (t.erase n) ns

def returned (l : Ledger δ) (object : δ → Nat) : List Nat :=
  l.closed.filterMap fun call => call.2.map object

end Ledger

structure Balanced {δ : Type} (object : δ → Nat) (t : Handles δ) (l : Ledger δ) (next : Nat) :
    Prop where
  keys : t.numbers.Nodup
  fresh : ∀ o ∈ l.opened, o < next
  nodup : l.opened.Nodup
  found : ∀ call ∈ l.closed, call.2.isSome
  objects : l.opened.Perm (t.map (fun e => object e.2) ++ l.returned object)

namespace Balanced

variable {δ : Type} {object : δ → Nat} {t : Handles δ} {l : Ledger δ} {next : Nat}

theorem mem_of_get? {n : Nat} {v : δ} (h : t.get? n = some v) : (n, v) ∈ t := by
  obtain ⟨e, hfind, rfl⟩ := Option.map_eq_some_iff.mp h
  have hn : e.1 = n := by simpa using List.find?_some hfind
  rw [← hn]
  exact mem_of_find?_eq_some hfind

theorem erase_perm (hkeys : t.numbers.Nodup) {n : Nat} {v : δ} (h : t.get? n = some v) :
    t.Perm ((n, v) :: t.erase n) :=
  perm_cons_filter_key (f := Prod.fst) hkeys (mem_of_get? h)

theorem erase_free {n : Nat} (h : t.get? n = none) : t.erase n = t := by
  refine filter_eq_self.mpr fun e he => decide_eq_true fun heq => ?_
  have hnone := List.find?_eq_none.mp (Option.map_eq_none_iff.mp h) e he
  exact hnone (decide_eq_true heq)

theorem get?_of_mem (h : Balanced object t l next) {e : Nat × δ} (he : e ∈ t) :
    t.get? e.1 = some e.2 :=
  congrArg (Option.map Prod.snd) (find?_key (f := Prod.fst) h.keys he)

theorem numbers_set (hkeys : t.numbers.Nodup) (n : Nat) (v : δ) : (t.set n v).numbers.Nodup := by
  refine nodup_cons.mpr ⟨fun hmem => ?_, hkeys.sublist (filter_sublist.map _)⟩
  obtain ⟨e, he, heq⟩ := mem_map.mp hmem
  exact (by simpa using (mem_filter.mp he).2 : e.1 ≠ n) heq

theorem init : Balanced object ([] : Handles δ) {} 0 where
  keys := nodup_nil
  fresh := nofun
  nodup := nodup_nil
  found := nofun
  objects := .nil

variable (h : Balanced object t l next)
include h

theorem le {next' : Nat} (hle : next ≤ next') :
    Balanced object t l next' where
  keys := h.keys
  fresh := fun o ho => Nat.lt_of_lt_of_le (h.fresh o ho) hle
  nodup := h.nodup
  found := h.found
  objects := h.objects

theorem handOut {n : Nat} {v : δ} (hfree : t.get? n = none) (hv : object v = next) :
    Balanced object (t.set n v) (l.handOut next) (next + 1) where
  keys := numbers_set h.keys n v
  fresh := fun o ho => by
    rcases mem_cons.mp ho with rfl | ho
    · exact Nat.lt_succ_self _
    · exact Nat.lt_succ_of_lt (h.fresh o ho)
  nodup := nodup_cons.mpr ⟨fun hmem => Nat.lt_irrefl _ (h.fresh next hmem), h.nodup⟩
  found := h.found
  objects := by
    show (next :: l.opened).Perm (((n, v) :: t.erase n).map _ ++ l.returned object)
    rw [erase_free hfree, map_cons, hv]
    exact h.objects.cons next

theorem change {n : Nat} {v v' : δ} (hn : t.get? n = some v) (hv : object v' = object v) :
    Balanced object (t.set n v') l next where
  keys := numbers_set h.keys n v'
  fresh := h.fresh
  nodup := h.nodup
  found := h.found
  objects := by
    have hperm := (erase_perm h.keys hn).map fun e => object e.2
    refine h.objects.trans ((hperm.trans (List.Perm.of_eq ?_)).append_right _)
    show object v :: _ = object v' :: _
    rw [hv]

theorem giveBack_one {n : Nat} {v : δ} (hn : t.get? n = some v) :
    Balanced object (t.erase n) { l with closed := (n, t.get? n) :: l.closed } next where
  keys := h.keys.sublist (filter_sublist.map _)
  fresh := h.fresh
  nodup := h.nodup
  found := fun call hcall => by
    rcases mem_cons.mp hcall with rfl | hcall
    · rw [hn]
      rfl
    · exact h.found call hcall
  objects := by
    have hreturned : Ledger.returned { l with closed := (n, t.get? n) :: l.closed } object =
        object v :: l.returned object := by
      rw [hn]
      rfl
    rw [hreturned]
    refine h.objects.trans (((erase_perm h.keys hn).map _).append_right _ |>.trans ?_)
    rw [map_cons, cons_append]
    exact perm_middle.symm

theorem giveBack {ns : List Nat} (hns : ns.Nodup) (huse : ∀ n ∈ ns, (t.get? n).isSome) :
    Balanced object (t.eraseAll ns) (l.giveBack t ns) next := by
  induction ns generalizing t l with
  | nil => exact h
  | cons n ns ih =>
    obtain ⟨hnot, hns⟩ := nodup_cons.mp hns
    obtain ⟨v, hv⟩ := Option.isSome_iff_exists.mp (huse n mem_cons_self)
    refine ih (h.giveBack_one hv) hns fun m hm => ?_
    have hne : m ≠ n := fun heq => hnot (heq ▸ hm)
    rw [Handles.get?_erase, if_neg hne]
    exact huse m (mem_cons_of_mem _ hm)

/-- What was handed out is in use under one number, or was given back once. -/
theorem once {o : Nat} (ho : o ∈ l.opened) :
    (∃! e, e ∈ t ∧ object e.2 = o) ∧ o ∉ l.returned object ∨
      (∀ e ∈ t, object e.2 ≠ o) ∧ (l.returned object).count o = 1 := by
  have hnodup := h.objects.nodup_iff.mp h.nodup
  obtain ⟨htable, hreturned, hdisjoint⟩ := nodup_append'.mp hnodup
  rcases mem_append.mp (h.objects.mem_iff.mp ho) with hmem | hmem
  · obtain ⟨e, he, rfl⟩ := mem_map.mp hmem
    refine .inl ⟨⟨e, ⟨he, rfl⟩, fun e' he' => ?_⟩, fun hback => hdisjoint hmem hback⟩
    exact inj_on_of_nodup_map htable he'.1 he he'.2
  · refine .inr ⟨fun e he heq => ?_, count_eq_one_of_mem hreturned hmem⟩
    exact hdisjoint (mem_map.mpr ⟨e, he, heq⟩) hmem

end Balanced
end Slash.Lib
