import Mathlib.Data.List.Nodup
import Mathlib.Data.List.Perm.Basic

/-!
# Lists whose elements are told apart by a key

Lookup, removal and replacement by key in a list without repeated keys.
-/

namespace Slash.Lib

open List

variable {α β : Type} [DecidableEq β] {f : α → β} {l : List α}

theorem filter_key (h : (l.map f).Nodup) {a : α} (ha : a ∈ l) :
    l.filter (fun x => f x = f a) = [a] := by
  induction l with
  | nil => cases ha
  | cons x l ih =>
    obtain ⟨hnot, hl⟩ := nodup_cons.1 h
    obtain rfl | ha := mem_cons.1 ha
    · have hnone : l.filter (fun x => f x = f a) = [] := by
        rw [filter_eq_nil_iff]
        intro y hy hfy
        exact hnot (by simpa using mem_map.2 ⟨y, hy, by simpa using hfy⟩)
      simp [hnone]
    · have hne : f x ≠ f a := fun heq => hnot (heq ▸ mem_map_of_mem ha)
      simp [hne, ih hl ha]

theorem find?_key (h : (l.map f).Nodup) {a : α} (ha : a ∈ l) :
    l.find? (fun x => f x = f a) = some a := by
  cases hfind : l.find? (fun x => f x = f a) with
  | none => exact absurd (decide_eq_true rfl) (List.find?_eq_none.mp hfind a ha)
  | some b =>
    have hkey : f b = f a := by simpa using List.find?_some hfind
    rw [inj_on_of_nodup_map h (mem_of_find?_eq_some hfind) ha hkey]

theorem perm_cons_filter_key (h : (l.map f).Nodup) {a : α} (ha : a ∈ l) :
    l.Perm (a :: l.filter (fun x => f x ≠ f a)) := by
  have hperm := filter_append_perm (fun x => decide (f x = f a)) l
  rw [filter_key h ha] at hperm
  refine hperm.symm.trans (List.Perm.of_eq ?_)
  simp

theorem mem_replace_key (h : (l.map f).Nodup) {a : α} (ha : a ∈ l) {g : α → α} {x : α} :
    x ∈ l.map (fun y => if f y = f a then g y else y) ↔ x = g a ∨ x ∈ l ∧ f x ≠ f a := by
  rw [mem_map]
  constructor
  · rintro ⟨y, hy, rfl⟩
    by_cases hkey : f y = f a
    · rw [if_pos hkey, inj_on_of_nodup_map h hy ha hkey]
      exact .inl rfl
    · rw [if_neg hkey]
      exact .inr ⟨hy, hkey⟩
  · rintro (rfl | ⟨hx, hkey⟩)
    · exact ⟨a, ha, if_pos rfl⟩
    · exact ⟨x, hx, if_neg hkey⟩

theorem map_replace_key {b : β} {g : α → α} (hg : ∀ y ∈ l, f y = b → f (g y) = f y) :
    (l.map (fun y => if f y = b then g y else y)).map f = l.map f := by
  rw [map_map]
  refine map_congr_left fun y hy => ?_
  show f (if f y = b then g y else y) = f y
  split
  · exact hg y hy (by assumption)
  · rfl

theorem split_key (h : (l.map f).Nodup) {a : α} (ha : a ∈ l) : ∃ before rest,
    l = before ++ a :: rest ∧ l.filter (fun x => f x ≠ f a) = before ++ rest ∧
      ∀ b, l.map (fun x => if f x = f a then b else x) = before ++ b :: rest := by
  obtain ⟨before, rest, rfl⟩ := append_of_mem ha
  have hperm : (before ++ a :: rest).Perm (a :: (before ++ rest)) := perm_middle
  have hfresh := (nodup_cons.mp ((hperm.map f).nodup_iff.mp h)).1
  have hne : ∀ x ∈ before ++ rest, f x ≠ f a := fun x hx heq =>
    hfresh (mem_map.mpr ⟨x, hx, heq⟩)
  have hkeep : ∀ part : List α, (∀ x ∈ part, x ∈ before ++ rest) →
      part.filter (fun x => f x ≠ f a) = part ∧
        ∀ b, part.map (fun x => if f x = f a then b else x) = part := by
    intro part hpart
    refine ⟨filter_eq_self.mpr fun x hx => decide_eq_true (hne x (hpart x hx)), fun b => ?_⟩
    exact (map_congr_left fun x hx => if_neg (hne x (hpart x hx))).trans (map_id' part)
  have hbefore := hkeep before fun x hx => mem_append_left _ hx
  have hrest := hkeep rest fun x hx => mem_append_right _ hx
  refine ⟨before, rest, rfl, ?_, fun b => ?_⟩
  · rw [filter_append, filter_cons_of_neg (by simp), hbefore.1, hrest.1]
  · rw [map_append, map_cons, if_pos rfl, hbefore.2 b, hrest.2 b]

end Slash.Lib
