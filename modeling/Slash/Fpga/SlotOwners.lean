import Slash.Fpga.Slots
import Slash.Lib.Run

/-!
# Owners of signal slots

The count of a slot is the number of live owners that will release it, and one more for the
sentinel. A slot comes from `alloc` only when its count is zero, so no other owner releases it and it
is not the sentinel. A lease that fails gives back what it took. A plan whose constructor throws does
not: only its destructor releases slots. So the counts are kept in every run in which no constructor
throws after it has begun to take slots.
-/

namespace Slash.Fpga

open List DirectProgram
open Lib
open Lib.Pool

/-! ## Slots taken from the pool -/

/-- `r'` is `r` with `ks` allocated. -/
structure Taken (r r' : Nat → Nat) (ks : List Nat) : Prop where
  nodup : ks.Nodup
  free : ∀ k ∈ ks, k < maxSignals ∧ r k = 0
  counts : ∀ j, r' j = r j + ks.count j

theorem Taken.nil (r : Nat → Nat) : Taken r r [] :=
  ⟨nodup_nil, fun _ hk => absurd hk not_mem_nil, fun _ => rfl⟩

theorem Taken.alloc {r r' : Nat → Nat} {k : Nat} (h : alloc maxSignals r = some (k, r')) :
    Taken r r' [k] := by
  obtain ⟨hk, hfree, rfl⟩ := alloc_eq_some h
  refine ⟨nodup_singleton k, ?_, ?_⟩
  · intro j hj
    rw [mem_singleton.1 hj]
    exact ⟨hk, hfree⟩
  · intro j
    rw [upd_apply, count_singleton]
    by_cases hj : j = k
    · rw [if_pos hj, hj, hfree, if_pos (beq_self_eq_true k)]
    · rw [if_neg hj, if_neg (by simpa using Ne.symm hj), Nat.add_zero]

theorem Taken.trans {r r₁ r₂ : Nat → Nat} {ks ls : List Nat} (h : Taken r r₁ ks)
    (h' : Taken r₁ r₂ ls) : Taken r r₂ (ks ++ ls) := by
  refine ⟨?_, ?_, ?_⟩
  · refine nodup_append'.2 ⟨h.nodup, h'.nodup, ?_⟩
    intro k hk hk'
    have hzero := (h'.free k hk').2
    rw [h.counts k] at hzero
    have hpos := count_pos_iff.2 hk
    omega
  · intro k hk
    obtain hk | hk := mem_append.1 hk
    · exact h.free k hk
    · have hfree := h'.free k hk
      rw [h.counts k] at hfree
      exact ⟨hfree.1, by omega⟩
  · intro j
    rw [h'.counts, h.counts, count_append, Nat.add_assoc]

theorem Taken.rollback {r r' : Nat → Nat} {ks : List Nat} (h : Taken r r' ks) :
    ks.foldl (release maxSignals) r' = r := by
  funext j
  rw [foldl_release ks fun k _ => by rw [h.counts k]; exact Nat.le_add_left _ _, h.counts j]
  split
  · exact Nat.add_sub_cancel _ _
  · rename_i hj
    rw [count_eq_zero_of_not_mem fun hmem => hj (h.free j hmem).1]
    rfl

/-! ## Leases -/

theorem leaseLoop_spec (ids : List Nat) (r : Nat → Nat) (slots : OrderedMap Nat Nat)
    (allocated : List Nat) {ok : Bool} {r' : Nat → Nat} {slots' : OrderedMap Nat Nat}
    {allocated' : List Nat} (h : leaseLoop ids r slots allocated = (ok, r', slots', allocated')) :
    ∃ ks, allocated' = allocated ++ ks ∧ Taken r r' ks ∧
      (ok = true → ids.Nodup → (∀ id ∈ ids, slots.find? id = none) →
        slots'.values.Perm (slots.values ++ ks)) := by
  induction ids generalizing r slots allocated with
  | nil =>
    obtain ⟨-, rfl, rfl, rfl⟩ : _ ∧ _ ∧ _ ∧ _ := by simpa [leaseLoop] using h
    exact ⟨[], (append_nil _).symm, Taken.nil r, fun _ _ _ => by rw [append_nil]⟩
  | cons id ids ih =>
    unfold leaseLoop at h
    split at h
    · obtain ⟨rfl, rfl, rfl, rfl⟩ : _ ∧ _ ∧ _ ∧ _ := by simpa using h
      exact ⟨[], (append_nil _).symm, Taken.nil r, fun hok => by cases hok⟩
    · rename_i slot r₁ halloc
      obtain ⟨ks, rfl, htaken, hvalues⟩ := ih _ _ _ h
      refine ⟨slot :: ks, by rw [append_assoc, singleton_append],
        (Taken.alloc halloc).trans htaken, ?_⟩
      intro hok hnodup hfresh
      obtain ⟨hid, hids⟩ := nodup_cons.1 hnodup
      have hnone := hfresh id mem_cons_self
      refine (hvalues hok hids ?_).trans ?_
      · intro id' hid'
        have hne : id' ≠ id := fun heq => hid (heq ▸ hid')
        rw [OrderedMap.find?_emplace, hfresh id' (mem_cons_of_mem _ hid'), if_neg hne]
        rfl
      · refine ((OrderedMap.values_emplace_perm hnone).append_right ks).trans ?_
        exact perm_middle.symm

/-- A lease takes slots that were free and holds them, or gives back what it took. -/
theorem leaseResources_spec (r : Nat → Nat) (rendezvous : List RendezvousId)
    (scalars : List ScalarResourceId) {l : Option RendezvousLease} {r' : Nat → Nat}
    (h : leaseResources r rendezvous scalars = (l, r')) :
    (l = none ∧ r' = r) ∨
      ∃ lease ks, l = some lease ∧ Taken r r' ks ∧
        (rendezvous.Nodup → scalars.Nodup → lease.slots.Perm ks) := by
  unfold leaseResources at h
  split at h
  · rename_i r₁ slots allocated hloop
    obtain ⟨ks, rfl, htaken, -⟩ := leaseLoop_spec _ _ _ _ hloop
    obtain ⟨rfl, rfl⟩ := Prod.mk.inj h
    exact .inl ⟨rfl, htaken.rollback⟩
  · rename_i r₁ rendezvousSlots allocated hloop
    obtain ⟨ks, rfl, htaken, hvalues⟩ := leaseLoop_spec _ _ _ _ hloop
    split at h
    · rename_i r₂ slots allocated hloop'
      obtain ⟨ls, rfl, htaken', -⟩ := leaseLoop_spec _ _ _ _ hloop'
      obtain ⟨rfl, rfl⟩ := Prod.mk.inj h
      exact .inl ⟨rfl, (htaken.trans htaken').rollback⟩
    · rename_i r₂ scalarSlots allocated hloop'
      obtain ⟨ls, -, htaken', hvalues'⟩ := leaseLoop_spec _ _ _ _ hloop'
      obtain ⟨rfl, rfl⟩ := Prod.mk.inj h
      refine .inr ⟨_, _, rfl, htaken.trans htaken', fun hr hs => ?_⟩
      exact (hvalues rfl hr fun _ _ => rfl).append (hvalues' rfl hs fun _ _ => rfl)

/-! ## Plans -/

variable {sentinelSlot : Nat} {p : DirectProgram} {r : Nat → Nat} {s s' : PlanSlots}

/-- The slots and counts of a plan under construction, without what it remembers. -/
def PlanSlots.state (s : PlanSlots) : (Nat → Nat) × List Nat × List Nat :=
  (s.reservations, s.ownedSignalSlots, s.allocated)

/-- What a request that does not throw can do to the slots. -/
inductive SlotEffect (p : DirectProgram) (s s' : PlanSlots) : Prop
  | keep (h : s'.state = s.state)
  | reserve (hp : ¬ p.resourcesLeased) (slot : Nat) (hnew : slot ∉ s.ownedSignalSlots)
      (h : s'.state = (Lib.Pool.reserve maxSignals s.reservations slot,
        slot :: s.ownedSignalSlots, s.allocated))
  | alloc (hp : ¬ p.resourcesLeased) (k : Nat) (r : Nat → Nat)
      (halloc : Lib.Pool.alloc maxSignals s.reservations = some (k, r))
      (h : s'.state = (r, k :: s.ownedSignalSlots, k :: s.allocated))

theorem SlotEffect.remember (h : SlotEffect p s s') (key : Host.ScalarKey) (slot : Nat) :
    SlotEffect p s (s'.remember key slot) := by
  cases h with
  | keep h => exact .keep h
  | reserve hp slot hnew h => exact .reserve hp slot hnew h
  | alloc hp k r halloc h => exact .alloc hp k r halloc h

theorem acquireScalarSlot_effect {key : Option Host.ScalarKey} {slot : Nat}
    (heq : acquireScalarSlot p key s = some (slot, s')) : SlotEffect p s s' := by
  unfold acquireScalarSlot at heq
  split at heq
  · cases heq
    exact .keep rfl
  · split at heq
    · cases heq
    · rename_i hp
      obtain ⟨⟨k, r'⟩, halloc, heq⟩ := Option.map_eq_some_iff.1 heq
      obtain ⟨rfl, rfl⟩ := Prod.mk.inj heq
      exact .alloc hp k r' halloc rfl

theorem carriedSlot_effect {parent : Host.ScalarKey} {slot : Nat}
    (heq : carriedSlot p parent s = some (slot, s')) : SlotEffect p s s' := by
  unfold carriedSlot at heq
  split at heq
  · cases heq
    exact .keep rfl
  · obtain ⟨⟨k, t⟩, hacquire, heq⟩ := Option.map_eq_some_iff.1 heq
    obtain ⟨rfl, rfl⟩ := Prod.mk.inj heq
    exact (acquireScalarSlot_effect hacquire).remember parent k

theorem reserveSignalSlot_effect {slot : Nat}
    (heq : reserveSignalSlot sentinelSlot p slot s = some s') : SlotEffect p s s' := by
  unfold reserveSignalSlot at heq
  split at heq
  · cases heq
  · split at heq
    · cases heq
      exact .keep rfl
    · rename_i hnew
      cases heq
      rw [not_or] at hnew
      exact .reserve hnew.1 slot hnew.2 rfl

theorem request_effect {q : SlotRequest} (heq : request sentinelSlot p s q = some s') :
    SlotEffect p s s' := by
  cases q with
  | reserve slot => exact reserveSignalSlot_effect heq
  | read key =>
    cases key with
    | none =>
      obtain ⟨⟨k, t⟩, hacquire, rfl⟩ := Option.map_eq_some_iff.1 heq
      exact acquireScalarSlot_effect hacquire
    | some key =>
      obtain ⟨⟨k, t⟩, hacquire, rfl⟩ := Option.map_eq_some_iff.1 heq
      exact (acquireScalarSlot_effect hacquire).remember key k
  | carried parent =>
    obtain ⟨⟨k, t⟩, hcarried, rfl⟩ := Option.map_eq_some_iff.1 heq
    exact carriedSlot_effect hcarried
  | exported key parent =>
    obtain ⟨⟨k, t⟩, hcarried, rfl⟩ := Option.map_eq_some_iff.1 heq
    exact (carriedSlot_effect hcarried).remember key k

theorem requests_cons_some {q : SlotRequest} {t : PlanSlots} (qs : List SlotRequest)
    (hq : request sentinelSlot p s q = some t) :
    requests sentinelSlot p (q :: qs) s = requests sentinelSlot p qs t := by
  rw [requests, hq]

theorem requests_cons_none {q : SlotRequest} (qs : List SlotRequest)
    (hq : request sentinelSlot p s q = none) : requests sentinelSlot p (q :: qs) s = (false, s) := by
  rw [requests, hq]

/-- What every effect keeps, the requests keep, up to where they stop. -/
theorem requests_invariant {P : PlanSlots → Prop}
    (hstep : ∀ s s', SlotEffect p s s' → P s → P s') (qs : List SlotRequest) (h : P s) :
    P (requests sentinelSlot p qs s).2 := by
  induction qs generalizing s with
  | nil => exact h
  | cons q qs ih =>
    cases hq : request sentinelSlot p s q with
    | none =>
      rw [requests_cons_none qs hq]
      exact h
    | some t =>
      rw [requests_cons_some qs hq]
      exact ih (hstep s t (request_effect hq) h)

theorem construct_invariant {P : PlanSlots → Prop}
    (hstep : ∀ s s', SlotEffect p s s' → P s → P s') (error : Option Nat) (r : Nat → Nat)
    (h : P { reservations := r }) : P (construct sentinelSlot p error r).2 := by
  cases error with
  | none => exact requests_invariant hstep _ h
  | some n => exact requests_invariant hstep _ h

/-- What a constructor that started from the counts `r` keeps. -/
structure Growing (r : Nat → Nat) (s : PlanSlots) : Prop where
  nodup : s.ownedSignalSlots.Nodup
  counts : ∀ j, s.reservations j =
    r j + if j < maxSignals then s.ownedSignalSlots.count j else 0
  allocated_nodup : s.allocated.Nodup
  allocated_owned : s.allocated ⊆ s.ownedSignalSlots
  allocated_free : ∀ k ∈ s.allocated, k < maxSignals ∧ r k = 0

theorem Growing.start (r : Nat → Nat) : Growing r { reservations := r } :=
  ⟨nodup_nil, fun j => by simp, nodup_nil, nil_subset _,
    fun _ hk => absurd hk not_mem_nil⟩

theorem Growing.congr {t : PlanSlots} (h : Growing r s) (heq : t.state = s.state) :
    Growing r t := by
  obtain ⟨hr, hrest⟩ := Prod.mk.inj heq
  obtain ⟨ho, ha⟩ := Prod.mk.inj hrest
  obtain ⟨h1, h2, h3, h4, h5⟩ := h
  rw [← ho, ← hr, ← ha] at *
  exact ⟨h1, h2, h3, h4, h5⟩

theorem Growing.reserve (h : Growing r s) {slot : Nat} (hnew : slot ∉ s.ownedSignalSlots) :
    Growing r { s with
      reservations := Lib.Pool.reserve maxSignals s.reservations slot
      ownedSignalSlots := slot :: s.ownedSignalSlots } := by
  refine ⟨nodup_cons.2 ⟨hnew, h.nodup⟩, ?_, h.allocated_nodup, ?_, h.allocated_free⟩
  · intro j
    dsimp only
    rw [reserve_apply, h.counts j]
    by_cases hj : j = slot
    · subst hj
      rw [count_cons_self]
      by_cases hlt : j < maxSignals
      · rw [if_pos hlt, if_pos ⟨rfl, hlt⟩, if_pos hlt, Nat.add_assoc]
      · rw [if_neg hlt, if_neg fun h => hlt h.2, if_neg hlt]
    · have hnot : ¬ (j = slot ∧ slot < maxSignals) := fun h => hj h.1
      rw [count_cons_of_ne (Ne.symm hj), if_neg hnot, Nat.add_zero]
  · exact fun k hk => mem_cons_of_mem _ (h.allocated_owned hk)

theorem Growing.alloc (h : Growing r s) {k : Nat} (hk : k < maxSignals)
    (hfree : s.reservations k = 0) :
    Growing r { s with
      reservations := upd s.reservations k 1
      ownedSignalSlots := k :: s.ownedSignalSlots
      allocated := k :: s.allocated } := by
  -- a slot without a reservation is not one of the plan's own
  have hcount := h.counts k
  rw [hfree, if_pos hk] at hcount
  have hfresh : k ∉ s.ownedSignalSlots := by
    intro hmem
    have hpos := count_pos_iff.2 hmem
    omega
  refine ⟨nodup_cons.2 ⟨hfresh, h.nodup⟩, ?_,
    nodup_cons.2 ⟨fun hmem => hfresh (h.allocated_owned hmem), h.allocated_nodup⟩,
    cons_subset_cons k h.allocated_owned, ?_⟩
  · intro j
    dsimp only
    rw [upd_apply]
    by_cases hj : j = k
    · subst hj
      rw [if_pos rfl, if_pos hk, count_cons_self]
      omega
    · rw [if_neg hj, count_cons_of_ne (Ne.symm hj)]
      exact h.counts j
  · intro j hj
    obtain rfl | hj := mem_cons.1 hj
    · exact ⟨hk, by omega⟩
    · exact h.allocated_free j hj

theorem Growing.effect (h : Growing r s) (heffect : SlotEffect p s s') : Growing r s' := by
  cases heffect with
  | keep heq => exact h.congr heq
  | reserve _ slot hnew heq => exact (h.reserve hnew).congr heq
  | alloc _ k r' halloc heq =>
    obtain ⟨hk, hfree, rfl⟩ := alloc_eq_some halloc
    exact (h.alloc hk hfree).congr heq

theorem construct_growing (sentinelSlot : Nat) (p : DirectProgram) (error : Option Nat)
    (r : Nat → Nat) : Growing r (construct sentinelSlot p error r).2 :=
  construct_invariant (fun _ _ heffect h => h.effect heffect) error r (Growing.start r)

theorem construct_leased (sentinelSlot : Nat) (hp : p.resourcesLeased = true) (error : Option Nat)
    (r : Nat → Nat) : (construct sentinelSlot p error r).2.state = (r, [], []) := by
  refine construct_invariant (P := fun s => s.state = (r, [], [])) (fun s s' heffect h => ?_) error r rfl
  cases heffect with
  | keep heq => exact heq.trans h
  | reserve hnot => exact absurd hp hnot
  | alloc hnot => exact absurd hp hnot

/-! ## Programs that lower -/

def DirectProgram.own (p : DirectProgram) (key : Option Host.ScalarKey) : Nat :=
  if (key.bind fun k => p.scalarResources.lookup k).isSome then 0 else 1

/-- The slots that requests take from the pool where the keys `known` have slots already. -/
def DirectProgram.allocations (p : DirectProgram) : List Host.ScalarKey → List SlotRequest → Nat
  | _, [] => 0
  | known, .reserve _ :: qs => p.allocations known qs
  | known, .read none :: qs => p.own none + p.allocations known qs
  | known, .read (some key) :: qs => p.own (some key) + p.allocations (key :: known) qs
  | known, .carried parent :: qs =>
    if parent ∈ known then p.allocations known qs
    else p.own (some parent) + p.allocations (parent :: known) qs
  | known, .exported key parent :: qs =>
    if parent ∈ known then p.allocations (key :: known) qs
    else p.own (some parent) + p.allocations (key :: parent :: known) qs

/-- The free slots that the program does not name. -/
def SlotDevice.freeBeside (d : SlotDevice) (p : DirectProgram) : Nat :=
  free maxSignals fun k => if k ∈ p.tree.referenced then 1 else d.reservations k

/-- The program does not name the sentinel, there are slots for its output scalars, and its packets
lower. -/
structure Lowers (d : SlotDevice) (p : DirectProgram) (error : Option Nat) : Prop where
  packets : error = none
  sentinel : d.sentinelSlot ∉ p.tree.referenced
  slots : p.allocations [] (emissionRequests p.tree.flat) ≤ d.freeBeside p

def PlanSlots.known (s : PlanSlots) : List Host.ScalarKey := s.scalarSlots.map Prod.fst

theorem acquireScalarSlot_ok (hp : ¬ p.resourcesLeased) {key : Option Host.ScalarKey}
    (h : p.own key ≤ free maxSignals s.reservations) :
    ∃ slot s', acquireScalarSlot p key s = some (slot, s') ∧ s'.known = s.known ∧
      free maxSignals s'.reservations + p.own key = free maxSignals s.reservations := by
  unfold acquireScalarSlot
  unfold own at h ⊢
  cases hbound : key.bind fun k => p.scalarResources.lookup k with
  | some slot => exact ⟨slot, s, rfl, rfl, rfl⟩
  | none =>
    rw [hbound] at h
    obtain ⟨k, r', halloc⟩ := alloc_isSome h
    obtain ⟨hk, hfree, rfl⟩ := alloc_eq_some halloc
    dsimp only
    rw [if_neg hp, halloc]
    exact ⟨k, _, rfl, rfl, free_upd hk hfree⟩

theorem lookup_none_iff {parent : Host.ScalarKey} :
    s.scalarSlots.lookup parent = none ↔ parent ∉ s.known := by
  unfold PlanSlots.known
  induction s.scalarSlots with
  | nil => simp
  | cons e es ih =>
    rw [lookup_cons, map_cons, mem_cons, not_or, ← ih]
    by_cases he : parent = e.1
    · simp [he]
    · simp [he, beq_false_of_ne he]

def DirectProgram.carry (p : DirectProgram) (known : List Host.ScalarKey) (parent : Host.ScalarKey) :
    Nat :=
  if parent ∈ known then 0 else p.own (some parent)

def carriedKeys (known : List Host.ScalarKey) (parent : Host.ScalarKey) : List Host.ScalarKey :=
  if parent ∈ known then known else parent :: known

theorem allocations_carried (known : List Host.ScalarKey) (parent : Host.ScalarKey)
    (qs : List SlotRequest) : p.allocations known (.carried parent :: qs) =
      p.carry known parent + p.allocations (carriedKeys known parent) qs := by
  rw [allocations, carry, carriedKeys]
  split
  · rw [Nat.zero_add]
  · rfl

theorem allocations_exported (known : List Host.ScalarKey) (key parent : Host.ScalarKey)
    (qs : List SlotRequest) : p.allocations known (.exported key parent :: qs) =
      p.carry known parent + p.allocations (key :: carriedKeys known parent) qs := by
  rw [allocations, carry, carriedKeys]
  split
  · rw [Nat.zero_add]
  · rfl

theorem carriedSlot_ok (hp : ¬ p.resourcesLeased) {parent : Host.ScalarKey}
    (h : p.carry s.known parent ≤ free maxSignals s.reservations) :
    ∃ slot s', carriedSlot p parent s = some (slot, s') ∧
      s'.known = carriedKeys s.known parent ∧
      free maxSignals s'.reservations + p.carry s.known parent =
        free maxSignals s.reservations := by
  unfold carriedSlot carry carriedKeys
  unfold carry at h
  by_cases hknown : parent ∈ s.known
  · simp only [if_pos hknown]
    cases hlookup : s.scalarSlots.lookup parent with
    | none => exact absurd hknown (lookup_none_iff.1 hlookup)
    | some slot => exact ⟨slot, s, rfl, rfl, rfl⟩
  · rw [if_neg hknown] at h
    simp only [if_neg hknown]
    rw [lookup_none_iff.2 hknown]
    obtain ⟨slot, s', hacquire, hkeys, hfree⟩ := acquireScalarSlot_ok hp h
    refine ⟨slot, s'.remember parent slot, ?_, ?_, hfree⟩
    · dsimp only
      rw [hacquire]
      rfl
    · rw [← hkeys]
      rfl

/-- With enough free slots no request for a scalar throws. -/
theorem requests_ok (hp : ¬ p.resourcesLeased) (qs : List SlotRequest)
    (hqs : ∀ slot, SlotRequest.reserve slot ∉ qs)
    (h : p.allocations s.known qs ≤ free maxSignals s.reservations) :
    (requests sentinelSlot p qs s).1 = true := by
  induction qs generalizing s with
  | nil => rfl
  | cons q qs ih =>
    have hqs' : ∀ slot, SlotRequest.reserve slot ∉ qs :=
      fun slot hmem => hqs slot (mem_cons_of_mem _ hmem)
    unfold requests
    cases q with
    | reserve slot => exact absurd mem_cons_self (hqs slot)
    | read key =>
      cases key with
      | none =>
        rw [allocations] at h
        obtain ⟨slot, s', hacquire, hkeys, hfree⟩ := acquireScalarSlot_ok hp
          (Nat.le_trans (Nat.le_add_right _ _) h)
        simp only [request, hacquire, Option.map_some]
        refine ih hqs' ?_
        rw [hkeys]
        omega
      | some key =>
        rw [allocations] at h
        obtain ⟨slot, s', hacquire, hkeys, hfree⟩ := acquireScalarSlot_ok hp
          (Nat.le_trans (Nat.le_add_right _ _) h)
        simp only [request, hacquire, Option.map_some]
        refine ih hqs' ?_
        show p.allocations (key :: s'.known) qs ≤ free maxSignals s'.reservations
        rw [hkeys]
        omega
    | carried parent =>
      rw [allocations_carried] at h
      obtain ⟨slot, s', hcarried, hkeys, hfree⟩ := carriedSlot_ok hp
        (Nat.le_trans (Nat.le_add_right _ _) h)
      simp only [request, hcarried, Option.map_some]
      refine ih hqs' ?_
      rw [hkeys]
      omega
    | exported key parent =>
      rw [allocations_exported] at h
      obtain ⟨slot, s', hcarried, hkeys, hfree⟩ := carriedSlot_ok hp
        (Nat.le_trans (Nat.le_add_right _ _) h)
      simp only [request, hcarried, Option.map_some]
      refine ih hqs' ?_
      show p.allocations (key :: s'.known) qs ≤ free maxSignals s'.reservations
      rw [hkeys]
      omega

theorem requests_reserve (hp : ¬ p.resourcesLeased) (slots : List Nat)
    (hslots : sentinelSlot ∉ slots) :
    (requests sentinelSlot p (slots.map .reserve) s).1 = true ∧
      (requests sentinelSlot p (slots.map .reserve) s).2.known = s.known ∧
      ∀ k, k ∈ (requests sentinelSlot p (slots.map .reserve) s).2.ownedSignalSlots ↔
        k ∈ s.ownedSignalSlots ∨ k ∈ slots := by
  induction slots generalizing s with
  | nil => exact ⟨rfl, rfl, fun k => by simp [requests]⟩
  | cons slot slots ih =>
    rw [mem_cons, not_or] at hslots
    have hreserve : ∃ t, request sentinelSlot p s (.reserve slot) = some t ∧ t.known = s.known ∧
        ∀ k, k ∈ t.ownedSignalSlots ↔ k ∈ s.ownedSignalSlots ∨ k = slot := by
      simp only [request, reserveSignalSlot, if_neg (Ne.symm hslots.1)]
      by_cases hmem : slot ∈ s.ownedSignalSlots
      · rw [if_pos (.inr hmem)]
        refine ⟨s, rfl, rfl, fun k => ⟨.inl, ?_⟩⟩
        rintro (hk | rfl)
        · exact hk
        · exact hmem
      · rw [if_neg (not_or.2 ⟨hp, hmem⟩)]
        refine ⟨_, rfl, rfl, fun k => ?_⟩
        rw [mem_cons]
        exact Or.comm
    obtain ⟨t, ht, hkeys, howned⟩ := hreserve
    obtain ⟨h1, h2, h3⟩ := ih (s := t) hslots.2
    rw [map_cons, requests_cons_some _ ht]
    refine ⟨h1, h2.trans hkeys, fun k => ?_⟩
    rw [h3 k, howned k, mem_cons, or_assoc]

theorem requests_append (qs qs' : List SlotRequest) (s : PlanSlots)
    (h : (requests sentinelSlot p qs s).1 = true) :
    requests sentinelSlot p (qs ++ qs') s =
      requests sentinelSlot p qs' (requests sentinelSlot p qs s).2 := by
  induction qs generalizing s with
  | nil => rfl
  | cons q qs ih =>
    rw [cons_append]
    cases hq : request sentinelSlot p s q with
    | none =>
      rw [requests_cons_none qs hq] at h
      cases h
    | some t =>
      rw [requests_cons_some qs hq] at h ⊢
      rw [requests_cons_some _ hq]
      exact ih t h

theorem reserve_notMem_emission (dg : Host.QueueProgram) (slot : Nat) :
    SlotRequest.reserve slot ∉ emissionRequests dg := by
  have hkernel : ∀ k, SlotRequest.reserve slot ∉ kernelRequests k := by
    intro k hmem
    obtain ⟨port, -, hport⟩ := mem_map.1 hmem
    cases hport
  have hloop : ∀ imports exports k, SlotRequest.reserve slot ∉
      loopKernelRequests imports exports k := by
    intro imports exports k hmem
    obtain hmem | hmem := mem_append.1 hmem
    · obtain ⟨port, -, hport⟩ := mem_filterMap.1 hmem
      obtain ⟨parent, -, hparent⟩ := Option.map_eq_some_iff.1 hport
      cases hparent
    · obtain ⟨port, -, hport⟩ := mem_map.1 hmem
      split at hport
      · cases hport
      · split at hport <;> cases hport
  intro hmem
  obtain ⟨c, -, hc⟩ := mem_flatMap.1 hmem
  cases c with
  | kernel k => exact hkernel k hc
  | loop l =>
    obtain ⟨c', -, hc'⟩ := mem_flatMap.1 hc
    cases c' with
    | kernel k => exact hloop _ _ k hc'
    | _ => exact not_mem_nil hc'
  | _ => exact not_mem_nil hc

theorem free_congr {r r' : Nat → Nat} (h : ∀ k, k < maxSignals → (r k = 0 ↔ r' k = 0)) :
    free maxSignals r = free maxSignals r' := by
  refine countP_congr fun k hk => ?_
  rw [beq_iff_eq, beq_iff_eq]
  exact h k (mem_range.1 hk)

theorem construct_ok {d : SlotDevice} {error : Option Nat} (hp : ¬ p.resourcesLeased)
    (h : Lowers d p error) : (construct d.sentinelSlot p error d.reservations).1 = true := by
  rw [h.packets]
  obtain ⟨hok, hkeys, howned⟩ := requests_reserve (s := { reservations := d.reservations }) hp
    p.tree.referenced h.sentinel
  have hgrow : Growing d.reservations (requests d.sentinelSlot p (p.tree.referenced.map .reserve)
      { reservations := d.reservations }).2 := by
    refine requests_invariant (fun s s' heffect hs => ?_) _ (Growing.start _)
    exact hs.effect heffect
  show (requests d.sentinelSlot p (p.tree.referenced.map .reserve ++ emissionRequests p.tree.flat)
    { reservations := d.reservations }).1 = true
  rw [requests_append _ _ _ hok]
  refine requests_ok hp _ (reserve_notMem_emission _) ?_
  rw [hkeys]
  refine Nat.le_trans h.slots (le_of_eq ?_)
  refine free_congr fun k hk => ?_
  -- after the reservations a slot is free iff it was and the program does not name it
  rw [hgrow.counts k, if_pos hk]
  by_cases hmem : k ∈ p.tree.referenced
  · have hpos := count_pos_iff.2 ((howned k).2 (.inr hmem))
    rw [if_pos hmem]
    omega
  · have hzero := count_eq_zero_of_not_mem fun hk' =>
      ((howned k).1 hk').elim not_mem_nil hmem
    rw [if_neg hmem, hzero, Nat.add_zero]

end Slash.Fpga
