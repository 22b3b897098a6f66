import Mathlib.Data.List.Perm.Basic
import Slash.Fpga.SlotOwners

/-!
# Runs of the slot pool

`Conserved` says what the counts of a device mean: each is the number of live owners that release
the slot, and the sentinel has one more. Every call keeps it as long as no constructor throws after
it has begun to take slots (`SlotDevice.Lowered`), and a call that throws then leaves the counts as
they were. A constructor that throws later leaves its reservations behind for good.
-/

namespace Slash.Fpga

open List
open Lib (runFrom Along)
open Lib.Pool

/-- The logical resources of a lease are distinct. -/
def SlotCall.Distinct : SlotCall → Prop
  | .leaseResources rendezvous scalars => rendezvous.Nodup ∧ scalars.Nodup
  | _ => True

/-- A direct program is turned away before its plan is constructed, or does not use the pool, or is
constructed. -/
def SlotDevice.Lowered (d : SlotDevice) : SlotCall → Prop
  | .compileProgram p rejected error =>
    d.executionLeased = true ∨ rejected = true ∨ p.resourcesLeased = true ∨ Lowers d p error
  | .projectProgram p rejected error =>
    rejected = true ∨ p.resourcesLeased = true ∨ Lowers d p error
  | _ => True

/-- The counts are what the owners will release, and what was allocated has one owner. -/
structure Conserved (d : SlotDevice) : Prop where
  counts : ∀ j, d.reservations j = (SlotDevice.init d.sentinelSlot).reservations j +
    if j < maxSignals then (d.owners.flatMap SlotOwner.releases).count j else 0
  nodup : (d.owners.flatMap SlotOwner.held).Nodup
  inside : ∀ k ∈ d.owners.flatMap SlotOwner.held, k < maxSignals ∧ k ≠ d.sentinelSlot
  held : ∀ o ∈ d.owners, o.held ⊆ o.releases

theorem Conserved.init (sentinelSlot : Nat) : Conserved (.init sentinelSlot) where
  counts := fun j => by simp [SlotDevice.init]
  nodup := nodup_nil
  inside := fun _ hk => absurd hk not_mem_nil
  held := fun _ ho => absurd ho not_mem_nil

variable {d d' : SlotDevice}

/-- A slot without a reservation has no owner and is not the sentinel. -/
theorem Conserved.unowned (h : Conserved d) {k : Nat} (hk : k < maxSignals)
    (hfree : d.reservations k = 0) :
    k ≠ d.sentinelSlot ∧ k ∉ d.owners.flatMap SlotOwner.held := by
  have hcount := h.counts k
  rw [hfree, if_pos hk] at hcount
  constructor
  · rintro rfl
    have hinit : (SlotDevice.init d.sentinelSlot).reservations d.sentinelSlot = 1 := by
      show reserve maxSignals (fun _ => 0) d.sentinelSlot d.sentinelSlot = 1
      rw [reserve_apply, if_pos ⟨rfl, hk⟩]
    omega
  · intro hmem
    obtain ⟨o, ho, hheld⟩ := mem_flatMap.1 hmem
    have hreleases : k ∈ d.owners.flatMap SlotOwner.releases :=
      mem_flatMap.2 ⟨o, ho, h.held o ho hheld⟩
    have hpos := count_pos_iff.2 hreleases
    omega

/-- An owner takes slots: its counts go up, and what it holds was free. -/
structure Takes (r r' : Nat → Nat) (o : SlotOwner) : Prop where
  counts : ∀ j, r' j = r j + if j < maxSignals then o.releases.count j else 0
  nodup : o.held.Nodup
  free : ∀ k ∈ o.held, k < maxSignals ∧ r k = 0
  held : o.held ⊆ o.releases

theorem Conserved.add (h : Conserved d) {o : SlotOwner} (howners : d'.owners = d.owners ++ [o])
    (hsentinel : d'.sentinelSlot = d.sentinelSlot) (ho : Takes d.reservations d'.reservations o) :
    Conserved d' := by
  have hunowned := fun k hk => h.unowned (ho.free k hk).1 (ho.free k hk).2
  refine ⟨?_, ?_, ?_, ?_⟩
  · intro j
    rw [ho.counts, h.counts, hsentinel, howners, flatMap_append, count_append,
      flatMap_singleton]
    split <;> omega
  · rw [howners, flatMap_append, flatMap_singleton]
    exact nodup_append'.2 ⟨h.nodup, ho.nodup, fun k hk hk' => (hunowned k hk').2 hk⟩
  · rw [howners, hsentinel, flatMap_append, flatMap_singleton]
    intro k hk
    obtain hk | hk := mem_append.1 hk
    · exact h.inside k hk
    · exact ⟨(ho.free k hk).1, (hunowned k hk).1⟩
  · intro o' ho'
    rw [howners] at ho'
    obtain ho' | ho' := mem_append.1 ho'
    · exact h.held o' ho'
    · rw [mem_singleton.1 ho']
      exact ho.held

theorem Conserved.destroy (h : Conserved d) {i : Nat} {o : SlotOwner} (ho : d.owners[i]? = some o)
    (howners : d'.owners = d.owners.eraseIdx i) (hsentinel : d'.sentinelSlot = d.sentinelSlot)
    (hreservations : d'.reservations = o.releases.foldl (release maxSignals) d.reservations) :
    Conserved d' := by
  obtain ⟨hi, rfl⟩ := List.getElem?_eq_some_iff.1 ho
  have hperm : (d.owners[i] :: d.owners.eraseIdx i).Perm d.owners :=
    getElem_cons_eraseIdx_perm hi
  have hsplit : ∀ j, (d.owners.flatMap SlotOwner.releases).count j =
      d.owners[i].releases.count j +
        ((d.owners.eraseIdx i).flatMap SlotOwner.releases).count j := by
    intro j
    rw [← (hperm.flatMap_right SlotOwner.releases).count_eq, flatMap_cons, count_append]
  have hheld := hperm.flatMap_right SlotOwner.held
  rw [flatMap_cons] at hheld
  have hsub : ∀ k, k ∈ (d.owners.eraseIdx i).flatMap SlotOwner.held →
      k ∈ d.owners.flatMap SlotOwner.held :=
    fun k hk => hheld.subset (mem_append_right _ hk)
  refine ⟨?_, ?_, ?_, ?_⟩
  · intro j
    have hle : ∀ j, j < maxSignals → d.owners[i].releases.count j ≤ d.reservations j := by
      intro j hj
      rw [h.counts j, if_pos hj, hsplit j]
      omega
    rw [hreservations, foldl_release _ hle, h.counts, hsentinel, howners, hsplit]
    split <;> omega
  · rw [howners]
    exact (nodup_append'.1 (hheld.nodup_iff.2 h.nodup)).2.1
  · rw [howners, hsentinel]
    exact fun k hk => h.inside k (hsub k hk)
  · rw [howners]
    exact fun o ho => h.held o (mem_of_mem_eraseIdx ho)

theorem Conserved.congr (h : Conserved d) (howners : d'.owners = d.owners)
    (hsentinel : d'.sentinelSlot = d.sentinelSlot)
    (hreservations : d'.reservations = d.reservations) : Conserved d' := by
  obtain ⟨h1, h2, h3, h4⟩ := h
  rw [← howners, ← hsentinel, ← hreservations] at *
  exact ⟨h1, h2, h3, h4⟩

/-- A plan that is destroyed gives back what its constructor took. -/
theorem Growing.rollback {r : Nat → Nat} {s : PlanSlots} (h : Growing r s) :
    s.ownedSignalSlots.foldl (release maxSignals) s.reservations = r := by
  funext j
  rw [foldl_release, h.counts j]
  · split
    · exact Nat.add_sub_cancel _ _
    · rfl
  · intro k hk
    rw [h.counts k, if_pos hk]
    exact Nat.le_add_left _ _

/-- A constructor that throws although the condition holds did not touch the pool. -/
theorem construct_threw {p : DirectProgram} {error : Option Nat} {s : PlanSlots}
    (hp : p.resourcesLeased = true ∨ Lowers d p error)
    (h : construct d.sentinelSlot p error d.reservations = (false, s)) :
    s.reservations = d.reservations := by
  by_cases hleased : p.resourcesLeased = true
  · have hstate := construct_leased d.sentinelSlot hleased error d.reservations
    rw [h] at hstate
    exact (Prod.mk.inj hstate).1
  · have hok := construct_ok hleased (hp.resolve_left hleased)
    rw [h] at hok
    cases hok

/-! ## Calls -/

inductive CallOutcome (d : SlotDevice) (c : SlotCall) : SlotDevice × Bool → Prop
  | same (ok : Bool) : CallOutcome d c (d, ok)
  | threw (r : Nat → Nat) (hr : d.Lowered c → r = d.reservations) :
      CallOutcome d c ({ d with reservations := r }, false)
  | added (o : SlotOwner) (r : Nat → Nat) (leased : Bool)
      (ho : c.Distinct → Takes d.reservations r o) :
      CallOutcome d c
        ({ d with reservations := r, executionLeased := leased, owners := d.owners ++ [o] }, true)
  | destroyed (i : Nat) (o : SlotOwner) (leased : Bool) (ho : d.owners[i]? = some o) :
      CallOutcome d c
        ({ d with
            reservations := o.releases.foldl (release maxSignals) d.reservations
            executionLeased := leased
            owners := d.owners.eraseIdx i }, true)

theorem Growing.takes {r : Nat → Nat} {s : PlanSlots} (h : Growing r s) :
    Takes r s.reservations (.plan s.ownedSignalSlots s.allocated) :=
  ⟨h.counts, h.allocated_nodup, h.allocated_free, h.allocated_owned⟩

theorem Taken.takes {r r' : Nat → Nat} {ks : List Nat} (h : Taken r r' ks) {l : RendezvousLease}
    (hl : l.slots.Perm ks) : Takes r r' (.lease l) := by
  refine ⟨?_, hl.nodup_iff.2 h.nodup, fun k hk => h.free k (hl.subset hk), List.Subset.refl _⟩
  intro j
  show r' j = r j + if j < maxSignals then l.slots.count j else 0
  rw [h.counts j, hl.count_eq]
  split
  · rfl
  · rename_i hj
    rw [count_eq_zero_of_not_mem fun hmem => hj (h.free j hmem).1]

theorem call_outcome (d : SlotDevice) (c : SlotCall) : CallOutcome d c (d.call c) := by
  cases c with
  | leaseResources rendezvous scalars =>
    unfold SlotDevice.call
    dsimp only
    cases hlease : leaseResources d.reservations rendezvous scalars with
    | mk l r =>
      obtain ⟨rfl, rfl⟩ | ⟨lease, ks, rfl, htaken, hperm⟩ := leaseResources_spec _ _ _ hlease
      · exact .threw _ fun _ => rfl
      · exact .added (.lease lease) r d.executionLeased fun hdistinct =>
          htaken.takes (hperm hdistinct.1 hdistinct.2)
  | compileProgram p rejected error =>
    unfold SlotDevice.call
    dsimp only
    split
    · exact .same false
    · rename_i hyes
      rw [not_or] at hyes
      have hgrow := construct_growing d.sentinelSlot p error d.reservations
      cases hs : construct d.sentinelSlot p error d.reservations with
      | mk ok s =>
        rw [hs] at hgrow
        cases ok with
        | false =>
          exact .threw _ fun hlow =>
            construct_threw ((hlow.resolve_left hyes.1).resolve_left hyes.2) hs
        | true => exact .added _ _ true fun _ => hgrow.takes
  | projectProgram p rejected error =>
    unfold SlotDevice.call
    dsimp only
    split
    · exact .same false
    · rename_i hyes
      have hgrow := construct_growing d.sentinelSlot p error d.reservations
      cases hs : construct d.sentinelSlot p error d.reservations with
      | mk ok s =>
        rw [hs] at hgrow
        cases ok with
        | false => exact .threw _ fun hlow => construct_threw (hlow.resolve_left hyes) hs
        | true =>
          dsimp only at hgrow ⊢
          rw [hgrow.rollback]
          exact .same true
  | destroy i =>
    unfold SlotDevice.call
    dsimp only
    cases ho : d.owners[i]? with
    | none => exact .same true
    | some o => exact .destroyed i o _ ho

theorem Conserved.step (h : Conserved d) {c : SlotCall} (hdistinct : c.Distinct)
    (hlow : d.Lowered c) : Conserved (d.step c) := by
  have houtcome := call_outcome d c
  unfold SlotDevice.step
  revert houtcome
  generalize d.call c = result
  intro houtcome
  cases houtcome with
  | same ok => exact h
  | threw r hr => exact h.congr rfl rfl (hr hlow)
  | added o r leased ho => exact h.add rfl rfl (ho hdistinct)
  | destroyed i o leased ho => exact h.destroy ho rfl rfl rfl

theorem call_threw {c : SlotCall} (hlow : d.Lowered c) (hthrew : (d.call c).2 = false) :
    (d.call c).1.reservations = d.reservations := by
  have houtcome := call_outcome d c
  revert houtcome hthrew
  generalize d.call c = result
  intro hthrew houtcome
  cases houtcome with
  | same ok => rfl
  | threw r hr => exact hr hlow
  | added o r leased ho => cases hthrew
  | destroyed i o leased ho => cases hthrew

theorem sentinel_step (c : SlotCall) : (d.step c).sentinelSlot = d.sentinelSlot := by
  have houtcome := call_outcome d c
  unfold SlotDevice.step
  revert houtcome
  generalize d.call c = result
  intro houtcome
  cases houtcome <;> rfl

/-- In every run in which the plans of direct programs are constructed or turned away before they
take slots: no slot is allocated to two live owners, the sentinel is allocated to none, a call that
throws leaves every count as it was, and without owners the counts are those of a new device. -/
theorem slots_conserved (sentinelSlot : Nat) (calls : List SlotCall)
    (h : Along SlotDevice.step (fun d c => c.Distinct ∧ d.Lowered c) (.init sentinelSlot) calls) :
    ((runFrom SlotDevice.step (.init sentinelSlot) calls).owners.flatMap SlotOwner.held).Nodup ∧
      sentinelSlot ∉
        (runFrom SlotDevice.step (.init sentinelSlot) calls).owners.flatMap SlotOwner.held ∧
      (∀ c, (runFrom SlotDevice.step (.init sentinelSlot) calls).Lowered c →
        ((runFrom SlotDevice.step (.init sentinelSlot) calls).call c).2 = false →
        ((runFrom SlotDevice.step (.init sentinelSlot) calls).call c).1.reservations =
          (runFrom SlotDevice.step (.init sentinelSlot) calls).reservations) ∧
      ((runFrom SlotDevice.step (.init sentinelSlot) calls).owners = [] →
        (runFrom SlotDevice.step (.init sentinelSlot) calls).reservations =
          (SlotDevice.init sentinelSlot).reservations) := by
  obtain ⟨hconserved, hsentinel⟩ := Along.invariant
    (I := fun d : SlotDevice => Conserved d ∧ d.sentinelSlot = sentinelSlot)
    (fun d c hc hd => ⟨hd.1.step hc.1 hc.2, (sentinel_step c).trans hd.2⟩) h
    ⟨Conserved.init sentinelSlot, rfl⟩
  refine ⟨hconserved.nodup, ?_, fun c hlow hthrew => call_threw hlow hthrew, ?_⟩
  · intro hmem
    exact (hconserved.inside _ hmem).2 hsentinel.symm
  · intro hnone
    funext j
    rw [hconserved.counts j, hnone, hsentinel]
    simp

/-- A signal on slot 3 and a kernel with one output scalar. -/
def signalAndKernel : DirectProgram where
  tree := .mk
    [.signal { id := "s", slot := 3, value := 1, operation := .set },
      .kernel { id := "k", kernel := { name := "sum", outputScalars := [⟨"total", .u32⟩] } }] []

theorem slots_conserved_run :
    (runFrom SlotDevice.step (.init 255)
      [.leaseResources [4] [9], .compileProgram signalAndKernel false none, .destroy 1,
        .destroy 0]).reservations = (SlotDevice.init 255).reservations := by
  have hlowers : Lowers ((SlotDevice.init 255).step (.leaseResources [4] [9])) signalAndKernel
      none := ⟨rfl, by decide +kernel, by decide +kernel⟩
  refine (slots_conserved 255 _ ?_).2.2.2 (by rfl)
  exact ⟨⟨⟨by decide, by decide⟩, trivial⟩, ⟨trivial, .inr (.inr (.inr hlowers))⟩,
    ⟨trivial, trivial⟩, ⟨trivial, trivial⟩, trivial⟩

/-- The kernel of `signalAndKernel` cannot be resolved: the call throws, no plan is left, and slot 3
stays reserved. -/
theorem slots_lost_by_constructor :
    ((SlotDevice.init 255).call (.compileProgram signalAndKernel false (some 1))).2 = false ∧
      ((SlotDevice.init 255).call
        (.compileProgram signalAndKernel false (some 1))).1.owners.length = 0 ∧
      ((SlotDevice.init 255).call
        (.compileProgram signalAndKernel false (some 1))).1.reservations 3 = 1 ∧
      (SlotDevice.init 255).reservations 3 = 0 := by
  decide +kernel

end Slash.Fpga
