import Slash.Daemon.Sound

/-!
# Descriptors and the slots that hold them

Every record of a device that keeps a descriptor is a slot: a BAR file, the transfer descriptor of
a buffer, the input of the design writer. `World.Accounted` is the other direction of
`Device.Sound`: a descriptor that a device is to close is in a slot of a device on the list, and
the calls that opened and closed descriptors balance with what is open.
-/

namespace Slash.Daemon

open Lib List

/-- The slots of a device in use, each with whom it holds its descriptor for. -/
def Device.slots (d : Device) : List (Nat × Holder) :=
  d.bars.reduceOption.map (fun n => (n, .bar d.id)) ++
    d.buffers.filterMap (fun b => b.fd.map fun n => (n, .transfer d.id b.clientId b.id)) ++
    (d.writer.bind (·.inputFd)).toList.map fun n => (n, .writer d.id)

theorem Device.slots_fds (d : Device) : d.slots.map Prod.fst = d.fds := by
  simp only [Device.slots, Device.fds, map_append, map_map, map_filterMap]
  congr 2
  · exact map_id' _
  · refine filterMap_congr fun b _ => ?_
    cases b.fd <;> rfl
  · exact map_id' _

theorem Device.mem_slots {d : Device} {n : Nat} {holder : Holder} : (n, holder) ∈ d.slots ↔
    some n ∈ d.bars ∧ holder = .bar d.id ∨
    (∃ b ∈ d.buffers, b.fd = some n ∧ holder = .transfer d.id b.clientId b.id) ∨
    ∃ writer, d.writer = some writer ∧ writer.inputFd = some n ∧ holder = .writer d.id := by
  simp only [Device.slots, mem_append, mem_map, reduceOption_mem_iff,
    mem_filterMap, Option.map_eq_some_iff, Option.mem_toList,
    Option.bind_eq_some_iff, Prod.mk.injEq]
  constructor
  · rintro ((⟨m, hm, rfl, rfl⟩ | ⟨b, hb, m, hm, rfl, rfl⟩) | ⟨m, ⟨writer, hw, hm⟩, rfl, rfl⟩)
    · exact .inl ⟨hm, rfl⟩
    · exact .inr (.inl ⟨b, hb, hm, rfl⟩)
    · exact .inr (.inr ⟨writer, hw, hm, rfl⟩)
  · rintro (⟨hm, rfl⟩ | ⟨b, hb, hm, rfl⟩ | ⟨writer, hw, hm, rfl⟩)
    · exact .inl (.inl ⟨n, hm, rfl, rfl⟩)
    · exact .inl (.inr ⟨b, hb, n, hm, rfl, rfl⟩)
    · exact .inr ⟨n, ⟨writer, hw, hm⟩, rfl, rfl⟩

theorem Device.slots_device {d : Device} {n : Nat} {holder : Holder} (h : (n, holder) ∈ d.slots) :
    holder.device? = some d.id := by
  rcases Device.mem_slots.mp h with ⟨-, rfl⟩ | ⟨b, -, -, rfl⟩ | ⟨writer, -, -, rfl⟩ <;> rfl

theorem Device.slots_congr {d d' : Device} (hid : d'.id = d.id) (hbars : d'.bars = d.bars)
    (hbuffers : d'.buffers = d.buffers) (hwriter : d'.writer = d.writer) : d'.slots = d.slots := by
  rw [Device.slots, hid, hbars, hbuffers, hwriter]
  rfl

section Slots

variable {t : Handles Descriptor} {next : Nat} {d : Device} (h : d.Sound t next)
include h

theorem Device.Sound.slots {n : Nat} {holder : Holder} (hslot : (n, holder) ∈ d.slots) :
    Held t n holder := by
  rcases Device.mem_slots.mp hslot with ⟨hbar, rfl⟩ | ⟨b, hb, hfd, rfl⟩ | ⟨writer, hw, hin, rfl⟩
  · exact h.bars n hbar
  · obtain ⟨m, hm, hheld⟩ := h.transfers b hb
    cases hfd.symm.trans hm
    exact hheld
  · exact (h.writers writer hw).2 n hin

theorem Device.Sound.slots_nodup (hbars : d.bars.reduceOption.Nodup) : d.slots.Nodup := by
  have hbuffers : (d.buffers.filterMap fun b =>
      b.fd.map fun n => (n, Holder.transfer d.id b.clientId b.id)).Nodup := by
    refine pairwise_filterMap.mpr ((pairwise_map.mp h.buffer_ids).imp ?_)
    intro b b' hne x hx y hy heq
    obtain ⟨n, -, rfl⟩ := Option.map_eq_some_iff.mp hx
    obtain ⟨m, -, rfl⟩ := Option.map_eq_some_iff.mp hy
    exact hne (Holder.transfer.inj (Prod.mk.inj heq).2).2.2
  have hwriter : ((d.writer.bind (·.inputFd)).toList.map fun n => (n, Holder.writer d.id)).Nodup := by
    cases d.writer.bind (·.inputFd) with
    | none => exact nodup_nil
    | some n => exact nodup_singleton _
  -- slots of different kinds hold for different holders
  refine nodup_append'.mpr ⟨nodup_append'.mpr ⟨?_, hbuffers, ?_⟩, hwriter, ?_⟩
  · exact hbars.map fun n m heq => (Prod.mk.inj heq).1
  · intro x hx hx'
    obtain ⟨n, -, rfl⟩ := mem_map.mp hx
    obtain ⟨b, -, hb⟩ := mem_filterMap.mp hx'
    obtain ⟨m, -, heq⟩ := Option.map_eq_some_iff.mp hb
    cases heq
  · intro x hx hx'
    obtain ⟨n, -, rfl⟩ := mem_map.mp hx'
    rcases mem_append.mp hx with hx | hx
    · obtain ⟨m, -, heq⟩ := mem_map.mp hx
      cases heq
    · obtain ⟨b, -, hb⟩ := mem_filterMap.mp hx
      obtain ⟨m, -, heq⟩ := Option.map_eq_some_iff.mp hb
      cases heq

/-- A teardown closes no number twice. -/
theorem Device.Sound.fds_nodup (hbars : d.bars.reduceOption.Nodup) : d.fds.Nodup := by
  rw [← Device.slots_fds]
  refine (h.slots_nodup hbars).map_on fun x hx y hy heq => ?_
  obtain ⟨n, holder⟩ := x
  obtain ⟨m, holder'⟩ := y
  cases heq
  obtain ⟨object, hget⟩ := h.slots hx
  exact congrArg (Prod.mk n) ((h.slots hy).holder_eq hget)

theorem Device.Sound.fds_open {n : Nat} (hn : n ∈ d.fds) : (t.get? n).isSome := by
  obtain ⟨holder, ⟨object, hget⟩, -⟩ := h.fds hn
  rw [hget]
  rfl

end Slots

theorem Held.isSome {t : Handles Descriptor} {n : Nat} {holder : Holder} (h : Held t n holder) :
    (t.get? n).isSome := by
  obtain ⟨object, hget⟩ := h
  rw [hget]
  rfl

/-! ## The shared state -/

structure World.Accounted (w : World) : Prop where
  balanced : Balanced Descriptor.object w.fds w.ledger w.next
  bars : ∀ d ∈ w.devices, d.bars.reduceOption.Nodup
  owned : ∀ n x, w.fds.get? n = some x → x.holder.device?.isSome →
    ∃ d ∈ w.devices, (n, x.holder) ∈ d.slots

namespace World.Accounted

variable {w : World} (h : w.Accounted)
include h

theorem note (x : Note) : (w.note x).Accounted := ⟨h.balanced, h.bars, h.owned⟩

theorem close (ns : List Nat) (hns : ns.Nodup) (huse : ∀ n ∈ ns, (w.fds.get? n).isSome) :
    (w.closeFds ns).Accounted where
  balanced := h.balanced.giveBack hns huse
  bars := h.bars
  owned := fun n x hn hx => h.owned n x (Handles.get?_of_eraseAll hn).1 hx

theorem close_slot (slot : Option Nat) {holder : Holder}
    (hslot : ∀ n, slot = some n → Held w.fds n holder) : (w.closeFds slot.toList).Accounted :=
  h.close _ (by cases slot <;> simp) fun n hn => (hslot n (Option.mem_toList.mp hn)).isSome

theorem openFd (wish : Nat) {holder : Holder} (hholder : holder.device? = none) :
    (w.openFd wish holder).2.Accounted where
  balanced := h.balanced.handOut (Handles.get?_unused _ wish) rfl
  bars := h.bars
  owned := fun n x hn hx => by
    rw [show (w.openFd wish holder).2.fds = w.fds.set _ ⟨w.next, holder⟩ from rfl,
      Handles.get?_set] at hn
    split at hn
    · cases hn
      rw [hholder] at hx
      cases hx
    · exact h.owned n x hn hx

/-- A descriptor changes hands, from somebody who is not a device to somebody who is not one. -/
theorem hold {n : Nat} {x : Descriptor} (hn : w.fds.get? n = some x) {holder : Holder}
    (hholder : holder.device? = none) : (w.hold n holder).Accounted := by
  have heq : w.hold n holder = { w with fds := w.fds.set n { x with holder := holder } } := by
    simp only [World.hold, hn]
  rw [heq]
  refine ⟨h.balanced.change hn rfl, h.bars, fun m y hm hy => ?_⟩
  rw [Handles.get?_set] at hm
  split at hm
  · cases hm
    rw [show (⟨x.object, holder⟩ : Descriptor).holder = holder from rfl, hholder] at hy
    cases hy
  · exact h.owned m y hm hy

end World.Accounted

end Slash.Daemon
