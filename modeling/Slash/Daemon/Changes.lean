import Slash.Daemon.Accounts

/-!
# What a handler may do to the shared state

`Change σ w w'` is all that the event loop's proofs need to know of a piece of work on the shared
state: it keeps the records sound and the descriptors accounted for, and what it takes away lies in
its scope `σ` (devices that may go, holders whose descriptors may be closed, connections whose
buffers may come and go, whether a descriptor may be handed out). It holds of doing nothing and
composes, so each function needs one lemma and handlers only chain them.
-/

namespace Slash.Daemon

open Lib
open Libvrtd (Ret)
open Vrtd

structure Scope where
  gone : Nat → Prop
  shut : Holder → Prop
  conn : U64 → Prop
  hands : Prop

def Scope.empty : Scope := ⟨fun _ => False, fun _ => False, fun _ => False, False⟩

structure Change (σ : Scope) (w w' : World) : Prop where
  worker : w'.worker = w.worker
  async : w'.asyncInProgress = w.asyncInProgress
  deferred : w'.deferred = w.deferred
  log : w'.log = w.log
  next_le : w.next ≤ w'.next
  sound : w'.Sound
  accounted : w.Accounted → w'.Accounted
  keeps : w.fds.Keeps (fun d => ¬ σ.shut d.holder) w'.fds
  opened : ∀ n d, w'.fds.get? n = some d → w.fds.get? n = some d ∨
    w.next ≤ d.object ∧ (d.holder.device?.isSome ∨ d.holder = .handedOut ∧ σ.hands)
  kept : ∀ d ∈ w.devices, ¬ σ.gone d.id → ∃ d' ∈ w'.devices, d'.id = d.id ∧ d'.writer = d.writer
  came : ∀ d' ∈ w'.devices,
    (∃ d ∈ w.devices, d.id = d'.id ∧ d.bdf = d'.bdf ∧ d.writer = d'.writer) ∨
    w.next ≤ d'.id ∧ ∀ writer, d'.writer = some writer → writer = {}
  buffers : ∀ d' ∈ w'.devices, ∀ b ∈ d'.buffers,
    (∃ d ∈ w.devices, d.id = d'.id ∧ b ∈ d.buffers) ∨ σ.conn b.clientId

variable {σ : Scope} {w w' w'' : World}

theorem Change.refl (h : w.Sound) : Change σ w w where
  worker := rfl
  async := rfl
  deferred := rfl
  log := rfl
  next_le := Nat.le_refl _
  sound := h
  accounted := id
  keeps := Handles.Keeps.refl _ _
  opened := fun _ _ hn => .inl hn
  kept := fun d hd _ => ⟨d, hd, rfl, rfl⟩
  came := fun d hd => .inl ⟨d, hd, rfl, rfl, rfl⟩
  buffers := fun d hd _ hb => .inl ⟨d, hd, rfl, hb⟩

theorem Change.trans (h : Change σ w w') (h' : Change σ w' w'') : Change σ w w'' where
  worker := h'.worker.trans h.worker
  async := h'.async.trans h.async
  deferred := h'.deferred.trans h.deferred
  log := h'.log.trans h.log
  next_le := Nat.le_trans h.next_le h'.next_le
  sound := h'.sound
  accounted := fun ha => h'.accounted (h.accounted ha)
  keeps := h.keeps.trans h'.keeps
  opened := fun n d hn => by
    rcases h'.opened n d hn with hn' | ⟨hle, hh⟩
    · exact h.opened n d hn'
    · exact .inr ⟨Nat.le_trans h.next_le hle, hh⟩
  kept := fun d hd hgone => by
    obtain ⟨d', hd', hid, hw⟩ := h.kept d hd hgone
    obtain ⟨d'', hd'', hid', hw'⟩ := h'.kept d' hd' (hid ▸ hgone)
    exact ⟨d'', hd'', hid'.trans hid, hw'.trans hw⟩
  came := fun d'' hd'' => by
    rcases h'.came d'' hd'' with ⟨d', hd', hid', hbdf', hw'⟩ | ⟨hle, hidle⟩
    · rcases h.came d' hd' with ⟨d, hd, hid, hbdf, hw⟩ | ⟨hle, hidle⟩
      · exact .inl ⟨d, hd, hid.trans hid', hbdf.trans hbdf', hw.trans hw'⟩
      · exact .inr ⟨hid' ▸ hle, hw' ▸ hidle⟩
    · exact .inr ⟨Nat.le_trans h.next_le hle, hidle⟩
  buffers := fun d'' hd'' b hb => by
    rcases h'.buffers d'' hd'' b hb with ⟨d', hd', hid', hb'⟩ | hconn
    · rcases h.buffers d' hd' b hb' with ⟨d, hd, hid, hb⟩ | hconn
      · exact .inl ⟨d, hd, hid.trans hid', hb⟩
      · exact .inr hconn
    · exact .inr hconn

/-! ## Updates of one device -/

variable {f : Device → Device} {d : Device}

theorem mem_updDevice (h : w.Sound) (hd : d ∈ w.devices) {x : Device} :
    x ∈ (w.updDevice d.id f).devices ↔ x = f d ∨ x ∈ w.devices ∧ x.id ≠ d.id :=
  mem_replace_key h.ids hd

theorem updDevice_ids {id : Nat} (hf : ∀ d, (f d).id = d.id) :
    (w.updDevice id f).devices.map (·.id) = w.devices.map (·.id) :=
  map_replace_key fun d _ _ => hf d

theorem updDevice_updDevice {id : Nat} {f g : Device → Device} (hf : ∀ d, (f d).id = d.id) :
    (w.updDevice id f).updDevice id g = w.updDevice id fun d => g (f d) := by
  simp only [World.updDevice, List.map_map]
  congr 1
  refine List.map_congr_left fun d _ => ?_
  by_cases h : d.id = id
  · simp [h, hf]
  · simp [h]

variable {t : Handles Descriptor} {l : Ledger Descriptor} {next : Nat}

theorem World.Sound.device (h : w.Sound) (hd : d ∈ w.devices) (hf : ∀ x, (f x).id = x.id)
    (hnext : w.next ≤ next) (hs : (f d).Sound t next) (ht : Table t next)
    (hothers : w.fds.Keeps (fun x => x.holder = .worker ∨
      ∃ id, x.holder.device? = some id ∧ id ≠ d.id) t) :
    ({ w with fds := t, next := next, ledger := l }.updDevice d.id f).Sound where
  ids := by
    rw [updDevice_ids hf]
    exact h.ids
  devices := fun x hx => by
    rcases (mem_updDevice (w := w) h hd).mp hx with rfl | ⟨hx, hid⟩
    · exact hs
    · exact (h.devices x hx).keeps (hothers.mono fun y hy => .inr ⟨x.id, hy, hid⟩) hnext
  worker := fun j hj n hn => (h.worker j hj n hn).keeps hothers fun _ => .inl rfl
  table := ht

theorem World.Accounted.owned_by (ha : w.Accounted) (h : w.Sound) (hd : d ∈ w.devices) {n : Nat}
    {x : Descriptor} (hn : w.fds.get? n = some x) (hx : x.holder.device?.isSome) :
    (n, x.holder) ∈ d.slots ∨ x.holder.device? ≠ some d.id := by
  obtain ⟨y, hy, hslot⟩ := ha.owned n x hn hx
  by_cases hid : y.id = d.id
  · rw [h.eq_of_id hy hd hid] at hslot
    exact .inl hslot
  · refine .inr fun heq => hid ?_
    exact Option.some_inj.mp ((Device.slots_device hslot).symm.trans heq)

theorem World.Accounted.device (ha : w.Accounted) (h : w.Sound) (hd : d ∈ w.devices)
    (hbalanced : Balanced Descriptor.object t l next) (hbars : (f d).bars.reduceOption.Nodup)
    (hopened : ∀ n x, t.get? n = some x → x.holder.device?.isSome →
      (n, x.holder) ∈ (f d).slots ∨ w.fds.get? n = some x ∧ x.holder.device? ≠ some d.id) :
    ({ w with fds := t, next := next, ledger := l }.updDevice d.id f).Accounted where
  balanced := hbalanced
  bars := fun x hx => by
    rcases (mem_updDevice (w := w) h hd).mp hx with rfl | ⟨hx, -⟩
    · exact hbars
    · exact ha.bars x hx
  owned := fun n x hn hx => by
    rcases hopened n x hn hx with hslot | ⟨hold, hne⟩
    · exact ⟨f d, (mem_updDevice (w := w) h hd).mpr (.inl rfl), hslot⟩
    · obtain ⟨y, hy, hslot⟩ := ha.owned n x hold hx
      refine ⟨y, (mem_updDevice (w := w) h hd).mpr (.inr ⟨hy, fun heq => hne ?_⟩), hslot⟩
      rw [Device.slots_device hslot, heq]

theorem Change.device (h : w.Sound) (hd : d ∈ w.devices) (hf : ∀ x, (f x).id = x.id)
    (hbdf : (f d).bdf = d.bdf) (hw : (f d).writer = d.writer) (hnext : w.next ≤ next)
    (hs : (f d).Sound t next) (haccounted : w.Accounted →
      ({ w with fds := t, next := next, ledger := l }.updDevice d.id f).Accounted)
    (ht : Table t next) (hkeep : w.fds.Keeps (fun x => ¬ σ.shut x.holder) t)
    (hothers : w.fds.Keeps (fun x => x.holder.device? ≠ some d.id) t)
    (hopened : ∀ n x, t.get? n = some x → w.fds.get? n = some x ∨
      w.next ≤ x.object ∧ x.holder.device?.isSome)
    (hbuf : ∀ b ∈ (f d).buffers, b ∈ d.buffers ∨ σ.conn b.clientId) :
    Change σ w ({ w with fds := t, next := next, ledger := l }.updDevice d.id f) where
  worker := rfl
  async := rfl
  deferred := rfl
  log := rfl
  next_le := hnext
  sound := h.device hd hf hnext hs ht (hothers.mono fun x hx heq => by
    rcases hx with hx | ⟨id, hid, hne⟩
    · rw [hx] at heq
      cases heq
    · exact hne (Option.some_inj.mp (hid.symm.trans heq)))
  accounted := haccounted
  keeps := hkeep
  opened := fun n x hn => (hopened n x hn).imp id fun hx => ⟨hx.1, .inl hx.2⟩
  kept := fun x hx _ => by
    by_cases hid : x.id = d.id
    · rw [h.eq_of_id hx hd hid]
      exact ⟨f d, (mem_updDevice (w := w) h hd).mpr (.inl rfl), hf d, hw⟩
    · exact ⟨x, (mem_updDevice (w := w) h hd).mpr (.inr ⟨hx, hid⟩), rfl, rfl⟩
  came := fun x hx => by
    rcases (mem_updDevice (w := w) h hd).mp hx with rfl | ⟨hx, -⟩
    · exact .inl ⟨d, hd, (hf d).symm, hbdf.symm, hw.symm⟩
    · exact .inl ⟨x, hx, rfl, rfl, rfl⟩
  buffers := fun x hx b hb => by
    rcases (mem_updDevice (w := w) h hd).mp hx with rfl | ⟨hx, -⟩
    · exact (hbuf b hb).imp (fun hb => ⟨d, hd, (hf d).symm, hb⟩) id
    · exact .inl ⟨x, hx, rfl, hb⟩

/-- A queue pair was there before, belongs to nobody, or is one that the driver kept. -/
def Leftover (before : List Qpair) (q : Qpair) : Prop :=
  q.owner = none ∨ q.refused = true ∨
    ∃ p ∈ before, p.qid = q.qid ∧ p.owner = q.owner ∧ p.refused = q.refused

/-- Nothing changes on a device but the shell it is believed to run and its queue pairs. -/
structure Device.Mild (d d' : Device) : Prop where
  id : d'.id = d.id
  bdf : d'.bdf = d.bdf
  memoryMap : d'.memoryMap = d.memoryMap
  writer : d'.writer = d.writer
  bars : d'.bars = d.bars
  buffers : d'.buffers = d.buffers
  qpairs : ∀ q ∈ d'.qpairs, Leftover d.qpairs q

theorem Device.Mild.sound {d d' : Device} (h : Device.Mild d d') (hs : d.Sound t next) :
    d'.Sound t next where
  id_lt := h.id ▸ hs.id_lt
  buffer_lt := h.buffers ▸ hs.buffer_lt
  buffer_ids := h.buffers ▸ hs.buffer_ids
  memory := by
    rw [Device.blocks, h.memoryMap, h.buffers]
    exact hs.memory
  placed := h.buffers ▸ hs.placed
  qpairs := fun q hq c hc => by
    rcases h.qpairs q hq with hnone | href | ⟨p, hp, hqid, howner, hrefused⟩
    · rw [hc] at hnone
      cases hnone
    · exact .inl href
    · rw [h.buffers, ← hqid, ← hrefused]
      exact hs.qpairs p hp c (howner.trans hc)
  bars := by
    rw [h.bars, h.id]
    exact hs.bars
  transfers := by
    rw [h.buffers, h.id]
    exact hs.transfers
  writers := by
    rw [h.writer, h.id]
    exact hs.writers

/-- The table may be another list, as long as it says the same. -/
theorem Change.mild_table (h : w.Sound) (hd : d ∈ w.devices) (hf : ∀ x, (f x).id = x.id)
    (hmild : d.Mild (f d)) (hnext : w.next ≤ next) (ht : ∀ n, t.get? n = w.fds.get? n)
    (hbalanced : w.Accounted → Balanced Descriptor.object t l next) :
    Change σ w ({ w with fds := t, next := next, ledger := l }.updDevice d.id f) := by
  have hkeep : ∀ P, w.fds.Keeps P t := fun P n x hn _ => (ht n).trans hn
  have htable : Table t next :=
    ⟨fun n x hn => Nat.lt_of_lt_of_le (h.table.lt n x ((ht n).symm.trans hn)) hnext,
      fun n m x y hn hm => h.table.inj n m x y ((ht n).symm.trans hn) ((ht m).symm.trans hm)⟩
  have hslots : (f d).slots = d.slots :=
    Device.slots_congr hmild.id hmild.bars hmild.buffers hmild.writer
  refine Change.device h hd hf hmild.bdf hmild.writer hnext ?_ (fun ha => ?_) htable (hkeep _)
    (hkeep _) (fun n x hn => .inl ((ht n).symm.trans hn)) fun b hb => .inl (hmild.buffers ▸ hb)
  · exact (hmild.sound (h.devices d hd)).keeps (hkeep _) hnext
  · refine ha.device h hd (hbalanced ha) (hmild.bars ▸ ha.bars d hd) fun n x hn hx => ?_
    rcases ha.owned_by h hd ((ht n).symm.trans hn) hx with hslot | hne
    · exact .inl (hslots ▸ hslot)
    · exact .inr ⟨(ht n).symm.trans hn, hne⟩

theorem Change.mild (h : w.Sound) (hd : d ∈ w.devices) (hf : ∀ x, (f x).id = x.id)
    (hmild : d.Mild (f d)) (hnext : w.next ≤ next) :
    Change σ w ({ w with next := next }.updDevice d.id f) :=
  Change.mild_table (t := w.fds) (l := w.ledger) h hd hf hmild hnext (fun _ => rfl) fun ha =>
    ha.balanced.le hnext

end Slash.Daemon
