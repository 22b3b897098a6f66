import Slash.Daemon.Loop
import Slash.Vrtd.Arena

/-!
# What the daemon's records say about each other

Ownership is written down in several places: the stamps of a memory map and the buffers of its
device, the queue pairs of the driver and the ids in the buffers, the numbers in the records and
the kernel's table. `Device.Sound` says how the records of one device fit together; it looks at the
table only through the descriptors the device is to close, so it survives whatever keeps those.
-/

namespace Slash.Daemon

open Lib
open Vrtd

/-! ## Field lemmas -/

section Fields

variable (w : World)

@[simp] theorem note_devices (n : Note) : (w.note n).devices = w.devices := rfl
@[simp] theorem note_fds (n : Note) : (w.note n).fds = w.fds := rfl
@[simp] theorem note_next (n : Note) : (w.note n).next = w.next := rfl
@[simp] theorem note_worker (n : Note) : (w.note n).worker = w.worker := rfl
@[simp] theorem note_async (n : Note) : (w.note n).asyncInProgress = w.asyncInProgress := rfl
@[simp] theorem note_deferred (n : Note) : (w.note n).deferred = w.deferred := rfl
@[simp] theorem note_log (n : Note) : (w.note n).log = n :: w.log := rfl

@[simp] theorem updDevice_fds (id : Nat) (f : Device → Device) :
    (w.updDevice id f).fds = w.fds := rfl
@[simp] theorem updDevice_next (id : Nat) (f : Device → Device) :
    (w.updDevice id f).next = w.next := rfl
@[simp] theorem updDevice_worker (id : Nat) (f : Device → Device) :
    (w.updDevice id f).worker = w.worker := rfl
@[simp] theorem updDevice_async (id : Nat) (f : Device → Device) :
    (w.updDevice id f).asyncInProgress = w.asyncInProgress := rfl
@[simp] theorem updDevice_deferred (id : Nat) (f : Device → Device) :
    (w.updDevice id f).deferred = w.deferred := rfl
@[simp] theorem updDevice_log (id : Nat) (f : Device → Device) :
    (w.updDevice id f).log = w.log := rfl

variable (ns : List Nat)

@[simp] theorem closeFds_devices : (w.closeFds ns).devices = w.devices := rfl
@[simp] theorem closeFds_fds : (w.closeFds ns).fds = w.fds.eraseAll ns := rfl
@[simp] theorem closeFds_next : (w.closeFds ns).next = w.next := rfl
@[simp] theorem closeFds_worker : (w.closeFds ns).worker = w.worker := rfl
@[simp] theorem closeFds_async :
    (w.closeFds ns).asyncInProgress = w.asyncInProgress := rfl
@[simp] theorem closeFds_deferred : (w.closeFds ns).deferred = w.deferred := rfl
@[simp] theorem closeFds_log : (w.closeFds ns).log = w.log := rfl

theorem hold_eq (n : Nat) (holder : Holder) :
    w.hold n holder = { w with fds := (w.hold n holder).fds } := by
  unfold World.hold
  split <;> rfl

end Fields

/-! ## Devices -/

def Buffer.block? (b : Buffer) : Option Block :=
  if b.allocationValid then
    b.allocType.memoryClass.map fun cls =>
      ⟨cls, cls.subregionOf b.addr.toNat, b.size.toNat / subregionSize, b.clientId⟩
  else none

def Device.blocks (d : Device) : List Block := d.buffers.filterMap Buffer.block?

/-- An allocated buffer names its block by the block's own address and length. -/
def Buffer.Placed (b : Buffer) : Prop :=
  b.allocationValid = true → ∃ blk, b.block? = some blk ∧ b.addr.toNat = blk.addr ∧
    b.size.toNat = blk.count * subregionSize

def Held (t : Handles Descriptor) (n : Nat) (holder : Holder) : Prop :=
  ∃ object, t.get? n = some ⟨object, holder⟩

def Holder.device? : Holder → Option Nat
  | .bar device | .transfer device _ _ | .writer device => some device
  | _ => none

structure Device.Sound (t : Handles Descriptor) (next : Nat) (d : Device) : Prop where
  id_lt : d.id < next
  buffer_lt : ∀ b ∈ d.buffers, b.id < next
  buffer_ids : (d.buffers.map (·.id)).Nodup
  memory : Arena.Sound ⟨d.memoryMap, d.blocks⟩
  placed : ∀ b ∈ d.buffers, b.Placed
  qpairs : ∀ q ∈ d.qpairs, ∀ c, q.owner = some c →
    q.refused = true ∨ ∃ b ∈ d.buffers, b.clientId = c ∧ q.qid ∈ b.qids
  bars : ∀ n, some n ∈ d.bars → Held t n (.bar d.id)
  transfers : ∀ b ∈ d.buffers, ∃ n, b.fd = some n ∧ Held t n (.transfer d.id b.clientId b.id)
  writers : ∀ writer, d.writer = some writer → writer.busy = writer.inputFd.isSome ∧
    ∀ n, writer.inputFd = some n → Held t n (.writer d.id)

theorem Held.keeps {t t' : Handles Descriptor} {P : Descriptor → Prop} {n : Nat} {holder : Holder}
    (h : Held t n holder) (hkeep : t.Keeps P t') (hp : ∀ object, P ⟨object, holder⟩) :
    Held t' n holder := by
  obtain ⟨object, hget⟩ := h
  exact ⟨object, hkeep n _ hget (hp object)⟩

variable {t : Handles Descriptor}

theorem Held.holder_eq {n : Nat} {holder : Holder} {d : Descriptor} (h : Held t n holder)
    (hget : t.get? n = some d) : d.holder = holder := by
  obtain ⟨object, hget'⟩ := h
  rw [hget'] at hget
  cases hget
  rfl

theorem Device.Sound.keeps {t t' : Handles Descriptor} {next next' : Nat} {d : Device}
    (h : d.Sound t next) (hkeep : t.Keeps (fun x => x.holder.device? = some d.id) t')
    (hle : next ≤ next') : d.Sound t' next' where
  id_lt := Nat.lt_of_lt_of_le h.id_lt hle
  buffer_lt := fun b hb => Nat.lt_of_lt_of_le (h.buffer_lt b hb) hle
  buffer_ids := h.buffer_ids
  memory := h.memory
  placed := h.placed
  qpairs := h.qpairs
  bars := fun n hn => (h.bars n hn).keeps hkeep fun _ => rfl
  transfers := fun b hb => by
    obtain ⟨n, hfd, hheld⟩ := h.transfers b hb
    exact ⟨n, hfd, hheld.keeps hkeep fun _ => rfl⟩
  writers := fun writer hw =>
    ⟨(h.writers writer hw).1, fun n hn => ((h.writers writer hw).2 n hn).keeps hkeep fun _ => rfl⟩

/-- Every descriptor that goes with a device is the device's to close. -/
theorem Device.Sound.fds {next : Nat} {d : Device} (h : d.Sound t next) {n : Nat} (hn : n ∈ d.fds) :
    ∃ holder, Held t n holder ∧ holder.device? = some d.id := by
  simp only [Device.fds, List.mem_append, List.reduceOption_mem_iff, List.mem_filterMap,
    Option.mem_toList, Option.bind_eq_some_iff] at hn
  rcases hn with (hbar | ⟨b, hb, hfd⟩) | ⟨writer, hw, hin⟩
  · exact ⟨_, h.bars n hbar, rfl⟩
  · obtain ⟨n', hfd', hheld⟩ := h.transfers b hb
    rw [hfd] at hfd'
    cases hfd'
    exact ⟨_, hheld, rfl⟩
  · exact ⟨_, (h.writers writer hw).2 n hin, rfl⟩

/-! ## The shared state -/

/-- Every open descriptor stands for an object of its own, none of them still to come. -/
structure Table (t : Handles Descriptor) (next : Nat) : Prop where
  lt : ∀ n d, t.get? n = some d → d.object < next
  inj : ∀ n m d d', t.get? n = some d → t.get? m = some d' → d.object = d'.object → n = m

structure World.Sound (w : World) : Prop where
  ids : (w.devices.map (·.id)).Nodup
  devices : ∀ d ∈ w.devices, d.Sound w.fds w.next
  worker : ∀ j, w.worker.job = some j → ∀ n, j.inputFd = some n → Held w.fds n .worker
  table : Table w.fds w.next

theorem Table.le {next next' : Nat} (h : Table t next) (hle : next ≤ next') : Table t next' :=
  ⟨fun n d hn => Nat.lt_of_lt_of_le (h.lt n d hn) hle, h.inj⟩

theorem Table.eraseAll {next : Nat} (h : Table t next) (ns : List Nat) :
    Table (t.eraseAll ns) next where
  lt := fun n d hn => h.lt n d (Handles.get?_of_eraseAll hn).1
  inj := fun n m d d' hn hm => h.inj n m d d' (Handles.get?_of_eraseAll hn).1
    (Handles.get?_of_eraseAll hm).1

theorem Table.open {next : Nat} (h : Table t next) (n : Nat) (holder : Holder) :
    Table (t.set n ⟨next, holder⟩) (next + 1) where
  lt := fun m d hm => by
    rw [Handles.get?_set] at hm
    split at hm
    · cases hm
      exact Nat.lt_succ_self next
    · exact Nat.lt_succ_of_lt (h.lt m d hm)
  inj := fun m m' d d' hm hm' heq => by
    rw [Handles.get?_set] at hm hm'
    split at hm <;> split at hm'
    · rename_i h1 h2
      exact h1.trans h2.symm
    · cases hm
      exact absurd heq.symm (Nat.ne_of_lt (h.lt m' d' hm'))
    · cases hm'
      exact absurd heq (Nat.ne_of_lt (h.lt m d hm))
    · exact h.inj m m' d d' hm hm' heq

theorem Table.hold {next n : Nat} {d : Descriptor} (h : Table t next) (hn : t.get? n = some d)
    (holder : Holder) :
    Table (t.set n { d with holder := holder }) next where
  lt := fun m x hm => by
    rw [Handles.get?_set] at hm
    split at hm
    · cases hm
      exact h.lt n d hn
    · exact h.lt m x hm
  inj := fun m m' x x' hm hm' heq => by
    rw [Handles.get?_set] at hm hm'
    split at hm <;> split at hm'
    · rename_i h1 h2
      exact h1.trans h2.symm
    · rename_i h1 h2
      cases hm
      exact absurd (h.inj n m' d x' hn hm' heq).symm h2
    · rename_i h1 h2
      cases hm'
      exact absurd (h.inj m n x d hm hn heq) h1
    · exact h.inj m m' x x' hm hm' heq

theorem World.Sound.eq_of_id {w : World} (h : w.Sound) {d d' : Device} (hd : d ∈ w.devices)
    (hd' : d' ∈ w.devices) (hid : d.id = d'.id) : d = d' :=
  List.inj_on_of_nodup_map h.ids hd hd' hid

theorem World.Sound.device? {w : World} (h : w.Sound) {d : Device} (hd : d ∈ w.devices) :
    w.device? d.id = some d :=
  find?_key h.ids hd

theorem World.device?_mem {w : World} {id : Nat} {d : Device} (h : w.device? id = some d) :
    d ∈ w.devices ∧ d.id = id :=
  ⟨List.mem_of_find?_eq_some h, by simpa using List.find?_some h⟩

end Slash.Daemon
