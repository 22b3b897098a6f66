import Slash.Daemon.Lifetime

/-!
# Whose design write it was

A design writer has one slot: a busy flag and the error of its last transfer. The thread fills it
in when a transfer is over, the timer reads it for the client that waits. The history says which
file a client submitted, how the transfer of a file ended and what a client was answered for which
file; the three fit together as long as nothing is submitted to a writer whose last result was not
collected, and no device goes away with a transfer under way or a result to collect.
-/

namespace Slash.Daemon

open Lib List
open Libvrtd (Ret)
open Vrtd (U64)

/-! ## What the history says about a file -/

structure Submission where
  client : Nat
  object : Nat
  device : Nat
  deriving DecidableEq, Repr

def submissions (log : List Note) : List Submission :=
  log.filterMap fun
    | .submitted client object device => some ⟨client, object, device⟩
    | _ => none

def outcomes (log : List Note) (object : Nat) : List Nat :=
  log.filterMap fun
    | .transferred object' error => if object' = object then some error else none
    | _ => none

/-- What was answered for a file: to whom, for which error, with which code. -/
def answers (log : List Note) (object : Nat) : List (Nat × Nat × Ret) :=
  log.filterMap fun
    | .answered client object' error ret => if object' = object then some (client, error, ret) else none
    | _ => none

/-- Two histories that differ in other things. -/
structure SameWrites (log log' : List Note) : Prop where
  submissions : submissions log' = submissions log
  outcomes : outcomes log' = outcomes log
  answers : answers log' = answers log

/-- Notes that are not about design writes. -/
def Note.Aside : Note → Prop
  | .submitted .. | .transferred .. | .answered .. => False
  | _ => True

theorem SameWrites.refl (log : List Note) : SameWrites log log := ⟨rfl, rfl, rfl⟩

theorem SameWrites.cons {log log' : List Note} (h : SameWrites log log') {x : Note}
    (hx : x.Aside) : SameWrites log (x :: log') := by
  obtain ⟨hsub, hout, hans⟩ := h
  cases x with
  | submitted | transferred | answered => exact hx.elim
  | connected | dispatched | finalising | removing | passed => exact ⟨hsub, hout, hans⟩

section Entries

variable {log : List Note} {client object object' device error : Nat} {ret : Ret}

@[simp] theorem submissions_submitted : submissions (.submitted client object device :: log) =
    ⟨client, object, device⟩ :: submissions log := rfl
@[simp] theorem submissions_transferred :
    submissions (.transferred object error :: log) = submissions log := rfl
@[simp] theorem submissions_answered :
    submissions (.answered client object error ret :: log) = submissions log := rfl
@[simp] theorem outcomes_submitted :
    outcomes (.submitted client object device :: log) object' = outcomes log object' := rfl
@[simp] theorem outcomes_answered :
    outcomes (.answered client object error ret :: log) object' = outcomes log object' := rfl
@[simp] theorem answers_submitted :
    answers (.submitted client object device :: log) object' = answers log object' := rfl
@[simp] theorem answers_transferred :
    answers (.transferred object error :: log) object' = answers log object' := rfl

theorem outcomes_transferred : outcomes (.transferred object error :: log) object' =
    if object = object' then error :: outcomes log object' else outcomes log object' := by
  unfold outcomes
  rw [filterMap_cons]
  split <;> simp_all

theorem answers_answered : answers (.answered client object error ret :: log) object' =
    if object = object' then (client, error, ret) :: answers log object'
    else answers log object' := by
  unfold answers
  rw [filterMap_cons]
  split <;> simp_all

end Entries

/-! ## Writers -/

def Writing (w : World) (device : Nat) (writer : DesignWriter) : Prop :=
  ∃ d ∈ w.devices, d.id = device ∧ d.writer = some writer

def InFlight (w : World) (object device : Nat) : Prop :=
  ∃ fd error, Writing w device ⟨some fd, true, error⟩ ∧
    w.fds.get? fd = some ⟨object, .writer device⟩

theorem Writing.unique {w : World} (hw : w.Sound) {device : Nat} {writer writer' : DesignWriter}
    (h : Writing w device writer) (h' : Writing w device writer') : writer = writer' := by
  obtain ⟨d, hd, hid, hwriter⟩ := h
  obtain ⟨d', hd', hid', hwriter'⟩ := h'
  rw [hw.eq_of_id hd hd' (hid.trans hid'.symm), hwriter'] at hwriter
  exact (Option.some_inj.mp hwriter).symm

theorem InFlight.object_eq {w : World} (hw : w.Sound) {object object' device : Nat}
    (h : InFlight w object device) (h' : InFlight w object' device) : object = object' := by
  obtain ⟨fd, error, hwriting, hget⟩ := h
  obtain ⟨fd', error', hwriting', hget'⟩ := h'
  cases hwriting.unique hw hwriting'
  rw [hget] at hget'
  cases hget'
  rfl

/-! ## What a piece of work leaves of the writers -/

/-- Transfers go on as they were, the slots of the devices in `awaited` stay, and no file comes
back. -/
structure Carries (awaited : Nat → Prop) (w w' : World) : Prop where
  next_le : w.next ≤ w'.next
  flight : ∀ object device, InFlight w' object device ↔ InFlight w object device
  slots : ∀ device writer, awaited device → Writing w device writer → Writing w' device writer
  objects : ∀ n d, w'.fds.get? n = some d → w.next ≤ d.object ∨
    ∃ m d', w.fds.get? m = some d' ∧ d'.object = d.object

theorem Carries.refl {awaited : Nat → Prop} {w w' : World} (hdevices : w'.devices = w.devices)
    (hfds : w'.fds = w.fds) (hnext : w'.next = w.next) : Carries awaited w w' where
  next_le := Nat.le_of_eq hnext.symm
  flight := fun object device => by simp only [InFlight, Writing, hdevices, hfds]
  slots := fun device writer _ h => by
    simp only [Writing, hdevices]
    exact h
  objects := fun n d hn => .inr ⟨n, d, hfds ▸ hn, rfl⟩

theorem Carries.trans {awaited : Nat → Prop} {w w' w'' : World} (h : Carries awaited w w')
    (h' : Carries awaited w' w'') : Carries awaited w w'' where
  next_le := Nat.le_trans h.next_le h'.next_le
  flight := fun object device => (h'.flight object device).trans (h.flight object device)
  slots := fun device writer hd hw => h'.slots device writer hd (h.slots device writer hd hw)
  objects := fun n d hn => by
    rcases h'.objects n d hn with hle | ⟨m, d', hm, hobject⟩
    · exact .inl (Nat.le_trans h.next_le hle)
    · rw [← hobject]
      exact h.objects m d' hm

theorem Carries.congr {awaited : Nat → Prop} {w w' w₁ w₁' : World} (h : Carries awaited w₁ w₁')
    (hw : (w.devices, w.fds, w.next) = (w₁.devices, w₁.fds, w₁.next))
    (hw' : (w'.devices, w'.fds, w'.next) = (w₁'.devices, w₁'.fds, w₁'.next)) :
    Carries awaited w w' := by
  simp only [Prod.mk.injEq] at hw hw'
  have hfirst : Carries awaited w w₁ := .refl hw.1.symm hw.2.1.symm hw.2.2.symm
  exact hfirst.trans (h.trans (.refl hw'.1 hw'.2.1 hw'.2.2))

/-- Descriptors of others may be closed, opened or change hands. -/
theorem Carries.table {awaited : Nat → Prop} {w w' : World} (hw : w.Sound)
    (hdevices : w'.devices = w.devices) (hnext : w.next ≤ w'.next)
    (hkeep : w.fds.Keeps (fun d => ∃ device, d.holder = .writer device) w'.fds)
    (hobjects : ∀ n d, w'.fds.get? n = some d → w.next ≤ d.object ∨
      ∃ m d', w.fds.get? m = some d' ∧ d'.object = d.object) : Carries awaited w w' where
  next_le := hnext
  flight := fun object device => by
    simp only [InFlight, Writing, hdevices]
    refine ⟨fun ⟨fd, error, hwriting, hget⟩ => ?_, fun ⟨fd, error, hwriting, hget⟩ =>
      ⟨fd, error, hwriting, hkeep fd _ hget ⟨device, rfl⟩⟩⟩
    obtain ⟨d, hd, hid, hwriter⟩ := hwriting
    obtain ⟨object', hget'⟩ := ((hw.devices d hd).writers _ hwriter).2 fd rfl
    rw [hid] at hget'
    have hkept := hkeep fd _ hget' ⟨device, rfl⟩
    rw [hget] at hkept
    cases hkept
    exact ⟨fd, error, ⟨d, hd, hid, hwriter⟩, hget'⟩
  slots := fun device writer _ h => by
    simp only [Writing, hdevices]
    exact h
  objects := hobjects

theorem Carries.close {awaited : Nat → Prop} {w : World} (hw : w.Sound) {ns : List Nat}
    (hns : ∀ n ∈ ns, ∃ holder, Held w.fds n holder ∧ ∀ device, holder ≠ .writer device) :
    Carries awaited w (w.closeFds ns) := by
  refine Carries.table hw rfl (Nat.le_refl _) (Handles.keeps_eraseAll fun n hn d hget hd => ?_)
    fun n d hn => .inr ⟨n, d, (Handles.get?_of_eraseAll hn).1, rfl⟩
  obtain ⟨holder, hheld, hne⟩ := hns n hn
  obtain ⟨device, hdevice⟩ := hd
  exact hne device ((hheld.holder_eq hget).symm.trans hdevice)

theorem Change.carries {σ : Scope} {w w' : World} (hchange : Change σ w w') (hw : w.Sound)
    {awaited : Nat → Prop} (hbusy : ∀ d ∈ w.devices, d.writerBusy = true → ¬ σ.gone d.id)
    (hawaited : ∀ device, awaited device → ¬ σ.gone device)
    (hshut : ∀ device, σ.shut (.writer device) → σ.gone device) : Carries awaited w w' := by
  -- a busy writer's input is not in the scope
  have hinput : ∀ d ∈ w.devices, ∀ fd error, d.writer = some ⟨some fd, true, error⟩ →
      ¬ σ.gone d.id ∧ ∃ object, w.fds.get? fd = some ⟨object, .writer d.id⟩ ∧
        w'.fds.get? fd = some ⟨object, .writer d.id⟩ := by
    intro d hd fd error hwriter
    have hgone := hbusy d hd (by rw [Device.writerBusy, hwriter]; rfl)
    obtain ⟨object, hget⟩ := ((hw.devices d hd).writers _ hwriter).2 fd rfl
    exact ⟨hgone, object, hget, hchange.keeps fd _ hget fun hs => hgone (hshut d.id hs)⟩
  refine ⟨hchange.next_le, fun object device => ⟨?_, ?_⟩, ?_, fun n d hn => ?_⟩
  · rintro ⟨fd, error, ⟨d', hd', hid', hwriter'⟩, hget'⟩
    rcases hchange.came d' hd' with ⟨d, hd, hid, -, hwriter⟩ | ⟨-, hnew⟩
    · obtain ⟨-, object', hget, hkept⟩ := hinput d hd fd error (hwriter.trans hwriter')
      rw [hget', hid, hid'] at hkept
      cases hkept
      rw [hid, hid'] at hget
      exact ⟨fd, error, ⟨d, hd, hid.trans hid', hwriter.trans hwriter'⟩, hget⟩
    · cases hnew _ hwriter'
  · rintro ⟨fd, error, ⟨d, hd, hid, hwriter⟩, hget⟩
    obtain ⟨hgone, object', hget', hkept⟩ := hinput d hd fd error hwriter
    obtain ⟨d', hd', hid', hwriter'⟩ := hchange.kept d hd hgone
    rw [hget', hid] at hget
    cases hget
    rw [hid] at hkept
    exact ⟨fd, error, ⟨d', hd', hid'.trans hid, hwriter'.trans hwriter⟩, hkept⟩
  · rintro device writer hdevice ⟨d, hd, hid, hwriter⟩
    obtain ⟨d', hd', hid', hwriter'⟩ := hchange.kept d hd (hid ▸ hawaited device hdevice)
    exact ⟨d', hd', hid'.trans hid, hwriter'.trans hwriter⟩
  · rcases hchange.opened n d hn with hn | ⟨hle, -⟩
    · exact .inr ⟨n, d, hn, rfl⟩
    · exact .inl hle

/-! ## The invariant -/

/-- A client that waits: its file is in flight, or the result of its transfer is in the slot. -/
structure Waits (w : World) (client : Nat) (p : PendingWrite) : Prop where
  submitted : ⟨client, p.object, p.device⟩ ∈ submissions w.log
  unanswered : answers w.log p.object = []
  slot : InFlight w p.object p.device ∨
    ∃ error, outcomes w.log p.object = [error] ∧ Writing w p.device ⟨none, false, error⟩

structure Attribution (s : State) : Prop where
  /-- A file is submitted once. -/
  files : ((submissions s.world.log).map (·.object)).Nodup
  known : ∀ u ∈ submissions s.world.log, u.client < s.world.next ∧ u.object < s.world.next
  /-- A file is in flight or was transferred once, and is then closed. -/
  transfer : ∀ u ∈ submissions s.world.log,
    outcomes s.world.log u.object = [] ∧ InFlight s.world u.object u.device ∨
    (∃ error, outcomes s.world.log u.object = [error]) ∧
      ∀ n d, s.world.fds.get? n = some d → d.object ≠ u.object
  /-- Only submitted files are transferred. -/
  flight : ∀ object device, InFlight s.world object device →
    ∃ u ∈ submissions s.world.log, u.object = object ∧ u.device = device
  outcome : ∀ object, outcomes s.world.log object ≠ [] →
    ∃ u ∈ submissions s.world.log, u.object = object
  answer : ∀ object, ∀ x ∈ answers s.world.log object,
    (∃ u ∈ submissions s.world.log, u.object = object ∧ u.client = x.1) ∧
      outcomes s.world.log object = [x.2.1] ∧ (x.2.1 ≠ 0 → x.2.2 = .internalError)
  /-- A client that is connected waits for the answer or got one. -/
  response : ∀ u ∈ submissions s.world.log, ∀ c ∈ s.clients, c.id = u.client →
    c.pendingDesignWrite = some ⟨u.device, u.object⟩ ∨
      ∃ error ret, answers s.world.log u.object = [(u.client, error, ret)]
  waits : ∀ c ∈ s.clients, ∀ p, c.pendingDesignWrite = some p → Waits s.world c.id p
  apart : (snapshot s.world s.clients).pending.Nodup

/-- What of the clients matters here. -/
def writeSlots (clients : List Client) : List (Nat × Option PendingWrite) :=
  clients.map fun c => (c.id, c.pendingDesignWrite)

theorem pending_eq (w : World) (clients : List Client) : (snapshot w clients).pending =
    (writeSlots clients).filterMap fun x => x.2.map (·.device) := by
  rw [writeSlots, filterMap_map]
  rfl

theorem mem_writeSlots {clients clients' : List Client}
    (h : writeSlots clients' = writeSlots clients) {c : Client} (hc : c ∈ clients') :
    ∃ c' ∈ clients, c'.id = c.id ∧ c'.pendingDesignWrite = c.pendingDesignWrite := by
  have hmem : (c.id, c.pendingDesignWrite) ∈ writeSlots clients := by
    rw [← h]
    exact mem_map_of_mem hc
  obtain ⟨c', hc', heq⟩ := mem_map.mp hmem
  exact ⟨c', hc', (Prod.mk.inj heq).1, (Prod.mk.inj heq).2⟩

theorem Waits.carry {awaited : Nat → Prop} {w w' : World} {client : Nat} {p : PendingWrite}
    (h : Waits w client p) (hcarries : Carries awaited w w') (hsame : SameWrites w.log w'.log)
    (hawaited : awaited p.device) : Waits w' client p where
  submitted := hsame.submissions ▸ h.submitted
  unanswered := hsame.answers ▸ h.unanswered
  slot := h.slot.imp (hcarries.flight _ _).mpr fun ⟨error, hout, hwriting⟩ =>
    ⟨error, hsame.outcomes ▸ hout, hcarries.slots _ _ hawaited hwriting⟩

/-- Work that is not about design writes. -/
theorem Attribution.carry {w w' : World} {clients clients' : List Client} {n n' : U64}
    (h : Attribution ⟨w, clients, n⟩) (hslots : writeSlots clients' = writeSlots clients)
    (hcarries : Carries (· ∈ (snapshot w clients).pending) w w')
    (hsame : SameWrites w.log w'.log) : Attribution ⟨w', clients', n'⟩ := by
  obtain ⟨hsub, hout, hans⟩ := hsame
  constructor <;> simp only [hsub, hout, hans]
  · exact h.files
  · exact fun u hu => ⟨Nat.lt_of_lt_of_le (h.known u hu).1 hcarries.next_le,
      Nat.lt_of_lt_of_le (h.known u hu).2 hcarries.next_le⟩
  · intro u hu
    rcases h.transfer u hu with ⟨hnone, hflight⟩ | ⟨hsome, hclosed⟩
    · exact .inl ⟨hnone, (hcarries.flight _ _).mpr hflight⟩
    · refine .inr ⟨hsome, fun k d hk heq => ?_⟩
      rcases hcarries.objects k d hk with hle | ⟨m, d', hm, hobject⟩
      · exact absurd (heq ▸ hle) (Nat.not_le_of_lt (h.known u hu).2)
      · exact hclosed m d' hm (hobject.trans heq)
  · exact fun object device hflight => h.flight object device ((hcarries.flight _ _).mp hflight)
  · exact h.outcome
  · exact h.answer
  · intro u hu c hc hid
    obtain ⟨c', hc', hid', hpending⟩ := mem_writeSlots hslots hc
    rw [← hpending]
    exact h.response u hu c' hc' (hid'.trans hid)
  · intro c hc p hp
    obtain ⟨c', hc', hid', hpending⟩ := mem_writeSlots hslots hc
    rw [← hpending] at hp
    rw [← hid']
    exact (h.waits c' hc' p hp).carry hcarries ⟨hsub, hout, hans⟩ (mem_pending hc' hp)
  · have hapart := h.apart
    rw [pending_eq] at hapart ⊢
    rw [show writeSlots clients' = _ from hslots]
    exact hapart

/-! ## Submission -/

section Slot

variable {w w' : World} {d : Device} {writer₀ : DesignWriter}

theorem writing_updated (hw : w.Sound) (hd : d ∈ w.devices)
    (hdevices : w'.devices = w.devices.map fun x =>
      if x.id = d.id then { x with writer := some writer₀ } else x) {device : Nat}
    {writer : DesignWriter} : Writing w' device writer ↔
      device = d.id ∧ writer = writer₀ ∨ device ≠ d.id ∧ Writing w device writer := by
  have hmem : ∀ {x : Device}, x ∈ w'.devices ↔
      x = { d with writer := some writer₀ } ∨ x ∈ w.devices ∧ x.id ≠ d.id := by
    intro x
    rw [hdevices]
    exact mem_replace_key hw.ids hd
  constructor
  · rintro ⟨x, hx, rfl, hwriter⟩
    rcases hmem.mp hx with rfl | ⟨hx, hne⟩
    · exact .inl ⟨rfl, (Option.some_inj.mp hwriter).symm⟩
    · exact .inr ⟨hne, x, hx, rfl, hwriter⟩
  · rintro (⟨rfl, rfl⟩ | ⟨hne, x, hx, rfl, hwriter⟩)
    · exact ⟨_, hmem.mpr (.inl rfl), rfl, rfl⟩
    · exact ⟨x, hmem.mpr (.inr ⟨hx, hne⟩), rfl, hwriter⟩

variable {client fd object i : Nat}

theorem submitted_writing (hw : w.Sound) (hd : d ∈ w.devices) {device : Nat}
    {writer : DesignWriter} : Writing (w.submitted client d.id fd) device writer ↔
      device = d.id ∧ writer = ⟨some fd, true, 0⟩ ∨ device ≠ d.id ∧ Writing w device writer :=
  writing_updated hw hd (by rw [submitted_eq])

theorem submitted_inFlight (hw : w.Sound) (hd : d ∈ w.devices) {writer : DesignWriter}
    (hwriter : d.writer = some writer) (hidle : writer.busy = false)
    (hget : w.fds.get? fd = some ⟨object, .inbound i⟩) {object' device : Nat} :
    InFlight (w.submitted client d.id fd) object' device ↔
      InFlight w object' device ∨ object' = object ∧ device = d.id := by
  simp only [InFlight, submitted_writing hw hd, submitted_get? _ hget]
  constructor
  · rintro ⟨m, error, (⟨rfl, heq⟩ | ⟨hne, hwriting⟩), hm⟩
    · cases heq
      rw [if_pos rfl] at hm
      cases hm
      exact .inr ⟨rfl, rfl⟩
    · split at hm
      · cases hm
        exact absurd rfl hne
      · exact .inl ⟨m, error, hwriting, hm⟩
  · rintro (⟨m, error, hwriting, hm⟩ | ⟨rfl, rfl⟩)
    · refine ⟨m, error, .inr ⟨?_, hwriting⟩, ?_⟩
      · rintro rfl
        rw [← hwriting.unique hw ⟨d, hd, rfl, hwriter⟩] at hidle
        cases hidle
      · rw [if_neg, hm]
        rintro rfl
        rw [hget] at hm
        cases hm
    · exact ⟨fd, 0, .inl ⟨rfl, rfl⟩, if_pos rfl⟩

end Slot

/-! ## The end of a transfer -/

section Transfer

variable {w w' : World} {d : Device} {fd object lastError : Nat} (error : Nat)

/-- The shared state after the thread has published its result. -/
def World.published (w : World) (device object fd error : Nat) : World :=
  ((w.note (.transferred object error)).closeFds [fd]).updDevice device fun d =>
    { d with writer := some ⟨none, false, error⟩ }

theorem published_writing (hw : w.Sound) (hd : d ∈ w.devices) {device : Nat}
    {writer : DesignWriter} : Writing (w.published d.id object fd error) device writer ↔
      device = d.id ∧ writer = ⟨none, false, error⟩ ∨ device ≠ d.id ∧ Writing w device writer :=
  writing_updated hw hd rfl

theorem published_get? {device m : Nat} {x : Descriptor}
    (hm : (w.published device object fd error).fds.get? m = some x) :
    w.fds.get? m = some x ∧ m ≠ fd := by
  obtain ⟨hget, hnot⟩ := Handles.get?_of_eraseAll hm
  exact ⟨hget, fun heq => hnot (heq ▸ mem_cons_self)⟩

theorem published_inFlight (hw : w.Sound) (hd : d ∈ w.devices)
    (hget : w.fds.get? fd = some ⟨object, .writer d.id⟩) {object' device : Nat} :
    InFlight (w.published d.id object fd error) object' device ↔
      device ≠ d.id ∧ InFlight w object' device := by
  simp only [InFlight, published_writing error hw hd]
  constructor
  · rintro ⟨m, e, (⟨-, heq⟩ | ⟨hne, hwriting⟩), hm⟩
    · cases heq
    · exact ⟨hne, m, e, hwriting, (published_get? error hm).1⟩
  · rintro ⟨hne, m, e, hwriting, hm⟩
    refine ⟨m, e, .inr ⟨hne, hwriting⟩, ?_⟩
    show (w.fds.eraseAll [fd]).get? m = _
    rw [Handles.get?_eraseAll, if_neg, hm]
    intro hmem
    rw [mem_singleton.mp hmem, hget] at hm
    cases hm
    exact hne rfl

theorem Attribution.published {clients : List Client} {n : U64} (hw : w.Sound)
    (h : Attribution ⟨w, clients, n⟩) (hd : d ∈ w.devices)
    (hwriter : d.writer = some ⟨some fd, true, lastError⟩)
    (hget : w.fds.get? fd = some ⟨object, .writer d.id⟩) :
    Attribution ⟨w.published d.id object fd error, clients, n⟩ := by
  have hfly : InFlight w object d.id := ⟨fd, lastError, ⟨d, hd, rfl, hwriter⟩, hget⟩
  have hflight := @published_inFlight w d fd object error hw hd hget
  obtain ⟨u₀, hu₀, hobject₀, -⟩ := h.flight object d.id hfly
  have hnone : outcomes w.log object = [] := by
    rcases h.transfer u₀ hu₀ with ⟨hout, -⟩ | ⟨-, hclosed⟩
    · exact hobject₀ ▸ hout
    · exact absurd hobject₀.symm (hclosed fd _ hget)
  have hlog : (w.published d.id object fd error).log = .transferred object error :: w.log := rfl
  have hout : ∀ {object' : Nat}, object ≠ object' →
      outcomes (.transferred object error :: w.log) object' = outcomes w.log object' :=
    fun hne => by rw [outcomes_transferred, if_neg hne]
  have hself : outcomes (.transferred object error :: w.log) object = [error] := by
    rw [outcomes_transferred, if_pos rfl, hnone]
  constructor <;> simp only [hlog, submissions_transferred, answers_transferred]
  · exact h.files
  · exact h.known
  · intro u hu
    by_cases hne : object = u.object
    · -- this is the file, and it was the only descriptor of it
      subst hne
      refine .inr ⟨⟨error, hself⟩, fun m x hm heq => ?_⟩
      obtain ⟨hm, hmfd⟩ := published_get? error hm
      exact hmfd (hw.table.inj m fd _ _ hm hget heq)
    · rw [hout hne]
      rcases h.transfer u hu with ⟨hnil, hfly'⟩ | ⟨hsome, hclosed⟩
      · refine .inl ⟨hnil, hflight.mpr ⟨fun heq => hne ?_, hfly'⟩⟩
        exact hfly.object_eq hw (heq ▸ hfly')
      · exact .inr ⟨hsome, fun m x hm => hclosed m x (published_get? error hm).1⟩
  · exact fun object' device hfly' => h.flight object' device (hflight.mp hfly').2
  · intro object' hsome
    by_cases hne : object = object'
    · exact ⟨u₀, hu₀, hobject₀.trans hne⟩
    · rw [hout hne] at hsome
      exact h.outcome object' hsome
  · intro object' x hx
    obtain ⟨hsub, hx', hret⟩ := h.answer object' x hx
    have hne : object ≠ object' := by
      rintro rfl
      rw [hnone] at hx'
      cases hx'
    exact ⟨hsub, by rw [hout hne, hx'], hret⟩
  · exact h.response
  · intro c hc p hp
    obtain ⟨hsub, hans, hslot⟩ := h.waits c hc p hp
    refine ⟨hsub, hans, ?_⟩
    rw [hlog]
    rcases hslot with hfly' | ⟨e, hsome, hwriting⟩
    · by_cases heq : p.device = d.id
      · rw [heq] at hfly'
        rw [← hfly.object_eq hw hfly']
        exact .inr ⟨error, hself, (published_writing error hw hd).mpr (.inl ⟨heq, rfl⟩)⟩
      · exact .inl (hflight.mpr ⟨heq, hfly'⟩)
    · have hne : object ≠ p.object := by
        intro heq
        rw [← heq, hnone] at hsome
        cases hsome
      refine .inr ⟨e, by rw [hout hne, hsome], (published_writing error hw hd).mpr
        (.inr ⟨fun heq => ?_, hwriting⟩)⟩
      rw [heq] at hwriting
      cases hwriting.unique hw ⟨d, hd, rfl, hwriter⟩
  · exact h.apart

end Transfer

section Acts

variable {w w' : World} {before rest : List Client} {c c' : Client} {n : U64}

theorem Attribution.submit {d : Device} {writer : DesignWriter} {fd : Nat} (hw : w.Sound)
    (h : Attribution ⟨w, before ++ c :: rest, n⟩) (hd : d ∈ w.devices)
    (hwriter : d.writer = some writer) (hidle : writer.busy = false)
    (hfd : Held w.fds fd (.inbound c.id)) (hlt : c.id < w.next)
    (hids : ∀ x ∈ before ++ rest, x.id ≠ c.id) (hnone : c.pendingDesignWrite = none)
    (hapart : d.id ∉ (snapshot w (before ++ c :: rest)).pending) (hid : c'.id = c.id)
    (hpending : c'.pendingDesignWrite = some ⟨d.id, (w.object fd).getD 0⟩) :
    Attribution ⟨w.submitted c.id d.id fd, before ++ c' :: rest, n⟩ := by
  obtain ⟨object, hget⟩ := hfd
  have hobject : (w.object fd).getD 0 = object := by simp [World.object, hget]
  have hlog : (w.submitted c.id d.id fd).log = .submitted c.id object d.id :: w.log := by
    rw [submitted_eq, hobject]
  have hflight := @submitted_inFlight w d c.id fd object c.id hw hd writer hwriter hidle hget
  rw [hobject] at hpending
  -- the file is open and nobody's transfer, so it was not submitted before
  have hfresh : ∀ u ∈ submissions w.log, u.object ≠ object := by
    intro u hu heq
    rcases h.transfer u hu with ⟨-, m, error, -, hm⟩ | ⟨-, hclosed⟩
    · have hfdm := hw.table.inj fd m _ _ hget hm heq.symm
      rw [← hfdm, hget] at hm
      cases hm
    · exact hclosed fd _ hget heq.symm
  have hnew : outcomes w.log object = [] ∧ answers w.log object = [] := by
    refine ⟨?_, ?_⟩
    · by_contra hne
      obtain ⟨u, hu, heq⟩ := h.outcome object hne
      exact hfresh u hu heq
    · refine eq_nil_iff_forall_not_mem.mpr fun x hx => ?_
      obtain ⟨⟨u, hu, heq, -⟩, -⟩ := h.answer object x hx
      exact hfresh u hu heq
  have hnext : (w.submitted c.id d.id fd).next = w.next := by rw [submitted_eq]
  constructor <;>
    simp only [hlog, hnext, submissions_submitted, outcomes_submitted, answers_submitted,
      forall_mem_cons, exists_mem_cons_iff, map_cons]
  · exact nodup_cons.mpr ⟨fun hmem => by
      obtain ⟨u, hu, heq⟩ := mem_map.mp hmem
      exact hfresh u hu heq, h.files⟩
  · exact ⟨⟨hlt, hw.table.lt fd _ hget⟩, h.known⟩
  · refine ⟨.inl ⟨hnew.1, hflight.mpr (.inr ⟨rfl, rfl⟩)⟩, fun u hu => ?_⟩
    rcases h.transfer u hu with ⟨hout, hfly⟩ | ⟨hout, hclosed⟩
    · exact .inl ⟨hout, hflight.mpr (.inl hfly)⟩
    · refine .inr ⟨hout, fun m x hm => ?_⟩
      rw [submitted_get? _ hget] at hm
      split at hm
      · cases hm
        exact (hfresh u hu).symm
      · exact hclosed m x hm
  · intro object' device hfly
    rcases hflight.mp hfly with hfly | ⟨rfl, rfl⟩
    · exact .inr (h.flight object' device hfly)
    · exact .inl ⟨rfl, rfl⟩
  · exact fun object' hne => .inr (h.outcome object' hne)
  · intro object' x hx
    obtain ⟨hsub, hout⟩ := h.answer object' x hx
    exact ⟨.inr hsub, hout⟩
  · refine ⟨fun x hx hxid => ?_, fun u hu x hx hxid => ?_⟩
    · rcases mem_replaced hx with rfl | hx
      · exact .inl hpending
      · exact absurd hxid (hids x hx)
    · rcases mem_replaced hx with rfl | hx
      · rcases h.response u hu c (mem_append_right _ mem_cons_self)
          (hid.symm.trans hxid) with hsome | hanswered
        · rw [hnone] at hsome
          cases hsome
        · exact .inr hanswered
      · exact h.response u hu x (mem_others hx) hxid
  · intro x hx p hp
    rcases mem_replaced hx with rfl | hx
    · rw [hpending] at hp
      cases hp
      refine ⟨?_, ?_, .inl (hflight.mpr (.inr ⟨rfl, rfl⟩))⟩
      · rw [hlog, hid]
        exact mem_cons_self
      · rw [hlog]
        exact hnew.2
    · obtain ⟨hsub, hans, hslot⟩ := h.waits x (mem_others hx) p hp
      have hne : p.device ≠ d.id := fun heq => hapart (heq ▸ mem_pending (mem_others hx) hp)
      refine ⟨by rw [hlog]; exact mem_cons_of_mem _ hsub, by rw [hlog]; exact hans, ?_⟩
      refine hslot.imp (fun hfly => hflight.mpr (.inl hfly)) fun hended => ?_
      obtain ⟨error, hout, hwriting⟩ := hended
      exact ⟨error, by rw [hlog]; exact hout, (submitted_writing hw hd).mpr (.inr ⟨hne, hwriting⟩)⟩
  · have hold := h.apart
    simp only [snapshot, filterMap_append, filterMap_cons, hnone, hpending,
      Option.map_none, Option.map_some] at hold hapart ⊢
    refine (perm_middle.nodup_iff).mpr (nodup_cons.mpr ⟨hapart, hold⟩)

/-! ## The answer -/

theorem Attribution.submission_eq {s : State} (h : Attribution s) {u u' : Submission}
    (hu : u ∈ submissions s.world.log) (hu' : u' ∈ submissions s.world.log)
    (heq : u.object = u'.object) : u = u' :=
  inj_on_of_nodup_map h.files hu hu' heq

theorem Attribution.answered {p : PendingWrite} {error : Nat} {ret : Ret}
    (h : Attribution ⟨w, before ++ c :: rest, n⟩) (hids : ∀ x ∈ before ++ rest, x.id ≠ c.id)
    (hp : c.pendingDesignWrite = some p) (hout : outcomes w.log p.object = [error])
    (hret : error ≠ 0 → ret = .internalError) (hid : c'.id = c.id)
    (hnone : c'.pendingDesignWrite = none) :
    Attribution ⟨w.note (.answered c.id p.object error ret), before ++ c' :: rest, n⟩ := by
  have hc : c ∈ before ++ c :: rest := mem_append_right _ mem_cons_self
  obtain ⟨hsub, hans, -⟩ := h.waits c hc p hp
  have hlog : (w.note (.answered c.id p.object error ret)).log =
      .answered c.id p.object error ret :: w.log := rfl
  have hother : ∀ {object : Nat}, p.object ≠ object →
      answers (.answered c.id p.object error ret :: w.log) object = answers w.log object :=
    fun hne => by rw [answers_answered, if_neg hne]
  have hself : answers (.answered c.id p.object error ret :: w.log) p.object =
      [(c.id, error, ret)] := by
    rw [answers_answered, if_pos rfl, hans]
  constructor <;> simp only [hlog, submissions_answered, outcomes_answered]
  · exact h.files
  · exact h.known
  · exact h.transfer
  · exact h.flight
  · exact h.outcome
  · intro object x hx
    by_cases hne : p.object = object
    · subst hne
      rw [hself, mem_singleton] at hx
      subst hx
      exact ⟨⟨_, hsub, rfl, rfl⟩, hout, hret⟩
    · rw [hother hne] at hx
      exact h.answer object x hx
  · intro u hu x hx hxid
    by_cases hne : p.object = u.object
    · have hu' := h.submission_eq hsub hu hne
      subst hu'
      exact .inr ⟨error, ret, hself⟩
    · rw [hother hne]
      rcases mem_replaced hx with rfl | hx
      · rcases h.response u hu c hc (hid.symm.trans hxid) with hsome | hanswered
        · rw [hp] at hsome
          cases hsome
          exact absurd rfl hne
        · exact .inr hanswered
      · exact h.response u hu x (mem_others hx) hxid
  · intro x hx p' hp'
    rcases mem_replaced hx with rfl | hx
    · rw [hnone] at hp'
      cases hp'
    · obtain ⟨hsub', hans', hslot'⟩ := h.waits x (mem_others hx) p' hp'
      have hne : p.object ≠ p'.object := fun heq =>
        hids x hx (congrArg Submission.client (h.submission_eq hsub hsub' heq)).symm
      exact ⟨hsub', by rw [hlog, hother hne]; exact hans', hslot'⟩
  · have hold := h.apart
    simp only [snapshot, filterMap_append, filterMap_cons, hnone, hp,
      Option.map_none, Option.map_some] at hold ⊢
    exact (nodup_cons.mp (perm_middle.nodup_iff.mp hold)).2

theorem Attribution.finalise {r : World × Client}
    (hs : State.Sound ⟨w, before ++ c :: rest, n⟩) (h : Attribution ⟨w, before ++ c :: rest, n⟩)
    (hf : Finalised w (snapshot w (before ++ c :: rest)) c r) :
    Attribution ⟨r.1, before ++ r.2 :: rest, n⟩ := by
  cases hf with
  | idle _ => exact h
  | done p w₁ error ret hp hresult hret hchange =>
    have hc : c ∈ before ++ c :: rest := mem_append_right _ mem_cons_self
    obtain ⟨-, -, hslot⟩ := h.waits c hc p hp
    -- the slot holds the result of this client's own transfer
    have hout : outcomes w.log p.object = [error] := by
      have hread : ∀ {writer : DesignWriter}, Writing w p.device writer →
          writer.busy = false ∧ error = writer.lastError := by
        rintro writer ⟨d, hd, hid, hwriter⟩
        exact hresult d writer (hid ▸ hs.world.device? hd) hwriter
      rcases hslot with ⟨fd, e, hwriting, -⟩ | ⟨e, hout, hwriting⟩
      · cases (hread hwriting).1
      · rw [hout, (hread hwriting).2]
    have hsame : SameWrites w.log w₁.log := by
      rw [hchange.log]
      exact (SameWrites.refl _).cons trivial
    have hcarries : Carries (· ∈ (snapshot w (before ++ c :: rest)).pending) w w₁ :=
      (hchange.carries (hs.world.note _) (fun _ _ _ hgone => hgone) (fun _ _ hgone => hgone)
        nofun).congr rfl rfl
    refine (h.carry rfl hcarries hsame).answered (fun x hx => (hs.others hx).2) hp ?_ hret ?_ ?_
    · rw [hsame.outcomes]
      exact hout
    · rw [Client.finalised, clientUpdateWanted_eq]
    · rw [Client.finalised, clientUpdateWanted_eq]

end Acts

end Slash.Daemon
