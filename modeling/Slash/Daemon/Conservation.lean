import Slash.Daemon.Ownership

/-!
# Every descriptor is closed once

A number that the daemon has open is in a slot: of a client, of a device, of the flash worker. What
leaves a slot is closed or moves to another one in the same act. `Settled` is what is missing for
this beside `World.Accounted` and `Attended`: the worker's own slot, and that nothing is given away
and forgotten. Together they make the slots and the table of open descriptors the same list.

A connection whose set-up fails is where the balance breaks: the record that is cleaned up then was
filled with zeros, and zero is a descriptor.
-/

namespace Slash.Daemon

open Lib List
open Libvrtd (Ret)
open Vrtd (U64)

/-! ## Slots -/

def Client.slots (c : Client) : List (Nat × Holder) :=
  (c.fd, .socket c.id) :: c.inFd.toList.map fun n => (n, .inbound c.id)

def FlashWorker.slots (f : FlashWorker) : List (Nat × Holder) :=
  (f.job.bind (·.inputFd)).toList.map fun n => (n, .worker)

/-- Every record of the daemon that holds a descriptor. -/
def State.slots (s : State) : List (Nat × Holder) :=
  s.clients.flatMap Client.slots ++ (s.world.devices.flatMap Device.slots ++ s.world.worker.slots)

theorem Client.mem_slots {c : Client} {n : Nat} {holder : Holder} : (n, holder) ∈ c.slots ↔
    c.fd = n ∧ holder = .socket c.id ∨ c.inFd = some n ∧ holder = .inbound c.id := by
  simp only [Client.slots, mem_cons, Prod.mk.injEq, mem_map, Option.mem_toList]
  constructor
  · rintro (⟨rfl, rfl⟩ | ⟨m, hm, rfl, rfl⟩)
    · exact .inl ⟨rfl, rfl⟩
    · exact .inr ⟨hm, rfl⟩
  · rintro (⟨rfl, rfl⟩ | ⟨hm, rfl⟩)
    · exact .inl ⟨rfl, rfl⟩
    · exact .inr ⟨n, hm, rfl, rfl⟩

theorem FlashWorker.mem_slots {f : FlashWorker} {n : Nat} {holder : Holder} :
    (n, holder) ∈ f.slots ↔ (∃ j, f.job = some j ∧ j.inputFd = some n) ∧ holder = .worker := by
  simp only [FlashWorker.slots, mem_map, Option.mem_toList,
    Option.bind_eq_some_iff, Prod.mk.injEq]
  constructor
  · rintro ⟨m, hj, rfl, rfl⟩
    exact ⟨hj, rfl⟩
  · rintro ⟨hj, rfl⟩
    exact ⟨n, hj, rfl, rfl⟩

theorem State.mem_slots {s : State} {slot : Nat × Holder} : slot ∈ s.slots ↔
    (∃ c ∈ s.clients, slot ∈ c.slots) ∨ (∃ d ∈ s.world.devices, slot ∈ d.slots) ∨
      slot ∈ s.world.worker.slots := by
  simp only [State.slots, mem_append, mem_flatMap]

theorem Client.slots_nodup (c : Client) : c.slots.Nodup := by
  cases h : c.inFd with
  | none => simp [Client.slots, h]
  | some n => simp [Client.slots, h]

theorem Client.slots_disjoint {c c' : Client} (hne : c.id ≠ c'.id) :
    List.Disjoint c.slots c'.slots := by
  rintro ⟨n, holder⟩ h h'
  rcases Client.mem_slots.mp h with ⟨-, rfl⟩ | ⟨-, rfl⟩
  · rcases Client.mem_slots.mp h' with ⟨-, heq⟩ | ⟨-, heq⟩
    · exact hne (Holder.socket.inj heq)
    · cases heq
  · rcases Client.mem_slots.mp h' with ⟨-, heq⟩ | ⟨-, heq⟩
    · cases heq
    · exact hne (Holder.inbound.inj heq)

section Slots

variable {s : State} (h : s.Sound)
include h

theorem State.Sound.slots {n : Nat} {holder : Holder} (hslot : (n, holder) ∈ s.slots) :
    Held s.world.fds n holder := by
  rcases State.mem_slots.mp hslot with ⟨c, hc, hslot⟩ | ⟨d, hd, hslot⟩ | hslot
  · rcases Client.mem_slots.mp hslot with ⟨rfl, rfl⟩ | ⟨hin, rfl⟩
    · exact (h.clients c hc).socket
    · exact (h.clients c hc).inbound n hin
  · exact (h.world.devices d hd).slots hslot
  · obtain ⟨⟨j, hj, hn⟩, rfl⟩ := FlashWorker.mem_slots.mp hslot
    exact h.world.worker j hj n hn

theorem State.Sound.slots_nodup (hbars : ∀ d ∈ s.world.devices, d.bars.reduceOption.Nodup) :
    s.slots.Nodup := by
  have hclients : (s.clients.flatMap Client.slots).Nodup :=
    nodup_flatMap.mpr ⟨fun c _ => c.slots_nodup,
      (pairwise_map.mp h.ids).imp Client.slots_disjoint⟩
  have hdevices : (s.world.devices.flatMap Device.slots).Nodup := by
    refine nodup_flatMap.mpr ⟨fun d hd => (h.world.devices d hd).slots_nodup (hbars d hd), ?_⟩
    refine (pairwise_map.mp h.world.ids).imp fun hne => ?_
    rintro ⟨n, holder⟩ hslot hslot'
    refine hne (Option.some_inj.mp ?_)
    exact (Device.slots_device hslot).symm.trans (Device.slots_device hslot')
  have hworker : s.world.worker.slots.Nodup := by
    unfold FlashWorker.slots
    cases s.world.worker.job.bind (·.inputFd) with
    | none => exact nodup_nil
    | some n => exact nodup_singleton _
  -- slots of different kinds hold for different holders
  refine nodup_append'.mpr ⟨hclients, nodup_append'.mpr ⟨hdevices, hworker, ?_⟩, ?_⟩
  · rintro ⟨n, holder⟩ hslot hslot'
    obtain ⟨d, -, hslot⟩ := mem_flatMap.mp hslot
    have hdevice := Device.slots_device hslot
    rw [(FlashWorker.mem_slots.mp hslot').2] at hdevice
    cases hdevice
  · rintro ⟨n, holder⟩ hslot hslot'
    obtain ⟨c, -, hslot⟩ := mem_flatMap.mp hslot
    rcases mem_append.mp hslot' with hslot' | hslot'
    · obtain ⟨d, -, hslot'⟩ := mem_flatMap.mp hslot'
      have hdevice := Device.slots_device hslot'
      rcases Client.mem_slots.mp hslot with ⟨-, rfl⟩ | ⟨-, rfl⟩ <;> cases hdevice
    · have hworker := (FlashWorker.mem_slots.mp hslot').2
      rcases Client.mem_slots.mp hslot with ⟨-, rfl⟩ | ⟨-, rfl⟩ <;> cases hworker

end Slots

/-! ## Nothing is forgotten -/

structure Settled (s : State) : Prop where
  world : s.world.Accounted
  worker : ∀ n x, s.world.fds.get? n = some x → x.holder = .worker →
    (n, .worker) ∈ s.world.worker.slots
  kept : ∀ n x, s.world.fds.get? n = some x → x.holder ≠ .handedOut

/-- The slots and the table of open descriptors are the same list. -/
theorem Settled.slots {s : State} (hs : s.Sound) (h : Settled s) (ha : Attended s) :
    s.slots.Perm (s.world.fds.map fun e => (e.1, e.2.holder)) := by
  have htable : (s.world.fds.map fun e => (e.1, e.2.holder)).Nodup := by
    refine List.Nodup.of_map Prod.fst ?_
    rw [map_map]
    exact h.world.balanced.keys
  refine (perm_ext_iff_of_nodup (hs.slots_nodup h.world.bars) htable).mpr fun slot => ?_
  obtain ⟨n, holder⟩ := slot
  constructor
  · intro hslot
    obtain ⟨object, hget⟩ := hs.slots hslot
    exact mem_map.mpr ⟨_, Balanced.mem_of_get? hget, rfl⟩
  · intro hmem
    obtain ⟨⟨k, x⟩, he, heq⟩ := mem_map.mp hmem
    cases heq
    have hget := h.world.balanced.get?_of_mem he
    refine State.mem_slots.mpr ?_
    cases hx : x.holder with
    | socket i =>
      obtain ⟨c, hc, rfl, hfd⟩ := ha.sockets k x i hget hx
      exact .inl ⟨c, hc, Client.mem_slots.mpr (.inl ⟨hfd, rfl⟩)⟩
    | inbound i =>
      obtain ⟨c, hc, rfl, hin⟩ := ha.inbound k x i hget hx
      exact .inl ⟨c, hc, Client.mem_slots.mpr (.inr ⟨hin, rfl⟩)⟩
    | worker => exact .inr (.inr (h.worker k x hget hx))
    | handedOut => exact absurd hx (h.kept k x hget)
    | stray => exact absurd hx (ha.stray k x hget)
    | _ =>
      have howned := h.world.owned k x hget (by rw [hx]; rfl)
      rw [hx] at howned
      exact .inr (.inl howned)

/-! ## Acts -/

/-- What the worker holds and what was handed out was there before. -/
def Idles (w w' : World) : Prop :=
  ∀ n x, w'.fds.get? n = some x → x.holder = .worker ∨ x.holder = .handedOut →
    w.fds.get? n = some x

theorem Idles.close (w : World) (ns : List Nat) : Idles w (w.closeFds ns) :=
  fun _ _ hn _ => (Handles.get?_of_eraseAll hn).1

theorem Change.idles {σ : Scope} {w w' : World} (h : Change σ w w') (hkeeps : KeepsQpairs w w') :
    Idles w w' := by
  intro n x hn hx
  rcases hx with hx | hx
  · rcases h.opened n x hn with hold | ⟨-, hsome | ⟨hout, -⟩⟩
    · exact hold
    · rw [hx] at hsome
      cases hsome
    · rw [hx] at hout
      cases hout
  · exact hkeeps n x hn hx

theorem Settled.same {w w' : World} {clients clients' : List Client} {n n' : U64}
    (h : Settled ⟨w, clients, n⟩) (ha : w'.Accounted) (hidles : Idles w w')
    (hworker : w'.worker.slots = w.worker.slots) : Settled ⟨w', clients', n'⟩ where
  world := ha
  worker := fun m x hm hx => by
    show (m, Holder.worker) ∈ w'.worker.slots
    rw [hworker]
    exact h.worker m x (hidles m x hm (.inl hx)) hx
  kept := fun m x hm hx => h.kept m x (hidles m x hm (.inr hx)) hx

/-- Work on the shared state, whatever is noted before it or after it. -/
theorem Settled.change {σ : Scope} {w w₁ w' : World} {clients clients' : List Client} {n n' : U64}
    (h : Settled ⟨w, clients, n⟩) (hchange : Change σ w₁ w') (hσ : ¬ σ.hands)
    (hw : w₁.Accounted) (hfds : w₁.fds = w.fds) (hworker : w₁.worker = w.worker) :
    Settled ⟨w', clients', n'⟩ := by
  refine h.same (hchange.accounted hw) (fun m x hm hx => ?_) (by rw [hchange.worker, hworker])
  rw [← hfds]
  exact hchange.idles (hchange.keepsQpairs hσ) m x hm hx

section Client

variable {w w' : World} {before rest : List Client} {c c' : Client} {n : U64}

/-- The input moves from the client to the writer of the device. -/
theorem World.Accounted.submitted (ha : w.Accounted) (hw : w.Sound) {d : Device}
    (hd : d ∈ w.devices) {writer : DesignWriter} (hwriter : d.writer = some writer)
    (hinput : writer.inputFd = none) {fd i : Nat} (hheld : Held w.fds fd (.inbound i))
    (client : Nat) : (w.submitted client d.id fd).Accounted := by
  obtain ⟨object, hget, heq⟩ := hold_of_held hheld (.writer d.id)
  refine World.Accounted.note ?_ _
  rw [heq]
  refine ha.device hw hd (ha.balanced.change hget rfl) (ha.bars d hd) fun m x hm hx => ?_
  rw [Handles.get?_set] at hm
  split at hm
  · rename_i hfd
    cases hm
    exact .inl (Device.mem_slots.mpr (.inr (.inr ⟨_, rfl, by rw [hfd], rfl⟩)))
  · rcases ha.owned_by hw hd hm hx with hslot | hne
    · -- the writer's slot was empty
      refine .inl (Device.mem_slots.mpr ?_)
      rcases Device.mem_slots.mp hslot with hbar | hbuffer | ⟨writer', hwriter', hin, -⟩
      · exact .inl hbar
      · exact .inr (.inl hbuffer)
      · cases hwriter.symm.trans hwriter'
        rw [hinput] at hin
        cases hin
    · exact .inr ⟨hm, hne⟩

theorem World.Accounted.employed (ha : w.Accounted) (worker : FlashWorker) {inputFd : Option Nat}
    {i : Nat} (hin : ∀ m, inputFd = some m → Held w.fds m (.inbound i)) :
    (w.employed worker inputFd).Accounted := by
  have ha' : World.Accounted { w with worker := worker, asyncInProgress := true } :=
    ⟨ha.balanced, ha.bars, ha.owned⟩
  cases inputFd with
  | none => exact ha'
  | some fd =>
    obtain ⟨object, hget⟩ := hin fd rfl
    exact ha'.hold hget rfl

/-- The worker's slot holds the input of its new job; it held nothing before. -/
theorem Settled.employed (w₁ : World) {inputFd : Option Nat} {worker : FlashWorker} {d : Device}
    {partition client i : Nat} {connId : U64} (h : Settled ⟨w, before ++ c :: rest, n⟩)
    (ha : w'.Accounted) (hfds : w₁.fds = w.fds)
    (hsubmit : flashWorkerSubmit w.worker d partition inputFd connId client = some worker)
    (hin : ∀ m, inputFd = some m → Held w₁.fds m (.inbound i)) (hworker : w'.worker = worker)
    (hopened : ∀ m x, w'.fds.get? m = some x → (w₁.employed worker inputFd).fds.get? m = some x) :
    Settled ⟨w', before ++ c' :: rest, n⟩ := by
  obtain ⟨hidle, -, hjob⟩ := flashWorkerSubmit_some hsubmit
  refine ⟨ha, fun m x hm hx => ?_, fun m x hm hx => ?_⟩
  · rcases employed_opened hin worker (hopened m x hm) with ⟨hold, -⟩ | ⟨hinput, -⟩
    · rw [hfds] at hold
      obtain ⟨⟨j, hj, -⟩, -⟩ := FlashWorker.mem_slots.mp (h.worker m x hold hx)
      rw [hidle] at hj
      cases hj
    · rw [show (⟨w', before ++ c' :: rest, n⟩ : State).world.worker = worker from hworker]
      exact FlashWorker.mem_slots.mpr ⟨⟨_, hjob, hinput⟩, rfl⟩
  · rcases employed_opened hin worker (hopened m x hm) with ⟨hold, -⟩ | ⟨-, heq⟩
    · rw [hfds] at hold
      exact h.kept m x hold hx
    · rw [hx] at heq
      cases heq

theorem Settled.dispatch {snap : Snapshot} {m : Message} {r : World × Client}
    (hs : State.Sound ⟨w, before ++ c :: rest, n⟩) (h : Settled ⟨w, before ++ c :: rest, n⟩)
    (hshy : KeepsQpairs w r.1) (hd : Dispatched w snap c m r) :
    Settled ⟨r.1, before ++ r.2 :: rest, n⟩ := by
  have hc := hs.here.note (.dispatched snap c.id c.inFd m)
  have ha := h.world.note (.dispatched snap c.id c.inFd m)
  -- a handler's work opens nothing for the worker; what is handed out is known to be nothing
  have hidles : ∀ {w₁ : World}, Change (m.scope w.devices c.connId c.inFd)
      (w.note (.dispatched snap c.id c.inFd m)) w₁ → (∀ k x, r.1.fds.get? k = some x →
        x.holder = .worker → w₁.fds.get? k = some x) → Idles w r.1 := by
    intro w₁ hchange hback k x hk hx
    rcases hx with hx | hx
    · rcases hchange.opened k x (hback k x hk hx) with hold | ⟨-, hsome | ⟨hout, -⟩⟩
      · exact hold
      · rw [hx] at hsome
        cases hsome
      · rw [hx] at hout
        cases hout
    · exact hshy k x hk hx
  cases hd with
  | taken _ => exact h.same ha (fun _ _ hk _ => hk) rfl
  | answered w₁ ret fd _ hchange _ =>
    have hin := (hc.change (Message.scope_devices _ _ _ _) hchange).inbound
    refine h.same ((hchange.accounted ha).close_slot c.inFd hin) (hidles hchange fun k x hk _ =>
      (Handles.get?_of_eraseAll hk).1) ?_
    rw [closeFds_worker, hchange.worker]
    rfl
  | writing w₁ d writer fd _ hchange htarget hwriter _ hinput hfd _ =>
    have hin := (hc.change (Message.scope_devices _ _ _ _) hchange).inbound fd hfd
    refine h.same ((hchange.accounted ha).submitted hchange.sound htarget.1 hwriter hinput hin _)
      (hidles hchange fun k x hk hx => ?_) ?_
    · obtain ⟨object, hget⟩ := hin
      rw [submitted_get? _ hget] at hk
      split at hk
      · cases hk
        cases hx
      · exact hk
    · rw [submitted_eq, hchange.worker]
      rfl
  | waiting d partition inputFd worker _ _ _ _ hinput hsubmit =>
    refine h.employed (w.note (.dispatched snap c.id c.inFd m))
      (ha.employed worker (hc.input hinput)) rfl hsubmit (hc.input hinput) ?_ fun _ _ hk => hk
    rw [employed_eq]
  | started d partition inputFd worker _ _ _ hinput hsubmit =>
    refine h.employed (w.note (.dispatched snap c.id c.inFd m))
      ((ha.employed worker (hc.input hinput)).close_slot _ (hs.here.left hinput _ worker)) rfl hsubmit
      (hc.input hinput) ?_ fun _ _ hk => (Handles.get?_of_eraseAll hk).1
    rw [closeFds_worker, employed_eq]

theorem Settled.client {δ : Demands} {snap : Snapshot} {r : World × Client} (hshy : δ.shy)
    (hs : State.Sound ⟨w, before ++ c :: rest, n⟩) (h : Settled ⟨w, before ++ c :: rest, n⟩)
    (ha : ClientAct δ w snap c r) : Settled ⟨r.1, before ++ r.2 :: rest, n⟩ := by
  cases ha with
  | receive recv ok _ _ hr =>
    refine h.same (hr.accounted h.world hs.here.inbound) (fun k x hk hx => ?_) (by rw [hr.rest])
    rcases hr.opened k x hk with ⟨hold, -⟩ | hstray | ⟨hin, -⟩
    · exact hold
    · rw [hstray] at hx
      rcases hx with hx | hx <;> cases hx
    · rw [hin] at hx
      rcases hx with hx | hx <;> cases hx
  | dispatch m _ _ _ hkeeps hd => exact h.dispatch hs (hkeeps hshy) hd
  | send hsend =>
    obtain ⟨⟨log, rfl, -⟩, -⟩ := hsend
    exact ⟨⟨h.world.balanced, h.world.bars, h.world.owned⟩, h.worker, h.kept⟩
  | slots wanted armed enabled _ => exact ⟨h.world, h.worker, h.kept⟩
  | finalise _ hf =>
    cases hf with
    | idle _ => exact h
    | done p w₁ error ret _ _ _ hchange =>
      have hmoved : Settled ⟨w₁, before ++ c :: rest, n⟩ :=
        h.change hchange (fun hands => hands) (h.world.note _) rfl rfl
      exact ⟨hmoved.world.note _, hmoved.worker, hmoved.kept⟩

theorem Settled.drop {push : Bool} (hs : State.Sound ⟨w, before ++ c :: rest, n⟩)
    (h : Settled ⟨w, before ++ c :: rest, n⟩) (hcleaned : Cleaned w c push w') :
    Settled ⟨w'.closeFds (c.inFd.toList ++ [c.fd]), before ++ rest, n⟩ := by
  have hc := hcleaned.client hs.here
  have hmoved : Settled ⟨w', before ++ rest, n⟩ := by
    cases hcleaned with
    | deferred ids _ _ _ _ =>
      exact ⟨⟨h.world.balanced, h.world.bars, h.world.owned⟩, h.worker, h.kept⟩
    | atOnce _ _ hchange _ => exact h.change hchange (fun hands => hands) h.world rfl rfl
  refine hmoved.same (hmoved.world.close _ ?_ fun k hk => ?_) (.close _ _) rfl
  · -- the socket is not the descriptor that came over it
    refine nodup_append'.mpr ⟨by cases c.inFd <;> simp, nodup_singleton _, ?_⟩
    intro k hk hk'
    rw [mem_singleton.mp hk'] at hk
    obtain ⟨object, hget⟩ := hc.socket
    have heq := (hc.inbound c.fd (Option.mem_toList.mp hk)).holder_eq hget
    cases heq
  · obtain ⟨holder, hheld, -⟩ := hc.leave k hk
    exact hheld.isSome

end Client

theorem Settled.accept {s : State} (h : Settled s) (fd : Nat) : Settled (acceptClient s fd) := by
  have ha : World.Accounted { s.world with next := s.world.next + 1 } :=
    ⟨h.world.balanced.le (Nat.le_succ _), h.world.bars, h.world.owned⟩
  have hidles : Idles s.world (acceptClient s fd).world := by
    intro k x hk hx
    rw [show (acceptClient s fd).world.fds = s.world.fds.set _ _ from rfl, Handles.get?_set] at hk
    split at hk
    · cases hk
      rcases hx with hx | hx <;> cases hx
    · exact hk
  exact h.same ((ha.openFd fd rfl).note _) hidles rfl

theorem Settled.transferred {s : State} (hs : s.Sound) (h : Settled s) {device error : Nat}
    {w : World} (ht : Transferred s.world device error w) : Settled { s with world := w } := by
  cases ht with
  | idle => exact h
  | done d fd object lastError hd hid hwriter hget =>
    subst hid
    have ha := (h.world.note (.transferred object error)).close [fd] (nodup_singleton _)
      fun k hk => by
        rw [mem_singleton.mp hk]
        exact Held.isSome ⟨object, hget⟩
    refine h.same ?_ (.close (s.world.note (.transferred object error)) [fd]) rfl
    refine (h.world.note (.transferred object error)).device (hs.world.note _) hd ha.balanced
      (h.world.bars d hd) fun k x hk hx => ?_
    obtain ⟨hk, hnot⟩ := Handles.get?_of_eraseAll hk
    rcases h.world.owned_by hs.world hd hk hx with hslot | hne
    · -- the writer's slot is the one that was emptied
      refine .inl (Device.mem_slots.mpr ?_)
      rcases Device.mem_slots.mp hslot with hbar | hbuffer | ⟨writer, hwriter', hin, -⟩
      · exact .inl hbar
      · exact .inr (.inl hbuffer)
      · cases hwriter.symm.trans hwriter'
        cases hin
        exact absurd mem_cons_self hnot
    · exact .inr ⟨hk, hne⟩

theorem Settled.worked {s : State} (hs : s.Sound) (h : Settled s) {snap : Snapshot} {w : World}
    (hw : Worked s.world snap w) : Settled { s with world := w } := by
  -- the job moves on with its input
  have hmoves : ∀ {w' : World} {j : Job} (stage : Stage), Settled { s with world := w' } →
      w'.worker.job = some j → Settled { s with world := { w' with
        worker := { w'.worker with job := some { j with stage := stage } } } } := by
    intro w' j stage h' hjob
    refine ⟨⟨h'.world.balanced, h'.world.bars, h'.world.owned⟩, fun n x hn hx => ?_, h'.kept⟩
    obtain ⟨⟨j', hj', hin⟩, -⟩ := FlashWorker.mem_slots.mp (h'.worker n x hn hx)
    cases hjob.symm.trans hj'
    exact FlashWorker.mem_slots.mpr ⟨⟨_, rfl, hin⟩, rfl⟩
  cases hw with
  | idle => exact h
  | removed j w' hjob hchange =>
    refine hmoves .removed (h.change hchange (fun hands => hands) (h.world.note _) rfl rfl) ?_
    rw [hchange.worker]
    exact hjob
  | discovered j w' ret hjob hchange =>
    refine hmoves (.discovered ret) (h.change hchange (fun hands => hands) h.world rfl rfl) ?_
    rw [hchange.worker]
    exact hjob
  | finished j result hjob =>
    have ha := h.world.close_slot _ (hs.world.worker j hjob)
    refine ⟨⟨ha.balanced, ha.bars, ha.owned⟩, fun n x hn hx => ?_, fun n x hn hx => ?_⟩
    · obtain ⟨hn, hnot⟩ := Handles.get?_of_eraseAll hn
      obtain ⟨⟨j', hj', hin⟩, -⟩ := FlashWorker.mem_slots.mp (h.worker n x hn hx)
      cases hjob.symm.trans hj'
      exact absurd (Option.mem_toList.mpr hin) hnot
    · exact h.kept n x (Handles.get?_of_eraseAll hn).1 hx

theorem Settled.act {δ : Demands} {s s' : State} (hshy : δ.shy) (hs : s.Sound) (ha : Act δ s s')
    (h : Settled s) : Settled s' := by
  cases ha with
  | client ha => exact h.client hshy hs ha
  | accept s fd => exact h.accept fd
  | drop push _ hcleaned => exact h.drop hs hcleaned
  | @collect w w' _ _ _ _ hd =>
    have hmoved : Settled ⟨{ w' with deferred := w.deferred }, [], 0⟩ := h.change hd.change
      (fun hands => hands) ⟨h.world.balanced, h.world.bars, h.world.owned⟩ rfl rfl
    exact ⟨⟨hmoved.world.balanced, hmoved.world.bars, hmoved.world.owned⟩, hmoved.worker,
      hmoved.kept⟩
  | transfer device error ht => exact h.transferred hs ht
  | work hw => exact h.worked hs hw

theorem boot_settled (found : Discovery) : Settled (boot found) := by
  have hchange := boot_change found
  have hinit : Settled ⟨⟨[], {}, false, [], [], 0, [], {}⟩, [], 0⟩ :=
    ⟨⟨.init, nofun, fun n x hn => by cases hn⟩, fun n x hn => (by cases hn),
      fun n x hn => by cases hn⟩
  exact hinit.change hchange (fun hands => hands) hinit.world rfl rfl

/-! ## Connections that are not taken -/

/-- A descriptor that is opened and closed again. -/
theorem set_erase_unused (t : Handles Descriptor) (fd : Nat) (x : Descriptor) :
    (t.set (unused t.numbers fd) x).eraseAll [unused t.numbers fd] = t := by
  have hfree : t.erase (unused t.numbers fd) = t :=
    Balanced.erase_free (Handles.get?_unused t fd)
  show Handles.erase ((unused t.numbers fd, x) :: t.erase (unused t.numbers fd)) _ = t
  rw [hfree, Handles.erase, filter_cons_of_neg (by simp)]
  exact hfree

theorem State.Sound.counted {s : State} (h : s.Sound) (l : Ledger Descriptor) : State.Sound
    { s with world := { s.world with next := s.world.next + 1, ledger := l } } where
  world := {
    ids := h.world.ids
    devices := fun d hd => (h.world.devices d hd).keeps (.refl _ _) (Nat.le_succ _)
    worker := h.world.worker
    table := h.world.table.le (Nat.le_succ _) }
  ids := h.ids
  clients := fun c hc => (h.clients c hc).frame (Nat.le_succ _) (.refl _ _) rfl rfl
  job := h.job
  idle := h.idle
  deferred := h.deferred

/-- The invariants of a run that goes as it should. -/
structure WellKept (s : State) : Prop where
  owned : Owned s
  attended : Attended s
  settled : Settled s

theorem WellKept.act {δ : Demands} {s s' : State} (hδ : δ.tidy ∧ δ.room ∧ δ.shy) (hs : s.Sound)
    (ha : Act δ s s') (h : WellKept s) : WellKept s' :=
  ⟨h.owned.act hδ.2.1 hs ha, h.attended.act hδ.1 hs ha, h.settled.act hδ.2.2 hs ha⟩

theorem WellKept.outOfMemory {s : State} (hs : s.Sound) (h : WellKept s) (fd : Nat) :
    (refuseClient s fd .outOfMemory).Sound ∧ WellKept (refuseClient s fd .outOfMemory) := by
  have ha : (refuseClient s fd .outOfMemory).world.Accounted := by
    refine (h.settled.world.openFd fd rfl).close _ (nodup_singleton _) fun n hn => ?_
    rw [mem_singleton.mp hn]
    show ((s.world.fds.set (unused s.world.fds.numbers fd) _).get? _).isSome
    rw [Handles.get?_set, if_pos rfl]
    rfl
  have heq : ∃ l, refuseClient s fd .outOfMemory =
      { s with world := { s.world with next := s.world.next + 1, ledger := l } } := by
    refine ⟨(refuseClient s fd .outOfMemory).world.ledger, ?_⟩
    have hfds := set_erase_unused s.world.fds fd ⟨s.world.next, .socket s.world.next⟩
    rw [show refuseClient s fd .outOfMemory = { s with world := { s.world with
      fds := (s.world.fds.set _ _).eraseAll [_]
      next := s.world.next + 1
      ledger := (refuseClient s fd .outOfMemory).world.ledger } } from rfl, hfds]
  obtain ⟨l, heq⟩ := heq
  rw [heq] at ha ⊢
  refine ⟨hs.counted l, ⟨h.owned.deferred, h.owned.buffers⟩, ?_, ha, h.settled.worker,
    h.settled.kept⟩
  exact ⟨h.attended.enabled, h.attended.sockets, h.attended.inbound, h.attended.stray⟩

/-- A client that cannot be listed comes and goes. -/
theorem refuseClient_unlisted {δ : Demands} {s : State} (hs : s.Sound) (fd : Nat) {push : Bool}
    (hroom : δ.room → push = true) (k : Driver) :
    Acts δ s (refuseClient s fd (.unlisted push k)) := by
  have hs' := hs.accept fd
  refine .head (.accept s fd) ?_
  obtain ⟨c, hc⟩ : ∃ c, (acceptClient s fd).clients = s.clients ++ [c] := ⟨_, rfl⟩
  have heq : refuseClient s fd (.unlisted push k) = { acceptClient s fd with
      world := cleanupClient (acceptClient s fd).world c push k, clients := s.clients } := by
    simp only [refuseClient, hc, List.getLast?_concat]
  rw [heq]
  generalize acceptClient s fd = s' at hs' hc
  obtain ⟨w, clients, n⟩ := s'
  cases hc
  have hdrop := @Act.drop δ w _ s.clients [] c n push hroom
    (cleanupClientBuffers_cleaned hs'.world hs'.here.conn push k)
  rw [append_nil] at hdrop
  exact .single hdrop

/-! ## Every run -/

/-- What a run must spare the daemon: a callback that fails, a deferred cleanup without room, a
queue pair's descriptor for a client, a set-up that fails with the record half made. -/
def careful (s : State) : Happening → Bool
  | .event e => tidy s e && e.roomy && shy s e
  | .refused _ .outOfMemory => true
  | .refused _ (.setUp ..) => false
  | .refused _ (.unlisted push _) => push

/-- Descriptors are conserved: a call that closes one finds it open; one that was opened is open
under one number and was never closed, or is not open and was closed once; the open ones are
those in the slots, one in each; and whoever has a slot is still called back: no client is
disabled, and the buffers belong to connections that are there or about to be cleaned up. -/
structure Conserved (s : State) : Prop where
  found : ∀ call ∈ s.world.ledger.closed, call.2.isSome
  once : ∀ o ∈ s.world.ledger.opened,
    (∃! e, e ∈ s.world.fds ∧ e.2.object = o) ∧ o ∉ s.world.ledger.returned Descriptor.object ∨
      (∀ e ∈ s.world.fds, e.2.object ≠ o) ∧
        (s.world.ledger.returned Descriptor.object).count o = 1
  opened : ∀ e ∈ s.world.fds, e.2.object ∈ s.world.ledger.opened
  slots : s.slots.Perm (s.world.fds.map fun e => (e.1, e.2.holder))
  enabled : ∀ c ∈ s.clients, c.enabled = true
  buffers : ∀ d ∈ s.world.devices, ∀ b ∈ d.buffers, b.clientId ∈ s.conns

theorem WellKept.conserved {s : State} (hs : s.Sound) (h : WellKept s) : Conserved s where
  found := h.settled.world.balanced.found
  once := fun _ ho => h.settled.world.balanced.once ho
  opened := fun _ he => h.settled.world.balanced.objects.mem_iff.mpr
    (mem_append_left _ (mem_map_of_mem he))
  slots := h.settled.slots hs h.attended
  enabled := h.attended.enabled
  buffers := h.owned.buffers

/-- Everything is demanded. -/
def carefulRun : Demands := ⟨True, True, True⟩

theorem happen_wellKept {s : State} {x : Happening} (hx : careful s x = true)
    (h : s.Sound ∧ WellKept s) : (happen s x).Sound ∧ WellKept (happen s x) := by
  have hact : ∀ {s s' : State}, s.Sound → Act carefulRun s s' → WellKept s → WellKept s' :=
    fun hs ha h => h.act ⟨trivial, trivial, trivial⟩ hs ha
  cases x with
  | event e =>
    simp only [careful, Bool.and_eq_true] at hx
    exact (step_acts h.1 (fun _ => hx.1.1) (fun _ => hx.1.2) fun _ => hx.2).invariant hact h
  | refused fd failure =>
    cases failure with
    | outOfMemory => exact h.2.outOfMemory h.1 fd
    | setUp stale push k => cases hx
    | unlisted push k => exact (refuseClient_unlisted h.1 fd (fun _ => hx) k).invariant hact h

theorem descriptors_conserved (found : Discovery) (happenings : List Happening)
    (h : Along happen (fun s x => careful s x = true) (boot found) happenings) :
    Conserved (runFrom happen (boot found) happenings) := by
  have hboot : (boot found).Sound ∧ WellKept (boot found) :=
    ⟨boot_sound found, boot_owned found, boot_attended found, boot_settled found⟩
  have hrun := h.invariant (I := fun s => s.Sound ∧ WellKept s)
    (fun _ _ hx hi => happen_wellKept hx hi) hboot
  exact hrun.2.conserved hrun.1

/-- A connection finds no memory, a client comes, opens a buffer, writes a design and hangs up. -/
def writeAndLeave : List Happening :=
  [.refused 3 .outOfMemory, .event (.accept 3), .event (openBuffer 2 {}),
    .refused 5 (.unlisted true ({} : Answers).driver), .event (writeDesign 2),
    .event (.transferDone 9 0), .event (hangUp 2 ({} : Answers).driver)]

theorem writing_and_leaving_conserves :
    Along happen (fun s x => careful s x = true) (boot oneBoard) writeAndLeave ∧
      Conserved (runFrom happen (boot oneBoard) writeAndLeave) :=
  ⟨by decide +kernel, descriptors_conserved oneBoard writeAndLeave (by decide +kernel)⟩

/-- A connection whose peer has no entry in the user database. -/
def unknownPeer : List Happening := [.refused 3 (.setUp none true ({} : Answers).driver)]

/-- A client asks for the descriptor of a queue pair, gets it and leaves. -/
def qpairTaken : List Happening :=
  [.event (.accept 3), .event (requestOf 1 ⟨12, 1, .qdmaQpairGetFd 0 0⟩ [] {}),
    .event (hangUp 1 ({} : Answers).driver)]

/-- A message that is cut off, with a descriptor. -/
def cutOff : Incoming where
  truncated := true
  length := 8
  message := ⟨0, 2, .query .getNumDevices⟩
  control := [.rights [7] false]

def truncatedWithDescriptor : List Happening :=
  [.event (.accept 3), .event (.io 1 { input := true } { recv := .message cutOff }),
    .event (hangUp 1 ({} : Answers).driver)]

/-- The three ways to lose a descriptor or to close a stranger's. -/
theorem descriptors_not_conserved :
    ((0, none) ∈ (runFrom happen (boot oneBoard) unknownPeer).world.ledger.closed ∧
      ¬ Conserved (runFrom happen (boot oneBoard) unknownPeer)) ∧
    ¬ Conserved (runFrom happen (boot oneBoard) qpairTaken) ∧
    ¬ Conserved (runFrom happen (boot oneBoard) truncatedWithDescriptor) := by
  have hzero : (0, none) ∈ (runFrom happen (boot oneBoard) unknownPeer).world.ledger.closed := by
    decide +kernel
  refine ⟨⟨hzero, fun h => ?_⟩, fun h => ?_, fun h => ?_⟩
  · have hfound := h.found _ hzero
    cases hfound
  · have hmore : (runFrom happen (boot oneBoard) qpairTaken).slots.length ≠
        (runFrom happen (boot oneBoard) qpairTaken).world.fds.length := by decide +kernel
    exact hmore (by simpa using h.slots.length_eq)
  · have hmore : (runFrom happen (boot oneBoard) truncatedWithDescriptor).slots.length ≠
        (runFrom happen (boot oneBoard) truncatedWithDescriptor).world.fds.length := by
      decide +kernel
    exact hmore (by simpa using h.slots.length_eq)

end Slash.Daemon
