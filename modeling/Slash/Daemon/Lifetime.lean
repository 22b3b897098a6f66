import Slash.Daemon.Steps

/-!
# Devices that somebody waits for

A client whose design write is under way keeps a pointer to its device. Nothing counts such
pointers: the flash worker is kept away by the busy checks of the submit helpers, but hot-plug
removals and the reset before a design write look at the device's own writer at most. The pointer
is good as long as no such request is for a device that a client waits for.
-/

namespace Slash.Daemon

open Lib List
open Libvrtd (Ret)
open Vrtd (U64)

def Stands (w : World) (device : Nat) : Prop :=
  ∃ d ∈ w.devices, d.id = device ∧ d.writer.isSome

theorem Stands.change {σ : Scope} {w w' : World} {device : Nat} (h : Stands w device)
    (hchange : Change σ w w') (hgone : ¬ σ.gone device) : Stands w' device := by
  obtain ⟨d, hd, hid, hwriter⟩ := h
  obtain ⟨d', hd', hid', hwriter'⟩ := hchange.kept d hd (hid ▸ hgone)
  exact ⟨d', hd', hid'.trans hid, hwriter' ▸ hwriter⟩

theorem Stands.written {w w' : World} {device id : Nat} {writer : DesignWriter} (h : Stands w device)
    (hdevices : w'.devices = w.devices.map fun d =>
      if d.id = id then { d with writer := some writer } else d) : Stands w' device := by
  obtain ⟨d, hd, hid, hwriter⟩ := h
  refine ⟨_, hdevices ▸ mem_map_of_mem hd, ?_, ?_⟩
  · split <;> exact hid
  · split
    · rfl
    · exact hwriter

/-- Every client that waits for a design write points to a device that stands. -/
def Awaited (s : State) : Prop :=
  ∀ c ∈ s.clients, ∀ p, c.pendingDesignWrite = some p → Stands s.world p.device

/-- A request does not take away a device that some client waits for. -/
def Note.SparesAwaited : Note → Prop
  | .dispatched snap _ inFd m => ∀ id ∈ m.removes snap.devices inFd, id ∉ snap.pending
  | _ => True

instance Note.decidableSparesAwaited : DecidablePred Note.SparesAwaited
  | .dispatched snap _ inFd m =>
    inferInstanceAs (Decidable (∀ id ∈ m.removes snap.devices inFd, id ∉ snap.pending))
  | .connected .. | .finalising .. | .removing .. | .submitted .. | .transferred .. | .answered ..
  | .passed .. => isTrue trivial

theorem mem_pending {w : World} {clients : List Client} {c : Client} {p : PendingWrite}
    (hc : c ∈ clients) (hp : c.pendingDesignWrite = some p) :
    p.device ∈ (snapshot w clients).pending :=
  mem_filterMap.mpr ⟨c, hc, by rw [hp]; rfl⟩

section Acts

variable {w : World} {before rest : List Client} {c : Client} {n : U64}

/-- One client acts: its own pointer is good, and so is what the others wait for. -/
theorem Awaited.replace {w' : World} {c' : Client} (h : Awaited ⟨w, before ++ c :: rest, n⟩)
    (hown : ∀ p, c'.pendingDesignWrite = some p → Stands w' p.device)
    (hothers : ∀ x ∈ before ++ rest, ∀ p, x.pendingDesignWrite = some p → Stands w p.device →
      Stands w' p.device) : Awaited ⟨w', before ++ c' :: rest, n⟩ := by
  intro x hx p hp
  rcases mem_replaced hx with rfl | hx
  · exact hown p hp
  · exact hothers x hx p hp (h x (mem_others hx) p hp)

theorem Awaited.dispatch {m : Message} {r : World × Client}
    (h : Awaited ⟨w, before ++ c :: rest, n⟩)
    (hd : Dispatched w (snapshot w (before ++ c :: rest)) c m r)
    (hspares : ∀ id, m.removes w.devices c.inFd = some id →
      id ∉ (snapshot w (before ++ c :: rest)).pending) :
    Awaited ⟨r.1, before ++ r.2 :: rest, n⟩ := by
  have hsafe : ∀ x ∈ before ++ rest, ∀ p, x.pendingDesignWrite = some p →
      ¬ (m.scope w.devices c.connId c.inFd).gone p.device := fun x hx p hp hgone =>
    hspares p.device hgone (mem_pending (mem_others hx) hp)
  cases hd with
  | taken _ => exact h
  | answered w' ret fd hpending hchange _ =>
    refine h.replace (fun p hp => ?_) fun x hx p hp hstands => ?_
    · rw [show (c.answered m ret fd _).pendingDesignWrite = none from hpending] at hp
      cases hp
    · have hstands' := Stands.change (w := w.note _) hstands hchange (hsafe x hx p hp)
      exact hstands'
  | writing w' d writer fd hpending hchange htarget hwriter _ _ _ _ =>
    rw [submitted_eq]
    refine h.replace (fun p hp => ?_) fun x hx p hp hstands => ?_
    · cases hp
      exact Stands.written (w := w') ⟨d, htarget.1, rfl, by rw [hwriter]; rfl⟩ rfl
    · exact (Stands.change (w := w.note _) hstands hchange (hsafe x hx p hp)).written rfl
  | waiting d partition inputFd worker hpending _ _ _ _ _ =>
    rw [employed_eq]
    exact h.replace (fun p hp => absurd (hpending.symm.trans hp) nofun) fun _ _ _ _ hstands => hstands
  | started d partition inputFd worker hpending _ _ _ _ =>
    rw [employed_eq]
    exact h.replace (fun p hp => absurd (hpending.symm.trans hp) nofun) fun _ _ _ _ hstands => hstands

theorem Awaited.client {δ : Demands} {r : World × Client}
    (h : Awaited ⟨w, before ++ c :: rest, n⟩)
    (ha : ClientAct δ w (snapshot w (before ++ c :: rest)) c r)
    (hlog : ∀ x ∈ r.1.log, x.SparesAwaited) : Awaited ⟨r.1, before ++ r.2 :: rest, n⟩ := by
  have hown := h c (mem_append_right _ mem_cons_self)
  cases ha with
  | receive recv ok _ _ hr =>
    rw [hr.rest, hr.client]
    exact h.replace hown fun _ _ _ _ hstands => hstands
  | dispatch m _ _ _ _ hd => exact h.dispatch hd (hlog _ hd.noted.2)
  | send hsend =>
    obtain ⟨⟨log, rfl, -⟩, response, -, rfl⟩ := hsend
    exact h.replace hown fun _ _ _ _ hstands => hstands
  | slots wanted armed enabled _ => exact h.replace hown fun _ _ _ _ hstands => hstands
  | finalise _ hf =>
    cases hf with
    | idle _ => exact h
    | done p w' error ret _ _ _ hchange =>
      refine h.replace (fun p' hp' => ?_) fun x hx p' hp' hstands => ?_
      · rw [Client.finalised, clientUpdateWanted_eq] at hp'
        cases hp'
      · have hstands' := Stands.change (w := w.note _) hstands hchange fun hgone => hgone
        exact hstands'

end Acts

/-- While the flash worker owns the devices nobody waits for a design write. -/
theorem State.Sound.nobody_writes {s : State} (h : s.Sound) (hrunning : s.world.asyncInProgress = true)
    {c : Client} (hc : c ∈ s.clients) : c.pendingDesignWrite = none := by
  cases hp : c.pendingDesignWrite with
  | none => rfl
  | some p =>
    have hidle := ((h.clients c hc).writing p hp).1
    rw [hrunning] at hidle
    cases hidle

theorem State.Sound.running {s : State} (h : s.Sound) {j : Job}
    (hjob : s.world.worker.job = some j) : s.world.asyncInProgress = true :=
  h.job (by rw [hjob]; rfl)

theorem Awaited.act {δ : Demands} {s s' : State} (hs : s.Sound) (ha : Act δ s s')
    (hlog : ∀ x ∈ s'.world.log, x.SparesAwaited) (h : Awaited s) : Awaited s' := by
  cases ha with
  | client ha => exact h.client ha hlog
  | accept s fd =>
    intro c hc p hp
    rcases mem_append.mp hc with hc | hc
    · exact h c hc p hp
    · rw [mem_singleton.mp hc] at hp
      cases hp
  | drop push _ hcleaned =>
    intro x hx p hp
    have hstands := h x (mem_others hx) p hp
    cases hcleaned with
    | deferred ids _ _ _ _ => exact hstands
    | atOnce _ _ hchange _ =>
      have hstands' := Stands.change hstands hchange fun hgone => hgone
      exact hstands'
  | collect hrunning _ _ =>
    intro x hx p hp
    obtain ⟨c, hc, rfl⟩ := mem_map.mp hx
    rw [(delivered_alike _ c).pendingDesignWrite, hs.nobody_writes hrunning hc] at hp
    cases hp
  | transfer device error ht =>
    intro x hx p hp
    have hstands := h x hx p hp
    cases ht with
    | idle => exact hstands
    | done _ _ _ _ _ _ _ _ => exact hstands.written rfl
  | work hw =>
    intro x hx p hp
    have hidle := ((hs.clients x hx).writing p hp).1
    cases hw with
    | idle => exact h x hx p hp
    | removed j w' hj _ => exact absurd (hidle.symm.trans (hs.running hj)) nofun
    | discovered j w' ret hj _ => exact absurd (hidle.symm.trans (hs.running hj)) nofun
    | finished j result hj => exact absurd (hidle.symm.trans (hs.running hj)) nofun

/-- One board with a QDMA node and no usable BAR. -/
def oneBoard : Discovery := some [⟨"/dev/slash_ctl0", some ⟨"0000:01:00.0", true, []⟩⟩]

/-- A callback on which a whole request comes in. -/
def requestOf (client : Nat) (m : Message) (control : List Cmsg) (k : Answers) : Event :=
  .io client { input := true }
    { recv := .message { length := m.size + 8, message := m, control := control }, answers := k }

/-- The first client writes a design to the board, after the reset that boots the shell for it. -/
def writeDesign (client : Nat) : Event :=
  requestOf client ⟨5, 1, .designWrite 0 .service⟩ [.rights [7] false]
    { reset := .rediscovered oneBoard }

/-- While the design is written a second client removes the function that the daemon drives. -/
def removedWhileWritten : List Event :=
  [.accept 3, .accept 4, writeDesign 1,
    requestOf 3 ⟨7, 1, .deviceHotplugOp 0 .remove 2 .unknown⟩ [] {}]

end Slash.Daemon
