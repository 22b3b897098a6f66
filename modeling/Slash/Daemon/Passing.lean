import Slash.Daemon.Lifetime

/-!
# Descriptors in responses

A response that could not be sent yet keeps the bare number of a descriptor that a device or a
buffer is to close. The number is good as long as no request removes the device, no refresh reopens
its BARs and no new connection gets an id in use: then whatever is attached in the end is what the
handler selected. The history says so for every send.
-/

namespace Slash.Daemon

open Lib List
open Libvrtd (Ret)
open Vrtd (U64)

/-- The descriptor of a response that waits is what the handler selected, and nobody but a device
or the connection itself is to close it. -/
def Unsent (w : World) (c : Client) : Prop :=
  ∀ r, c.response = some r → ∀ n, r.fd = some n →
    ∃ d, w.fds.get? n = some d ∧ r.object = some d.object ∧ d.holder.Sendable c.connId

/-- Every descriptor that was attached to a response was the selected one. -/
def PassedSelected (log : List Note) : Prop :=
  ∀ client number found selected, .passed client number found selected ∈ log →
    found.isSome ∧ found = selected

/-- Descriptors in responses are the selected ones, while they wait and when they are sent. -/
def DescriptorsSelected (s : State) : Prop :=
  (∀ c ∈ s.clients, Unsent s.world c) ∧ PassedSelected s.world.log

structure Passing (s : State) : Prop where
  conns : (s.clients.map (·.connId)).Nodup
  deferred : ∀ c ∈ s.clients, c.connId ∉ s.world.deferred
  unsent : ∀ c ∈ s.clients, Unsent s.world c
  passed : PassedSelected s.world.log

/-- No connection id is given twice at a time, and nothing closes a descriptor that a response
waits to pass: no removal of its device, no refresh of its BARs. -/
def Note.SparesUnsent : Note → Prop
  | .connected taken connId => connId ∉ taken
  | .dispatched snap _ inFd m =>
    ∀ id ∈ m.removes snap.devices inFd, ∀ holder ∈ snap.unsent, holder.device? ≠ some id
  | .finalising snap device => Holder.bar device ∉ snap.unsent
  | .removing snap device => ∀ holder ∈ snap.unsent, holder.device? ≠ some device
  | _ => True

instance Note.decidableSparesUnsent : DecidablePred Note.SparesUnsent
  | .connected taken connId => inferInstanceAs (Decidable (connId ∉ taken))
  | .dispatched snap _ inFd m => inferInstanceAs (Decidable (∀ id ∈ m.removes snap.devices inFd,
      ∀ holder ∈ snap.unsent, holder.device? ≠ some id))
  | .finalising snap device => inferInstanceAs (Decidable (Holder.bar device ∉ snap.unsent))
  | .removing snap device =>
    inferInstanceAs (Decidable (∀ holder ∈ snap.unsent, holder.device? ≠ some device))
  | .submitted .. | .transferred .. | .answered .. | .passed .. => isTrue trivial

theorem Unsent.keeps {w w' : World} {c : Client} (h : Unsent w c)
    (hkeep : ∀ r n d, c.response = some r → r.fd = some n → w.fds.get? n = some d →
      d.holder.Sendable c.connId → w'.fds.get? n = some d) : Unsent w' c := by
  intro r hr n hn
  obtain ⟨d, hget, hobject, hsendable⟩ := h r hr n hn
  exact ⟨d, hkeep r n d hr hn hget hsendable, hobject, hsendable⟩

theorem mem_unsent {w : World} {clients : List Client} {c : Client} (hc : c ∈ clients)
    {r : Response} (hr : c.response = some r) {n : Nat} (hn : r.fd = some n) {d : Descriptor}
    (hget : w.fds.get? n = some d) : d.holder ∈ (snapshot w clients).unsent :=
  mem_filterMap.mpr ⟨c, hc, by simp [hr, hn, hget]⟩

/-- What keeps every descriptor that is not a client's own keeps what waits to be passed. -/
theorem Unsent.apart {w w' : World} {c : Client} (h : Unsent w c)
    (hkeep : w.fds.Keeps (fun d => d.holder.Sendable c.connId) w'.fds) : Unsent w' c :=
  h.keeps fun _ n d _ _ hget hsendable => hkeep n d hget hsendable

theorem Holder.Sendable.ne_inbound {connId : U64} {holder : Holder} (h : holder.Sendable connId)
    (client : Nat) : holder ≠ .inbound client := by
  rintro rfl
  exact h

theorem Holder.Sendable.ne_socket {connId : U64} {holder : Holder} (h : holder.Sendable connId)
    (client : Nat) : holder ≠ .socket client := by
  rintro rfl
  exact h

section Acts

variable {w w' : World} {before rest : List Client} {c c' : Client} {n : U64}

theorem Passing.other_conn (h : Passing ⟨w, before ++ c :: rest, n⟩) {x : Client}
    (hx : x ∈ before ++ rest) : x.connId ≠ c.connId := by
  have hperm : (before ++ c :: rest).Perm (c :: (before ++ rest)) := perm_middle
  have hnodup := (hperm.map (·.connId)).nodup_iff.mp h.conns
  exact fun heq => (nodup_cons.mp hnodup).1 (mem_map.mpr ⟨x, hx, heq⟩)

theorem Passing.replace (h : Passing ⟨w, before ++ c :: rest, n⟩) (hconn : c'.connId = c.connId)
    (hdeferred : w'.deferred = w.deferred) (hown : Unsent w' c')
    (hothers : ∀ x ∈ before ++ rest, Unsent w x → Unsent w' x)
    (hpassed : PassedSelected w'.log) : Passing ⟨w', before ++ c' :: rest, n⟩ where
  conns := by
    have hconns := h.conns
    simp only [map_append, map_cons] at hconns ⊢
    rw [hconn]
    exact hconns
  deferred := fun x hx => by
    show x.connId ∉ w'.deferred
    rw [hdeferred]
    rcases mem_replaced hx with rfl | hx
    · rw [hconn]
      exact h.deferred c (mem_append_right _ mem_cons_self)
    · exact h.deferred x (mem_others hx)
  unsent := fun x hx => by
    rcases mem_replaced hx with rfl | hx
    · exact hown
    · exact hothers x hx (h.unsent x (mem_others hx))
  passed := hpassed

theorem PassedSelected.cons {log : List Note} (h : PassedSelected log) {x : Note}
    (hx : ∀ client number found selected, x = .passed client number found selected →
      found.isSome ∧ found = selected) : PassedSelected (x :: log) := by
  intro client number found selected hmem
  rcases mem_cons.mp hmem with heq | hmem
  · exact hx client number found selected heq.symm
  · exact h client number found selected hmem

theorem PassedSelected.cons_of_ne {log : List Note} (h : PassedSelected log) {x : Note}
    (hx : ∀ client number found selected, x ≠ .passed client number found selected) :
    PassedSelected (x :: log) :=
  h.cons fun client number found selected heq => absurd heq (hx client number found selected)

theorem PassedSelected.dispatch {snap : Snapshot} {m : Message} {r : World × Client}
    (h : PassedSelected w.log) (hd : Dispatched w snap c m r) : PassedSelected r.1.log := by
  rcases hd.log with heq | ⟨p, -, heq⟩ <;> rw [heq]
  · exact h.cons_of_ne nofun
  · refine PassedSelected.cons_of_ne (PassedSelected.cons_of_ne h ?_) ?_
    · exact nofun
    · exact nofun

/-- A request closes transfers of its own connection and what a removed device held. -/
theorem Passing.handled {m : Message} {note : Note} (h : Passing ⟨w, before ++ c :: rest, n⟩)
    (hspares : ∀ id, m.removes w.devices c.inFd = some id →
      ∀ holder ∈ (snapshot w (before ++ c :: rest)).unsent, holder.device? ≠ some id)
    (hchange : Change (m.scope w.devices c.connId c.inFd) (w.note note) w') {x : Client}
    (hx : x ∈ before ++ rest) : Unsent w' x := by
  refine (h.unsent x (mem_others hx)).keeps fun r k d hr hk hget hsendable => ?_
  refine hchange.keeps k d hget fun hshut => ?_
  rcases hshut with ⟨id, hid, hdevice⟩ | ⟨device, buffer, hholder⟩
  · exact hspares id hid d.holder (mem_unsent (mem_others hx) hr hk hget) hdevice
  · rw [hholder] at hsendable
    exact h.other_conn hx hsendable.symm

theorem Passing.dispatch {m : Message} {r : World × Client}
    (hs : State.Sound ⟨w, before ++ c :: rest, n⟩) (h : Passing ⟨w, before ++ c :: rest, n⟩)
    (hresponse : c.response = none)
    (hd : Dispatched w (snapshot w (before ++ c :: rest)) c m r)
    (hspares : ∀ id, m.removes w.devices c.inFd = some id →
      ∀ holder ∈ (snapshot w (before ++ c :: rest)).unsent, holder.device? ≠ some id) :
    Passing ⟨r.1, before ++ r.2 :: rest, n⟩ := by
  have hc := hs.here
  -- a handler leaves the descriptors of clients
  have hin : ∀ {w₁ : World}, Change (m.scope w.devices c.connId c.inFd)
      (w.note (.dispatched (snapshot w (before ++ c :: rest)) c.id c.inFd m)) w₁ →
      ∀ k, c.inFd = some k → Held w₁.fds k (.inbound c.id) := fun hchange =>
    ((hc.note _).change (Message.scope_devices _ _ _ _) hchange).inbound
  -- after it only descriptors of the client itself are closed or change hands
  have hleft : ∀ {t : Handles Descriptor} {w₁ w₂ : World} {x : Client}, w₂.fds = t →
      w₁.fds.Keeps (fun d => d.holder ≠ .inbound c.id) t → Unsent w₁ x → Unsent w₂ x := by
    rintro t w₁ w₂ x rfl hkeep hx
    exact hx.apart (hkeep.mono fun d hd => hd.ne_inbound c.id)
  refine h.replace hd.frame.2.2 hd.frame.1 ?_ (fun x hx hunsent => ?_) (h.passed.dispatch hd)
  · cases hd with
    | answered w' ret fd _ hchange hfd =>
      rintro r' ⟨⟩ k hk
      obtain ⟨holder, ⟨object, hget⟩, hsendable⟩ := hfd k hk
      refine ⟨⟨object, holder⟩, ?_, ?_, hsendable⟩
      · exact keeps_close (fun k' hk' => hin hchange k' (Option.mem_toList.mp hk')) k _ hget
          (hsendable.ne_inbound c.id)
      · rw [show fd = some k from hk, Option.bind_some, World.object, hget]
        rfl
    | started d partition inputFd worker _ _ _ _ _ =>
      rintro r' ⟨⟩ k ⟨⟩
    | taken _ | writing _ _ _ _ _ _ _ _ _ _ _ _ | waiting _ _ _ _ _ _ _ _ _ _ =>
      intro r' hr'
      rw [show c.response = some r' from hr'] at hresponse
      cases hresponse
  · cases hd with
    | taken _ => exact hunsent
    | answered w' ret fd _ hchange _ =>
      refine hleft rfl (keeps_close fun k hk => ?_) (h.handled hspares hchange hx)
      exact hin hchange k (Option.mem_toList.mp hk)
    | writing w' d writer fd _ hchange _ _ _ _ hfd _ =>
      exact hleft rfl (hold_keeps (hin hchange fd hfd) _) (h.handled hspares hchange hx)
    | waiting d partition inputFd worker _ _ _ _ hinput _ =>
      exact hleft rfl (hc.employed_keeps hinput _ worker) hunsent
    | started d partition inputFd worker _ _ _ hinput _ =>
      exact hleft rfl (hc.left_keeps hinput _ worker) hunsent

theorem Unsent.response {r' : Option Response} (h : Unsent w c) (hconn : c'.connId = c.connId)
    (hresponse : c'.response = r') (hr' : r' = c.response ∨ r' = none) : Unsent w c' := by
  intro r hr k hk
  rw [hresponse] at hr
  rcases hr' with rfl | rfl
  · rw [hconn]
    exact h r hr k hk
  · cases hr

theorem Passing.client {δ : Demands} {r : World × Client}
    (hs : State.Sound ⟨w, before ++ c :: rest, n⟩) (h : Passing ⟨w, before ++ c :: rest, n⟩)
    (ha : ClientAct δ w (snapshot w (before ++ c :: rest)) c r)
    (hlog : ∀ x ∈ r.1.log, x.SparesUnsent) : Passing ⟨r.1, before ++ r.2 :: rest, n⟩ := by
  have hc := hs.here
  have hown := h.unsent c (mem_append_right _ mem_cons_self)
  cases ha with
  | receive recv ok _ _ hr =>
    have hkeep : ∀ {x : Client}, Unsent w x → Unsent _ x := fun hx =>
      hx.apart ((hr.keeps_of hc.inbound).mono fun d hd => hd.ne_inbound c.id)
    refine h.replace (by rw [hr.client]) (by rw [hr.rest]) ?_ (fun x _ hx => hkeep hx) ?_
    · exact (hkeep hown).response (by rw [hr.client]) (by rw [hr.client]) (.inl rfl)
    · rw [hr.rest]
      exact h.passed
  | dispatch m _ hresponse _ _ hd => exact h.dispatch hs hresponse hd (hlog _ hd.noted.2)
  | send hsend =>
    obtain ⟨⟨log, rfl, hsent⟩, response, hresponse, rfl⟩ := hsend
    refine h.replace rfl rfl (hown.response rfl rfl hresponse) (fun x _ hx => hx) ?_
    rcases hsent with ⟨rfl, -⟩ | ⟨r, m, hr, hm, rfl⟩
    · exact h.passed
    · -- what is attached is what the invariant says of a response that waits
      obtain ⟨d, hget, hobject, -⟩ := hown r hr m hm
      refine h.passed.cons fun client number found selected heq => ?_
      cases heq
      simp [World.object, hget, hobject]
  | slots wanted armed enabled _ =>
    exact h.replace rfl rfl (hown.response rfl rfl (.inl rfl)) (fun x _ hx => hx) h.passed
  | finalise _ hf =>
    cases hf with
    | idle _ => exact h
    | done p w' error ret _ _ _ hchange =>
      have hspares : Holder.bar p.device ∉ (snapshot w (before ++ c :: rest)).unsent :=
        hlog (.finalising _ p.device) (mem_cons_of_mem _ (by
          rw [hchange.log]
          exact mem_cons_self))
      refine h.replace ?_ hchange.deferred ?_ (fun x hx hunsent => ?_) ?_
      · rw [Client.finalised, clientUpdateWanted_eq]
      · rw [Client.finalised, clientUpdateWanted_eq]
        rintro r ⟨⟩ k ⟨⟩
      · refine hunsent.keeps fun r k d hr hk hget _ => hchange.keeps k d hget fun hshut => ?_
        exact hspares (hshut ▸ mem_unsent (mem_others hx) hr hk hget)
      · refine PassedSelected.cons_of_ne ?_ fun _ _ _ _ h => by cases h
        rw [hchange.log]
        exact h.passed.cons_of_ne fun _ _ _ _ h => by cases h

theorem Passing.world {clients : List Client} (h : Passing ⟨w, clients, n⟩)
    (hdeferred : w'.deferred = w.deferred)
    (hunsent : ∀ c ∈ clients, Unsent w c → Unsent w' c) (hpassed : PassedSelected w'.log) :
    Passing ⟨w', clients, n⟩ where
  conns := h.conns
  deferred := fun c hc => by
    rw [hdeferred]
    exact h.deferred c hc
  unsent := fun c hc => hunsent c hc (h.unsent c hc)
  passed := hpassed

theorem Passing.drop {push : Bool} (hs : State.Sound ⟨w, before ++ c :: rest, n⟩)
    (h : Passing ⟨w, before ++ c :: rest, n⟩) (hcleaned : Cleaned w c push w') :
    Passing ⟨w'.closeFds (c.inFd.toList ++ [c.fd]), before ++ rest, n⟩ := by
  have hleave : ∀ {x : Client}, Unsent w' x → Unsent (w'.closeFds (c.inFd.toList ++ [c.fd])) x :=
    fun hx => hx.apart ((hcleaned.client hs.here).leave_keeps.mono fun d hd =>
      ⟨hd.ne_inbound c.id, hd.ne_socket c.id⟩)
  refine ⟨h.conns.sublist (((sublist_cons_self c rest).append_left before).map _), ?_,
    fun x hx => hleave ?_, ?_⟩
  · intro x hx
    have hnot := h.deferred x (mem_others hx)
    cases hcleaned with
    | deferred ids _ _ hids _ => exact fun hmem => (hids _ hmem).elim hnot (h.other_conn hx)
    | atOnce _ _ hchange _ =>
      show _ ∉ w'.deferred
      rw [hchange.deferred]
      exact hnot
  · have hunsent := h.unsent x (mem_others hx)
    cases hcleaned with
    | deferred ids _ _ _ _ => exact hunsent
    | atOnce _ _ hchange _ =>
      refine hunsent.apart (hchange.keeps.mono fun d hd => ?_)
      rintro ⟨device, conn, buffer, rfl, hholder⟩
      rw [hholder] at hd
      exact h.other_conn hx hd.symm
  · cases hcleaned with
    | deferred ids _ _ _ _ => exact h.passed
    | atOnce _ _ hchange _ =>
      show PassedSelected w'.log
      rw [hchange.log]
      exact h.passed

theorem Passing.collect {clients : List Client} (h : Passing ⟨w, clients, n⟩)
    (hd : Drained { w with asyncInProgress := false } w') :
    Passing ⟨w', clients.map fun c =>
      if c.pendingAsyncOp then clientDeliverAsyncDeviceOpResult w.worker.result c else c, n⟩ := by
  obtain ⟨hchange, hdeferred, -⟩ := hd
  have hlog : w'.log = w.log := hchange.log
  have hkeep : ∀ c ∈ clients, Unsent w' c := by
    intro c hc
    refine (h.unsent c hc).apart (hchange.keeps.mono fun d hd => ?_)
    rintro ⟨device, conn, buffer, hconn, hholder⟩
    rw [hholder] at hd
    have heq : conn = c.connId := hd
    exact h.deferred c hc (heq ▸ hconn)
  refine ⟨?_, fun x hx => ?_, fun x hx => ?_, hlog ▸ h.passed⟩
  · rw [map_map]
    exact (congrArg List.Nodup (map_congr_left fun c _ =>
      (delivered_alike _ c).connId)).mpr h.conns
  · rw [hdeferred]
    exact not_mem_nil
  · obtain ⟨c, hc, rfl⟩ := mem_map.mp hx
    split
    · rw [clientDeliverAsyncDeviceOpResult, clientUpdateWanted_eq]
      rintro r ⟨⟩ k ⟨⟩
    · exact hkeep c hc

end Acts

theorem Passing.accept {s : State} (h : Passing s) (fd : Nat)
    (hlog : ∀ x ∈ (acceptClient s fd).world.log, x.SparesUnsent) : Passing (acceptClient s fd) := by
  have ho := openFds_opens { s.world with next := s.world.next + 1 } (.socket s.world.next) [some fd]
  have hkeep : ∀ P, s.world.fds.Keeps P (acceptClient s fd).world.fds := ho.keeps
  have hfresh := hlog _ mem_cons_self
  obtain ⟨hclients, hdeferred⟩ := not_or.mp fun hmem => hfresh (mem_append.mpr hmem)
  refine ⟨?_, fun x hx => ?_, fun x hx => ?_, h.passed.cons_of_ne nofun⟩
  · show ((s.clients ++ [_]).map (fun c : Client => c.connId)).Nodup
    rw [map_append, nodup_append]
    refine ⟨h.conns, nodup_singleton _, fun x hx y hy heq => ?_⟩
    rw [map_singleton, mem_singleton] at hy
    rw [heq, hy] at hx
    exact hclients hx
  · rcases mem_append.mp hx with hx | hx
    · exact h.deferred x hx
    · rw [mem_singleton.mp hx]
      exact hdeferred
  · rcases mem_append.mp hx with hx | hx
    · exact (h.unsent x hx).apart (hkeep _)
    · rw [mem_singleton.mp hx]
      exact nofun

theorem boot_passing (found : Discovery) : Passing (boot found) where
  conns := nodup_nil
  deferred := fun _ hc => absurd hc not_mem_nil
  unsent := fun _ hc => absurd hc not_mem_nil
  passed := fun _ _ _ _ hmem => by
    rw [(boot_change found).log] at hmem
    cases hmem

theorem Passing.act {δ : Demands} {s s' : State} (hs : s.Sound) (ha : Act δ s s')
    (hlog : ∀ x ∈ s'.world.log, x.SparesUnsent) (h : Passing s) : Passing s' := by
  cases ha with
  | client ha => exact h.client hs ha hlog
  | accept s fd => exact h.accept fd hlog
  | drop push _ hcleaned => exact h.drop hs hcleaned
  | collect _ _ hd => exact h.collect hd
  | transfer device error ht =>
    cases ht with
    | idle => exact h
    | done d fd object lastError _ _ _ hget =>
      refine h.world rfl (fun c _ hc => hc.apart ?_) (h.passed.cons_of_ne nofun)
      refine (@keeps_close _ _ (.writer device) fun m hm => ?_).mono fun x hx heq => ?_
      · rw [mem_singleton.mp hm]
        exact ⟨object, hget⟩
      · rw [heq] at hx
        exact hx
  | work hw =>
    cases hw with
    | idle => exact h
    | removed j w' _ hchange =>
      have hspares : ∀ holder ∈ (snapshot _ _).unsent, holder.device? ≠ some j.device :=
        hlog (.removing _ j.device) (by
          rw [show _ = _ from hchange.log]
          exact mem_cons_self)
      refine h.world hchange.deferred (fun c hc hunsent => ?_) ?_
      · exact hunsent.keeps fun r k d hr hk hget _ => hchange.keeps k d hget
          (hspares d.holder (mem_unsent hc hr hk hget))
      · show PassedSelected w'.log
        rw [hchange.log]
        exact h.passed.cons_of_ne nofun
    | discovered j w' ret _ hchange =>
      refine h.world hchange.deferred (fun c hc hunsent => ?_) (hchange.log ▸ h.passed)
      exact hunsent.apart (hchange.keeps.mono fun _ _ hshut => hshut)
    | finished j result hj =>
      refine h.world rfl (fun c _ hc => hc.apart ?_) h.passed
      refine (@keeps_close _ _ .worker fun m hm => ?_).mono fun x hx heq => ?_
      · exact hs.world.worker j hj m (Option.mem_toList.mp hm)
      · rw [heq] at hx
        exact hx

/-- One board with a BAR, whose file gets the number 6 if that is free. -/
def barBoard : Discovery := some [⟨"/dev/slash_ctl0", some ⟨"0000:01:00.0", true, [some 6]⟩⟩]

/-- A client asks for the BAR and does not read the response yet. -/
def askForBar (client : Nat) : Event :=
  .io client { input := true } {
    recv := .message { length := 13, message := ⟨5, 1, .getBarFd 0 0⟩ }
    send := .again }

/-- The socket takes the response. -/
def readResponse (client : Nat) : Event := .io client { output := true } {}

/-- Before the response is read another client removes the board and a third one connects. -/
def removedBeforeSent : List Event :=
  [.accept 3, .accept 4, askForBar 2,
    requestOf 4 ⟨7, 1, .deviceHotplugOp 0 .remove 2 .unknown⟩ [] {}, .accept 6, readResponse 2]

/-- A note of a descriptor passed with another object than the one selected for it. -/
def Note.misplaced : Note → Bool
  | .passed _ _ (some found) (some selected) => found ≠ selected
  | _ => false

theorem Note.misplaced_inv {x : Note} (h : x.misplaced = true) :
    ∃ client number found selected,
      x = .passed client number (some found) (some selected) ∧ found ≠ selected := by
  unfold Note.misplaced at h
  split at h
  · exact ⟨_, _, _, _, rfl, of_decide_eq_true h⟩
  · cases h

end Slash.Daemon
