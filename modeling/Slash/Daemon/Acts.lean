import Slash.Daemon.Effects

/-!
# The event loop, one act at a time

A callback does several things in a row: it receives, dispatches, sends, updates a mask; the timer
goes over all clients. `Act` is one of these things, between two states of the daemon. Every event
is a chain of acts, so an invariant is shown for each kind of act and holds in every reachable
state, in whatever order the acts come.
-/

namespace Slash.Daemon

open Lib List
open Libvrtd (Ret)
open Vrtd (U64)

/-- What may be asked of a run: that clients keep to the protocol and their sockets work, that the
list of deferred cleanups can grow, that no client is given the descriptor of a queue pair. -/
structure Demands where
  tidy : Prop
  room : Prop
  shy : Prop

def KeepsQpairs (w w' : World) : Prop :=
  ∀ n x, w'.fds.get? n = some x → x.holder = .handedOut → w.fds.get? n = some x

/-- What happens to one client; `snap` is what the history records. -/
inductive ClientAct (δ : Demands) (w : World) (snap : Snapshot) (c : Client) :
    World × Client → Prop where
  | receive {w' : World} {c' : Client} (recv : Recv) (ok : Bool) : c.held = none →
      (δ.tidy → recv.acceptable = true) → Receives w c recv w' c' ok →
      ClientAct δ w snap c (w', c')
  | dispatch {r : World × Client} (m : Message) : c.held = some m → c.response = none →
      (w.asyncInProgress = false ∨ m.request.isCfgmemStatus = true) →
      (δ.shy → KeepsQpairs w r.1) → Dispatched w snap c m r → ClientAct δ w snap c r
  | send {w' : World} {c' : Client} : Sends w c w' c' → ClientAct δ w snap c (w', c')
  | slots (wanted : Option Mask) (armed : Mask) (enabled : Bool) :
      (δ.tidy → enabled = c.enabled) →
      ClientAct δ w snap c (w, { c with wanted := wanted, armed := armed, enabled := enabled })
  | finalise {r : World × Client} : w.asyncInProgress = false → Finalised w snap c r →
      ClientAct δ w snap c r

inductive Act (δ : Demands) : State → State → Prop where
  | client {w : World} {before rest : List Client} {c : Client} {n : U64} {r : World × Client} :
      ClientAct δ w (snapshot w (before ++ c :: rest)) c r →
      Act δ ⟨w, before ++ c :: rest, n⟩ ⟨r.1, before ++ r.2 :: rest, n⟩
  | accept (s : State) (fd : Nat) : Act δ s (acceptClient s fd)
  | drop {w w' : World} {before rest : List Client} {c : Client} {n : U64} (push : Bool) :
      (δ.room → push = true) → Cleaned w c push w' →
      Act δ ⟨w, before ++ c :: rest, n⟩
        ⟨w'.closeFds (c.inFd.toList ++ [c.fd]), before ++ rest, n⟩
  | collect {w w' : World} {clients : List Client} {n : U64} : w.asyncInProgress = true →
      w.worker.job = none → Drained { w with asyncInProgress := false } w' →
      Act δ ⟨w, clients, n⟩ ⟨w', clients.map fun c =>
        if c.pendingAsyncOp then clientDeliverAsyncDeviceOpResult w.worker.result c else c, n⟩
  | transfer {w w' : World} {clients : List Client} {n : U64} (device error : Nat) :
      Transferred w device error w' → Act δ ⟨w, clients, n⟩ ⟨w', clients, n⟩
  | work {w w' : World} {clients : List Client} {n : U64} :
      Worked w (snapshot w clients) w' → Act δ ⟨w, clients, n⟩ ⟨w', clients, n⟩

abbrev Acts (δ : Demands) : State → State → Prop := Relation.ReflTransGen (Act δ)

/-! ## Sound states -/

/-- While the flash worker owns the devices nothing is written, and cleanups are deferred only
then. -/
structure State.Sound (s : State) : Prop where
  world : s.world.Sound
  ids : (s.clients.map (·.id)).Nodup
  clients : ∀ c ∈ s.clients, c.Sound s.world
  job : s.world.worker.job.isSome → s.world.asyncInProgress = true
  idle : s.world.asyncInProgress = true → ∀ d ∈ s.world.devices, d.writerBusy = false
  deferred : s.world.asyncInProgress = false → s.world.deferred = []

/-- What another client's act leaves of a client: nobody else touches its descriptors. -/
theorem Client.Sound.frame {w w' : World} {c : Client} (h : c.Sound w) (hnext : w.next ≤ w'.next)
    (hkeep : w.fds.Keeps (fun x => x.holder = .socket c.id ∨ x.holder = .inbound c.id) w'.fds)
    (hasync : w'.asyncInProgress = w.asyncInProgress)
    (hsubmitter : w'.worker.submitter = w.worker.submitter) : c.Sound w' where
  id_lt := Nat.lt_of_lt_of_le h.id_lt hnext
  conn := h.conn
  socket := h.socket.keeps hkeep fun _ => .inl rfl
  inbound := fun n hn => (h.inbound n hn).keeps hkeep fun _ => .inr rfl
  writing := hasync ▸ h.writing
  waiting := hasync ▸ hsubmitter ▸ h.waiting

theorem Client.Sound.change {σ : Scope} {w w' : World} {c : Client} (h : c.Sound w)
    (hσ : σ.Devices) (hchange : Change σ w w') : c.Sound w' := by
  refine h.frame hchange.next_le (hchange.keeps_of hσ fun x hx => ?_) hchange.async
    (by rw [hchange.worker])
  rcases hx with hx | hx <;> rw [hx] <;> rfl

theorem Client.Sound.note {w : World} {c : Client} (h : c.Sound w) (note : Note) :
    c.Sound (w.note note) :=
  h.frame (Nat.le_refl _) (.refl _ _) rfl rfl

section Client

variable {w w' : World} {before rest : List Client} {c c' : Client} {n : U64}

theorem State.Sound.here (h : State.Sound ⟨w, before ++ c :: rest, n⟩) : c.Sound w :=
  h.clients c (mem_append_right _ mem_cons_self)

theorem State.Sound.others (h : State.Sound ⟨w, before ++ c :: rest, n⟩) {x : Client}
    (hx : x ∈ before ++ rest) : x.Sound w ∧ x.id ≠ c.id := by
  have hperm : (before ++ c :: rest).Perm (c :: (before ++ rest)) := perm_middle
  have hnodup := (hperm.map (·.id)).nodup_iff.mp h.ids
  refine ⟨h.clients x (hperm.mem_iff.mpr (mem_cons_of_mem _ hx)), fun heq => ?_⟩
  exact (nodup_cons.mp hnodup).1 (mem_map.mpr ⟨x, hx, heq⟩)

theorem mem_others {x : Client} (hx : x ∈ before ++ rest) : x ∈ before ++ c :: rest :=
  mem_append.mpr ((mem_append.mp hx).imp id (mem_cons_of_mem _))

theorem mem_replaced {x : Client} (hx : x ∈ before ++ c' :: rest) : x = c' ∨ x ∈ before ++ rest := by
  simp only [mem_append, mem_cons] at hx ⊢
  tauto

theorem State.Sound.replace (h : State.Sound ⟨w, before ++ c :: rest, n⟩) (hw : w'.Sound)
    (hid : c'.id = c.id) (hc : c'.Sound w')
    (hothers : ∀ x ∈ before ++ rest, x.Sound w → x.id ≠ c.id → x.Sound w')
    (hjob : w'.worker.job.isSome → w'.asyncInProgress = true)
    (hidle : w'.asyncInProgress = true → ∀ d ∈ w'.devices, d.writerBusy = false)
    (hdeferred : w'.asyncInProgress = false → w'.deferred = []) :
    State.Sound ⟨w', before ++ c' :: rest, n⟩ where
  world := hw
  ids := by
    have hids := h.ids
    simp only [map_append, map_cons] at hids ⊢
    rw [hid]
    exact hids
  clients := fun x hx => by
    rcases mem_replaced hx with rfl | hx
    · exact hc
    · exact hothers x hx (h.others hx).1 (h.others hx).2
  job := hjob
  idle := hidle
  deferred := hdeferred

/-- Descriptors that neither a client's own acts nor the handlers touch. -/
def Holder.Apart (client : Nat) (holder : Holder) : Prop :=
  holder ≠ .inbound client ∧ holder ≠ .socket client ∧ holder.device? = none

theorem Client.Sound.apart {x : Client} (hx : x.Sound w) (hne : x.id ≠ c.id)
    (hnext : w.next ≤ w'.next) (hkeep : w.fds.Keeps (fun d => d.holder.Apart c.id) w'.fds)
    (hasync : w'.asyncInProgress = w.asyncInProgress)
    (hsubmitter : w'.worker.submitter = w.worker.submitter) : x.Sound w' := by
  refine hx.frame hnext (hkeep.mono fun d hd => ?_) hasync hsubmitter
  rcases hd with hd | hd <;> rw [hd]
  · exact ⟨nofun, fun heq => hne (Holder.socket.inj heq), rfl⟩
  · exact ⟨fun heq => hne (Holder.inbound.inj heq), nofun, rfl⟩

/-! ## What the acts keep -/

theorem State.Sound.receive (h : State.Sound ⟨w, before ++ c :: rest, n⟩) (hheld : c.held = none)
    {recv : Recv} {ok : Bool} (hr : Receives w c recv w' c' ok) :
    State.Sound ⟨w', before ++ c' :: rest, n⟩ := by
  have hc := h.here
  have hasync : w'.asyncInProgress = w.asyncInProgress := by rw [hr.rest]
  have hworker : w'.worker = w.worker := by rw [hr.rest]
  have hdevices : w'.devices = w.devices := by rw [hr.rest]
  have hdeferred : w'.deferred = w.deferred := by rw [hr.rest]
  have hkeep := hr.keeps_of hc.inbound
  refine h.replace (hr.sound h.world hc.inbound) (by rw [hr.client]) ?_ ?_ ?_ ?_ ?_
  · rw [hr.client]
    exact {
      id_lt := Nat.lt_of_lt_of_le hc.id_lt hr.next_le
      conn := hc.conn
      socket := hc.socket.keeps hkeep fun _ => nofun
      inbound := hr.inbound
      writing := fun p hp => by
        obtain ⟨-, -, -, m, -, -, hm, -⟩ := hc.writing p hp
        rw [hheld] at hm
        cases hm
      waiting := fun hp => by
        obtain ⟨-, -, -, m, hm, -⟩ := hc.waiting hp
        rw [hheld] at hm
        cases hm }
  · intro x _ hx hne
    exact hx.apart hne hr.next_le (hkeep.mono fun d hd => hd.1) hasync (by rw [hworker])
  · rw [hworker, hasync]
    exact h.job
  · rw [hasync, hdevices]
    exact h.idle
  · rw [hasync, hdeferred]
    exact h.deferred

theorem State.Sound.record (h : State.Sound ⟨w, before ++ c :: rest, n⟩)
    (hw : ∃ log, w' = { w with log := log }) (hid : c'.id = c.id) (hc : c'.Sound w) :
    State.Sound ⟨w', before ++ c' :: rest, n⟩ := by
  obtain ⟨log, rfl⟩ := hw
  refine h.replace ⟨h.world.ids, h.world.devices, h.world.worker, h.world.table⟩ hid
    (hc.frame (Nat.le_refl _) (.refl _ _) rfl rfl) ?_ h.job h.idle h.deferred
  exact fun x _ hx _ => hx.frame (Nat.le_refl _) (.refl _ _) rfl rfl

theorem Client.Sound.slots (h : c.Sound w) (response : Option Response) (newResponse enabled : Bool)
    (wanted : Option Mask) (armed : Mask) (hresponse : response = c.response ∨ response = none) :
    Client.Sound w { c with
      response := response, newResponse := newResponse, enabled := enabled, wanted := wanted,
      armed := armed } where
  id_lt := h.id_lt
  conn := h.conn
  socket := h.socket
  inbound := h.inbound
  writing := fun p hp => by
    obtain ⟨hasync, hin, hnone, hm⟩ := h.writing p hp
    exact ⟨hasync, hin, hresponse.elim (·.trans hnone) fun h => h, hm⟩
  waiting := fun hp => by
    obtain ⟨hasync, hsub, hnone, hm⟩ := h.waiting hp
    exact ⟨hasync, hsub, hresponse.elim (·.trans hnone) fun h => h, hm⟩

/-- The descriptor of an answered request is closed unless somebody took it over. -/
theorem Client.Sound.answered (hc : c.Sound w)
    (hkeep : w.fds.Keeps (fun d => d.holder ≠ .inbound c.id ∧ d.holder.device? = none) w'.fds)
    (hnext : w.next ≤ w'.next) (hpending : c.pendingDesignWrite = none) (hasync : c.pendingAsyncOp = false) (m : Message)
    (ret : Ret) (fd object : Option Nat) : (c.answered m ret fd object).Sound w' where
  id_lt := Nat.lt_of_lt_of_le hc.id_lt hnext
  conn := hc.conn
  socket := hc.socket.keeps hkeep fun _ => ⟨nofun, rfl⟩
  inbound := nofun
  writing := fun p hp => by
    rw [show (c.answered m ret fd object).pendingDesignWrite = none from hpending] at hp
    cases hp
  waiting := fun hp => by
    rw [show (c.answered m ret fd object).pendingAsyncOp = false from hasync] at hp
    cases hp

/-- A client that is not writing waits for the worker only if a job is under way. -/
theorem Client.Sound.not_waiting (hc : c.Sound w) (h : w.asyncInProgress = false) :
    c.pendingAsyncOp = false := by
  by_contra hpending
  have hrunning := (hc.waiting (by simpa using hpending)).1
  rw [h] at hrunning
  cases hrunning

theorem anyDesignWriteActive_false {pending : List Nat}
    (h : anyDesignWriteActive w pending = false) :
    (∀ d ∈ w.devices, d.writerBusy = false) ∧ pending = [] := by
  simp only [anyDesignWriteActive, Bool.or_eq_false_iff, any_eq_false, Bool.not_eq_true,
    Bool.not_eq_eq_eq_not, Bool.not_false, List.isEmpty_iff] at h
  exact h

theorem snapshot_pending_nil {clients : List Client} (h : (snapshot w clients).pending = [])
    {x : Client} (hx : x ∈ clients) : x.pendingDesignWrite = none := by
  cases hp : x.pendingDesignWrite with
  | none => rfl
  | some p =>
    have hmem : p.device ∈ (snapshot w clients).pending :=
      mem_filterMap.mpr ⟨x, hx, by rw [hp]; rfl⟩
    rw [h] at hmem
    cases hmem

/-- Another client, when a job of the flash worker starts. -/
theorem Client.Sound.employed {x : Client} (hx : x.Sound w) (hne : x.id ≠ c.id)
    (hidle : w.asyncInProgress = false) (hpending : x.pendingDesignWrite = none)
    (hnext : w.next ≤ w'.next)
    (hkeep : w.fds.Keeps (fun d => d.holder ≠ .inbound c.id) w'.fds) : x.Sound w' where
  id_lt := Nat.lt_of_lt_of_le hx.id_lt hnext
  conn := hx.conn
  socket := hx.socket.keeps hkeep fun _ => nofun
  inbound := fun m hm => (hx.inbound m hm).keeps hkeep fun _ heq => hne (Holder.inbound.inj heq)
  writing := fun p hp => by
    rw [hpending] at hp
    cases hp
  waiting := fun hp => by
    rw [hx.not_waiting hidle] at hp
    cases hp

section Employed

variable {inputFd : Option Nat} (hinput : inputFd = none ∨ inputFd = c.inFd) (note : Note)
  (worker : FlashWorker)

include hinput

/-- The flash worker's input came with the request. -/
theorem Client.Sound.input (hc : c.Sound w) (k : Nat) (hk : inputFd = some k) :
    Held w.fds k (.inbound c.id) := by
  rcases hinput with hnone | heq
  · rw [hnone] at hk
    cases hk
  · exact hc.inbound k (heq ▸ hk)

theorem Client.Sound.employed_keeps (hc : c.Sound w) :
    w.fds.Keeps (fun d => d.holder ≠ .inbound c.id) ((w.note note).employed worker inputFd).fds :=
  Daemon.employed_keeps ((hc.note note).input hinput) worker

/-- What the worker does not take stays with the client. -/
theorem Client.Sound.left (hc : c.Sound w) (k : Nat)
    (hk : (if inputFd.isSome then none else c.inFd) = some k) :
    Held ((w.note note).employed worker inputFd).fds k (.inbound c.id) := by
  cases inputFd with
  | none => exact hc.inbound k hk
  | some fd => cases hk

theorem Client.Sound.left_keeps (hc : c.Sound w) :
    w.fds.Keeps (fun d => d.holder ≠ .inbound c.id) (((w.note note).employed worker
      inputFd).closeFds (if inputFd.isSome then none else c.inFd).toList).fds :=
  (hc.employed_keeps hinput note worker).trans <| keeps_close fun k hk =>
    hc.left hinput note worker k (Option.mem_toList.mp hk)

end Employed

theorem State.Sound.dispatch {m : Message} {r : World × Client}
    (h : State.Sound ⟨w, before ++ c :: rest, n⟩) (hheld : c.held = some m)
    (hresponse : c.response = none)
    (hguard : w.asyncInProgress = false ∨ m.request.isCfgmemStatus = true)
    (hd : Dispatched w (snapshot w (before ++ c :: rest)) c m r) :
    State.Sound ⟨r.1, before ++ r.2 :: rest, n⟩ := by
  have hc := h.here
  have hnone := hc.dispatchable hheld hguard
  -- what a handler changes leaves the descriptors of clients
  have hkeep : ∀ {w₁ : World}, Change (m.scope w.devices c.connId c.inFd)
      (w.note (.dispatched (snapshot w (before ++ c :: rest)) c.id c.inFd m)) w₁ →
      w.fds.Keeps (fun d => d.holder.device? = none) w₁.fds := fun hchange =>
    hchange.keeps_of (Message.scope_devices _ _ _ _) fun _ hx => hx
  cases hd with
  | taken _ => exact h.record ⟨_, rfl⟩ rfl hc
  | answered w₁ ret fd hpending hchange hfd =>
    have hin : ∀ k ∈ c.inFd.toList, Held w₁.fds k (.inbound c.id) := fun k hk =>
      (hc.inbound k (Option.mem_toList.mp hk)).keeps (hkeep hchange) fun _ => rfl
    have hkeep' : w.fds.Keeps (fun d => d.holder ≠ .inbound c.id ∧ d.holder.device? = none)
        (w₁.closeFds c.inFd.toList).fds :=
      ((hkeep hchange).mono fun _ hd => hd.2).trans ((keeps_close hin).mono fun _ hd => hd.1)
    have hasync : w₁.asyncInProgress = w.asyncInProgress := hchange.async
    have hworker : w₁.worker = w.worker := hchange.worker
    refine h.replace (hchange.sound.close fun k hk => ⟨_, hin k hk, rfl, nofun⟩) rfl
      (hc.answered hkeep' hchange.next_le hpending hnone m ret fd _) ?_ ?_ ?_ ?_
    · intro x _ hx hne
      exact hx.apart hne hchange.next_le (hkeep'.mono fun d hd => ⟨hd.1, hd.2.2⟩) hasync
        (congrArg FlashWorker.submitter hworker)
    · rw [closeFds_worker, closeFds_async, hworker, hasync]
      exact h.job
    · rw [closeFds_async, hasync]
      exact fun hrunning => hchange.idle (h.idle hrunning)
    · rw [closeFds_async, closeFds_deferred, hasync, show w₁.deferred = w.deferred from
        hchange.deferred]
      exact h.deferred
  | writing w₁ d writer fd hpending hchange htarget hwriter hbusy hinput hfd hidle =>
    have hin : Held w₁.fds fd (.inbound c.id) :=
      (hc.inbound fd hfd).keeps (hkeep hchange) fun _ => rfl
    have hkeep' : w.fds.Keeps (fun d => d.holder ≠ .inbound c.id ∧ d.holder.device? = none)
        (w₁.submitted c.id d.id fd).fds :=
      ((hkeep hchange).mono fun _ hd => hd.2).trans ((hold_keeps hin _).mono fun _ hd => hd.1)
    have hsound := hchange.sound.submitted htarget.1 hin c.id
    have hasync : w₁.asyncInProgress = w.asyncInProgress := hchange.async
    have hworker : w₁.worker = w.worker := hchange.worker
    have hnext : w.next ≤ w₁.next := hchange.next_le
    obtain ⟨-, dev, shell, -, hrequest, -⟩ := htarget
    rw [submitted_eq] at hkeep' hsound
    rw [submitted_eq]
    refine h.replace hsound rfl ?_ ?_ ?_ ?_ ?_
    · exact {
        id_lt := Nat.lt_of_lt_of_le hc.id_lt hnext
        conn := hc.conn
        socket := hc.socket.keeps hkeep' fun _ => ⟨nofun, rfl⟩
        inbound := nofun
        writing := fun p _ => ⟨hasync.trans hidle, rfl, hresponse, m, dev, shell, hheld, hrequest⟩
        waiting := fun hp => by
          rw [show c.pendingAsyncOp = true from hp] at hnone
          cases hnone }
    · intro x _ hx hne
      exact hx.apart hne hnext (hkeep'.mono fun d hd => ⟨hd.1, hd.2.2⟩) hasync
        (congrArg FlashWorker.submitter hworker)
    · intro hjob
      exact hasync.trans (h.job (hworker ▸ hjob))
    · intro hrunning
      rw [show w₁.asyncInProgress = true from hrunning, hidle] at hasync
      cases hasync
    · intro _
      exact hchange.deferred.trans (h.deferred hidle)
  | waiting d partition inputFd worker hpending hstatus hidle hactive hinput hsubmit =>
    have hkeep' := hc.employed_keeps hinput
      (.dispatched (snapshot w (before ++ c :: rest)) c.id c.inFd m) worker
    have hown := hc.left hinput (.dispatched (snapshot w (before ++ c :: rest)) c.id c.inFd m) worker
    have hsound := (h.world.note (.dispatched (snapshot w (before ++ c :: rest)) c.id
      c.inFd m)).employed hsubmit ((hc.note _).input hinput)
    obtain ⟨hquiet, hwriting⟩ := anyDesignWriteActive_false hactive
    rw [employed_eq] at hkeep' hsound hown
    rw [employed_eq]
    refine h.replace hsound rfl ?_ ?_ (fun _ => rfl) (fun _ => hquiet) nofun
    · exact {
        id_lt := hc.id_lt
        conn := hc.conn
        socket := hc.socket.keeps hkeep' fun _ => nofun
        inbound := hown
        writing := fun p hp => by
          rw [show c.pendingDesignWrite = some p from hp] at hpending
          cases hpending
        waiting := fun _ => ⟨rfl, (flashWorkerSubmit_some hsubmit).2.1.symm, hresponse, m, hheld,
          hstatus⟩ }
    · intro x hmem hx hne
      exact hx.employed hne hidle (snapshot_pending_nil hwriting (mem_others hmem))
        (Nat.le_refl _) hkeep'
  | started d partition inputFd worker hpending hidle hactive hinput hsubmit =>
    have hclose := hc.left_keeps hinput
      (.dispatched (snapshot w (before ++ c :: rest)) c.id c.inFd m) worker
    have hsound := ((h.world.note (.dispatched (snapshot w (before ++ c :: rest)) c.id
      c.inFd m)).employed hsubmit ((hc.note _).input hinput)).close fun k hk =>
        ⟨_, hc.left hinput _ worker k (Option.mem_toList.mp hk), rfl, nofun⟩
    obtain ⟨hquiet, hwriting⟩ := anyDesignWriteActive_false hactive
    rw [employed_eq] at hclose hsound ⊢
    refine h.replace hsound rfl ?_ ?_ (fun _ => rfl) (fun _ => hquiet) nofun
    · exact hc.answered (hclose.mono fun _ hd => hd.1) (Nat.le_refl _) hpending hnone m .ok none none
    · intro x hmem hx hne
      exact hx.employed hne hidle (snapshot_pending_nil hwriting (mem_others hmem))
        (Nat.le_refl _) hclose

theorem State.Sound.finalise {snap : Snapshot} {r : World × Client}
    (h : State.Sound ⟨w, before ++ c :: rest, n⟩) (hidle : w.asyncInProgress = false)
    (hf : Finalised w snap c r) : State.Sound ⟨r.1, before ++ r.2 :: rest, n⟩ := by
  cases hf with
  | idle _ => exact h
  | done p w₁ error ret hp _ _ hchange =>
    have hc := h.here
    have hnone := hc.not_waiting hidle
    have hasync : w₁.asyncInProgress = w.asyncInProgress := hchange.async
    have hworker : w₁.worker = w.worker := hchange.worker
    have hclient : (c.finalised ret).Sound w := by
      rw [Client.finalised, clientUpdateWanted_eq]
      exact {
        id_lt := hc.id_lt
        conn := hc.conn
        socket := hc.socket
        inbound := hc.inbound
        writing := nofun
        waiting := fun hwaits => by
          rw [show c.pendingAsyncOp = true from hwaits] at hnone
          cases hnone }
    refine h.replace (hchange.sound.note _) ?_ ?_ ?_ ?_ ?_ ?_
    · rw [Client.finalised, clientUpdateWanted_eq]
    · exact ((hclient.note _).change (refreshScope_devices _) hchange).note _
    · exact fun x _ hx _ => ((hx.note _).change (refreshScope_devices _) hchange).note _
    · rw [note_worker, note_async, hworker, hasync]
      exact h.job
    · rw [note_async, hasync]
      exact fun hrunning => hchange.idle (h.idle hrunning)
    · rw [note_async, note_deferred, hasync]
      exact fun _ => hchange.deferred.trans (h.deferred hidle)

theorem Cleaned.client {push : Bool} (h : Cleaned w c push w') {x : Client} (hx : x.Sound w) :
    x.Sound w' := by
  cases h with
  | deferred ids _ _ _ _ => exact hx.frame (Nat.le_refl _) (.refl _ _) rfl rfl
  | atOnce _ _ hchange _ => exact hx.change (cleanupScope_devices _) hchange

/-- What a client closes when it leaves is its own. -/
theorem Client.Sound.leave (hc : c.Sound w) : ∀ k ∈ c.inFd.toList ++ [c.fd], ∃ holder,
    Held w.fds k holder ∧ (holder = .inbound c.id ∨ holder = .socket c.id) := by
  intro k hk
  rcases mem_append.mp hk with hk | hk
  · exact ⟨_, hc.inbound k (Option.mem_toList.mp hk), .inl rfl⟩
  · rw [mem_singleton.mp hk]
    exact ⟨_, hc.socket, .inr rfl⟩

theorem Client.Sound.leave_keeps (hc : c.Sound w) : w.fds.Keeps
    (fun d => d.holder ≠ .inbound c.id ∧ d.holder ≠ .socket c.id)
    (w.closeFds (c.inFd.toList ++ [c.fd])).fds :=
  Handles.keeps_eraseAll fun k hk d hget hne => by
    obtain ⟨holder, hheld, hown⟩ := hc.leave k hk
    rw [hheld.holder_eq hget] at hne
    exact hown.elim hne.1 hne.2

theorem State.Sound.drop {push : Bool} {w₁ : World}
    (h : State.Sound ⟨w, before ++ c :: rest, n⟩) (hcleaned : Cleaned w c push w₁) :
    State.Sound ⟨w₁.closeFds (c.inFd.toList ++ [c.fd]), before ++ rest, n⟩ := by
  have hids : ((before ++ rest).map (·.id)).Nodup :=
    h.ids.sublist (((sublist_cons_self c rest).append_left before).map _)
  have hc₁ := hcleaned.client h.here
  -- the buffers go, or are put down for later; then the two descriptors are closed
  have hworld : w₁.Sound ∧ w₁.worker = w.worker ∧ w₁.asyncInProgress = w.asyncInProgress ∧
      (w.asyncInProgress = true → w₁.devices = w.devices) ∧
      (w.asyncInProgress = false → w₁.deferred = w.deferred) := by
    cases hcleaned with
    | deferred ids hrunning _ _ _ =>
      refine ⟨⟨h.world.ids, h.world.devices, h.world.worker, h.world.table⟩, rfl, rfl,
        fun _ => rfl, fun hidle => ?_⟩
      rw [hrunning] at hidle
      cases hidle
    | atOnce _ hidle hchange _ =>
      refine ⟨hchange.sound, hchange.worker, hchange.async, fun hrunning => ?_,
        fun _ => hchange.deferred⟩
      rw [hidle] at hrunning
      cases hrunning
  obtain ⟨hw₁, hworker, hasync, hdevices, hdeferred⟩ := hworld
  exact {
    world := hw₁.close fun k hk => by
      obtain ⟨holder, hheld, rfl | rfl⟩ := hc₁.leave k hk
      · exact ⟨_, hheld, rfl, nofun⟩
      · exact ⟨_, hheld, rfl, nofun⟩
    ids := hids
    clients := fun x hx => by
      obtain ⟨hs, hne⟩ := h.others hx
      exact (hcleaned.client hs).apart hne (Nat.le_refl _)
        (hc₁.leave_keeps.mono fun d hd => ⟨hd.1, hd.2.1⟩) rfl rfl
    job := by
      show w₁.worker.job.isSome → w₁.asyncInProgress = true
      rw [hworker, hasync]
      exact h.job
    idle := fun hrunning => by
      have hrunning : w.asyncInProgress = true := hasync ▸ hrunning
      show ∀ d ∈ w₁.devices, _
      rw [hdevices hrunning]
      exact h.idle hrunning
    deferred := fun hidle => by
      have hidle : w.asyncInProgress = false := hasync ▸ hidle
      exact (hdeferred hidle).trans (h.deferred hidle) }

theorem State.Sound.collect {clients : List Client} {w₁ : World}
    (h : State.Sound ⟨w, clients, n⟩) (hrunning : w.asyncInProgress = true)
    (hjob : w.worker.job = none) (hd : Drained { w with asyncInProgress := false } w₁) :
    State.Sound ⟨w₁, clients.map fun c =>
      if c.pendingAsyncOp then clientDeliverAsyncDeviceOpResult w.worker.result c else c, n⟩ := by
  obtain ⟨hchange, hdeferred, -⟩ := hd
  have hworker : w₁.worker = w.worker := hchange.worker
  have hasync : w₁.asyncInProgress = false := hchange.async
  have hs := hchange.sound
  -- nobody was writing while the operation ran, and nobody waits for it any more
  have hclient : ∀ c ∈ clients, Client.Sound w₁ { c with pendingAsyncOp := false } := by
    intro c hc
    have hc := h.clients c hc
    have hkeep : w.fds.Keeps (fun x => x.holder.device? = none) w₁.fds :=
      hchange.keeps_of (cleanupScope_devices _) fun _ hx => hx
    exact {
      id_lt := Nat.lt_of_lt_of_le hc.id_lt hchange.next_le
      conn := hc.conn
      socket := hc.socket.keeps hkeep fun _ => rfl
      inbound := fun m hm => (hc.inbound m hm).keeps hkeep fun _ => rfl
      writing := fun p hp => by
        have hidle := (hc.writing p hp).1
        rw [show w.asyncInProgress = true from hrunning] at hidle
        cases hidle
      waiting := fun h => by cases h }
  have hdeliver : ∀ c ∈ clients, ∀ c', c' = (if c.pendingAsyncOp then
      clientDeliverAsyncDeviceOpResult w.worker.result c else c) → c'.id = c.id ∧ c'.Sound w₁ := by
    rintro c hc c' rfl
    split
    · rw [clientDeliverAsyncDeviceOpResult, clientUpdateWanted_eq]
      have hc' := hclient c hc
      refine ⟨rfl, hc'.id_lt, hc'.conn, hc'.socket, hc'.inbound, fun p hp => ?_, fun h => by cases h⟩
      have hidle := ((h.clients c hc).writing p hp).1
      rw [show w.asyncInProgress = true from hrunning] at hidle
      cases hidle
    · rename_i hnot
      have hc' := hclient c hc
      rw [← show c.pendingAsyncOp = false by simpa using hnot] at hc'
      exact ⟨rfl, hc'⟩
  exact {
    world := ⟨hs.ids, hs.devices, hs.worker, hs.table⟩
    ids := by
      rw [map_map]
      exact (congrArg List.Nodup
        (map_congr_left fun c hc => (hdeliver c hc _ rfl).1)).mpr h.ids
    clients := fun x hx => by
      obtain ⟨c, hc, rfl⟩ := mem_map.mp hx
      exact (hdeliver c hc _ rfl).2
    job := fun hsome => by
      rw [show w₁.worker.job = none by rw [hworker, hjob]] at hsome
      cases hsome
    idle := fun htrue => by
      rw [show w₁.asyncInProgress = true from htrue] at hasync
      cases hasync
    deferred := fun _ => hdeferred }

end Client

theorem State.Sound.accept {s : State} (h : s.Sound) (fd : Nat) : (acceptClient s fd).Sound := by
  have ho := openFds_opens { s.world with next := s.world.next + 1 } (.socket s.world.next) [some fd]
  have hkeep : ∀ P, s.world.fds.Keeps P (acceptClient s fd).world.fds := ho.keeps
  have hnext : s.world.next ≤ (acceptClient s fd).world.next := Nat.le_add_right _ 2
  exact {
    world := {
      ids := h.world.ids
      devices := fun d hd => (h.world.devices d hd).keeps (hkeep _) hnext
      worker := fun j hj m hm =>
        (h.world.worker j hj m hm).keeps (hkeep fun _ => True) fun _ => trivial
      table := ho.table (h.world.table.le (Nat.le_succ _)) }
    ids := by
      show ((s.clients ++ [_]).map (fun c : Client => c.id)).Nodup
      rw [map_append, nodup_append]
      refine ⟨h.ids, nodup_singleton _, fun x hx y hy => ?_⟩
      obtain ⟨c, hc, rfl⟩ := mem_map.mp hx
      rw [map_singleton, mem_singleton] at hy
      rw [hy]
      exact Nat.ne_of_lt (h.clients c hc).id_lt
    clients := fun x hx => by
      rcases mem_append.mp hx with hx | hx
      · exact (h.clients x hx).frame hnext (hkeep _) rfl rfl
      · rw [mem_singleton.mp hx]
        exact {
          id_lt := Nat.lt_add_of_pos_right Nat.two_pos
          conn := by
            show (if s.nextConnId + 1 = 0 then (1 : U64) else s.nextConnId + 1) ≠ 0
            split
            · decide
            · assumption
          socket := ho.held _ mem_cons_self
          inbound := nofun
          writing := nofun
          waiting := nofun }
    job := h.job
    idle := h.idle
    deferred := h.deferred }

theorem State.Sound.transferred {s : State} (h : s.Sound) {device error : Nat} {w : World}
    (ht : Transferred s.world device error w) : State.Sound { s with world := w } := by
  cases ht with
  | idle => exact h
  | done d fd object lastError hd hid hwriter hget =>
    subst hid
    have hkeep : s.world.fds.Keeps (fun x => x.holder ≠ .writer d.id) (s.world.fds.eraseAll [fd]) :=
      keeps_close fun m hm => by
        rw [mem_singleton.mp hm]
        exact ⟨object, hget⟩
    have hs := h.world.devices d hd
    have hidle : s.world.asyncInProgress = false := by
      by_contra hrunning
      have hbusy := h.idle (by simpa using hrunning) d hd
      rw [Device.writerBusy, hwriter] at hbusy
      cases hbusy
    refine ⟨?_, h.ids, fun c hc => ?_, h.job, fun hrunning => ?_, h.deferred⟩
    · refine World.Sound.device (w := s.world.note (.transferred object error))
        (h.world.note _) hd (fun _ => rfl) (Nat.le_refl _) ?_ (h.world.table.eraseAll _)
        (hkeep.mono fun x hx heq => ?_)
      · exact {
          id_lt := hs.id_lt
          buffer_lt := hs.buffer_lt
          buffer_ids := hs.buffer_ids
          memory := hs.memory
          placed := hs.placed
          qpairs := hs.qpairs
          bars := fun m hm => (hs.bars m hm).keeps hkeep fun _ h => by cases h
          transfers := fun b hb => by
            obtain ⟨m, hm, hheld⟩ := hs.transfers b hb
            exact ⟨m, hm, hheld.keeps hkeep fun _ h => by cases h⟩
          writers := fun writer hw => by
            cases hw
            exact ⟨rfl, fun _ h => by cases h⟩ }
      · rw [heq] at hx
        rcases hx with hx | ⟨id, hid, hne⟩
        · cases hx
        · exact hne (Option.some_inj.mp hid).symm
    · refine (h.clients c hc).frame (Nat.le_refl _) (hkeep.mono fun x hx heq => ?_) rfl rfl
      rw [heq] at hx
      rcases hx with hx | hx <;> cases hx
    · rw [show s.world.asyncInProgress = true from hrunning] at hidle
      cases hidle

theorem State.Sound.moved {s : State} (h : s.Sound) {σ : Scope} (hσ : σ.Devices) {w' : World}
    {j : Job} (hjob : s.world.worker.job = some j) (log : List Note)
    (hchange : Change σ { s.world with log := log } w') (stage : Stage) :
    State.Sound { s with world := { w' with
      worker := { w'.worker with job := some { j with stage := stage } } } } := by
  have hrunning := h.job (by rw [hjob]; rfl)
  have hworker : w'.worker = s.world.worker := hchange.worker
  have hasync : w'.asyncInProgress = s.world.asyncInProgress := hchange.async
  refine ⟨⟨hchange.sound.ids, hchange.sound.devices, ?_, hchange.sound.table⟩, h.ids, fun c hc => ?_,
    fun _ => hasync.trans hrunning, fun _ => hchange.idle (h.idle hrunning), fun hidle => ?_⟩
  · intro j' hj' m hm
    cases hj'
    exact hchange.sound.worker j (by rw [hworker, hjob]) m hm
  · refine (h.clients c hc).frame hchange.next_le (hchange.keeps_of hσ fun x hx => ?_) hasync
      (by rw [← hworker])
    rcases hx with hx | hx <;> rw [hx] <;> rfl
  · rw [show w'.asyncInProgress = false from hidle, hrunning] at hasync
    cases hasync

theorem State.Sound.worked {s : State} (h : s.Sound) {snap : Snapshot} {w : World}
    (hw : Worked s.world snap w) : State.Sound { s with world := w } := by
  cases hw with
  | idle => exact h
  | removed j w' hjob hchange => exact h.moved (workerScope_devices _) hjob _ hchange .removed
  | discovered j w' ret hjob hchange =>
    exact h.moved (σ := .empty) nofun hjob _ hchange (.discovered ret)
  | finished j result hjob =>
    have hrunning := h.job (by rw [hjob]; rfl)
    have hkeep : s.world.fds.Keeps (fun x => x.holder ≠ .worker)
        (s.world.fds.eraseAll j.inputFd.toList) := keeps_close fun m hm =>
      h.world.worker j hjob m (Option.mem_toList.mp hm)
    refine ⟨⟨h.world.ids, fun d hd => ?_, nofun, h.world.table.eraseAll _⟩, h.ids, fun c hc => ?_,
      nofun, h.idle, h.deferred⟩
    · refine (h.world.devices d hd).keeps (hkeep.mono fun x hx heq => ?_) (Nat.le_refl _)
      rw [heq] at hx
      cases hx
    · refine (h.clients c hc).frame (Nat.le_refl _) (hkeep.mono fun x hx heq => ?_) rfl rfl
      rw [heq] at hx
      rcases hx with hx | hx <;> cases hx

/-! ## Every act -/

theorem Act.sound {δ : Demands} {s s' : State} (ha : Act δ s s') (h : s.Sound) : s'.Sound := by
  cases ha with
  | client ha =>
    cases ha with
    | receive recv ok hheld _ hr => exact h.receive hheld hr
    | dispatch m hheld hresponse hguard _ hd => exact h.dispatch hheld hresponse hguard hd
    | send hs =>
      obtain ⟨⟨log, rfl, -⟩, response, hresponse, rfl⟩ := hs
      exact h.record ⟨log, rfl⟩ rfl (h.here.slots _ _ _ _ _ hresponse)
    | slots wanted armed enabled _ =>
      exact h.record ⟨_, rfl⟩ rfl (h.here.slots _ _ _ _ _ (.inl rfl))
    | finalise hidle hf => exact h.finalise hidle hf
  | accept s fd => exact h.accept fd
  | drop push _ hcleaned => exact h.drop hcleaned
  | collect hrunning hjob hd => exact h.collect hrunning hjob hd
  | transfer device error ht => exact h.transferred ht
  | work hw => exact h.worked hw

theorem Acts.sound {δ : Demands} {s s' : State} (ha : Acts δ s s') (h : s.Sound) : s'.Sound := by
  induction ha with
  | refl => exact h
  | tail _ hact ih => exact hact.sound ih

end Slash.Daemon
