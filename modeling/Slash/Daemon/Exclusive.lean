import Slash.Daemon.Lifetime

/-!
# While the flash worker owns the devices

The worker's thread and the event loop share the device list without a lock; a flag keeps them
apart. While it is set the loop serves nothing but questions about the job, leaves the devices
alone and puts hang-ups down for later. The timer clears it once the job is over and then does what
was put off, in the order of the client list, until one of the requests starts a new job.
-/

namespace Slash.Daemon

open Lib List
open Libvrtd (Ret)
open Vrtd (U64)

/-! ## The loop stands by -/

/-- The devices, the worker and the deferred cleanups are left alone, and what is dispatched asks
for the status of the job. -/
structure StandsBy (w w' : World) : Prop where
  devices : w'.devices = w.devices
  worker : w'.worker = w.worker
  async : w'.asyncInProgress = w.asyncInProgress
  deferred : w'.deferred = w.deferred
  dispatched : ∀ snap client inFd m, .dispatched snap client inFd m ∈ w'.log →
    .dispatched snap client inFd m ∈ w.log ∨ m.request.isCfgmemStatus = true

theorem StandsBy.refl (w : World) : StandsBy w w :=
  ⟨rfl, rfl, rfl, rfl, fun _ _ _ _ h => .inl h⟩

theorem StandsBy.trans {w w' w'' : World} (h : StandsBy w w') (h' : StandsBy w' w'') :
    StandsBy w w'' where
  devices := h'.devices.trans h.devices
  worker := h'.worker.trans h.worker
  async := h'.async.trans h.async
  deferred := h'.deferred.trans h.deferred
  dispatched := fun snap client inFd m hm => by
    rcases h'.dispatched snap client inFd m hm with hm | hstatus
    · exact h.dispatched snap client inFd m hm
    · exact .inr hstatus

theorem receiveStep_standsBy (w : World) (c : Client) (r : Revents) (a : IoAnswers) :
    StandsBy w (receiveStep w c r a).1 := by
  unfold receiveStep
  split
  · have hr := clientHandleIn_receives w c a.recv
    generalize (clientHandleIn w c a.recv).1 = w' at hr
    rw [hr.rest]
    exact ⟨rfl, rfl, rfl, rfl, fun _ _ _ _ h => .inl h⟩
  · exact .refl w

/-- A request that may be dispatched now asks for the status, and that changes nothing. -/
theorem dispatchStep_standsBy {w : World} (hrunning : w.asyncInProgress = true) (snap : Snapshot)
    (c : Client) (k : Answers) : StandsBy w (dispatchStep w snap c k).1 := by
  unfold dispatchStep
  split
  · exact .refl w
  · rename_i m _
    split
    · rename_i hguard
      have hstatus : m.request.isCfgmemStatus = true := by
        rcases hguard.2 with hidle | hstatus
        · rw [hrunning] at hidle
          cases hidle
        · exact hstatus
      obtain ⟨ret, heq⟩ := handleRequest_status hstatus (w.note (.dispatched snap c.id c.inFd m))
        snap.pending c.id c.connId c.inFd k
      have hnoted : StandsBy w (w.note (.dispatched snap c.id c.inFd m)) := by
        refine ⟨rfl, rfl, rfl, rfl, fun snap' client inFd m' hm' => ?_⟩
        rcases mem_cons.mp hm' with heq | hm'
        · cases heq
          exact .inr hstatus
        · exact .inl hm'
      unfold clientHandleRequest
      simp only [heq, reply]
      split
      · exact hnoted
      · exact ⟨rfl, rfl, rfl, rfl, hnoted.dispatched⟩
    · exact .refl w

theorem sendStep_standsBy (w : World) (c : Client) (r : Revents) (send : Send) :
    StandsBy w (sendStep w c r send).1 := by
  unfold sendStep
  split
  · obtain ⟨log, heq, hlog⟩ := (clientHandleOut_sends w c send).world
    rw [heq]
    refine ⟨rfl, rfl, rfl, rfl, fun snap client inFd m hm => .inl ?_⟩
    rcases hlog with ⟨rfl, -⟩ | ⟨_, _, -, -, rfl⟩
    · exact hm
    · exact (mem_cons.mp hm).resolve_left nofun
  · exact .refl w

theorem onClientIo_standsBy {w : World} (hrunning : w.asyncInProgress = true)
    (clients : List Client) (c : Client) {r : Revents} (hhangup : r.hangup = false)
    (a : IoAnswers) : StandsBy w (onClientIo w clients c r a).1 := by
  unfold onClientIo
  rw [if_neg (by simp [hhangup])]
  have hreceive := receiveStep_standsBy w c r a
  generalize receiveStep w c r a = received at hreceive
  obtain ⟨w₁, c₁, ok₁⟩ := received
  cases ok₁ with
  | false => exact hreceive
  | true =>
    have hdispatch := dispatchStep_standsBy (hreceive.async.trans hrunning) (snapshot w₁ clients) c₁
      a.answers
    simp only []
    generalize dispatchStep w₁ (snapshot w₁ clients) c₁ a.answers = dispatched at hdispatch
    obtain ⟨w₂, c₂⟩ := dispatched
    have hsend := sendStep_standsBy w₂ c₂ r a.send
    simp only []
    generalize sendStep w₂ c₂ r a.send = sent at hsend
    obtain ⟨w₃, c₃, ok₃⟩ := sent
    cases ok₃ <;> exact (hreceive.trans hdispatch).trans hsend

theorem cleanupClient_later {w : World} (hrunning : w.asyncInProgress = true) {c : Client}
    (hconn : c.connId ≠ 0) (push : Bool) (k : Driver) : cleanupClient w c push k = { w with
      deferred := if c.connId ∈ w.deferred ∨ push = false then w.deferred
        else w.deferred ++ [c.connId]
      fds := w.fds.eraseAll (c.inFd.toList ++ [c.fd])
      ledger := w.ledger.giveBack w.fds (c.inFd.toList ++ [c.fd]) } := by
  have hiff : c.connId = 0 ∨ c.connId ∈ w.deferred ∨ ¬ push = true ↔
      c.connId ∈ w.deferred ∨ push = false := by
    rw [Bool.not_eq_true]
    exact or_iff_right hconn
  rw [cleanupClient, cleanupClientBuffers, if_neg hconn, if_pos hrunning, deferBufferCleanup]
  simp only [hiff]
  split <;> rfl

/-! ## Events while the flag is set -/

theorem ioStep_standsBy {s : State} (hrunning : s.world.asyncInProgress = true) (id : Nat)
    {r : Revents} (hhangup : r.hangup = false) (a : IoAnswers) :
    StandsBy s.world (step s (.io id r a)).world := by
  show StandsBy s.world (ioStep s id r a).world
  unfold ioStep
  split
  · exact .refl _
  · rename_i c _
    split
    · exact .refl _
    · have hio := onClientIo_standsBy hrunning s.clients c hhangup a
      simp only []
      generalize onClientIo s.world s.clients c r a = result at hio
      obtain ⟨w, out⟩ := result
      cases out <;> exact hio

theorem step_timer_running {s : State} (hrunning : s.world.asyncInProgress = true)
    (hjob : s.world.worker.job.isSome) (a : TimerAnswers) : step s (.timer a) = s := by
  show onEventDeferredWork s a = s
  rw [onEventDeferredWork, if_pos hrunning, if_pos hjob]

theorem step_timer_collect {s : State} (hrunning : s.world.asyncInProgress = true)
    (hjob : s.world.worker.job = none) (a : TimerAnswers) : step s (.timer a) = { s with
      world := (drainDeferredRequests (collectAsyncResult s.world s.clients a.driver).1 a.answers []
        (collectAsyncResult s.world s.clients a.driver).2).1
      clients := (drainDeferredRequests (collectAsyncResult s.world s.clients a.driver).1 a.answers
        [] (collectAsyncResult s.world s.clients a.driver).2).2 } := by
  show onEventDeferredWork s a = _
  rw [onEventDeferredWork, if_pos hrunning, if_neg (by rw [hjob]; exact Bool.false_ne_true)]

theorem step_hangup {s : State} (hs : s.Sound) (hrunning : s.world.asyncInProgress = true) {c : Client}
    (hc : c ∈ s.clients) (henabled : c.enabled = true) {r : Revents} (hhangup : r.hangup = true)
    (a : IoAnswers) : step s (.io c.id r a) = { s with
      world := { s.world with
        deferred := if c.connId ∈ s.world.deferred ∨ a.push = false then s.world.deferred
          else s.world.deferred ++ [c.connId]
        fds := s.world.fds.eraseAll (c.inFd.toList ++ [c.fd])
        ledger := s.world.ledger.giveBack s.world.fds (c.inFd.toList ++ [c.fd]) }
      clients := s.clients.filter (·.id ≠ c.id) } := by
  show ioStep s c.id r a = _
  unfold ioStep
  rw [find?_key hs.ids hc]
  simp only [henabled, not_true_eq_false, if_false, onClientIo, hhangup, if_true]
  rw [cleanupClient_later hrunning (hs.clients c hc).conn]

theorem ioStep_async {s : State} (hs : s.Sound) (hrunning : s.world.asyncInProgress = true) (id : Nat)
    (r : Revents) (a : IoAnswers) :
    (step s (.io id r a)).world.asyncInProgress = s.world.asyncInProgress := by
  cases hhangup : r.hangup with
  | false => exact (ioStep_standsBy hrunning id hhangup a).async
  | true =>
    cases hfind : s.clients.find? (·.id = id) with
    | none => simp only [step, ioStep, hfind]
    | some c =>
      have hc := mem_of_find?_eq_some hfind
      have hid : c.id = id := by simpa using List.find?_some hfind
      cases henabled : c.enabled with
      | false => simp [step, ioStep, hfind, henabled]
      | true => rw [← hid, step_hangup hs hrunning hc henabled hhangup]

theorem Worked.async {w w' : World} {snap : Snapshot} (h : Worked w snap w') :
    w'.asyncInProgress = w.asyncInProgress := by
  cases h with
  | idle => rfl
  | removed j w₁ _ hchange => exact hchange.async
  | discovered j w₁ ret _ hchange => exact hchange.async
  | finished j result _ => rfl

theorem Transferred.async {w w' : World} {device error : Nat} (h : Transferred w device error w') :
    w'.asyncInProgress = w.asyncInProgress := by
  cases h with
  | idle => rfl
  | done _ _ _ _ _ _ _ _ => rfl

/-- Nothing but the timer clears the flag, and it does so only when the job is over. -/
theorem step_running {s : State} (hs : s.Sound) (hrunning : s.world.asyncInProgress = true)
    {e : Event} (hidle : (step s e).world.asyncInProgress = false) :
    (∃ a, e = .timer a) ∧ s.world.worker.job = none := by
  have hstill : (step s e).world.asyncInProgress = s.world.asyncInProgress →
      (∃ a, e = .timer a) ∧ s.world.worker.job = none := by
    intro heq
    rw [hidle, hrunning] at heq
    cases heq
  cases e with
  | accept fd => exact hstill rfl
  | io id r a => exact hstill (ioStep_async hs hrunning id r a)
  | timer a =>
    by_cases hjob : s.world.worker.job.isSome
    · exact hstill (by rw [step_timer_running hrunning hjob])
    · exact ⟨⟨a, rfl⟩, by simpa using hjob⟩
  | transferDone device error =>
    exact hstill (transferDone_transferred hs.world device error).async
  | workerRemove => exact hstill (workerRemove_worked hs.world _).async
  | workerDiscover found =>
    exact hstill (workerDiscover_worked hs.world (snapshot s.world s.clients) found).async
  | workerFinish err =>
    exact hstill (workerFinish_worked s.world (snapshot s.world s.clients) err).async

/-! ## What was put off -/

def Client.Settled (c : Client) : Prop :=
  c.held.isSome → c.response = none → c.pendingDesignWrite.isSome ∨ c.pendingAsyncOp = true

theorem clientHandleRequest_settled (w : World) (snap : Snapshot) (c : Client) (m : Message)
    (k : Answers) : (clientUpdateWanted (clientHandleRequest w snap c m k).2).Settled := by
  rw [clientUpdateWanted_eq]
  unfold clientHandleRequest
  simp only []
  split
  · rename_i hpending
    exact fun _ _ => hpending
  · exact nofun

/-- One request after the other, until one of them starts a new job. -/
theorem drainDeferredRequests_settled (k : Nat → Answers) (clients : List Client) :
    ∀ (w : World) (before : List Client), (∀ c ∈ before, c.Settled) →
    (drainDeferredRequests w k before clients).1.asyncInProgress = true ∨
      ∀ c ∈ (drainDeferredRequests w k before clients).2, c.Settled := by
  induction clients with
  | nil => exact fun _ _ hbefore => .inr hbefore
  | cons c rest ih =>
    intro w before hbefore
    have hnext : ∀ (w : World) {c : Client}, c.Settled →
        (drainDeferredRequests w k (before ++ [c]) rest).1.asyncInProgress = true ∨
          ∀ x ∈ (drainDeferredRequests w k (before ++ [c]) rest).2, x.Settled := by
      intro w c hc
      refine ih w (before ++ [c]) fun x hx => ?_
      rcases mem_append.mp hx with hx | hx
      · exact hbefore x hx
      · rw [mem_singleton.mp hx]
        exact hc
    unfold drainDeferredRequests
    split
    · rename_i m hheld hresponse
      split
      · rename_i hpending
        exact hnext w fun _ _ => hpending
      · have hsettled := clientHandleRequest_settled w (snapshot w (before ++ c :: rest)) c m (k c.id)
        simp only []
        generalize clientHandleRequest w (snapshot w (before ++ c :: rest)) c m (k c.id) = result
          at hsettled
        split
        · rename_i hstarted
          exact .inl hstarted
        · exact hnext result.1 hsettled
    · rename_i hnot
      refine hnext w fun hheld hnone => ?_
      obtain ⟨m, hm⟩ := Option.isSome_iff_exists.mp hheld
      exact (hnot m hm hnone).elim

/-! ## The property -/

/-- What the collection of a result does to the shared state and to the clients: the flag is
cleared, the queued cleanups are done, and only the submitter gets the result, if it waits. -/
structure Collects (s : State) (w : World) (clients : List Client) : Prop where
  idle : w.asyncInProgress = false
  deferred : w.deferred = []
  buffers : ∀ conn ∈ s.world.deferred, conn ≠ 0 → ∀ d ∈ w.devices, ∀ b ∈ d.buffers,
    b.clientId ≠ conn
  delivered : ∀ c ∈ s.clients, c.pendingAsyncOp = true → c.id = s.world.worker.submitter ∧
    ∃ c' ∈ clients, c'.id = c.id ∧ c'.held = none ∧ c'.pendingAsyncOp = false ∧
      c'.response = some ⟨(c.held.map (·.seqno)).getD 0, s.world.worker.result, none, none⟩
  others : ∀ c ∈ s.clients, c.pendingAsyncOp = false → c ∈ clients

/-- How the flag keeps the event loop away from the devices, and what happens when it is cleared:
the result goes to the client that waits for it, the queued cleanups run, and the requests that
were held are dispatched until one of them starts a new job. -/
structure AsyncExclusive (s : State) : Prop where
  quiet : s.world.asyncInProgress = true → (∀ d ∈ s.world.devices, d.writerBusy = false) ∧
    ∀ c ∈ s.clients, c.pendingDesignWrite = none
  alone : s.world.asyncInProgress = true → ∀ c ∈ s.clients, ∀ c' ∈ s.clients,
    c.pendingAsyncOp = true → c'.pendingAsyncOp = true → c = c'
  accepted : s.world.asyncInProgress = true → ∀ fd, StandsBy s.world (step s (.accept fd)).world
  served : s.world.asyncInProgress = true → ∀ id r a, r.hangup = false →
    StandsBy s.world (step s (.io id r a)).world
  hungUp : s.world.asyncInProgress = true → ∀ c ∈ s.clients, c.enabled = true → ∀ r a,
    r.hangup = true → a.push = true → step s (.io c.id r a) = { s with
      world := { s.world with
        deferred := if c.connId ∈ s.world.deferred then s.world.deferred
          else s.world.deferred ++ [c.connId]
        fds := s.world.fds.eraseAll (c.inFd.toList ++ [c.fd])
        ledger := s.world.ledger.giveBack s.world.fds (c.inFd.toList ++ [c.fd]) }
      clients := s.clients.filter (·.id ≠ c.id) }
  waited : s.world.asyncInProgress = true → s.world.worker.job.isSome → ∀ a, step s (.timer a) = s
  cleared : s.world.asyncInProgress = true → ∀ e, (step s e).world.asyncInProgress = false →
    (∃ a, e = .timer a) ∧ s.world.worker.job = none
  collected : s.world.asyncInProgress = true → s.world.worker.job = none → ∀ a w clients,
    collectAsyncResult s.world s.clients a.driver = (w, clients) →
    Collects s w clients ∧
    step s (.timer a) = { s with
      world := (drainDeferredRequests w a.answers [] clients).1
      clients := (drainDeferredRequests w a.answers [] clients).2 } ∧
    ((step s (.timer a)).world.asyncInProgress = true ∨
      ∀ c ∈ (step s (.timer a)).clients, c.Settled)

theorem State.Sound.collects {s : State} (hs : s.Sound) {a : TimerAnswers} {w : World}
    {clients : List Client}
    (heq : collectAsyncResult s.world s.clients a.driver = (w, clients)) : Collects s w clients := by
  obtain ⟨rfl, rfl⟩ := Prod.mk.inj heq
  have hd := drain_drained (w := { s.world with asyncInProgress := false })
    ⟨hs.world.ids, hs.world.devices, hs.world.worker, hs.world.table⟩ a.driver
  refine ⟨hd.change.async, hd.deferred, fun conn hconn hne d hd' b hb hclient => ?_,
    fun c hc hpending => ⟨((hs.clients c hc).waiting hpending).2.1, ?_⟩, fun c hc hpending => ?_⟩
  · exact hd.buffers d hd' b hb (hclient ▸ hne) (hclient ▸ hconn)
  · refine ⟨_, mem_map_of_mem hc, (delivered_alike _ c).id, ?_⟩
    rw [if_pos hpending, clientDeliverAsyncDeviceOpResult, clientUpdateWanted_eq]
    exact ⟨rfl, rfl, rfl⟩
  · refine mem_map.mpr ⟨c, hc, ?_⟩
    rw [if_neg (by rw [hpending]; exact Bool.false_ne_true)]

theorem async_exclusive (found : Discovery) (events : List Event) :
    AsyncExclusive (run found events) := by
  have hs := run_sound found events
  generalize run found events = s at hs
  constructor
  · exact fun hrunning => ⟨hs.idle hrunning, fun c hc => hs.nobody_writes hrunning hc⟩
  · intro hrunning c hc c' hc' hpending hpending'
    refine inj_on_of_nodup_map hs.ids hc hc' ?_
    rw [((hs.clients c hc).waiting hpending).2.1, ((hs.clients c' hc').waiting hpending').2.1]
  · intro _ fd
    exact ⟨rfl, rfl, rfl, rfl, fun _ _ _ _ hm => .inl ((mem_cons.mp hm).resolve_left nofun)⟩
  · exact fun hrunning id r a hhangup => ioStep_standsBy hrunning id hhangup a
  · intro hrunning c hc henabled r a hhangup hpush
    rw [step_hangup hs hrunning hc henabled hhangup]
    simp only [hpush, Bool.true_eq_false, or_false]
  · exact fun hrunning hjob a => step_timer_running hrunning hjob a
  · exact fun hrunning e hidle => step_running hs hrunning hidle
  · intro hrunning hjob a w clients heq
    have hstep := step_timer_collect hrunning hjob a
    rw [heq] at hstep
    refine ⟨hs.collects heq, hstep, ?_⟩
    rw [hstep]
    exact drainDeferredRequests_settled a.answers clients w [] fun _ hc => absurd hc not_mem_nil

/-! ## A held request that starts a new job -/

/-- A client asks for the board to be programmed and waits. -/
def programBoard (client : Nat) : Event :=
  requestOf client ⟨12, 1, .cfgmemProgram ⟨0, 0, [], 1⟩⟩ [.rights [7] false] {}

/-- Three clients ask in turn, and the first job is over. -/
def threePrograms : List Event :=
  [.accept 3, .accept 4, .accept 5, programBoard 1, programBoard 3, programBoard 5,
    .workerFinish .other]

/-- The result is collected, but the third client's request is held for the second one's job. -/
theorem held_request_waits_again :
    (run oneBoard threePrograms).world.asyncInProgress = true ∧
    (run oneBoard threePrograms).world.worker.job = none ∧
    (run oneBoard (threePrograms ++ [.timer {}])).world.asyncInProgress = true ∧
    (run oneBoard (threePrograms ++ [.timer {}])).clients.any (fun c =>
      c.held.isSome && c.response.isNone && !c.pendingAsyncOp) = true := by
  decide +kernel

end Slash.Daemon
