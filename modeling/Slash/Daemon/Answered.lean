import Slash.Daemon.Progress

/-!
# Requests are answered in order

A connection seen from outside: what the daemon takes from the socket and what it puts on it. The
two slots of a client are a queue. The response that waits for the socket is in front of the request
that is held, dispatching or finalising a request moves it forward under its own sequence number,
and nothing is put in the place of something else.
-/

namespace Slash.Daemon

open Lib List

/-- The sequence numbers that a client is owed, oldest first. -/
def Client.queue (c : Client) : List Nat :=
  c.response.toList.map (·.seqno) ++ c.held.toList.map (·.seqno)

/-- What `on_client_io` takes from the socket and what it puts on it. -/
def Client.traffic (w : World) (clients : List Client) (c : Client) (r : Revents) (a : IoAnswers) :
    List Nat × List Nat :=
  if r.hangup then ([], [])
  else
    let received := receiveStep w c r a
    let took := if c.held.isNone then received.2.1.held.toList.map (·.seqno) else []
    if received.2.2 then
      let dispatched := dispatchStep received.1 (snapshot received.1 clients) received.2.1 a.answers
      let sent := sendStep dispatched.1 dispatched.2 r a.send
      (took, if sent.2.1.response.isNone then dispatched.2.response.toList.map (·.seqno) else [])
    else (took, [])

/-- The client whose callback runs. -/
def State.awake (s : State) (id : Nat) : Option Client :=
  (s.clients.find? (·.id = id)).filter (·.enabled)

/-- The traffic of connection `id` at an event. -/
def traffic (id : Nat) (s : State) : Event → List Nat × List Nat
  | .io id' r a =>
    if id' = id then (s.awake id').elim ([], []) fun c => c.traffic s.world s.clients r a
    else ([], [])
  | _ => ([], [])

/-- A run, and what went over connection `id` since it was accepted. -/
structure Observed where
  state : State
  received : List Nat := []
  answered : List Nat := []

def Observed.past (id : Nat) (o : Observed) : Event → List Nat × List Nat
  | .accept _ => if o.state.world.next = id then ([], []) else (o.received, o.answered)
  | _ => (o.received, o.answered)

def observe (id : Nat) (o : Observed) (e : Event) : Observed :=
  ⟨step o.state e, (o.past id e).1 ++ (traffic id o.state e).1,
    (o.past id e).2 ++ (traffic id o.state e).2⟩

theorem observe_state (id : Nat) (events : List Event) (o : Observed) :
    (runFrom (observe id) o events).state = runFrom step o.state events := by
  induction events generalizing o with
  | nil => rfl
  | cons e events ih => exact ih _

/-! ## The callback of a client -/

/-- The place of a client: its identity and its queue. -/
def Client.line (c : Client) : Nat × List Nat := (c.id, c.queue)

theorem line_updateWanted (c : Client) : (clientUpdateWanted c).line = c.line := by
  rw [clientUpdateWanted_eq]
  rfl

section Callback

variable (w : World) (c : Client)

theorem receiveStep_line (r : Revents) (a : IoAnswers) :
    (receiveStep w c r a).2.1.line = (c.id, c.queue ++
      if c.held.isNone then (receiveStep w c r a).2.1.held.toList.map (·.seqno) else []) := by
  unfold receiveStep
  split
  · rename_i hguard
    rw [(clientHandleIn_receives w c a.recv).client, if_pos hguard.1]
    simp [Client.line, Client.queue, Option.isNone_iff_eq_none.mp hguard.1]
  · cases hheld : c.held <;> simp [Client.line, Client.queue, hheld]

theorem clientHandleRequest_line (snap : Snapshot) {m : Message} (k : Answers)
    (hheld : c.held = some m) (hresponse : c.response = none) :
    (clientHandleRequest w snap c m k).2.line = c.line := by
  unfold clientHandleRequest
  simp only []
  split
  · rfl
  · simp [Client.line, Client.queue, hheld, hresponse]

theorem dispatchStep_line (snap : Snapshot) (k : Answers) :
    (dispatchStep w snap c k).2.line = c.line := by
  unfold dispatchStep
  split
  · rfl
  · rename_i m hheld
    split
    · rename_i hguard
      exact clientHandleRequest_line w c snap k hheld (Option.isNone_iff_eq_none.mp hguard.1)
    · rfl

theorem sendStep_line (r : Revents) (send : Send) :
    (c.id, c.queue) = ((sendStep w c r send).2.1.id,
      (if (sendStep w c r send).2.1.response.isNone then c.response.toList.map (·.seqno) else []) ++
        (sendStep w c r send).2.1.queue) := by
  unfold sendStep
  split
  · obtain ⟨response, hsent, heq⟩ := (clientHandleOut_sends w c send).client
    rw [heq]
    rcases hsent with rfl | rfl
    · cases hresponse : c.response <;> simp [Client.queue, hresponse]
    · simp [Client.queue]
  · cases hresponse : c.response <;> simp [Client.queue, hresponse]

/-- What a callback leaves of the client: nothing, or its queue with what came and without what
went. -/
theorem onClientIo_line (clients : List Client) (r : Revents) (a : IoAnswers) {w' : World}
    {out : Outcome} (hio : onClientIo w clients c r a = (w', out)) :
    out = .dropped ∧ c.traffic w clients r a = ([], []) ∨
    ∃ c', (out = .failed c' ∨ out = .kept c') ∧ c'.id = c.id ∧
      c.queue ++ (c.traffic w clients r a).1 = (c.traffic w clients r a).2 ++ c'.queue := by
  unfold onClientIo at hio
  unfold Client.traffic
  split at hio
  · rename_i hhangup
    cases hio
    exact .inl ⟨rfl, if_pos hhangup⟩
  rename_i hhangup
  have hline₁ := receiveStep_line w c r a
  rw [if_neg hhangup]
  rcases hreceive : receiveStep w c r a with ⟨w₁, c₁, ok₁⟩
  rw [hreceive] at hline₁ hio
  obtain ⟨hid₁, hqueue₁⟩ := Prod.mk.inj hline₁
  cases ok₁ with
  | false =>
    cases hio
    exact .inr ⟨c₁, .inl rfl, hid₁, hqueue₁.symm⟩
  | true =>
    have hline₂ := dispatchStep_line w₁ c₁ (snapshot w₁ clients) a.answers
    rcases hdispatch : dispatchStep w₁ (snapshot w₁ clients) c₁ a.answers with ⟨w₂, c₂⟩
    rw [hdispatch] at hline₂
    have hline₃ := hline₂.symm.trans (sendStep_line w₂ c₂ r a.send)
    rcases hsend : sendStep w₂ c₂ r a.send with ⟨w₃, c₃, ok₃⟩
    rw [hsend] at hline₃
    obtain ⟨hid₃, hqueue₃⟩ := Prod.mk.inj hline₃
    simp only [hdispatch, hsend, if_true] at hio ⊢
    cases ok₃ with
    | false =>
      cases hio
      exact .inr ⟨c₃, .inl rfl, hid₃.symm.trans hid₁, hqueue₁.symm.trans hqueue₃⟩
    | true =>
      cases hio
      obtain ⟨hid₄, hqueue₄⟩ := Prod.mk.inj (line_updateWanted c₃)
      exact .inr ⟨_, .inr rfl, hid₄.trans (hid₃.symm.trans hid₁),
        hqueue₄ ▸ hqueue₁.symm.trans hqueue₃⟩

end Callback

theorem ioStep_line {s : State} {id : Nat} {c : Client} (hawake : s.awake id = some c)
    (r : Revents) (a : IoAnswers) :
    (ioStep s id r a).clients = s.clients.filter (·.id ≠ id) ∧
      c.traffic s.world s.clients r a = ([], []) ∨
    ∃ c', (ioStep s id r a).clients = (s.clients.map fun x => if x.id = id then c' else x) ∧
      c'.id = c.id ∧ c.queue ++ (c.traffic s.world s.clients r a).1 =
        (c.traffic s.world s.clients r a).2 ++ c'.queue := by
  obtain ⟨hfind, henabled⟩ := Option.filter_eq_some_iff.mp hawake
  rcases hio : onClientIo s.world s.clients c r a with ⟨w', out⟩
  have hline := onClientIo_line s.world c s.clients r a hio
  simp only [ioStep, hfind, henabled, not_true_eq_false, if_false, hio]
  rcases hline with ⟨rfl, htraffic⟩ | ⟨c', rfl | rfl, hid, hqueue⟩
  · exact .inl ⟨rfl, htraffic⟩
  · exact .inr ⟨{ c' with enabled := false }, rfl, hid, hqueue⟩
  · exact .inr ⟨c', rfl, hid, hqueue⟩

/-! ## The timer -/

/-- A client that is being worked for has its request in front. -/
def Client.Queued (c : Client) : Prop :=
  c.pendingDesignWrite.isSome ∨ c.pendingAsyncOp = true → c.response = none ∧ ∃ m, c.held = some m

theorem Client.Sound.queued {w : World} {c : Client} (h : c.Sound w) : c.Queued := by
  rintro (hwrite | hop)
  · obtain ⟨p, hp⟩ := Option.isSome_iff_exists.mp hwrite
    obtain ⟨-, -, hresponse, m, -, -, hheld, -⟩ := h.writing p hp
    exact ⟨hresponse, m, hheld⟩
  · obtain ⟨-, -, hresponse, m, hheld, -⟩ := h.waiting hop
    exact ⟨hresponse, m, hheld⟩

theorem Client.Queued.finalize {c : Client} (h : c.Queued) (w : World) (snap : Snapshot)
    (a : FinalAnswers) : (clientFinalizePendingDesignWrite w snap c a).2.line = c.line := by
  cases hp : c.pendingDesignWrite with
  | none => simp [clientFinalizePendingDesignWrite, hp]
  | some p =>
    rcases finalize_cases w snap c a with heq | ⟨ret, heq⟩
    · rw [heq]
    · obtain ⟨hresponse, m, hheld⟩ := h (.inl (by rw [hp]; rfl))
      rw [heq, Client.finalised, line_updateWanted]
      simp [Client.line, Client.queue, hresponse, hheld]

theorem finalizeAll_lines (a : Nat → FinalAnswers) (clients : List Client) :
    ∀ (w : World) (before : List Client), (∀ c ∈ clients, c.Queued) →
      (finalizeAll w a before clients).2.map Client.line = (before ++ clients).map Client.line := by
  induction clients with
  | nil => simp [finalizeAll]
  | cons c rest ih =>
    intro w before h
    have hc := (h c mem_cons_self).finalize w (snapshot w (before ++ c :: rest)) (a c.id)
    rw [finalizeAll, ih _ _ fun x hx => h x (mem_cons_of_mem _ hx)]
    simp [hc]

theorem drainDeferredRequests_lines (k : Nat → Answers) (clients : List Client) :
    ∀ (w : World) (before : List Client),
      (drainDeferredRequests w k before clients).2.map Client.line =
        (before ++ clients).map Client.line := by
  induction clients with
  | nil => simp [drainDeferredRequests]
  | cons c rest ih =>
    intro w before
    unfold drainDeferredRequests
    split
    · rename_i m hheld hresponse
      have hc := (line_updateWanted _).trans
        (clientHandleRequest_line w c (snapshot w (before ++ c :: rest)) (k c.id) hheld hresponse)
      split
      · simp [ih]
      · simp only []
        split <;> simp [ih, hc]
    · simp [ih]

theorem collectAsyncResult_lines (w : World) {clients : List Client}
    (h : ∀ c ∈ clients, c.Queued) (k : Driver) :
    (collectAsyncResult w clients k).2.map Client.line = clients.map Client.line := by
  rw [collectAsyncResult, map_map]
  refine map_congr_left fun c hc => ?_
  simp only [Function.comp_apply]
  split
  · rename_i hop
    obtain ⟨hresponse, m, hheld⟩ := h c hc (.inr hop)
    rw [clientDeliverAsyncDeviceOpResult, line_updateWanted]
    simp [Client.line, Client.queue, hresponse, hheld]
  · rfl

theorem timer_lines {s : State} (hs : s.Sound) (a : TimerAnswers) :
    (step s (.timer a)).clients.map Client.line = s.clients.map Client.line := by
  have hqueued : ∀ c ∈ s.clients, c.Queued := fun c hc => (hs.clients c hc).queued
  show (onEventDeferredWork s a).clients.map Client.line = _
  unfold onEventDeferredWork
  split
  · split
    · rfl
    · exact (drainDeferredRequests_lines ..).trans (collectAsyncResult_lines _ hqueued a.driver)
  · exact finalizeAll_lines a.final s.clients s.world [] hqueued

/-! ## Every run -/

theorem State.Sound.step {s : State} (hs : s.Sound) (e : Event) : (step s e).Sound :=
  (step_acts (δ := anyRun) hs nofun nofun nofun).sound hs

/-- What holds of a connection between two events. -/
structure Observed.Fair (id : Nat) (o : Observed) : Prop where
  sound : o.state.Sound
  order : o.answered <+: o.received
  owed : ∀ c ∈ o.state.clients, c.id = id → o.received = o.answered ++ c.queue

section Step

variable {id : Nat} {o : Observed} (h : o.Fair id)
include h

/-- An event at which nothing goes over the connection. -/
theorem Observed.Fair.quiet {e : Event} (hpast : o.past id e = (o.received, o.answered))
    (htraffic : traffic id o.state e = ([], []))
    (howed : ∀ c ∈ (step o.state e).clients, c.id = id → o.received = o.answered ++ c.queue) :
    (observe id o e).Fair id := by
  rw [observe, hpast, htraffic, append_nil, append_nil]
  exact ⟨h.sound.step e, h.order, howed⟩

theorem Observed.Fair.io (id' : Nat) (r : Revents) (a : IoAnswers) :
    (observe id o (.io id' r a)).Fair id := by
  cases hawake : o.state.awake id' with
  | none =>
    have hstay : ioStep o.state id' r a = o.state := by
      unfold ioStep
      split
      · rfl
      · rename_i c hfind
        rw [State.awake, hfind] at hawake
        rw [if_pos (by simpa [Option.filter] using hawake)]
    refine h.quiet rfl ?_ fun c hc => h.owed c (hstay ▸ hc)
    rw [traffic, hawake, Option.elim_none, ite_self]
  | some c =>
    have hfind := (Option.filter_eq_some_iff.mp hawake).1
    have hc := mem_of_find?_eq_some hfind
    have hid : c.id = id' := by simpa using find?_some hfind
    have htraffic : traffic id o.state (.io id' r a) =
        if id' = id then c.traffic o.state.world o.state.clients r a else ([], []) := by
      rw [traffic, hawake, Option.elim_some]
    rcases ioStep_line hawake r a with ⟨hclients, hnone⟩ | ⟨c', hclients, hid', hqueue⟩
    · refine h.quiet rfl (by rw [htraffic, hnone, ite_self]) fun x hx => ?_
      rw [Daemon.step, hclients] at hx
      exact h.owed x (mem_filter.mp hx).1
    by_cases heq : id' = id
    · subst heq
      have hall : o.received ++ (c.traffic o.state.world o.state.clients r a).1 =
          o.answered ++ (c.traffic o.state.world o.state.clients r a).2 ++ c'.queue := by
        rw [h.owed c hc hid, append_assoc, hqueue, append_assoc]
      rw [observe, htraffic, if_pos rfl]
      refine ⟨h.sound.step (.io id' r a), ⟨_, hall.symm⟩, fun x hx hxid => ?_⟩
      rw [Daemon.step, hclients] at hx
      obtain ⟨y, -, rfl⟩ := mem_map.mp hx
      split at hxid
      · rename_i hy
        rw [if_pos hy]
        exact hall
      · rename_i hne
        exact absurd hxid hne
    · refine h.quiet rfl (by rw [htraffic, if_neg heq]) fun x hx hxid => ?_
      rw [Daemon.step, hclients] at hx
      obtain ⟨y, hy, rfl⟩ := mem_map.mp hx
      split at hxid
      · exact absurd (hid.symm.trans (hid'.symm.trans hxid)) heq
      · rename_i hne
        rw [if_neg hne]
        exact h.owed y hy hxid

theorem Observed.Fair.step (e : Event) : (observe id o e).Fair id := by
  cases e with
  | accept fd =>
    -- the new client has an identity of its own
    by_cases hnew : o.state.world.next = id
    · have hpast : o.past id (.accept fd) = ([], []) := if_pos hnew
      rw [observe, hpast]
      refine ⟨h.sound.step (.accept fd), prefix_refl _, fun c hc hid => ?_⟩
      rcases mem_append.mp hc with hc | hc
      · exact absurd (hid.trans hnew.symm) (Nat.ne_of_lt (h.sound.clients c hc).id_lt)
      · rw [mem_singleton.mp hc]
        rfl
    · refine h.quiet (if_neg hnew) rfl fun c hc hid => ?_
      rcases mem_append.mp hc with hc | hc
      · exact h.owed c hc hid
      · rw [mem_singleton.mp hc] at hid
        exact absurd hid hnew
  | io id' r a => exact h.io id' r a
  | timer a =>
    refine h.quiet rfl rfl fun c hc hid => ?_
    have hmem : c.line ∈ o.state.clients.map Client.line :=
      timer_lines h.sound a ▸ mem_map_of_mem hc
    obtain ⟨c', hc', hline⟩ := mem_map.mp hmem
    obtain ⟨hid', hqueue⟩ := Prod.mk.inj hline
    exact hqueue ▸ h.owed c' hc' (hid'.trans hid)
  | transferDone | workerRemove | workerDiscover | workerFinish => exact h.quiet rfl rfl h.owed

end Step

/-- For every connection and every run, the responses go out in the order of the requests, each
under the sequence number of its request, none twice and none that was not asked for; while the
connection is there, what was taken since it was accepted and is not yet answered is what its two
slots hold. -/
theorem answered_in_order (found : Discovery) (id : Nat) (events : List Event) :
    (runFrom (observe id) ⟨boot found, [], []⟩ events).state = run found events ∧
    (runFrom (observe id) ⟨boot found, [], []⟩ events).answered <+:
      (runFrom (observe id) ⟨boot found, [], []⟩ events).received ∧
    ∀ c ∈ (run found events).clients, c.id = id →
      (runFrom (observe id) ⟨boot found, [], []⟩ events).received =
        (runFrom (observe id) ⟨boot found, [], []⟩ events).answered ++ c.queue := by
  have hstate := observe_state id events ⟨boot found, [], []⟩
  have hfair : (runFrom (observe id) ⟨boot found, [], []⟩ events).Fair id :=
    runFrom_invariant (I := Observed.Fair id) (fun o e h => h.step e) events
      ⟨boot_sound found, prefix_refl _, fun c hc => absurd hc not_mem_nil⟩
  exact ⟨hstate, hfair.order, fun c hc => hfair.owed c (hstate ▸ hc)⟩

end Slash.Daemon
