import Slash.Daemon.Exclusive

/-!
# No client is stranded

A client has one slot for a request and one for a response. Its event source is armed for input
while the first is free and for output while the second is taken; a request that is held without
a response is moved on by the timer, because a design write or an async operation is under way.

What gets lost is a request behind a response. While a response waits for the socket the client may
send its next request, which is received and held. The callback that sends the response off has
dispatched before it sends, so it leaves the request with nothing armed and nothing pending.
-/

namespace Slash.Daemon

open Lib List
open Libvrtd (Ret)

/-! ## What moves a client on -/

def Client.Advances (w : World) (c : Client) : Prop :=
  c.enabled = true ∧
    (c.armed.input = true ∧ c.held = none ∨
      c.armed.output = true ∧ c.response.isSome ∨
      c.pendingDesignWrite.isSome ∨ c.pendingAsyncOp = true ∨
      c.held.isSome ∧ c.response = none ∧ w.asyncInProgress = true)

instance Client.decidableAdvances (w : World) (c : Client) : Decidable (c.Advances w) :=
  inferInstanceAs (Decidable (_ ∧ _))

/-- The source is armed for what the slots allow, and `wanted_epoll_events` remembers it. -/
structure Client.Armed (c : Client) : Prop where
  input : c.armed.input = c.held.isNone
  output : c.armed.output = c.response.isSome
  cached : ∀ mask, c.wanted = some mask → c.armed = mask

def Client.source (c : Client) : Option Mask × Mask × Bool := (c.wanted, c.armed, c.enabled)

theorem Client.Armed.update {c c' : Client} (h : c.Armed) (hsource : c'.source = c.source) :
    (clientUpdateWanted c').Armed ∧ (clientUpdateWanted c').enabled = c.enabled := by
  simp only [Client.source, Prod.mk.injEq] at hsource
  obtain ⟨hwanted, harmed, henabled⟩ := hsource
  unfold clientUpdateWanted
  simp only []
  split
  · rename_i hmask
    have hcached : c'.armed = ⟨c'.held.isNone, c'.response.isSome⟩ := by
      rw [harmed]
      exact h.cached _ (hwanted ▸ hmask)
    refine ⟨⟨by rw [hcached], by rw [hcached], fun mask hm => ?_⟩, henabled⟩
    rw [hmask] at hm
    cases hm
    exact hcached
  · exact ⟨⟨rfl, rfl, fun mask hm => Option.some.inj hm⟩, henabled⟩

/-- The invariant: sources are enabled and armed, and outside an async operation no request is
left that could be dispatched. -/
def Attentive (s : State) : Prop :=
  ∀ c ∈ s.clients, c.enabled = true ∧ c.Armed ∧ (s.world.asyncInProgress = true ∨ c.Settled)

theorem Attentive.advances {s : State} (h : Attentive s) : ∀ c ∈ s.clients, c.Advances s.world := by
  intro c hc
  obtain ⟨henabled, harmed, hsettled⟩ := h c hc
  refine ⟨henabled, ?_⟩
  cases hheld : c.held with
  | none => exact .inl ⟨by rw [harmed.input, hheld]; rfl, rfl⟩
  | some m =>
    cases hresponse : c.response with
    | some r => exact .inr (.inl ⟨by rw [harmed.output, hresponse]; rfl, rfl⟩)
    | none =>
      rcases hsettled with hrunning | hsettled
      · exact .inr (.inr (.inr (.inr ⟨rfl, rfl, hrunning⟩)))
      · rcases hsettled (by rw [hheld]; rfl) hresponse with hwrite | hop
        · exact .inr (.inr (.inl hwrite))
        · exact .inr (.inr (.inr (.inl hop)))

/-! ## The callback of a client -/

section Callback

variable (w : World) (c : Client)

theorem receiveStep_slots (r : Revents) (a : IoAnswers) :
    (receiveStep w c r a).2.1.source = c.source ∧
    (receiveStep w c r a).2.1.response = c.response ∧
    (receiveStep w c r a).2.1.newResponse = c.newResponse ∧
    ((receiveStep w c r a).2.1.held.isSome →
      c.held.isSome ∨ r.input = true ∧ a.recv ≠ .again) := by
  unfold receiveStep
  split
  · rename_i hguard
    have hclient := (clientHandleIn_receives w c a.recv).client
    generalize hin : clientHandleIn w c a.recv = result at hclient
    refine ⟨by rw [hclient]; rfl, by rw [hclient], by rw [hclient], fun hheld => .inr ⟨hguard.2, ?_⟩⟩
    intro hagain
    rw [hagain] at hin
    subst hin
    rw [Option.isSome_iff_ne_none] at hheld
    exact hheld (Option.isNone_iff_eq_none.mp hguard.1)
  · exact ⟨rfl, rfl, rfl, .inl⟩

theorem clientHandleRequest_source (snap : Snapshot) (m : Message) (k : Answers) :
    (clientHandleRequest w snap c m k).2.source = c.source := by
  unfold clientHandleRequest
  simp only []
  split <;> rfl

theorem dispatchStep_source (snap : Snapshot) (k : Answers) :
    (dispatchStep w snap c k).2.source = c.source := by
  unfold dispatchStep
  split
  · rfl
  · rename_i m _
    split
    · exact clientHandleRequest_source w c snap m k
    · rfl

/-- After the dispatch a request is held for what is pending, or behind a response. -/
theorem dispatchStep_slots (hidle : w.asyncInProgress = false) (snap : Snapshot) (k : Answers) :
    ((dispatchStep w snap c k).2.held.isSome →
      (dispatchStep w snap c k).2.pendingDesignWrite.isSome ∨
        (dispatchStep w snap c k).2.pendingAsyncOp = true) ∨
    c.held.isSome ∧ c.response.isSome ∧ (dispatchStep w snap c k).2 = c := by
  unfold dispatchStep
  split
  · rename_i hnone
    exact .inl fun hheld => by rw [hnone] at hheld; cases hheld
  · rename_i m hheld
    split
    · left
      unfold clientHandleRequest
      simp only []
      split
      · rename_i hpending
        exact fun _ => hpending
      · exact nofun
    · rename_i hguard
      have hresponse : c.response.isSome := by
        rw [Option.isSome_iff_ne_none, Ne, ← Option.isNone_iff_eq_none]
        exact fun hnone => hguard ⟨hnone, .inl hidle⟩
      exact .inr ⟨by rw [hheld]; rfl, hresponse, rfl⟩

theorem clientHandleOut_kept {send : Send} (hsend : send ≠ .sent) :
    (clientHandleOut w c send).2.1 = c := by
  unfold clientHandleOut
  cases c.response with
  | none => rfl
  | some r =>
    simp only []
    cases r.fd with
    | none =>
      cases send with
      | sent => exact absurd rfl hsend
      | _ => rfl
    | some n =>
      simp only []
      split
      · rfl
      · cases send with
        | sent => exact absurd rfl hsend
        | _ => rfl

theorem sendStep_slots (r : Revents) (send : Send) :
    (sendStep w c r send).2.1.source = c.source ∧
    (sendStep w c r send).2.1.held = c.held ∧
    (sendStep w c r send).2.1.pendingDesignWrite = c.pendingDesignWrite ∧
    (sendStep w c r send).2.1.pendingAsyncOp = c.pendingAsyncOp ∧
    (c.response.isSome → (sendStep w c r send).2.1.response = none →
      (r.output = true ∨ c.newResponse = true) ∧ send = .sent) := by
  unfold sendStep
  split
  · rename_i hguard
    obtain ⟨response, -, heq⟩ := (clientHandleOut_sends w c send).client
    refine ⟨by rw [heq]; rfl, by rw [heq], by rw [heq], by rw [heq], fun hsome hnone => ?_⟩
    refine ⟨hguard.imp And.right fun h => h, ?_⟩
    by_contra hsend
    rw [clientHandleOut_kept w _ hsend] at hnone
    rw [show c.response = none from hnone] at hsome
    cases hsome
  · exact ⟨rfl, rfl, rfl, rfl, fun hsome hnone => by rw [hnone] at hsome; cases hsome⟩

/-- The callback sends a response off although a request is held behind it or comes in, and no
async operation is under way after which the timer would look for it. -/
def Client.passesOver (r : Revents) (a : IoAnswers) : Bool :=
  c.response.isSome && (c.held.isSome || r.input && a.recv ≠ .again) &&
    (r.output || c.newResponse) && a.send = .sent && !w.asyncInProgress

variable {w c}

/-- A callback that returns without an error goes through its four steps. -/
theorem onClientIo_kept {clients : List Client} {r : Revents} {a : IoAnswers} {w' : World}
    {c' : Client} (heq : onClientIo w clients c r a = (w', .kept c')) :
    ∃ w₁ c₁ w₂ c₂ c₃, receiveStep w c r a = (w₁, c₁, true) ∧
      dispatchStep w₁ (snapshot w₁ clients) c₁ a.answers = (w₂, c₂) ∧
      sendStep w₂ c₂ r a.send = (w', c₃, true) ∧ c' = clientUpdateWanted c₃ := by
  unfold onClientIo at heq
  split at heq
  · cases heq
  rcases hreceive : receiveStep w c r a with ⟨w₁, c₁, ok₁⟩
  rw [hreceive] at heq
  cases ok₁ with
  | false => cases heq
  | true =>
    rcases hdispatch : dispatchStep w₁ (snapshot w₁ clients) c₁ a.answers with ⟨w₂, c₂⟩
    rcases hsend : sendStep w₂ c₂ r a.send with ⟨w₃, c₃, ok₃⟩
    simp only [hdispatch, hsend] at heq
    cases ok₃ with
    | false => cases heq
    | true =>
      cases heq
      exact ⟨w₁, c₁, w₂, c₂, c₃, rfl, hdispatch, hsend, rfl⟩

theorem onClientIo_armed {clients : List Client} {r : Revents} {a : IoAnswers} {w' : World}
    {c' : Client} (heq : onClientIo w clients c r a = (w', .kept c')) (harmed : c.Armed) :
    c'.Armed ∧ c'.enabled = c.enabled := by
  obtain ⟨w₁, c₁, w₂, c₂, c₃, hreceive, hdispatch, hsend, rfl⟩ := onClientIo_kept heq
  have hsource₁ := (receiveStep_slots w c r a).1
  have hsource₂ := dispatchStep_source w₁ c₁ (snapshot w₁ clients) a.answers
  have hsource₃ := (sendStep_slots w₂ c₂ r a.send).1
  rw [hreceive] at hsource₁
  rw [hdispatch] at hsource₂
  rw [hsend] at hsource₃
  exact harmed.update (hsource₃.trans (hsource₂.trans hsource₁))

theorem onClientIo_settled {clients : List Client} {r : Revents} {a : IoAnswers} {w' : World}
    {c' : Client} (heq : onClientIo w clients c r a = (w', .kept c'))
    (hidle : w.asyncInProgress = false) (hpasses : c.passesOver w r a = false) : c'.Settled := by
  obtain ⟨w₁, c₁, w₂, c₂, c₃, hreceive, hdispatch, hsend, rfl⟩ := onClientIo_kept heq
  obtain ⟨-, hresponse₁, hnew₁, hheld₁⟩ := receiveStep_slots w c r a
  have hidle₁ := (receiveStep_standsBy w c r a).async.trans hidle
  rw [hreceive] at hresponse₁ hnew₁ hheld₁ hidle₁
  have hdone := dispatchStep_slots w₁ c₁ hidle₁ (snapshot w₁ clients) a.answers
  rw [hdispatch] at hdone
  obtain ⟨-, hheld₃, hwrite₃, hop₃, hsent⟩ := sendStep_slots w₂ c₂ r a.send
  rw [hsend] at hheld₃ hwrite₃ hop₃ hsent
  rw [clientUpdateWanted_eq]
  intro hheld hnone
  rcases hdone with hdone | ⟨hheld', hresponse, rfl⟩
  · exact hwrite₃ ▸ hop₃ ▸ hdone (hheld₃ ▸ hheld)
  · -- the request stood behind the response that was sent
    obtain ⟨hevent, hsend⟩ := hsent hresponse hnone
    have hpasses' : c.passesOver w r a = true := by
      have hbehind : c.held.isSome = true ∨ r.input = true ∧ a.recv ≠ .again := hheld₁ hheld'
      simp only [Client.passesOver, ← hresponse₁, ← hnew₁, hresponse, hsend, hidle, Bool.and_eq_true,
        Bool.or_eq_true, decide_eq_true_eq, Bool.not_false, true_and, and_true]
      exact ⟨hbehind, hevent⟩
    rw [hpasses] at hpasses'
    cases hpasses'

end Callback

/-- Client callbacks meet no error and pass no request over. -/
def orderly (s : State) : Event → Bool
  | .io id r a => r.hangup || (s.clients.find? (·.id = id)).all fun c =>
    c.tidy s.world r a && !c.passesOver s.world r a
  | _ => true

theorem Attentive.io {s : State} (hs : s.Sound) (h : Attentive s) {id : Nat} {r : Revents}
    {a : IoAnswers} (horderly : orderly s (.io id r a) = true) :
    Attentive (step s (.io id r a)) := by
  have hrunning : s.world.asyncInProgress = true →
      (step s (.io id r a)).world.asyncInProgress = true := fun hrunning =>
    (ioStep_async hs hrunning id r a).trans hrunning
  obtain ⟨w, clients, n⟩ := s
  simp only [step, ioStep] at hrunning ⊢
  cases hfind : clients.find? (·.id = id) with
  | none => exact h
  | some c =>
    have hc := mem_of_find?_eq_some hfind
    obtain ⟨henabled, harmed, hsettled⟩ := h c hc
    simp only [hfind, henabled, not_true_eq_false, if_false] at hrunning ⊢
    cases hhangup : r.hangup with
    | true =>
      simp only [onClientIo, hhangup, if_true] at hrunning ⊢
      intro x hx
      obtain ⟨henabled, harmed, hsettled⟩ := h x (mem_filter.mp hx).1
      exact ⟨henabled, harmed, hsettled.imp_left hrunning⟩
    | false =>
      simp only [orderly, hhangup, hfind, Bool.false_or, Option.all_some, Bool.and_eq_true,
        Bool.not_eq_true'] at horderly
      rcases hio : onClientIo w clients c r a with ⟨w', out⟩
      rw [hio] at hrunning
      obtain ⟨before, rest, rfl, -, -⟩ := split_key hs.ids hc
      rcases onClientIo_acts (δ := ⟨True, False, False⟩) before rest n hs hhangup
        (fun _ => horderly.1) False.elim hio with ⟨c', rfl, hfails, -⟩ | ⟨c', rfl, -⟩
      · exact absurd trivial hfails
      · intro x hx
        obtain ⟨y, hy, rfl⟩ := mem_map.mp hx
        split
        · obtain ⟨harmed', henabled'⟩ := onClientIo_armed hio harmed
          refine ⟨henabled'.trans henabled, harmed', ?_⟩
          cases hasync : w.asyncInProgress with
          | true => exact .inl (hrunning hasync)
          | false => exact .inr (onClientIo_settled hio hasync horderly.2)
        · obtain ⟨henabled, harmed, hsettled⟩ := h y hy
          exact ⟨henabled, harmed, hsettled.imp_left hrunning⟩

/-! ## The timer -/

theorem finalize_cases (w : World) (snap : Snapshot) (c : Client) (a : FinalAnswers) :
    (clientFinalizePendingDesignWrite w snap c a).2 = c ∨
      ∃ ret, (clientFinalizePendingDesignWrite w snap c a).2 = c.finalised ret := by
  unfold clientFinalizePendingDesignWrite
  cases c.pendingDesignWrite with
  | none => exact .inl rfl
  | some p =>
    simp only []
    split
    · split
      · exact .inl rfl
      · exact .inr ⟨_, rfl⟩
    · split
      · exact .inl rfl
      · exact .inr ⟨_, rfl⟩

/-- A design write that is over leaves a response, one that is not leaves its client alone. -/
theorem finalize_slots (w : World) (snap : Snapshot) {c : Client} (a : FinalAnswers)
    (harmed : c.Armed) (hsettled : c.Settled) :
    (clientFinalizePendingDesignWrite w snap c a).2.enabled = c.enabled ∧
    (clientFinalizePendingDesignWrite w snap c a).2.Armed ∧
    (clientFinalizePendingDesignWrite w snap c a).2.Settled := by
  rcases finalize_cases w snap c a with heq | ⟨ret, heq⟩
  · rw [heq]
    exact ⟨rfl, harmed, hsettled⟩
  · rw [heq, Client.finalised]
    refine ⟨(harmed.update ?_).2, (harmed.update ?_).1, ?_⟩
    · rfl
    · rfl
    · rw [clientUpdateWanted_eq]
      intro hheld
      exact absurd hheld Bool.false_ne_true

theorem finalizeAll_slots (a : Nat → FinalAnswers) (clients : List Client) :
    ∀ (w : World) (before : List Client),
      (∀ c ∈ before ++ clients, c.enabled = true ∧ c.Armed ∧ c.Settled) →
      ∀ c ∈ (finalizeAll w a before clients).2, c.enabled = true ∧ c.Armed ∧ c.Settled := by
  induction clients with
  | nil =>
    intro w before h
    rw [append_nil] at h
    exact h
  | cons c rest ih =>
    intro w before h
    obtain ⟨henabled, harmed, hsettled⟩ := h c (mem_append_right _ mem_cons_self)
    obtain ⟨henabled', harmed', hsettled'⟩ :=
      finalize_slots w (snapshot w (before ++ c :: rest)) (a c.id) harmed hsettled
    refine ih _ _ fun x hx => ?_
    rw [append_assoc, singleton_append] at hx
    rcases mem_replaced hx with rfl | hx
    · exact ⟨henabled'.trans henabled, harmed', hsettled'⟩
    · exact h x (mem_others hx)

theorem drainDeferredRequests_slots (k : Nat → Answers) (clients : List Client) :
    ∀ (w : World) (before : List Client),
      (∀ c ∈ before ++ clients, c.enabled = true ∧ c.Armed) →
      ∀ c ∈ (drainDeferredRequests w k before clients).2, c.enabled = true ∧ c.Armed := by
  induction clients with
  | nil =>
    intro w before h
    rw [append_nil] at h
    exact h
  | cons c rest ih =>
    intro w before h
    have hlist : ∀ x : Client, (before ++ [x]) ++ rest = before ++ x :: rest := by simp
    unfold drainDeferredRequests
    split
    · rename_i m _ _
      split
      · exact ih w _ (hlist c ▸ h)
      · obtain ⟨henabled, harmed⟩ := h c (mem_append_right _ mem_cons_self)
        have hupdate := harmed.update
          (clientHandleRequest_source w c (snapshot w (before ++ c :: rest)) m (k c.id))
        simp only []
        generalize clientHandleRequest w (snapshot w (before ++ c :: rest)) c m (k c.id) = result
          at hupdate
        have hafter : ∀ x ∈ before ++ clientUpdateWanted result.2 :: rest,
            x.enabled = true ∧ x.Armed := by
          intro x hx
          rcases mem_replaced hx with rfl | hx
          · exact ⟨hupdate.2.trans henabled, hupdate.1⟩
          · exact h x (mem_others hx)
        split
        · exact hafter
        · exact ih _ _ (hlist (clientUpdateWanted result.2) ▸ hafter)
    · exact ih w _ (hlist c ▸ h)

theorem Attentive.timer {s : State} (h : Attentive s) (a : TimerAnswers) :
    Attentive (step s (.timer a)) := by
  cases hrunning : s.world.asyncInProgress with
  | false =>
    simp only [step, onEventDeferredWork, hrunning, Bool.false_eq_true, if_false]
    intro c hc
    obtain ⟨henabled, harmed, hsettled⟩ := finalizeAll_slots a.final s.clients s.world [] (fun x hx => by
      obtain ⟨henabled, harmed, hsettled⟩ := h x hx
      exact ⟨henabled, harmed, hsettled.resolve_left (by rw [hrunning]; exact Bool.false_ne_true)⟩) c hc
    exact ⟨henabled, harmed, .inr hsettled⟩
  | true =>
    cases hjob : s.world.worker.job with
    | some j =>
      rw [step_timer_running hrunning (by rw [hjob]; rfl)]
      exact h
    | none =>
      rw [step_timer_collect hrunning hjob]
      have hcollected : ∀ c ∈ (collectAsyncResult s.world s.clients a.driver).2,
          c.enabled = true ∧ c.Armed := by
        intro c hc
        obtain ⟨x, hx, rfl⟩ := mem_map.mp hc
        obtain ⟨henabled, harmed, -⟩ := h x hx
        split
        · unfold clientDeliverAsyncDeviceOpResult
          refine ⟨(harmed.update ?_).2.trans henabled, (harmed.update ?_).1⟩
          · rfl
          · rfl
        · exact ⟨henabled, harmed⟩
      generalize collectAsyncResult s.world s.clients a.driver = collected at hcollected
      intro c hc
      obtain ⟨henabled, harmed⟩ := drainDeferredRequests_slots a.answers collected.2 collected.1 []
        hcollected c hc
      refine ⟨henabled, harmed, ?_⟩
      exact (drainDeferredRequests_settled a.answers collected.2 collected.1 []
        fun _ hx => absurd hx not_mem_nil).imp_right fun hsettled => hsettled c hc

/-! ## Every run -/

theorem Attentive.step {s : State} (hs : s.Sound) (h : Attentive s) {e : Event}
    (horderly : orderly s e = true) : Attentive (step s e) := by
  have hsame : ∀ {w : World}, w.asyncInProgress = s.world.asyncInProgress →
      Attentive { s with world := w } := fun hasync c hc => hasync ▸ h c hc
  cases e with
  | accept fd =>
    intro c hc
    rcases mem_append.mp hc with hc | hc
    · exact h c hc
    · rw [mem_singleton.mp hc]
      exact ⟨rfl, ⟨rfl, rfl, nofun⟩, .inr nofun⟩
  | io id r a => exact h.io hs horderly
  | timer a => exact h.timer a
  | transferDone device error => exact hsame (transferDone_transferred hs.world device error).async
  | workerRemove => exact hsame (workerRemove_worked hs.world _).async
  | workerDiscover found =>
    exact hsame (workerDiscover_worked hs.world (snapshot s.world s.clients) found).async
  | workerFinish err => exact hsame (workerFinish_worked s.world (snapshot s.world s.clients) err).async

theorem no_client_stranded (found : Discovery) (events : List Event)
    (horderly : Along step (fun s e => orderly s e = true) (boot found) events) :
    ∀ c ∈ (run found events).clients, c.Advances (run found events).world := by
  have hattentive : (run found events).Sound ∧ Attentive (run found events) :=
    horderly.invariant (I := fun s => s.Sound ∧ Attentive s)
      (fun s e horderly h => ⟨(step_acts (δ := anyRun) h.1 nofun nofun nofun).sound h.1, h.2.step h.1 horderly⟩)
      ⟨boot_sound found, fun _ hc => absurd hc not_mem_nil⟩
  exact hattentive.2.advances

/-! ## A request behind a response -/

/-- A client asks for the number of devices; `send` is what its socket does with the answer. -/
def countDevices (client seqno : Nat) (send : Send) : Event :=
  .io client { input := true }
    { recv := .message { length := 8, message := ⟨0, seqno, .query .getNumDevices⟩ }, send := send }

/-- The socket of a client can be written to again. -/
def writable (client : Nat) : Event := .io client { output := true } {}

/-- The answer waits for the socket and is sent before the next request comes. -/
def oneAtATime : List Event :=
  [.accept 3, countDevices 1 1 .again, writable 1, countDevices 1 2 .sent]

theorem one_at_a_time_advances :
    Along step (fun s e => orderly s e = true) (boot oneBoard) oneAtATime ∧
    ∀ c ∈ (run oneBoard oneAtATime).clients, c.Advances (run oneBoard oneAtATime).world :=
  ⟨by decide +kernel, no_client_stranded oneBoard oneAtATime (by decide +kernel)⟩

/-- The next request comes while the answer still waits. -/
def pipelined : List Event :=
  [.accept 3, countDevices 1 1 .again, countDevices 1 2 .again, writable 1]

/-- No callback failed, the client is connected and holds a request that nothing will look at. -/
theorem pipelined_request_stranded :
    Along step (fun s e => tidy s e = true) (boot oneBoard) pipelined ∧
    ∃ c ∈ (run oneBoard pipelined).clients, ¬ c.Advances (run oneBoard pipelined).world := by
  decide +kernel

end Slash.Daemon
