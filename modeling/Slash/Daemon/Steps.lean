import Slash.Daemon.Acts

/-!
# Events are chains of acts

`step_acts` takes every event apart. It is the only place where the callbacks are opened; with it
come the rules that all results about runs of the daemon use.
-/

namespace Slash.Daemon

open Lib List
open Libvrtd (Ret)
open Vrtd (U64)

/-! ## Events without errors -/

/-- The callback meets no error: what it receives is acceptable, the socket takes what is sent or
asks to wait, and the descriptor of a response that waits is still open. -/
def Client.tidy (w : World) (c : Client) (r : Revents) (a : IoAnswers) : Bool :=
  (c.held.isSome || !r.input || a.recv.acceptable) && (a.send = .again || a.send = .sent) &&
    c.response.all fun response => response.fd.all fun n =>
      (w.object n).isSome && c.inFd ≠ some n

def tidy (s : State) : Event → Bool
  | .io id r a => r.hangup || (s.clients.find? (·.id = id)).all fun c => c.tidy s.world r a
  | _ => true

def Event.roomy : Event → Bool
  | .io _ _ a => a.push
  | _ => true

/-- The request is answered with a descriptor that nobody in the daemon keeps. -/
def Answers.handsOut (k : Answers) (m : Message) : Bool :=
  m.request.handsOut && k.auth = .granted && k.driver.getFd.isSome

def Recv.message? : Recv → Option Message
  | .message i => some i.message
  | _ => none

/-- No request that this event may dispatch is answered with the descriptor of a queue pair. -/
def shy (s : State) : Event → Bool
  | .io id _ a => (s.clients.find? (·.id = id)).all fun c =>
    c.held.all (fun m => !a.answers.handsOut m) && a.recv.message?.all fun m =>
      !a.answers.handsOut m
  | .timer a => s.clients.all fun c => c.held.all fun m => !(a.answers c.id).handsOut m
  | _ => true

/-! ## Requests that hand nothing out -/

section Shy

variable {w : World} {snap : Snapshot} {c : Client} {m : Message} {k : Answers}

theorem Change.keepsQpairs {σ : Scope} {w w' : World} (h : Change σ w w') (hσ : ¬ σ.hands) :
    KeepsQpairs w w' := by
  intro n x hn hout
  rcases h.opened n x hn with hold | ⟨-, hsome | ⟨-, hhands⟩⟩
  · exact hold
  · rw [hout] at hsome
    cases hsome
  · exact absurd hhands hσ

theorem Dispatched.keepsQpairs {r : World × Client} (hd : Dispatched w snap c m r) (hc : c.Sound w)
    (hm : m.request.handsOut = false) : KeepsQpairs w r.1 := by
  have hσ : ∀ devices, ¬ (m.scope devices c.connId c.inFd).hands := fun devices hhands => by
    rw [show m.request.handsOut = true from hhands] at hm
    cases hm
  cases hd with
  | taken _ => exact fun _ _ hn _ => hn
  | answered w₁ ret fd _ hchange _ =>
    exact fun n x hn => hchange.keepsQpairs (hσ _) n x (Handles.get?_of_eraseAll hn).1
  | writing w₁ d writer fd _ hchange _ _ _ _ hfd _ =>
    intro n x hn hout
    obtain ⟨object, hget⟩ := ((hc.note (.dispatched snap c.id c.inFd m)).change
      (Message.scope_devices _ _ _ _) hchange).inbound fd hfd
    rw [submitted_get? _ hget] at hn
    split at hn
    · cases hn
      cases hout
    · exact hchange.keepsQpairs (hσ _) n x hn hout
  | waiting d partition inputFd worker _ _ _ _ hinput _ =>
    intro n x hn hout
    rcases employed_opened ((hc.note _).input hinput) worker hn with ⟨hn, -⟩ | ⟨-, hworker⟩
    · exact hn
    · rw [hout] at hworker
      cases hworker
  | started d partition inputFd worker _ _ _ hinput _ =>
    intro n x hn hout
    rcases employed_opened ((hc.note _).input hinput) worker (Handles.get?_of_eraseAll hn).1 with
      ⟨hn, -⟩ | ⟨-, hworker⟩
    · exact hn
    · rw [hout] at hworker
      cases hworker

theorem handleRequest_refused (hm : m.request.handsOut = true) (hk : k.handsOut m = false)
    (w : World) (pending : List Nat) (client : Nat) (connId : U64) (inFd : Option Nat) :
    ∃ ret, handleRequest w pending client connId inFd m k = reply w ret := by
  cases hrequest : m.request with
  | qdmaQpairGetFd dev qid =>
    have hnone : k.auth = .granted → k.driver.getFd = none := fun hauth => by
      simpa [Answers.handsOut, hm, hauth] using hk
    simp only [handleRequest, hrequest, qdmaQpairGetFd, admitted]
    cases hauth : k.auth with
    | failed => exact ⟨_, rfl⟩
    | denied => exact ⟨_, rfl⟩
    | granted =>
      simp only [hnone hauth]
      split
      · exact ⟨_, rfl⟩
      cases w.devices[dev]? with
      | none => exact ⟨_, rfl⟩
      | some d =>
        simp only []
        split
        · exact ⟨_, rfl⟩
        · exact ⟨_, rfl⟩
  | _ => simp [hrequest, Request.handsOut] at hm

theorem clientHandleRequest_keepsQpairs (hw : w.Sound) (hc : c.Sound w) (hheld : c.held = some m)
    (hguard : w.asyncInProgress = false ∨ m.request.isCfgmemStatus = true)
    (hk : k.handsOut m = false) : KeepsQpairs w (clientHandleRequest w snap c m k).1 := by
  cases hm : m.request.handsOut with
  | false => exact (clientHandleRequest_dispatched hw hc hheld hguard snap k).keepsQpairs hc hm
  | true =>
    obtain ⟨ret, heq⟩ := handleRequest_refused hm hk (w.note (.dispatched snap c.id c.inFd m))
      snap.pending c.id c.connId c.inFd
    unfold clientHandleRequest
    simp only [heq, reply]
    split
    · exact fun _ _ hn _ => hn
    · exact fun _ _ hn _ => (Handles.get?_of_eraseAll hn).1

end Shy

/-! ## The callback of a client -/

section Callback

variable {δ : Demands} {w : World} (before rest : List Client) {c : Client} (n : U64)

variable {before rest} in
theorem snapshot_congr {c' : Client} (w : World) (hpending : c'.pendingDesignWrite =
    c.pendingDesignWrite) (hresponse : c'.response = c.response) :
    snapshot w (before ++ c' :: rest) = snapshot w (before ++ c :: rest) := by
  simp [snapshot, filterMap_append, filterMap_cons, hpending, hresponse]

theorem clientHandleOut_ok {send : Send} (hsend : send = .again ∨ send = .sent)
    (hopen : ∀ r m, c.response = some r → r.fd = some m → (w.object m).isSome) :
    (clientHandleOut w c send).2.2 = true := by
  unfold clientHandleOut
  cases hresponse : c.response with
  | none => rfl
  | some r =>
    simp only []
    rw [if_neg]
    · rcases hsend with rfl | rfl <;> rfl
    · cases hfd : r.fd with
      | none => simp
      | some m =>
        have hopen := hopen r m hresponse hfd
        simp only [Option.any_some, Option.isNone_iff_eq_none]
        intro hnone
        rw [show w.object m = none from hnone] at hopen
        cases hopen

def Client.Ready (w : World) (c : Client) : Prop :=
  ∀ r m, c.response = some r → r.fd = some m → (w.object m).isSome

theorem receiveStep_acts {r : Revents} {a : IoAnswers} {w' : World} {c' : Client} {ok : Bool}
    (htidy : δ.tidy → c.tidy w r a = true) (heq : receiveStep w c r a = (w', c', ok)) :
    Acts δ ⟨w, before ++ c :: rest, n⟩ ⟨w', before ++ c' :: rest, n⟩ ∧
      c' = { c with inFd := c'.inFd, held := c'.held } ∧ (δ.tidy → ok = true ∧ c'.Ready w') := by
  unfold receiveStep at heq
  split at heq
  · rename_i hin
    have hr := clientHandleIn_receives w c a.recv
    rw [heq] at hr
    change Receives w c a.recv w' c' ok at hr
    have hacc : δ.tidy → a.recv.acceptable = true := fun hδ => by
      have htidy := htidy hδ
      simp only [Client.tidy, Bool.and_eq_true, Bool.or_eq_true] at htidy
      rcases htidy.1.1 with (hheld | hinput) | hacc
      · rw [Option.isNone_iff_eq_none.mp hin.1] at hheld
        cases hheld
      · rw [hin.2] at hinput
        cases hinput
      · exact hacc
    refine ⟨.single (.client (.receive a.recv ok (Option.isNone_iff_eq_none.mp hin.1) hacc hr)),
      hr.client, fun hδ => ⟨(hr.accepted (hacc hδ)).1, fun resp m hresp hfd => ?_⟩⟩
    rw [hr.client] at hresp
    have htidy := htidy hδ
    simp only [Client.tidy, Bool.and_eq_true, show c.response = some resp from hresp, hfd,
      Option.all_some, decide_eq_true_eq] at htidy
    obtain ⟨hopen, hne⟩ := htidy.2
    cases hget : w.fds.get? m with
    | none =>
      rw [World.object, hget] at hopen
      cases hopen
    | some d =>
      rw [World.object, hr.keeps m d hget hne]
      rfl
  · cases heq
    refine ⟨.refl, rfl, fun hδ => ⟨rfl, fun resp m hresp hfd => ?_⟩⟩
    have htidy := htidy hδ
    simp only [Client.tidy, Bool.and_eq_true, hresp, hfd, Option.all_some] at htidy
    exact htidy.2.1

theorem receiveStep_held {r : Revents} {a : IoAnswers} {w' : World} {c' : Client} {ok : Bool}
    (heq : receiveStep w c r a = (w', c', ok)) {m : Message} (hm : c'.held = some m) :
    c.held = some m ∨ a.recv.message? = some m := by
  unfold receiveStep at heq
  split at heq
  · rw [← show (clientHandleIn w c a.recv).2.1 = c' from congrArg (fun x => x.2.1) heq] at hm
    rcases clientHandleIn_held hm with hm | ⟨i, hrecv, rfl⟩
    · exact .inl hm
    · exact .inr (by rw [hrecv]; rfl)
  · cases heq
    exact .inl hm

theorem dispatchStep_acts {k : Answers} {w' : World} {c' : Client}
    (hs : State.Sound ⟨w, before ++ c :: rest, n⟩)
    (hshy : δ.shy → ∀ m, c.held = some m → k.handsOut m = false)
    (heq : dispatchStep w (snapshot w (before ++ c :: rest)) c k = (w', c')) :
    Acts δ ⟨w, before ++ c :: rest, n⟩ ⟨w', before ++ c' :: rest, n⟩ ∧
      (c.Ready w → c'.Ready w') := by
  unfold dispatchStep at heq
  split at heq
  · cases heq
    exact ⟨.refl, fun h => h⟩
  · rename_i m hheld
    split at heq
    · rename_i hguard
      have hresponse := Option.isNone_iff_eq_none.mp hguard.1
      have hd := clientHandleRequest_dispatched hs.world hs.here hheld hguard.2
        (snapshot w (before ++ c :: rest)) k
      have hkeeps : δ.shy → KeepsQpairs w
          (clientHandleRequest w (snapshot w (before ++ c :: rest)) c m k).1 := fun hδ =>
        clientHandleRequest_keepsQpairs hs.world hs.here hheld hguard.2 (hshy hδ m hheld)
      rw [heq] at hd hkeeps
      refine ⟨.single (.client (.dispatch m hheld hresponse hguard.2 hkeeps hd)),
        fun _ r n hr hfd => ?_⟩
      cases hd with
      | taken _ =>
        rw [hresponse] at hr
        cases hr
      | answered w₁ ret fd _ hchange hsend =>
        cases hr
        obtain ⟨holder, ⟨object, hget⟩, hsendable⟩ := hsend n hfd
        have hnot : n ∉ c.inFd.toList := fun hmem => by
          have hin := (hs.here.inbound n (Option.mem_toList.mp hmem)).keeps
            (hchange.keeps_of (Message.scope_devices _ _ _ _) (P := fun x => x.holder.device? = none)
              fun _ hx => hx) fun _ => rfl
          rw [show holder = .inbound c.id from hin.holder_eq hget] at hsendable
          exact hsendable
        rw [World.object, closeFds_fds, Handles.get?_eraseAll, if_neg hnot, hget]
        rfl
      | writing _ _ _ _ _ _ _ _ _ _ _ _ =>
        rw [show c.response = some r from hr] at hresponse
        cases hresponse
      | waiting _ _ _ _ _ _ _ _ _ _ =>
        rw [show c.response = some r from hr] at hresponse
        cases hresponse
      | started _ _ _ _ _ _ _ _ _ =>
        cases hr
        cases hfd
    · cases heq
      exact ⟨.refl, fun h => h⟩

theorem sendStep_acts {r : Revents} {send : Send} {w' : World} {c' : Client} {ok : Bool}
    (heq : sendStep w c r send = (w', c', ok)) :
    Acts δ ⟨w, before ++ c :: rest, n⟩ ⟨w', before ++ c' :: rest, n⟩ ∧
      (send = .again ∨ send = .sent → c.Ready w → ok = true) := by
  unfold sendStep at heq
  split at heq
  · have hsends := clientHandleOut_sends w c send
    rw [heq] at hsends
    refine ⟨.single (.client (.send hsends)), fun hsend hready => ?_⟩
    have hok := clientHandleOut_ok (c := { c with newResponse := false }) hsend hready
    rwa [heq] at hok
  · cases heq
    exact ⟨.refl, fun _ _ => rfl⟩

/-- A callback that fails leaves its client listed, with a disabled source. -/
theorem onClientIo_acts {r : Revents} {a : IoAnswers} {w' : World} {out : Outcome}
    (hs : State.Sound ⟨w, before ++ c :: rest, n⟩) (hhangup : r.hangup = false)
    (htidy : δ.tidy → c.tidy w r a = true)
    (hshy : δ.shy → ∀ m, c.held = some m ∨ a.recv.message? = some m → a.answers.handsOut m = false)
    (heq : onClientIo w (before ++ c :: rest) c r a = (w', out)) :
    (∃ c', out = .failed c' ∧ ¬ δ.tidy ∧
      Acts δ ⟨w, before ++ c :: rest, n⟩ ⟨w', before ++ { c' with enabled := false } :: rest, n⟩) ∨
    ∃ c', out = .kept c' ∧ Acts δ ⟨w, before ++ c :: rest, n⟩ ⟨w', before ++ c' :: rest, n⟩ := by
  unfold onClientIo at heq
  rw [if_neg (by simp [hhangup])] at heq
  rcases hreceive : receiveStep w c r a with ⟨w₁, c₁, ok₁⟩
  obtain ⟨hacts₁, hsame, hok₁⟩ := receiveStep_acts before rest n htidy hreceive
  rw [hreceive] at heq
  have hs₁ := hacts₁.sound hs
  have hfail : ∀ {w₂ : World} {c₂ : Client}, ¬ δ.tidy →
      Acts δ ⟨w, before ++ c :: rest, n⟩ ⟨w₂, before ++ c₂ :: rest, n⟩ →
      Acts δ ⟨w, before ++ c :: rest, n⟩
        ⟨w₂, before ++ { c₂ with enabled := false } :: rest, n⟩ := fun {_ c₂} hδ hacts =>
    hacts.tail (.client (.slots c₂.wanted c₂.armed false fun h => absurd h hδ))
  cases ok₁ with
  | false =>
    cases heq
    have hδ : ¬ δ.tidy := fun hδ => Bool.noConfusion (hok₁ hδ).1
    exact .inl ⟨c₁, rfl, hδ, hfail hδ hacts₁⟩
  | true =>
    have hsnap : snapshot w₁ (before ++ c :: rest) = snapshot w₁ (before ++ c₁ :: rest) :=
      (snapshot_congr w₁ (by rw [hsame]) (by rw [hsame])).symm
    rcases hdispatch : dispatchStep w₁ (snapshot w₁ (before ++ c₁ :: rest)) c₁ a.answers with
      ⟨w₂, c₂⟩
    obtain ⟨hacts₂, hready⟩ := dispatchStep_acts before rest n hs₁
      (fun hδ m hm => hshy hδ m (receiveStep_held hreceive hm)) hdispatch
    rcases hsend : sendStep w₂ c₂ r a.send with ⟨w₃, c₃, ok₃⟩
    obtain ⟨hacts₃, hok₃⟩ := sendStep_acts (δ := δ) before rest n hsend
    simp only [hsnap, hdispatch, hsend] at heq
    have hacts := (hacts₁.trans hacts₂).trans hacts₃
    cases ok₃ with
    | false =>
      cases heq
      have hδ : ¬ δ.tidy := fun hδ => by
        have htidy := htidy hδ
        simp only [Client.tidy, Bool.and_eq_true, Bool.or_eq_true, decide_eq_true_eq] at htidy
        exact Bool.noConfusion (hok₃ htidy.1.2 (hready (hok₁ hδ).2))
      exact .inl ⟨c₃, rfl, hδ, hfail hδ hacts⟩
    | true =>
      cases heq
      refine .inr ⟨_, rfl, ?_⟩
      rw [clientUpdateWanted_eq]
      exact hacts.tail (.client (.slots _ _ c₃.enabled fun _ => rfl))

end Callback

/-! ## The timer -/

theorem finalizeAll_acts {δ : Demands} (a : Nat → FinalAnswers) (n : U64) (clients : List Client) :
    ∀ {w : World} {before : List Client}, State.Sound ⟨w, before ++ clients, n⟩ →
      w.asyncInProgress = false →
      Acts δ ⟨w, before ++ clients, n⟩ ⟨(finalizeAll w a before clients).1,
        (finalizeAll w a before clients).2, n⟩ := by
  induction clients with
  | nil =>
    intro w before _ _
    rw [append_nil]
    exact .refl
  | cons c rest ih =>
    intro w before hs hidle
    have hf := finalize_finalised hs.world (snapshot w (before ++ c :: rest)) c (a c.id)
    unfold finalizeAll
    simp only []
    generalize clientFinalizePendingDesignWrite w (snapshot w (before ++ c :: rest)) c (a c.id) =
      result at hf
    obtain ⟨w₁, c₁⟩ := result
    have hact : Act δ ⟨w, before ++ c :: rest, n⟩ ⟨w₁, before ++ c₁ :: rest, n⟩ :=
      .client (r := (w₁, c₁)) (.finalise hidle hf)
    have hidle₁ : w₁.asyncInProgress = false := hf.async.trans hidle
    have hlist : before ++ c₁ :: rest = (before ++ [c₁]) ++ rest := by simp
    rw [hlist] at hact
    exact .head hact (ih (hact.sound hs) hidle₁)

/-- The requests that waited are dispatched in turn; one that starts an async operation is the
last. -/
theorem drainDeferredRequests_acts {δ : Demands} (k : Nat → Answers) (n : U64)
    (clients : List Client)
    (hshy : δ.shy → ∀ c ∈ clients, ∀ m, c.held = some m → (k c.id).handsOut m = false) :
    ∀ {w : World} {before : List Client},
      State.Sound ⟨w, before ++ clients, n⟩ → w.asyncInProgress = false →
      Acts δ ⟨w, before ++ clients, n⟩ ⟨(drainDeferredRequests w k before clients).1,
        (drainDeferredRequests w k before clients).2, n⟩ := by
  induction clients with
  | nil =>
    intro w before _ _
    rw [append_nil]
    exact .refl
  | cons c rest ih =>
    intro w before hs hidle
    have hlist : ∀ x : Client, before ++ x :: rest = (before ++ [x]) ++ rest := by simp
    have hrest := fun hδ x hx => hshy hδ x (mem_cons_of_mem c hx)
    have hskip : Acts δ ⟨w, before ++ c :: rest, n⟩ ⟨(drainDeferredRequests w k (before ++ [c])
        rest).1, (drainDeferredRequests w k (before ++ [c]) rest).2, n⟩ := by
      rw [hlist c] at hs ⊢
      exact ih hrest hs hidle
    unfold drainDeferredRequests
    split
    · rename_i m hheld hresponse
      split
      · exact hskip
      · have hd := clientHandleRequest_dispatched hs.world hs.here hheld (.inl hidle)
          (snapshot w (before ++ c :: rest)) (k c.id)
        have hkeeps : δ.shy → KeepsQpairs w
            (clientHandleRequest w (snapshot w (before ++ c :: rest)) c m (k c.id)).1 := fun hδ =>
          clientHandleRequest_keepsQpairs hs.world hs.here hheld (.inl hidle)
            (hshy hδ c mem_cons_self m hheld)
        generalize clientHandleRequest w (snapshot w (before ++ c :: rest)) c m (k c.id) =
          result at hd hkeeps
        obtain ⟨w₁, c₁⟩ := result
        have hacts : Acts δ ⟨w, before ++ c :: rest, n⟩
            ⟨w₁, before ++ clientUpdateWanted c₁ :: rest, n⟩ := by
          rw [clientUpdateWanted_eq]
          exact .tail (.single (.client (r := (w₁, c₁)) (.dispatch m hheld hresponse (.inl hidle)
            hkeeps hd))) (.client (.slots _ _ c₁.enabled fun _ => rfl))
        simp only []
        split
        · exact hacts
        · rename_i hidle₁
          have hs₁ := hacts.sound hs
          rw [hlist (clientUpdateWanted c₁)] at hacts hs₁
          exact hacts.trans (ih hrest hs₁ (by simpa using hidle₁))
    · exact hskip

/-! ## Every event -/

theorem ioStep_acts {δ : Demands} {s : State} (hs : s.Sound) {id : Nat} {r : Revents}
    {a : IoAnswers} (htidy : δ.tidy → tidy s (.io id r a) = true)
    (hroom : δ.room → a.push = true) (hshy : δ.shy → shy s (.io id r a) = true) :
    Acts δ s (ioStep s id r a) := by
  obtain ⟨w, clients, n⟩ := s
  unfold ioStep
  cases hfind : clients.find? (·.id = id) with
  | none => exact .refl
  | some c =>
    simp only []
    split
    · exact .refl
    have hid : c.id = id := by simpa using List.find?_some hfind
    subst hid
    obtain ⟨before, rest, rfl, hfilter, hmap⟩ := split_key hs.ids (mem_of_find?_eq_some hfind)
    cases hhangup : r.hangup with
    | true =>
      have hio : onClientIo w (before ++ c :: rest) c r a =
          (cleanupClient w c a.push a.answers.driver, .dropped) := by
        rw [onClientIo, if_pos hhangup]
      simp only [hio, hfilter]
      exact .single (.drop a.push hroom
        (cleanupClientBuffers_cleaned hs.world hs.here.conn a.push a.answers.driver))
    | false =>
      have htidy' : δ.tidy → c.tidy w r a = true := fun hδ => by
        have h := htidy hδ
        simpa only [tidy, hhangup, hfind, Bool.false_or, Option.all_some] using h
      rcases hio : onClientIo w (before ++ c :: rest) c r a with ⟨w', out⟩
      have hshy' : δ.shy → ∀ m, c.held = some m ∨ a.recv.message? = some m →
          a.answers.handsOut m = false := fun hδ m hm => by
        have h := hshy hδ
        simp only [shy, hfind, Option.all_some, Bool.and_eq_true] at h
        rcases hm with hm | hm
        · simpa [hm] using h.1
        · simpa [hm] using h.2
      rcases onClientIo_acts before rest n hs hhangup htidy' hshy' hio with
        ⟨c', rfl, -, hacts⟩ | ⟨c', rfl, hacts⟩
      · simp only [hmap]
        exact hacts
      · simp only [hmap]
        exact hacts

theorem step_acts {δ : Demands} {s : State} (hs : s.Sound) {e : Event}
    (htidy : δ.tidy → tidy s e = true) (hroom : δ.room → e.roomy = true)
    (hshy : δ.shy → shy s e = true) : Acts δ s (step s e) := by
  cases e with
  | accept fd => exact .single (.accept s fd)
  | io id r a => exact ioStep_acts hs htidy hroom hshy
  | timer a =>
    obtain ⟨w, clients, n⟩ := s
    show Acts δ _ (onEventDeferredWork ⟨w, clients, n⟩ a)
    unfold onEventDeferredWork
    split
    · rename_i hrunning
      split
      · exact .refl
      · rename_i hjob
        have hd := drain_drained (w := { w with asyncInProgress := false })
          ⟨hs.world.ids, hs.world.devices, hs.world.worker, hs.world.table⟩ a.driver
        have hcollect := @Act.collect δ _ _ clients n hrunning (by simpa using hjob) hd
        refine .head hcollect (@drainDeferredRequests_acts δ a.answers n _ (fun hδ c' hc' m hm => ?_)
          _ [] (hcollect.sound hs) ?_)
        · obtain ⟨c, hc, rfl⟩ := mem_map.mp hc'
          have h := all_eq_true.mp (hshy hδ) c hc
          rw [(delivered_alike _ c).id]
          have hheld : c.held = some m := by
            split at hm
            · rw [clientDeliverAsyncDeviceOpResult, clientUpdateWanted_eq] at hm
              cases hm
            · exact hm
          simpa [hheld] using h
        · exact hd.change.async
    · rename_i hidle
      exact @finalizeAll_acts δ a.final n clients w [] hs (by simpa using hidle)
  | transferDone device error =>
    exact .single (.transfer device error (transferDone_transferred hs.world device error))
  | workerRemove => exact .single (.work (workerRemove_worked hs.world _))
  | workerDiscover found => exact .single (.work (workerDiscover_worked hs.world _ found))
  | workerFinish err => exact .single (.work (workerFinish_worked s.world _ err))

/-! ## Every run -/

theorem boot_change (found : Discovery) :
    Change .empty ⟨[], {}, false, [], [], 0, [], {}⟩ (boot found).world := by
  refine devicesDiscoverAndOpen_change found ⟨nodup_nil, nofun, (fun j hj => nomatch hj),
    ⟨fun m d hm => ?_, fun m _ d _ hm => ?_⟩⟩
  · rw [Handles.get?_nil] at hm
    cases hm
  · rw [Handles.get?_nil] at hm
    cases hm

theorem boot_sound (found : Discovery) : (boot found).Sound := by
  have hchange := boot_change found
  refine ⟨hchange.sound, nodup_nil, fun c hc => absurd hc not_mem_nil, ?_, ?_,
    fun _ => hchange.deferred⟩
  · intro hjob
    rw [hchange.worker] at hjob
    cases hjob
  · intro hrunning
    rw [hchange.async] at hrunning
    cases hrunning

/-- What every act keeps, a chain of acts keeps. -/
theorem Acts.invariant {δ : Demands} {I : State → Prop} {s s' : State} (hacts : Acts δ s s')
    (hact : ∀ {s s' : State}, s.Sound → Act δ s s' → I s → I s') (hi : s.Sound ∧ I s) :
    s'.Sound ∧ I s' := by
  induction hacts with
  | refl => exact hi
  | tail _ hact' ih => exact ⟨hact'.sound ih.1, hact ih.1 hact' ih.2⟩

/-- The rule for invariants: what every act keeps holds after every run, under the demands that
its events meet. -/
theorem run_invariant {δ : Demands} {I : State → Prop}
    (hact : ∀ {s s' : State}, s.Sound → Act δ s s' → I s → I s') {found : Discovery}
    {events : List Event} (hboot : I (boot found))
    (htidy : δ.tidy → Along step (fun s e => tidy s e = true) (boot found) events)
    (hroom : δ.room → ∀ e ∈ events, e.roomy = true)
    (hshy : δ.shy → Along step (fun s e => shy s e = true) (boot found) events) :
    (run found events).Sound ∧ I (run found events) := by
  unfold run
  have hinit : (boot found).Sound ∧ I (boot found) := ⟨boot_sound found, hboot⟩
  generalize boot found = s at htidy hshy hinit
  induction events generalizing s with
  | nil => exact hinit
  | cons e events ih =>
    exact ih (fun hδ x hx => hroom hδ x (mem_cons_of_mem _ hx)) (step s e)
      (fun hδ => (htidy hδ).2) (fun hδ => (hshy hδ).2)
      ((step_acts hinit.1 (fun hδ => (htidy hδ).1) (fun hδ => hroom hδ e mem_cons_self)
        fun hδ => (hshy hδ).1).invariant hact hinit)

def anyRun : Demands := ⟨False, False, False⟩

theorem run_sound (found : Discovery) (events : List Event) : (run found events).Sound :=
  (run_invariant (δ := anyRun) (I := fun _ => True) (fun _ _ _ => trivial) trivial nofun nofun
    nofun).1

/-! ## The history -/

theorem Dispatched.log {w : World} {snap : Snapshot} {c : Client} {m : Message} {r : World × Client}
    (hd : Dispatched w snap c m r) : r.1.log = .dispatched snap c.id c.inFd m :: w.log ∨
      ∃ p, r.2.pendingDesignWrite = some p ∧
        r.1.log = .submitted c.id p.object p.device :: .dispatched snap c.id c.inFd m :: w.log := by
  cases hd with
  | taken _ => exact .inl rfl
  | answered w' _ _ _ hchange _ => exact .inl hchange.log
  | writing w' d _ fd _ hchange _ _ _ _ _ _ =>
    rw [submitted_eq]
    exact .inr ⟨_, rfl, congrArg (List.cons _) hchange.log⟩
  | waiting d partition inputFd worker _ _ _ _ _ _ =>
    rw [employed_eq]
    exact .inl rfl
  | started d partition inputFd worker _ _ _ _ _ =>
    rw [employed_eq]
    exact .inl rfl

theorem Dispatched.frame {w : World} {snap : Snapshot} {c : Client} {m : Message}
    {r : World × Client} (hd : Dispatched w snap c m r) :
    r.1.deferred = w.deferred ∧ r.2.id = c.id ∧ r.2.connId = c.connId := by
  cases hd with
  | taken _ => exact ⟨rfl, rfl, rfl⟩
  | answered w' _ _ _ hchange _ => exact ⟨hchange.deferred, rfl, rfl⟩
  | writing w' d _ fd _ hchange _ _ _ _ _ _ =>
    rw [submitted_eq]
    exact ⟨hchange.deferred, rfl, rfl⟩
  | waiting d partition inputFd worker _ _ _ _ _ _ =>
    rw [employed_eq]
    exact ⟨rfl, rfl, rfl⟩
  | started d partition inputFd worker _ _ _ _ _ =>
    rw [employed_eq]
    exact ⟨rfl, rfl, rfl⟩

theorem Dispatched.noted {w : World} {snap : Snapshot} {c : Client} {m : Message}
    {r : World × Client} (hd : Dispatched w snap c m r) : w.log ⊆ r.1.log ∧
      .dispatched snap c.id c.inFd m ∈ r.1.log := by
  rcases hd.log with heq | ⟨p, -, heq⟩ <;> rw [heq] <;> constructor <;>
    simp [subset_def] <;> tauto

theorem Act.log {δ : Demands} {s s' : State} (ha : Act δ s s') : s.world.log ⊆ s'.world.log := by
  have hcons : ∀ {x : Note} {l l' : List Note}, l' = x :: l → l ⊆ l' := by
    rintro x l l' rfl
    exact subset_cons_self x l
  have hsame : ∀ {l l' : List Note}, l' = l → l ⊆ l' := by
    rintro l l' rfl
    exact List.Subset.refl _
  cases ha with
  | client ha =>
    cases ha with
    | receive recv ok _ _ hr => exact hsame (by rw [hr.rest])
    | dispatch m _ _ _ _ hd => exact hd.noted.1
    | send hs =>
      obtain ⟨⟨log, rfl, hlog⟩, -⟩ := hs
      rcases hlog with ⟨rfl, -⟩ | ⟨r, m, -, -, rfl⟩
      · exact List.Subset.refl _
      · exact subset_cons_self _ _
    | slots wanted armed enabled _ => exact List.Subset.refl _
    | finalise _ hf =>
      cases hf with
      | idle _ => exact List.Subset.refl _
      | done p w' error ret _ _ _ hchange =>
        exact List.Subset.trans (hcons hchange.log) (subset_cons_self _ _)
  | accept s fd => exact subset_cons_self _ _
  | drop push _ hcleaned =>
    cases hcleaned with
    | deferred ids _ _ _ _ => exact List.Subset.refl _
    | atOnce _ _ hchange _ => exact hsame hchange.log
  | collect _ _ hd => exact hsame hd.change.log
  | transfer device error ht =>
    cases ht with
    | idle => exact List.Subset.refl _
    | done _ _ _ _ _ _ _ _ => exact subset_cons_self _ _
  | work hw =>
    cases hw with
    | idle => exact List.Subset.refl _
    | removed j w' _ hchange => exact hcons hchange.log
    | discovered j w' ret _ hchange => exact hsame hchange.log
    | finished j result _ => exact List.Subset.refl _

/-- The rule for invariants of runs whose history meets a condition: the notes of an act may be
used for that act. -/
theorem run_history {ok : Note → Prop} {J : State → Prop}
    (hact : ∀ {s s' : State}, s.Sound → Act anyRun s s' → (∀ x ∈ s'.world.log, ok x) → J s → J s')
    {found : Discovery} (events : List Event) (hboot : J (boot found))
    (hlog : ∀ x ∈ (run found events).world.log, ok x) : J (run found events) := by
  refine (run_invariant (δ := anyRun) (I := fun s => (∀ x ∈ s.world.log, ok x) → J s)
    (fun hs ha hi hlog => ?_) (fun _ => hboot) nofun nofun nofun).2 hlog
  exact hact hs ha hlog (hi fun x hx => hlog x (ha.log hx))

end Slash.Daemon
