import Mathlib.Data.List.Pairwise
import Slash.Daemon.Lifetime

/-!
# What belongs to whom

Buffers carry the id of a connection, descriptors are held for a client. A hang-up gives back what
the client had, at once or when the async operation ends; a callback that fails does not. So two
invariants: buffers belong to connections that are there or put down for later, whenever the list
of deferred cleanups could grow; and the descriptors of clients and their event sources are in
order as long as no callback fails.
-/

namespace Slash.Daemon

open Lib List
open Libvrtd (Ret)
open Vrtd

/-! ## Buffers -/

def State.conns (s : State) : List U64 := s.clients.map (·.connId) ++ s.world.deferred

structure Owned (s : State) : Prop where
  deferred : ∀ conn ∈ s.world.deferred, conn ≠ 0
  buffers : ∀ d ∈ s.world.devices, ∀ b ∈ d.buffers, b.clientId ∈ s.conns

section Buffers

variable {w w' : World} {clients clients' : List Client} {n : U64}

theorem Owned.same (h : Owned ⟨w, clients, n⟩)
    (hclients : clients'.map (·.connId) = clients.map (·.connId))
    (hdevices : w'.devices = w.devices) (hdeferred : w'.deferred = w.deferred) :
    Owned ⟨w', clients', n⟩ where
  deferred := by
    show ∀ conn ∈ w'.deferred, conn ≠ 0
    rw [hdeferred]
    exact h.deferred
  buffers := by
    show ∀ d ∈ w'.devices, _
    simp only [State.conns, hclients, hdeferred, hdevices]
    exact h.buffers

/-- Work on the shared state that makes buffers for connections that are there; whatever else is
noted before it or recorded after it. -/
theorem Owned.change {σ : Scope} {w₁ w₂ : World} (h : Owned ⟨w, clients, n⟩)
    (hchange : Change σ w₁ w₂) (hw : (w₁.devices, w₁.deferred) = (w.devices, w.deferred))
    (hw' : (w'.devices, w'.deferred) = (w₂.devices, w₂.deferred))
    (hclients : clients'.map (·.connId) = clients.map (·.connId))
    (hconn : ∀ conn, σ.conn conn → conn ∈ clients.map (·.connId)) :
    Owned ⟨w', clients', n⟩ := by
  simp only [Prod.mk.injEq] at hw hw'
  have hdeferred : w'.deferred = w.deferred := hw'.2.trans (hchange.deferred.trans hw.2)
  refine ⟨?_, fun d hd b hb => ?_⟩
  · show ∀ conn ∈ w'.deferred, conn ≠ 0
    rw [hdeferred]
    exact h.deferred
  · simp only [State.conns, hclients, hdeferred]
    rcases hchange.buffers d (hw'.1 ▸ hd) b hb with ⟨d', hd', -, hb'⟩ | hown
    · exact h.buffers d' (hw.1 ▸ hd') b hb'
    · exact mem_append_left _ (hconn _ hown)

variable {before rest : List Client} {c c' : Client}

theorem map_connId_replace (before rest : List Client) (hconn : c'.connId = c.connId) :
    (before ++ c' :: rest).map (·.connId) = (before ++ c :: rest).map (·.connId) := by
  simp only [map_append, map_cons, hconn]

theorem Owned.dispatch {snap : Snapshot} {m : Message} {r : World × Client}
    (h : Owned ⟨w, before ++ c :: rest, n⟩) (hd : Dispatched w snap c m r) :
    Owned ⟨r.1, before ++ r.2 :: rest, n⟩ := by
  have hclients := map_connId_replace before rest hd.frame.2.2
  have hown : ∀ conn, (m.scope w.devices c.connId c.inFd).conn conn →
      conn ∈ (before ++ c :: rest).map (·.connId) := by
    rintro conn rfl
    exact mem_map_of_mem (mem_append_right _ mem_cons_self)
  cases hd with
  | taken _ => exact h.same rfl rfl rfl
  | answered w₁ ret fd _ hchange _ => exact h.change hchange rfl rfl hclients hown
  | writing w₁ d writer fd _ hchange _ _ _ _ _ _ =>
    have hmoved : Owned ⟨w₁, before ++ c :: rest, n⟩ := h.change hchange rfl rfl rfl hown
    rw [submitted_eq]
    refine ⟨hmoved.deferred, fun x hx b hb => ?_⟩
    obtain ⟨y, hy, rfl⟩ := mem_map.mp hx
    simp only [State.conns, hclients]
    refine hmoved.buffers y hy b ?_
    split at hb <;> exact hb
  | waiting d partition inputFd worker _ _ _ _ _ _ =>
    refine h.same hclients ?_ ?_ <;> rw [employed_eq] <;> rfl
  | started d partition inputFd worker _ _ _ _ _ =>
    refine h.same hclients ?_ ?_
    · rw [closeFds_devices, employed_eq]
      rfl
    · rw [closeFds_deferred, employed_eq]
      rfl

theorem Owned.client {δ : Demands} {snap : Snapshot} {r : World × Client}
    (h : Owned ⟨w, before ++ c :: rest, n⟩) (ha : ClientAct δ w snap c r) :
    Owned ⟨r.1, before ++ r.2 :: rest, n⟩ := by
  cases ha with
  | receive recv ok _ _ hr =>
    exact h.same (map_connId_replace before rest (by rw [hr.client])) (by rw [hr.rest])
      (by rw [hr.rest])
  | dispatch m _ _ _ _ hd => exact h.dispatch hd
  | send hsend =>
    obtain ⟨⟨log, rfl, -⟩, response, -, rfl⟩ := hsend
    exact h.same (map_connId_replace before rest rfl) rfl rfl
  | slots wanted armed enabled _ => exact h.same (map_connId_replace before rest rfl) rfl rfl
  | finalise _ hf =>
    cases hf with
    | idle _ => exact h
    | done p w₁ error ret _ _ _ hchange =>
      refine h.change hchange rfl rfl (map_connId_replace before rest ?_) fun _ hconn => hconn.elim
      rw [Client.finalised, clientUpdateWanted_eq]

theorem Owned.drop {push : Bool} (hs : State.Sound ⟨w, before ++ c :: rest, n⟩)
    (h : Owned ⟨w, before ++ c :: rest, n⟩) (hpush : push = true) (hcleaned : Cleaned w c push w')
    (ns : List Nat) : Owned ⟨w'.closeFds ns, before ++ rest, n⟩ := by
  have hleft : ∀ conn, conn ∈ State.conns ⟨w, before ++ c :: rest, n⟩ →
      conn = c.connId ∨ conn ∈ State.conns ⟨w, before ++ rest, n⟩ := by
    intro conn hconn
    simp only [State.conns, mem_append, map_append, map_cons,
      mem_cons] at hconn ⊢
    tauto
  cases hcleaned with
  | deferred ids _ hsub hids hown =>
    refine ⟨fun conn hconn => ?_, fun d hd b hb => ?_⟩
    · rcases hids conn hconn with hold | rfl
      · exact h.deferred conn hold
      · exact hs.here.conn
    · rcases hleft _ (h.buffers d hd b hb) with heq | hmem
      · exact mem_append_right _ (heq ▸ hown hpush)
      · rcases mem_append.mp hmem with hlisted | hlater
        · exact mem_append_left _ hlisted
        · exact mem_append_right _ (hsub hlater)
  | atOnce _ _ hchange hgone =>
    refine ⟨?_, fun d hd b hb => ?_⟩
    · show ∀ conn ∈ w'.deferred, conn ≠ 0
      rw [hchange.deferred]
      exact h.deferred
    · simp only [State.conns, closeFds_deferred, hchange.deferred]
      rcases hchange.buffers d hd b hb with ⟨d', hd', -, hb'⟩ | hown
      · exact (hleft _ (h.buffers d' hd' b hb')).resolve_left (hgone d hd b hb)
      · exact hown.elim

theorem Owned.collect (h : Owned ⟨w, clients, n⟩)
    (hd : Drained { w with asyncInProgress := false } w')
    (hclients : clients'.map (·.connId) = clients.map (·.connId)) : Owned ⟨w', clients', n⟩ := by
  obtain ⟨hchange, hnil, hgone⟩ := hd
  refine ⟨fun conn hconn => ?_, fun d hd b hb => ?_⟩
  · rw [hnil] at hconn
    cases hconn
  · simp only [State.conns, hnil, append_nil, hclients]
    rcases hchange.buffers d hd b hb with ⟨d', hd', -, hb'⟩ | hown
    · rcases mem_append.mp (h.buffers d' hd' b hb') with hlisted | hlater
      · exact hlisted
      · exact absurd hlater (hgone d hd b hb (h.deferred _ hlater))
    · exact hown.elim

end Buffers

theorem Owned.act {δ : Demands} {s s' : State} (hroom : δ.room) (hs : s.Sound) (ha : Act δ s s')
    (h : Owned s) : Owned s' := by
  cases ha with
  | client ha => exact h.client ha
  | accept s fd =>
    refine ⟨h.deferred, fun d hd b hb => ?_⟩
    simp only [State.conns, acceptClient, map_append, mem_append]
    exact (mem_append.mp (h.buffers d hd b hb)).imp .inl fun hlater => hlater
  | drop push hpush hcleaned => exact h.drop hs (hpush hroom) hcleaned _
  | collect _ _ hd =>
    refine h.collect hd ?_
    rw [map_map]
    exact map_congr_left fun c _ => (delivered_alike _ c).connId
  | transfer device error ht =>
    cases ht with
    | idle => exact h
    | done d fd object lastError _ _ _ _ =>
      refine ⟨h.deferred, fun x hx b hb => ?_⟩
      obtain ⟨y, hy, rfl⟩ := mem_map.mp hx
      refine h.buffers y hy b ?_
      split at hb <;> exact hb
  | work hw =>
    cases hw with
    | idle => exact h
    | removed j w' _ hchange =>
      exact h.change hchange rfl rfl rfl fun _ hconn => hconn.elim
    | discovered j w' ret _ hchange =>
      exact h.change hchange rfl rfl rfl fun _ hconn => hconn.elim
    | finished j result _ => exact h.same rfl rfl rfl

/-! ## Descriptors of clients -/

/-- Descriptors that come and go with clients and their messages. -/
def Holder.OfClient : Holder → Prop
  | .socket _ | .inbound _ | .stray => True
  | _ => False

theorem Holder.OfClient.device? {holder : Holder} (h : holder.OfClient) : holder.device? = none := by
  cases holder with
  | socket | inbound | stray => rfl
  | _ => exact h.elim

/-- Every client can be called back, and every descriptor of a client is where the client keeps
it. -/
structure Attended (s : State) : Prop where
  enabled : ∀ c ∈ s.clients, c.enabled = true
  sockets : ∀ k d i, s.world.fds.get? k = some d → d.holder = .socket i →
    ∃ c ∈ s.clients, c.id = i ∧ c.fd = k
  inbound : ∀ k d i, s.world.fds.get? k = some d → d.holder = .inbound i →
    ∃ c ∈ s.clients, c.id = i ∧ c.inFd = some k
  stray : ∀ k d, s.world.fds.get? k = some d → d.holder ≠ .stray

def Spares (w w' : World) : Prop :=
  ∀ k d, w'.fds.get? k = some d → d.holder.OfClient → w.fds.get? k = some d

theorem Change.spares {σ : Scope} {w w' : World} (h : Change σ w w') : Spares w w' := by
  intro k d hk hclient
  rcases h.opened k d hk with hold | ⟨-, hsome | ⟨hout, -⟩⟩
  · exact hold
  · rw [hclient.device?] at hsome
    cases hsome
  · rw [hout] at hclient
    exact hclient.elim

section Descriptors

variable {w w' : World} {clients : List Client} {before rest : List Client} {c c' : Client} {n : U64}

theorem Attended.world (h : Attended ⟨w, clients, n⟩) (hspares : Spares w w') :
    Attended ⟨w', clients, n⟩ where
  enabled := h.enabled
  sockets := fun k d i hk hd => h.sockets k d i (hspares k d hk (hd ▸ trivial)) hd
  inbound := fun k d i hk hd => h.inbound k d i (hspares k d hk (hd ▸ trivial)) hd
  stray := fun k d hk hd => h.stray k d (hspares k d hk (hd ▸ trivial)) hd

/-- One client acts: a descriptor of a client was there before, and if the client had received it
it keeps it; or the client has just received it. -/
theorem Attended.replace (hs : State.Sound ⟨w, before ++ c :: rest, n⟩)
    (h : Attended ⟨w, before ++ c :: rest, n⟩) (hid : c'.id = c.id) (hfd : c'.fd = c.fd)
    (henabled : c'.enabled = c.enabled)
    (hold : ∀ k d, w'.fds.get? k = some d → d.holder.OfClient →
      w.fds.get? k = some d ∧ (c.inFd = some k → c'.inFd = some k) ∨
      d.holder = .inbound c.id ∧ c'.inFd = some k) :
    Attended ⟨w', before ++ c' :: rest, n⟩ := by
  have hc : c ∈ before ++ c :: rest := mem_append_right _ mem_cons_self
  have hc' : c' ∈ before ++ c' :: rest := mem_append_right _ mem_cons_self
  have hmem : ∀ {x : Client}, x ∈ before ++ c :: rest → x = c ∨ x ∈ before ++ c' :: rest :=
    fun hx => (mem_replaced hx).imp (fun h => h) mem_others
  refine ⟨fun x hx => ?_, fun k d i hk hd => ?_, fun k d i hk hd => ?_, fun k d hk hd => ?_⟩
  · rcases mem_replaced hx with rfl | hx
    · rw [henabled]
      exact h.enabled c hc
    · exact h.enabled x (mem_others hx)
  · rcases hold k d hk (hd ▸ trivial) with ⟨hk, -⟩ | ⟨hin, -⟩
    · obtain ⟨x, hx, hxid, hxfd⟩ := h.sockets k d i hk hd
      rcases hmem hx with rfl | hx
      · exact ⟨c', hc', hid.trans hxid, hfd.trans hxfd⟩
      · exact ⟨x, hx, hxid, hxfd⟩
    · rw [hd] at hin
      cases hin
  · rcases hold k d hk (hd ▸ trivial) with ⟨hk, hkeep⟩ | ⟨hin, hkept⟩
    · obtain ⟨x, hx, hxid, hxin⟩ := h.inbound k d i hk hd
      rcases hmem hx with rfl | hx
      · exact ⟨c', hc', hid.trans hxid, hkeep hxin⟩
      · exact ⟨x, hx, hxid, hxin⟩
    · rw [hd] at hin
      cases hin
      exact ⟨c', hc', hid, hkept⟩
  · rcases hold k d hk (hd ▸ trivial) with ⟨hk, -⟩ | ⟨hin, -⟩
    · exact h.stray k d hk hd
    · rw [hd] at hin
      cases hin

theorem left_of_ne {inputFd inFd : Option Nat} {k : Nat} (hinput : inputFd = none ∨ inputFd = inFd)
    (hne : inputFd ≠ some k) (hin : inFd = some k) :
    (if inputFd.isSome then none else inFd) = some k := by
  rcases hinput with rfl | rfl
  · exact hin
  · exact absurd hin hne

theorem Attended.dispatch {snap : Snapshot} {m : Message} {r : World × Client}
    (hs : State.Sound ⟨w, before ++ c :: rest, n⟩) (h : Attended ⟨w, before ++ c :: rest, n⟩)
    (hd : Dispatched w snap c m r) : Attended ⟨r.1, before ++ r.2 :: rest, n⟩ := by
  have hc := hs.here
  cases hd with
  | taken _ => exact h.replace hs rfl rfl rfl fun k d hk _ => .inl ⟨hk, fun hin => hin⟩
  | answered w₁ ret fd _ hchange _ =>
    refine h.replace hs rfl rfl rfl fun k d hk hclient => .inl ?_
    obtain ⟨hk, hnot⟩ := Handles.get?_of_eraseAll hk
    exact ⟨hchange.spares k d hk hclient, fun hin => absurd (Option.mem_toList.mpr hin) hnot⟩
  | writing w₁ d writer fd _ hchange _ _ _ _ hfd _ =>
    refine h.replace hs rfl rfl rfl fun k x hk hclient => .inl ?_
    obtain ⟨object, hget⟩ := ((hc.note (.dispatched snap c.id c.inFd m)).change
      (Message.scope_devices _ _ _ _) hchange).inbound fd hfd
    rw [submitted_get? _ hget] at hk
    split at hk
    · cases hk
      exact hclient.elim
    · rename_i hne
      refine ⟨hchange.spares k x hk hclient, fun hin => absurd ?_ hne⟩
      exact Option.some_inj.mp (hin.symm.trans hfd)
  | waiting d partition inputFd worker _ _ _ _ hinput _ =>
    refine h.replace hs rfl rfl rfl fun k x hk hclient => .inl ?_
    rcases employed_opened ((hc.note _).input hinput) worker hk with ⟨hk, hne⟩ | ⟨-, hworker⟩
    · exact ⟨hk, left_of_ne hinput hne⟩
    · rw [hworker] at hclient
      exact hclient.elim
  | started d partition inputFd worker _ _ _ hinput _ =>
    refine h.replace hs rfl rfl rfl fun k x hk hclient => .inl ?_
    obtain ⟨hk, hnot⟩ := Handles.get?_of_eraseAll hk
    rcases employed_opened ((hc.note _).input hinput) worker hk with ⟨hk, hne⟩ | ⟨-, hworker⟩
    · exact ⟨hk, fun hin => absurd (Option.mem_toList.mpr (left_of_ne hinput hne hin)) hnot⟩
    · rw [hworker] at hclient
      exact hclient.elim

theorem Attended.client {δ : Demands} {snap : Snapshot} {r : World × Client} (htidy : δ.tidy)
    (hs : State.Sound ⟨w, before ++ c :: rest, n⟩) (h : Attended ⟨w, before ++ c :: rest, n⟩)
    (ha : ClientAct δ w snap c r) : Attended ⟨r.1, before ++ r.2 :: rest, n⟩ := by
  cases ha with
  | receive recv ok _ hacc hr =>
    refine h.replace hs (by rw [hr.client]) (by rw [hr.client]) (by rw [hr.client])
      fun k d hk _ => ?_
    rcases hr.opened k d hk with ⟨hold, hne⟩ | hstray | ⟨hin, hkept⟩
    · exact .inl ⟨hold, fun hin => absurd hin hne⟩
    · exact absurd hstray (h.stray k d ((hr.accepted (hacc htidy)).2 k d hk hstray))
    · exact .inr ⟨hin, hkept⟩
  | dispatch m _ _ _ _ hd => exact h.dispatch hs hd
  | send hsend =>
    obtain ⟨⟨log, rfl, -⟩, response, -, rfl⟩ := hsend
    exact h.replace hs rfl rfl rfl fun k d hk _ => .inl ⟨hk, fun hin => hin⟩
  | slots wanted armed enabled hkept =>
    exact h.replace hs rfl rfl (hkept htidy) fun k d hk _ => .inl ⟨hk, fun hin => hin⟩
  | finalise _ hf =>
    cases hf with
    | idle _ => exact h
    | done p w₁ error ret _ _ _ hchange =>
      rw [Client.finalised, clientUpdateWanted_eq]
      exact h.replace hs rfl rfl rfl fun k d hk hclient =>
        .inl ⟨hchange.spares k d hk hclient, fun hin => hin⟩

theorem Attended.drop {push : Bool} (h : Attended ⟨w, before ++ c :: rest, n⟩)
    (hcleaned : Cleaned w c push w') :
    Attended ⟨w'.closeFds (c.inFd.toList ++ [c.fd]), before ++ rest, n⟩ := by
  have hspares : Spares w w' := by
    cases hcleaned with
    | deferred ids _ _ _ _ => exact fun _ _ hk _ => hk
    | atOnce _ _ hchange _ => exact hchange.spares
  have hmoved := h.world hspares
  -- what the client had is among the descriptors closed
  refine ⟨fun x hx => h.enabled x (mem_others hx), fun k d i hk hd => ?_, fun k d i hk hd => ?_,
    fun k d hk => hmoved.stray k d (Handles.get?_of_eraseAll hk).1⟩
  · obtain ⟨hk, hnot⟩ := Handles.get?_of_eraseAll hk
    obtain ⟨x, hx, hid, hfd⟩ := hmoved.sockets k d i hk hd
    rcases mem_replaced hx with rfl | hx
    · exact absurd (mem_append_right _ (hfd ▸ mem_cons_self)) hnot
    · exact ⟨x, hx, hid, hfd⟩
  · obtain ⟨hk, hnot⟩ := Handles.get?_of_eraseAll hk
    obtain ⟨x, hx, hid, hin⟩ := hmoved.inbound k d i hk hd
    rcases mem_replaced hx with rfl | hx
    · exact absurd (mem_append_left _ (Option.mem_toList.mpr hin)) hnot
    · exact ⟨x, hx, hid, hin⟩

end Descriptors

theorem Attended.accept {s : State} (h : Attended s) (fd : Nat) : Attended (acceptClient s fd) := by
  have ho := openFds_opens { s.world with next := s.world.next + 1 } (.socket s.world.next) [some fd]
  have hopened : ∀ k d, (acceptClient s fd).world.fds.get? k = some d →
      s.world.fds.get? k = some d ∨ d.holder = .socket s.world.next ∧
        k = unused s.world.fds.numbers fd := by
    intro k d hk
    rcases ho.opened k d hk with hold | ⟨-, hholder, hmem⟩
    · exact .inl hold
    · exact .inr ⟨hholder, Option.some_inj.mp (mem_singleton.mp hmem)⟩
  refine ⟨fun c hc => ?_, fun k d i hk hd => ?_, fun k d i hk hd => ?_, fun k d hk hd => ?_⟩
  · rcases mem_append.mp hc with hc | hc
    · exact h.enabled c hc
    · rw [mem_singleton.mp hc]
  · rcases hopened k d hk with hold | ⟨hholder, hnew⟩
    · obtain ⟨c, hc, hid⟩ := h.sockets k d i hold hd
      exact ⟨c, mem_append_left _ hc, hid⟩
    · rw [hd] at hholder
      exact ⟨_, mem_append_right _ mem_cons_self, (Holder.socket.inj hholder).symm,
        hnew.symm⟩
  · rcases hopened k d hk with hold | ⟨hholder, -⟩
    · obtain ⟨c, hc, hin⟩ := h.inbound k d i hold hd
      exact ⟨c, mem_append_left _ hc, hin⟩
    · rw [hd] at hholder
      cases hholder
  · rcases hopened k d hk with hold | ⟨hholder, -⟩
    · exact h.stray k d hold hd
    · rw [hd] at hholder
      cases hholder

theorem Attended.act {δ : Demands} {s s' : State} (htidy : δ.tidy) (hs : s.Sound) (ha : Act δ s s')
    (h : Attended s) : Attended s' := by
  cases ha with
  | client ha => exact h.client htidy hs ha
  | accept s fd => exact h.accept fd
  | drop push _ hcleaned => exact h.drop hcleaned
  | collect _ _ hd =>
    have hmoved := h.world hd.change.spares
    refine ⟨fun x hx => ?_, fun k d i hk hd => ?_, fun k d i hk hd => ?_, hmoved.stray⟩
    · obtain ⟨c, hc, rfl⟩ := mem_map.mp hx
      rw [(delivered_alike _ c).enabled]
      exact h.enabled c hc
    · obtain ⟨c, hc, hid, hfd⟩ := hmoved.sockets k d i hk hd
      exact ⟨_, mem_map_of_mem hc, (delivered_alike _ c).id.trans hid,
        (delivered_alike _ c).fd.trans hfd⟩
    · obtain ⟨c, hc, hid, hin⟩ := hmoved.inbound k d i hk hd
      exact ⟨_, mem_map_of_mem hc, (delivered_alike _ c).id.trans hid,
        (delivered_alike _ c).inFd.trans hin⟩
  | transfer device error ht =>
    cases ht with
    | idle => exact h
    | done d fd object lastError _ _ _ _ =>
      exact h.world fun k x hk _ => (Handles.get?_of_eraseAll hk).1
  | work hw =>
    cases hw with
    | idle => exact h
    | removed j w' _ hchange => exact h.world hchange.spares
    | discovered j w' ret _ hchange => exact h.world hchange.spares
    | finished j result _ => exact h.world fun k x hk _ => (Handles.get?_of_eraseAll hk).1

/-! ## The records of a device -/

/-- The bytes of a subregion lie in those of an allocated buffer. -/
def Buffer.Covers (b : Buffer) (cls : MemoryClass) (g : Nat) : Prop :=
  b.allocationValid = true ∧ b.allocType.memoryClass = some cls ∧
    b.addr.toNat ≤ cls.startAddress + g * subregionSize ∧
    cls.startAddress + (g + 1) * subregionSize ≤ b.addr.toNat + b.size.toNat

theorem Buffer.block?_some {b : Buffer} {blk : Block} (h : b.block? = some blk) :
    b.allocationValid = true ∧ b.allocType.memoryClass = some blk.cls ∧ blk.owner = b.clientId := by
  unfold Buffer.block? at h
  split at h
  · obtain ⟨cls, hcls, rfl⟩ := Option.map_eq_some_iff.mp h
    exact ⟨by assumption, hcls, rfl⟩
  · cases h

/-- Whole subregions: the bytes and the block say the same. -/
theorem Buffer.Placed.covers {b : Buffer} (h : b.Placed) {cls : MemoryClass} {g : Nat} :
    b.Covers cls g ↔ ∃ blk, b.block? = some blk ∧ blk.Covers cls g := by
  have hbytes : ∀ {blk : Block}, b.addr.toNat = blk.addr →
      b.size.toNat = blk.count * subregionSize → blk.cls = cls →
      (b.addr.toNat ≤ cls.startAddress + g * subregionSize ∧
        cls.startAddress + (g + 1) * subregionSize ≤ b.addr.toNat + b.size.toNat ↔
      blk.first ≤ g ∧ g < blk.first + blk.count) := by
    rintro blk haddr hsize rfl
    rw [haddr, hsize, Block.addr]
    simp only [subregionSize]
    omega
  constructor
  · rintro ⟨hvalid, hcls, hlo, hhi⟩
    obtain ⟨blk, hblk, haddr, hsize⟩ := h hvalid
    have hcls' : blk.cls = cls :=
      Option.some_inj.mp ((Buffer.block?_some hblk).2.1.symm.trans hcls)
    exact ⟨blk, hblk, hcls', (hbytes haddr hsize hcls').mp ⟨hlo, hhi⟩⟩
  · rintro ⟨blk, hblk, hcls, hin⟩
    obtain ⟨hvalid, hclass, -⟩ := Buffer.block?_some hblk
    obtain ⟨blk', hblk', haddr, hsize⟩ := h hvalid
    cases hblk.symm.trans hblk'
    exact ⟨hvalid, hcls ▸ hclass, (hbytes haddr hsize hcls).mpr hin⟩

section Stamps

variable {t : Handles Descriptor} {next : Nat} {d : Device} (h : d.Sound t next)
include h

theorem Device.Sound.stamped {b : Buffer} (hb : b ∈ d.buffers) {cls : MemoryClass} {r s : Nat}
    (hs : s < subregionsPerRegion) (hcovers : b.Covers cls (subregion r s)) :
    d.memoryMap cls r s = b.clientId := by
  obtain ⟨blk, hblk, hin⟩ := (h.placed b hb).covers.mp hcovers
  rw [← (Buffer.block?_some hblk).2.2]
  exact h.memory.stamped blk (mem_filterMap.mpr ⟨b, hb, hblk⟩) cls r s hs hin

theorem Device.Sound.covered {cls : MemoryClass} {r s : Nat} (hs : s < subregionsPerRegion)
    (hstamp : d.memoryMap cls r s ≠ 0) :
    ∃ b ∈ d.buffers, b.Covers cls (subregion r s) ∧ b.clientId = d.memoryMap cls r s := by
  by_contra hnone
  refine hstamp (h.memory.vacant cls r s hs fun blk hblk hin => hnone ?_)
  obtain ⟨b, hb, hblk'⟩ := mem_filterMap.mp hblk
  have hcovers : b.Covers cls (subregion r s) := (h.placed b hb).covers.mpr ⟨blk, hblk', hin⟩
  exact ⟨b, hb, hcovers, (h.stamped hb hs hcovers).symm⟩

theorem Device.Sound.covered_once {b b' : Buffer} (hb : b ∈ d.buffers) (hb' : b' ∈ d.buffers)
    {cls : MemoryClass} {g : Nat} (hcovers : b.Covers cls g) (hcovers' : b'.Covers cls g) :
    b = b' := by
  obtain ⟨blk, hblk, hin⟩ := (h.placed b hb).covers.mp hcovers
  obtain ⟨blk', hblk', hin'⟩ := (h.placed b' hb').covers.mp hcovers'
  have hapart := pairwise_filterMap.mp h.memory.disjoint
  have : Std.Symm fun b b' : Buffer => ∀ blk, b.block? = some blk → ∀ blk', b'.block? = some blk' →
      blk.Disjoint blk' := ⟨fun x y hxy u hu v hv c k hcu hcv => hxy v hv u hu c k hcv hcu⟩
  by_contra hne
  exact hapart.forall hb hb' hne blk hblk blk' hblk' cls g hin hin'

/-- The stamp of a subregion says which connection's buffer covers it, and there is one. -/
theorem Device.Sound.stamp_iff {conn : U64} (hconn : conn ≠ 0) {cls : MemoryClass} {r s : Nat}
    (hs : s < subregionsPerRegion) : d.memoryMap cls r s = conn ↔
      ∃! b, b ∈ d.buffers ∧ b.clientId = conn ∧ b.Covers cls (subregion r s) := by
  constructor
  · rintro rfl
    obtain ⟨b, hb, hcovers, hclient⟩ := h.covered hs hconn
    exact ⟨b, ⟨hb, hclient, hcovers⟩, fun b' hb' => h.covered_once hb'.1 hb hb'.2.2 hcovers⟩
  · rintro ⟨b, ⟨hb, hclient, hcovers⟩, -⟩
    rw [h.stamped hb hs hcovers, hclient]

end Stamps

/-! ## Clients that misbehave -/

/-- Nothing is kept for a client that is not there: every listed client can be called back, its
descriptors are the only ones of a client, and buffers, subregions and queue pairs belong to
connections that are there or, while an async operation runs, to be cleaned up after. A queue
pair that the driver would not delete is the driver's. -/
structure NothingLeft (s : State) : Prop where
  attended : Attended s
  deferred : s.world.asyncInProgress = false → s.world.deferred = []
  buffers : ∀ d ∈ s.world.devices, ∀ b ∈ d.buffers, b.clientId ∈ s.conns
  subregions : ∀ d ∈ s.world.devices, ∀ cls r i, i < subregionsPerRegion →
    d.memoryMap cls r i ≠ 0 → d.memoryMap cls r i ∈ s.conns
  qpairs : ∀ d ∈ s.world.devices, ∀ q ∈ d.qpairs, ∀ conn, q.owner = some conn →
    q.refused = true ∨ conn ∈ s.conns

/-- Whatever is recorded for a connection is recorded with a buffer of it. -/
theorem Owned.records {s : State} (hs : s.Sound) (h : Owned s) {d : Device}
    (hd : d ∈ s.world.devices) :
    (∀ cls r i, i < subregionsPerRegion → d.memoryMap cls r i ≠ 0 →
      d.memoryMap cls r i ∈ s.conns) ∧
    ∀ q ∈ d.qpairs, ∀ conn, q.owner = some conn → q.refused = true ∨ conn ∈ s.conns := by
  have hsound := hs.world.devices d hd
  refine ⟨fun cls r i hi hstamp => ?_, fun q hq conn howner => ?_⟩
  · obtain ⟨b, hb, -, hclient⟩ := hsound.covered hi hstamp
    exact hclient ▸ h.buffers d hd b hb
  · rcases hsound.qpairs q hq conn howner with hrefused | ⟨b, hb, hclient, -⟩
    · exact .inl hrefused
    · exact .inr (hclient ▸ h.buffers d hd b hb)

theorem boot_owned (found : Discovery) : Owned (boot found) := by
  refine ⟨fun conn hconn => ?_, fun d hd b hb => ?_⟩
  · rw [(boot_change found).deferred] at hconn
    cases hconn
  · rcases (boot_change found).buffers d hd b hb with ⟨_, hd', -⟩ | hconn
    · cases hd'
    · exact hconn.elim

theorem boot_attended (found : Discovery) : Attended (boot found) := by
  have hnone : ∀ k d, (boot found).world.fds.get? k = some d → ¬ d.holder.OfClient := by
    intro k d hk hclient
    have hold := (boot_change found).spares k d hk hclient
    rw [show (⟨[], {}, false, [], [], 0, [], {}⟩ : World).fds.get? k = none from rfl] at hold
    cases hold
  refine ⟨fun c hc => absurd hc not_mem_nil, fun k d i hk hd => ?_, fun k d i hk hd => ?_,
    fun k d hk hd => ?_⟩
  all_goals exact absurd (hd ▸ trivial) (hnone k d hk)

theorem nothing_left_behind (found : Discovery) (events : List Event)
    (htidy : Along step (fun s e => tidy s e = true) (boot found) events)
    (hroom : ∀ e ∈ events, e.roomy = true) : NothingLeft (run found events) := by
  have hs := run_sound found events
  have hinv := run_invariant (δ := ⟨True, True, False⟩) (I := fun s => Owned s ∧ Attended s)
    (fun hs ha h => ⟨h.1.act trivial hs ha, h.2.act trivial hs ha⟩)
    ⟨boot_owned found, boot_attended found⟩ (fun _ => htidy) (fun _ => hroom) nofun
  obtain ⟨howned, hattended⟩ := hinv.2
  exact {
    attended := hattended
    deferred := hs.deferred
    buffers := howned.buffers
    subregions := fun d hd => (howned.records hs hd).1
    qpairs := fun d hd => (howned.records hs hd).2 }

/-- A client opens a buffer of one subregion. -/
def openBuffer (client : Nat) (k : Answers) : Event :=
  requestOf client ⟨32, 1, .bufferOpen 0 .ddr .bidirectional 1 0 67108864⟩ [] k

def hangUp (client : Nat) (k : Driver) : Event :=
  .io client { hangup := true } { answers := { driver := k } }

theorem hang_up_leaves_nothing :
    Along step (fun s e => tidy s e = true) (boot oneBoard)
      [.accept 3, openBuffer 1 {}, hangUp 1 ({} : Answers).driver] ∧
    NothingLeft (run oneBoard [.accept 3, openBuffer 1 {}, hangUp 1 ({} : Answers).driver]) :=
  ⟨by decide +kernel, nothing_left_behind oneBoard
    [.accept 3, openBuffer 1 {}, hangUp 1 ({} : Answers).driver] (by decide +kernel)
    (by decide +kernel)⟩

/-- A client opens a buffer, sends a message that is cut off, and hangs up. -/
def truncatedThenGone : List Event :=
  [.accept 3, openBuffer 1 {},
    .io 1 { input := true } { recv := .message { truncated := true, length := 8, message :=
      ⟨0, 2, .query .getNumDevices⟩ } },
    hangUp 1 ({} : Answers).driver]

/-- The callback that fails is the last one: the client stays, and its buffer. -/
theorem truncated_message_strands_client :
    ¬ NothingLeft (run oneBoard truncatedThenGone) := by
  have hstays : (run oneBoard truncatedThenGone).clients.any (fun c => !c.enabled) = true := by
    decide +kernel
  intro h
  obtain ⟨c, hc, hdisabled⟩ := any_eq_true.mp hstays
  rw [h.attended.enabled c hc] at hdisabled
  cases hdisabled

end Slash.Daemon
