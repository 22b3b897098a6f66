import Slash.Daemon.Dispatch

/-!
# What the callbacks and the threads can do

One relation for each thing that can happen besides receiving and dispatching: a response is sent,
a design write is finalised, a client is cleaned up after, the queue of deferred cleanups is worked
off, a writer's thread publishes its result, the flash worker moves on.
-/

namespace Slash.Daemon

open Lib
open Libvrtd (Ret)
open Vrtd (U64)

/-! ## Scopes that touch devices only -/

def Scope.Devices (σ : Scope) : Prop := ∀ holder, σ.shut holder → holder.device?.isSome

theorem Message.scope_devices (devices : List Device) (connId : U64) (inFd : Option Nat)
    (m : Message) : (m.scope devices connId inFd).Devices := by
  rintro holder (⟨id, -, hid⟩ | ⟨device, buffer, rfl⟩)
  · rw [hid]
    rfl
  · rfl

theorem Change.keeps_of {σ : Scope} {w w' : World} {P : Descriptor → Prop} (h : Change σ w w')
    (hσ : σ.Devices) (hP : ∀ x, P x → x.holder.device? = none) : w.fds.Keeps P w'.fds :=
  h.keeps.mono fun x hx hshut => by
    have hsome := hσ x.holder hshut
    rw [hP x hx] at hsome
    cases hsome

theorem Change.idle {σ : Scope} {w w' : World} (hchange : Change σ w w')
    (h : ∀ d ∈ w.devices, d.writerBusy = false) : ∀ d ∈ w'.devices, d.writerBusy = false := by
  intro d' hd'
  rcases hchange.came d' hd' with ⟨d, hd, -, -, hw⟩ | ⟨-, hnew⟩
  · rw [Device.writerBusy, ← hw]
    exact h d hd
  · cases hw : d'.writer with
    | none => simp [Device.writerBusy, hw]
    | some writer => simp [Device.writerBusy, hw, hnew writer hw]

/-! ## Sending -/

/-- A send notes what it attaches; afterwards the response is there still or it is gone. -/
structure Sends (w : World) (c : Client) (w' : World) (c' : Client) : Prop where
  world : ∃ log, w' = { w with log := log } ∧
    (log = w.log ∧ (∀ r, c.response = some r → r.fd = none) ∨
      ∃ r m, c.response = some r ∧ r.fd = some m ∧
        log = .passed c.id m (w.object m) r.object :: w.log)
  client : ∃ response, (response = c.response ∨ response = none) ∧
    c' = { c with response := response, newResponse := false }

theorem clientHandleOut_sends (w : World) (c : Client) (send : Send) :
    Sends w c (clientHandleOut w { c with newResponse := false } send).1
      (clientHandleOut w { c with newResponse := false } send).2.1 := by
  unfold clientHandleOut
  simp only []
  cases hresponse : c.response with
  | none =>
    refine ⟨⟨w.log, rfl, .inl ⟨rfl, ?_⟩⟩, none, .inr rfl, by simp⟩
    rw [hresponse]
    exact nofun
  | some r =>
    have hkept : ∃ response, (response = c.response ∨ response = none) ∧
        ({ c with newResponse := false, response := some r } : Client) =
          { c with response := response, newResponse := false } := ⟨_, .inl hresponse.symm, rfl⟩
    have hsent : ∃ response, (response = c.response ∨ response = none) ∧
        ({ c with newResponse := false, response := none } : Client) =
          { c with response := response, newResponse := false } := ⟨_, .inr rfl, rfl⟩
    simp only []
    cases hfd : r.fd with
    | none =>
      have hworld : ∃ log, w = { w with log := log } ∧
          (log = w.log ∧ (∀ r, c.response = some r → r.fd = none) ∨
            ∃ r m, c.response = some r ∧ r.fd = some m ∧
              log = .passed c.id m (w.object m) r.object :: w.log) := by
        refine ⟨w.log, rfl, .inl ⟨rfl, fun r' hr' => ?_⟩⟩
        rw [hresponse] at hr'
        cases hr'
        exact hfd
      simp only [Option.any_none, Bool.false_eq_true, if_false]
      cases send with
      | sent => exact ⟨hworld, hsent⟩
      | _ => exact ⟨hworld, hkept⟩
    | some m =>
      have hworld : ∃ log, w.note (.passed c.id m (w.object m) r.object) = { w with log := log } ∧
          (log = w.log ∧ (∀ r, c.response = some r → r.fd = none) ∨
            ∃ r m, c.response = some r ∧ r.fd = some m ∧
              log = .passed c.id m (w.object m) r.object :: w.log) :=
        ⟨_, rfl, .inr ⟨r, m, hresponse, hfd, rfl⟩⟩
      simp only []
      split
      · exact ⟨hworld, hkept⟩
      · cases send with
        | sent => exact ⟨hworld, hsent⟩
        | _ => exact ⟨hworld, hkept⟩

theorem clientUpdateWanted_eq (c : Client) : clientUpdateWanted c = { c with
    wanted := (clientUpdateWanted c).wanted, armed := (clientUpdateWanted c).armed } := by
  unfold clientUpdateWanted
  simp only []
  split <;> rfl

/-! ## Finalising a design write -/

def refreshScope (device : Nat) : Scope where
  gone _ := False
  shut holder := holder = .bar device
  conn _ := False
  hands := False

theorem refreshScope_devices (device : Nat) : (refreshScope device).Devices := by
  rintro holder rfl
  rfl

def Client.finalised (c : Client) (ret : Ret) : Client :=
  clientUpdateWanted { c with
    pendingDesignWrite := none
    held := none
    response := some ⟨(c.held.map (·.seqno)).getD 0, ret, none, none⟩
    newResponse := true }

inductive Finalised (w : World) (snap : Snapshot) (c : Client) : World × Client → Prop where
  | idle : (∀ p, c.pendingDesignWrite = some p → ∀ d writer, w.device? p.device = some d →
      d.writer = some writer → writer.busy = true) → Finalised w snap c (w, c)
  | done (p : PendingWrite) (w' : World) (error : Nat) (ret : Ret) :
      c.pendingDesignWrite = some p →
      (∀ d writer, w.device? p.device = some d → d.writer = some writer →
        writer.busy = false ∧ error = writer.lastError) →
      (error ≠ 0 → ret = .internalError) →
      Change (refreshScope p.device) (w.note (.finalising snap p.device)) w' →
      Finalised w snap c (w'.note (.answered c.id p.object error ret), c.finalised ret)

theorem Finalised.async {w : World} {snap : Snapshot} {c : Client} {r : World × Client}
    (hf : Finalised w snap c r) : r.1.asyncInProgress = w.asyncInProgress := by
  cases hf with
  | idle _ => rfl
  | done _ _ _ _ _ _ _ hchange => exact hchange.async

theorem finalize_finalised {w : World} (hw : w.Sound) (snap : Snapshot) (c : Client)
    (a : FinalAnswers) :
    Finalised w snap c (clientFinalizePendingDesignWrite w snap c a) := by
  unfold clientFinalizePendingDesignWrite
  cases hp : c.pendingDesignWrite with
  | none => exact .idle (by rw [hp]; exact nofun)
  | some p =>
    have hsame := Change.refl (σ := refreshScope p.device) (hw.note (.finalising snap p.device))
    have hfind : ∀ x, (w.note x).device? p.device = w.device? p.device := fun _ => rfl
    simp only [hfind]
    cases hd : w.device? p.device with
    | none =>
      simp only []
      split
      · refine .idle fun p' hp' => ?_
        cases hp.symm.trans hp'
        rw [hd]
        exact nofun
      split
      · rename_i herror
        exact .done p _ _ _ hp (by rw [hd]; exact nofun) (fun _ => rfl) hsame
      · rename_i herror
        exact .done p _ _ _ hp (by rw [hd]; exact nofun) (fun hne => absurd hne herror) hsame
    | some d =>
      have hrefresh := refresh_change (σ := refreshScope p.device)
        (hw.note (.finalising snap p.device)) (World.device?_mem hd).1
        (by rw [(World.device?_mem hd).2]; rfl) a.refresh
      simp only []
      cases hwriter : d.writer with
      | none =>
        refine .done p _ 5 .internalError hp (fun d' writer hd' hw' => ?_) (fun _ => rfl) hsame
        rw [hd] at hd'
        cases hd'
        rw [hwriter] at hw'
        cases hw'
      | some writer =>
        simp only []
        split
        · rename_i hbusy
          refine .idle fun p' hp' d' writer' hd' hw' => ?_
          cases hp.symm.trans hp'
          cases hd.symm.trans hd'
          cases hwriter.symm.trans hw'
          simpa using hbusy
        rename_i hbusy
        have hresult : ∀ d' writer', w.device? p.device = some d' → d'.writer = some writer' →
            writer'.busy = false ∧ writer.lastError = writer'.lastError := by
          intro d' writer' hd' hw'
          rw [hd] at hd'
          cases hd'
          rw [hwriter] at hw'
          cases hw'
          exact ⟨by simpa using hbusy, rfl⟩
        split
        · exact .done p _ _ _ hp hresult (fun _ => rfl) hsame
        · rename_i herror
          exact .done p _ _ _ hp hresult (fun hne => absurd hne herror) hrefresh

/-! ## Disconnects and deferred cleanups -/

def cleanupScope (conns : U64 → Prop) : Scope where
  gone _ := False
  shut holder := ∃ device conn buffer, conns conn ∧ holder = .transfer device conn buffer
  conn _ := False
  hands := False

theorem cleanupScope_devices (conns : U64 → Prop) : (cleanupScope conns).Devices := by
  rintro holder ⟨device, conn, buffer, -, rfl⟩
  rfl

/-- While an async operation runs the connection is put down for later, if there is room; else its
buffers go at once. -/
inductive Cleaned (w : World) (c : Client) (push : Bool) : World → Prop where
  | deferred (ids : List U64) : w.asyncInProgress = true → w.deferred ⊆ ids →
      (∀ conn ∈ ids, conn ∈ w.deferred ∨ conn = c.connId) → (push = true → c.connId ∈ ids) →
      Cleaned w c push { w with deferred := ids }
  | atOnce (w' : World) : w.asyncInProgress = false →
      Change (cleanupScope (· = c.connId)) w w' →
      (∀ d ∈ w'.devices, ∀ b ∈ d.buffers, b.clientId ≠ c.connId) → Cleaned w c push w'

theorem cleanupClientBuffers_cleaned {w : World} (hw : w.Sound) {c : Client} (hc : c.connId ≠ 0)
    (push : Bool) (k : Driver) : Cleaned w c push (cleanupClientBuffers w c push k) := by
  rw [cleanupClientBuffers, if_neg hc]
  split
  · rename_i hrunning
    rw [deferBufferCleanup]
    split
    · rename_i hnot
      refine .deferred w.deferred hrunning (fun _ h => h) (fun _ h => .inl h) fun hpush => ?_
      rcases hnot with hzero | hmem | hfull
      · exact absurd hzero hc
      · exact hmem
      · exact absurd hpush hfull
    · refine .deferred _ hrunning (List.subset_append_left _ _) (fun conn hconn => ?_) fun _ => ?_
      · rw [List.mem_append, List.mem_singleton] at hconn
        exact hconn
      · exact List.mem_append_right _ List.mem_cons_self
  · rename_i hrunning
    obtain ⟨hchange, hleft⟩ := cleanupBuffersForConnId_change
      (σ := cleanupScope (· = c.connId)) hw k fun d id => ⟨d, c.connId, id, rfl, rfl⟩
    exact .atOnce _ (by simpa using hrunning) hchange fun d hd b hb => (hleft d hd b hb).2 hc

/-- What is left after the queue of deferred cleanups was worked off. -/
structure Drained (w w' : World) : Prop where
  change : Change (cleanupScope (· ∈ w.deferred)) w { w' with deferred := w.deferred }
  deferred : w'.deferred = []
  buffers : ∀ d ∈ w'.devices, ∀ b ∈ d.buffers, b.clientId ≠ 0 → b.clientId ∉ w.deferred

theorem drain_foldl {σ : Scope} (k : Driver) (conns : List U64)
    (hσ : ∀ conn ∈ conns, ∀ d id, σ.shut (.transfer d conn id)) : ∀ {w : World}, w.Sound →
    Change σ w (conns.foldl (fun w conn => cleanupBuffersForConnId w conn k) w) ∧
      ∀ d ∈ (conns.foldl (fun w conn => cleanupBuffersForConnId w conn k) w).devices,
        ∀ b ∈ d.buffers, (∃ y ∈ w.devices, y.id = d.id ∧ b ∈ y.buffers) ∧
          (b.clientId ≠ 0 → b.clientId ∉ conns) := by
  induction conns with
  | nil =>
    intro w h
    exact ⟨.refl h, fun d hd b hb => ⟨⟨d, hd, rfl, hb⟩, fun _ => nofun⟩⟩
  | cons conn conns ih =>
    intro w h
    obtain ⟨hfirst, hleft⟩ := cleanupBuffersForConnId_change (σ := σ) h k
      (hσ conn List.mem_cons_self)
    obtain ⟨hrest, hleft'⟩ := ih (fun x hx => hσ x (List.mem_cons_of_mem _ hx)) hfirst.sound
    refine ⟨hfirst.trans hrest, fun d hd b hb => ?_⟩
    obtain ⟨⟨y, hy, hyd, hby⟩, hnot⟩ := hleft' d hd b hb
    obtain ⟨⟨z, hz, hzy, hbz⟩, hne⟩ := hleft y hy b hby
    refine ⟨⟨z, hz, hzy.trans hyd, hbz⟩, fun hzero hmem => ?_⟩
    rcases List.mem_cons.mp hmem with heq | hmem
    · exact hne (heq ▸ hzero) heq
    · exact hnot hzero hmem

theorem drain_drained {w : World} (hw : w.Sound) (k : Driver) :
    Drained w (drainDeferredBufferCleanups w k) := by
  obtain ⟨hchange, hleft⟩ := drain_foldl (σ := cleanupScope (· ∈ w.deferred)) k w.deferred
    (fun conn hconn d id => ⟨d, conn, id, hconn, rfl⟩) hw
  unfold drainDeferredBufferCleanups
  generalize w.deferred.foldl (fun w conn => cleanupBuffersForConnId w conn k) w = w₁ at hchange hleft
  refine ⟨?_, rfl, fun d hd b hb => (hleft d hd b hb).2⟩
  have heq : { w₁ with deferred := w.deferred } = w₁ := by rw [← hchange.deferred]
  show Change _ w { w₁ with deferred := w.deferred }
  rw [heq]
  exact hchange

/-- What the delivery of a result leaves of a client. -/
structure Client.Alike (c c' : Client) : Prop where
  id : c'.id = c.id
  fd : c'.fd = c.fd
  connId : c'.connId = c.connId
  inFd : c'.inFd = c.inFd
  pendingDesignWrite : c'.pendingDesignWrite = c.pendingDesignWrite
  enabled : c'.enabled = c.enabled

theorem delivered_alike (result : Ret) (c : Client) : c.Alike
    (if c.pendingAsyncOp then clientDeliverAsyncDeviceOpResult result c else c) := by
  split
  · rw [clientDeliverAsyncDeviceOpResult, clientUpdateWanted_eq]
    exact ⟨rfl, rfl, rfl, rfl, rfl, rfl⟩
  · exact ⟨rfl, rfl, rfl, rfl, rfl, rfl⟩

/-! ## The threads -/

/-- A writer's thread publishes its result, if it has something to write. -/
inductive Transferred (w : World) (device error : Nat) : World → Prop where
  | idle : Transferred w device error w
  | done (d : Device) (fd object lastError : Nat) : d ∈ w.devices → d.id = device →
      d.writer = some ⟨some fd, true, lastError⟩ →
      w.fds.get? fd = some ⟨object, .writer device⟩ →
      Transferred w device error (((w.note (.transferred object error)).closeFds [fd]).updDevice
        device fun d => { d with writer := some ⟨none, false, error⟩ })

theorem transferDone_transferred {w : World} (hw : w.Sound) (device error : Nat) :
    Transferred w device error (transferDone w device error) := by
  unfold transferDone
  cases hfind : w.device? device with
  | none => exact .idle
  | some d =>
    obtain ⟨hd, hid⟩ := World.device?_mem hfind
    simp only []
    split
    · rename_i fd lastError hwriter
      obtain ⟨object, hget⟩ := ((hw.devices d hd).writers _ hwriter).2 fd rfl
      rw [hid] at hget
      have hobject : (w.object fd).getD 0 = object := by simp [World.object, hget]
      rw [hobject]
      exact .done d fd object lastError hd hid hwriter hget
    · exact .idle

/-- The worker takes its device off the list, or looks for devices again. -/
def workerScope (device : Nat) : Scope where
  gone id := id = device
  shut holder := holder.device? = some device
  conn _ := False
  hands := False

theorem workerScope_devices (device : Nat) : (workerScope device).Devices := by
  intro holder hholder
  rw [show holder.device? = some device from hholder]
  rfl

/-- What the worker's thread does to the shared state: devices go and come, the job moves on. -/
inductive Worked (w : World) (snap : Snapshot) : World → Prop where
  | idle : Worked w snap w
  | removed (j : Job) (w' : World) : w.worker.job = some j →
      Change (workerScope j.device) (w.note (.removing snap j.device)) w' →
      Worked w snap { w' with
        worker := { w'.worker with job := some { j with stage := .removed } } }
  | discovered (j : Job) (w' : World) (ret : Ret) : w.worker.job = some j →
      Change .empty w w' →
      Worked w snap { w' with
        worker := { w'.worker with job := some { j with stage := .discovered ret } } }
  | finished (j : Job) (result : Ret) : w.worker.job = some j →
      Worked w snap { w.closeFds j.inputFd.toList with
        worker := { w.worker with job := none, result := result } }

theorem workerRemove_worked {w : World} (hw : w.Sound) (snap : Snapshot) :
    Worked w snap (workerRemove w snap) := by
  unfold workerRemove
  split
  · rename_i j hjob
    split
    · exact .removed j _ hjob (Change.remove (hw.note _) rfl fun _ hholder => hholder)
    · exact .idle
  · exact .idle

theorem workerDiscover_worked {w : World} (hw : w.Sound) (snap : Snapshot) (found : Discovery) :
    Worked w snap (workerDiscover w found) := by
  unfold workerDiscover
  split
  · rename_i j hjob
    split
    · exact .discovered j _ _ hjob (rediscover_change hw j.bdf j.partition found)
    · exact .idle
  · exact .idle

theorem workerFinish_worked (w : World) (snap : Snapshot) (err : HotplugErrno) :
    Worked w snap (workerFinish w err) := by
  unfold workerFinish
  split
  · rename_i j hjob
    exact .finished j _ hjob
  · exact .idle

end Slash.Daemon
