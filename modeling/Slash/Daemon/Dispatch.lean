import Slash.Daemon.Receiving

/-!
# How a dispatch ends

`client_handle_request` turns an ending of a handler into a state of its client: answered, waiting
for a design write, waiting for the flash worker. `Dispatched` lists what can come out, and the
lemmas on descriptors that change hands show that the shared state stays sound through it.
-/

namespace Slash.Daemon

open Lib
open Libvrtd (Ret)
open Vrtd (U64)

/-! ## Clients -/

/-- A client as far as the shared state knows it. A design write under way has taken the inbound
descriptor; an async operation under way is the worker's. -/
structure Client.Sound (w : World) (c : Client) : Prop where
  id_lt : c.id < w.next
  conn : c.connId ≠ 0
  socket : Held w.fds c.fd (.socket c.id)
  inbound : ∀ n, c.inFd = some n → Held w.fds n (.inbound c.id)
  writing : ∀ p, c.pendingDesignWrite = some p → w.asyncInProgress = false ∧ c.inFd = none ∧
    c.response = none ∧ ∃ m dev shell, c.held = some m ∧ m.request = .designWrite dev shell
  waiting : c.pendingAsyncOp = true → w.asyncInProgress = true ∧ c.id = w.worker.submitter ∧
    c.response = none ∧ ∃ m, c.held = some m ∧ m.request.isCfgmemStatus = false

def Client.answered (c : Client) (m : Message) (ret : Ret) (fd object : Option Nat) : Client :=
  { c with
    inFd := none
    held := none
    response := some ⟨m.seqno, ret, fd, object⟩
    newResponse := true }

/-! ## The endings -/

inductive Dispatched (w : World) (snap : Snapshot) (c : Client) (m : Message) :
    World × Client → Prop where
  | taken : c.pendingDesignWrite.isSome →
      Dispatched w snap c m (w.note (.dispatched snap c.id c.inFd m), c)
  | answered (w' : World) (ret : Ret) (fd : Option Nat) :
      c.pendingDesignWrite = none →
      Change (m.scope w.devices c.connId c.inFd) (w.note (.dispatched snap c.id c.inFd m)) w' →
      (∀ n, fd = some n → ∃ holder, Held w'.fds n holder ∧ holder.Sendable c.connId) →
      Dispatched w snap c m
        (w'.closeFds c.inFd.toList, c.answered m ret fd (fd.bind w'.object))
  | writing (w' : World) (d : Device) (writer : DesignWriter) (fd : Nat) :
      c.pendingDesignWrite = none →
      Change (m.scope w.devices c.connId c.inFd) (w.note (.dispatched snap c.id c.inFd m)) w' →
      Target w w' m d → d.writer = some writer → writer.busy = false → writer.inputFd = none →
      c.inFd = some fd → w.asyncInProgress = false →
      Dispatched w snap c m (w'.submitted c.id d.id fd,
        { c with inFd := none, pendingDesignWrite := some ⟨d.id, (w'.object fd).getD 0⟩ })
  | waiting (d : Device) (partition : Nat) (inputFd : Option Nat) (worker : FlashWorker) :
      c.pendingDesignWrite = none → m.request.isCfgmemStatus = false →
      w.asyncInProgress = false → anyDesignWriteActive w snap.pending = false →
      (inputFd = none ∨ inputFd = c.inFd) →
      flashWorkerSubmit w.worker d partition inputFd c.connId c.id = some worker →
      Dispatched w snap c m
        ((w.note (.dispatched snap c.id c.inFd m)).employed worker inputFd,
        { c with inFd := if inputFd.isSome then none else c.inFd, pendingAsyncOp := true })
  | started (d : Device) (partition : Nat) (inputFd : Option Nat) (worker : FlashWorker) :
      c.pendingDesignWrite = none →
      w.asyncInProgress = false → anyDesignWriteActive w snap.pending = false →
      (inputFd = none ∨ inputFd = c.inFd) →
      flashWorkerSubmit w.worker d partition inputFd c.connId c.id = some worker →
      Dispatched w snap c m
        (((w.note (.dispatched snap c.id c.inFd m)).employed worker inputFd).closeFds
          (if inputFd.isSome then none else c.inFd).toList, c.answered m .ok none none)

/-- A client that waits for the worker has nothing to dispatch. -/
theorem Client.Sound.dispatchable {w : World} {c : Client} {m : Message} (hc : c.Sound w)
    (hheld : c.held = some m)
    (hguard : w.asyncInProgress = false ∨ m.request.isCfgmemStatus = true) :
    c.pendingAsyncOp = false := by
  by_contra hpending
  obtain ⟨hrunning, -, -, m', hm', hstatus⟩ := hc.waiting (by simpa using hpending)
  rw [hheld] at hm'
  cases hm'
  rcases hguard with hidle | hstatus'
  · rw [hidle] at hrunning
    cases hrunning
  · rw [hstatus] at hstatus'
    cases hstatus'

theorem clientHandleRequest_dispatched {w : World} {c : Client} {m : Message} (hw : w.Sound)
    (hc : c.Sound w) (hheld : c.held = some m)
    (hguard : w.asyncInProgress = false ∨ m.request.isCfgmemStatus = true) (snap : Snapshot)
    (k : Answers) : Dispatched w snap c m (clientHandleRequest w snap c m k) := by
  have hasync := hc.dispatchable hheld hguard
  unfold clientHandleRequest
  simp only []
  cases hpending : c.pendingDesignWrite with
  | some p =>
    -- a spurious wake-up: the request runs again without its descriptor
    obtain ⟨-, hin, -, m', dev, shell, hm', hrequest⟩ := hc.writing p hpending
    rw [hheld] at hm'
    cases hm'
    obtain ⟨ret, heq⟩ := handleRequest_taken hrequest (w.note (.dispatched snap c.id c.inFd m))
      snap.pending c.id c.connId k
    rw [← hin] at heq
    rw [heq]
    have hsame : ({ c with pendingDesignWrite := some p, pendingAsyncOp := false } : Client) = c := by
      rw [← hpending, ← hasync]
    have htaken := @Dispatched.taken w snap c m (by simp [hpending])
    simpa [reply, hasync, hsame] using htaken
  | none =>
    have hserved := handleRequest_served (w := w.note (.dispatched snap c.id c.inFd m)) ⟨hw.ids,
      hw.devices, hw.worker, hw.table⟩ snap.pending c.id c.connId c.inFd m k
    generalize handleRequest (w.note (.dispatched snap c.id c.inFd m)) snap.pending c.id c.connId
      c.inFd m k = result at hserved
    cases hserved with
    | replied w' ret hchange =>
      have h := @Dispatched.answered w snap c m w' ret none hpending hchange nofun
      simpa [reply, hasync, hpending, Client.answered] using h
    | passed w' fd holder hchange hfd hsendable =>
      have h := @Dispatched.answered w snap c m w' .ok (some fd) hpending hchange fun n hn => by
        cases hn
        exact ⟨holder, hfd, hsendable⟩
      simpa [hasync, hpending, Client.answered] using h
    | writing w' d writer fd hchange htarget hwriter hbusy hinput hfd =>
      have hidle : w.asyncInProgress = false := by
        rcases hguard with hidle | hstatus
        · exact hidle
        · obtain ⟨-, dev, shell, -, hrequest, -⟩ := htarget
          rw [hrequest] at hstatus
          cases hstatus
      have h := @Dispatched.writing w snap c m w' d writer fd hpending hchange htarget hwriter hbusy
        hinput hfd hidle
      simpa [hasync] using h
    | working d partition inputFd worker waits hm hidle hactive hinput hsubmit =>
      cases waits with
      | true =>
        have h := @Dispatched.waiting w snap c m d partition inputFd worker hpending hm hidle
          hactive hinput hsubmit
        simpa [hasync, hpending] using h
      | false =>
        have h := @Dispatched.started w snap c m d partition inputFd worker hpending hidle hactive
          hinput hsubmit
        simpa [hasync, hpending, Client.answered] using h

/-! ## Descriptors that change hands -/

section Hands

variable {w : World} {n i : Nat} {holder : Holder} {inputFd : Option Nat}

theorem hold_get? (h : Held w.fds n holder) (holder' : Holder) :
    ∃ object, w.fds.get? n = some ⟨object, holder⟩ ∧ ∀ m, (w.hold n holder').fds.get? m =
      if m = n then some ⟨object, holder'⟩ else w.fds.get? m := by
  obtain ⟨object, hget, heq⟩ := hold_of_held h holder'
  refine ⟨object, hget, fun m => ?_⟩
  rw [heq]
  exact Handles.get?_set _ _ _ _

theorem hold_keeps (h : Held w.fds n holder) (holder' : Holder) :
    w.fds.Keeps (fun x => x.holder ≠ holder) (w.hold n holder').fds := by
  obtain ⟨object, hget, heq⟩ := hold_of_held h holder'
  rw [heq]
  refine Handles.keeps_set _ fun d hd hne => ?_
  rw [hget] at hd
  cases hd
  exact hne rfl

theorem hold_held (h : Held w.fds n holder) (holder' : Holder) :
    Held (w.hold n holder').fds n holder' := by
  obtain ⟨object, -, hget⟩ := hold_get? h holder'
  exact ⟨object, by rw [hget, if_pos rfl]⟩

theorem hold_table (h : Held w.fds n holder) (holder' : Holder) (ht : Table w.fds w.next) :
    Table (w.hold n holder').fds w.next := by
  obtain ⟨object, hget, heq⟩ := hold_of_held h holder'
  rw [heq]
  exact ht.hold hget holder'

theorem World.Sound.note (h : w.Sound) (note : Note) : (w.note note).Sound :=
  ⟨h.ids, h.devices, h.worker, h.table⟩

theorem World.Sound.close (h : w.Sound) {ns : List Nat}
    (hns : ∀ n ∈ ns, ∃ holder, Held w.fds n holder ∧ holder.device? = none ∧ holder ≠ .worker) :
    (w.closeFds ns).Sound := by
  have hkeep : w.fds.Keeps (fun x => x.holder = .worker ∨ x.holder.device? ≠ none)
      (w.fds.eraseAll ns) := Handles.keeps_eraseAll fun n hn x hget hx => by
    obtain ⟨holder, hheld, hnone, hne⟩ := hns n hn
    have heq := hheld.holder_eq hget
    rcases hx with hx | hx
    · exact hne (heq.symm.trans hx)
    · exact hx (heq ▸ hnone)
  constructor
  · exact h.ids
  · exact fun d hd => (h.devices d hd).keeps
      (hkeep.mono fun x hx => .inr (by rw [hx]; exact nofun)) (Nat.le_refl _)
  · exact fun j hj m hm => (h.worker j hj m hm).keeps hkeep fun _ => .inl rfl
  · exact h.table.eraseAll ns

/-- What a submission changes: the writer of the device, and who holds the input. -/
theorem submitted_eq (w : World) (client device fd : Nat) : w.submitted client device fd =
    { w with
      devices := w.devices.map fun d =>
        if d.id = device then { d with writer := some ⟨some fd, true, 0⟩ } else d
      fds := (w.submitted client device fd).fds
      log := .submitted client ((w.object fd).getD 0) device :: w.log } := by
  unfold World.submitted
  rw [hold_eq]
  rfl

theorem submitted_get? (client : Nat) {fd object : Nat}
    (hget : w.fds.get? fd = some ⟨object, .inbound i⟩) (device m : Nat) :
    (w.submitted client device fd).fds.get? m =
      if m = fd then some ⟨object, .writer device⟩ else w.fds.get? m := by
  obtain ⟨object', hget', hhold⟩ := hold_get? ⟨object, hget⟩ (.writer device)
  rw [hget] at hget'
  cases hget'
  exact hhold m

theorem World.Sound.submitted (h : w.Sound) {d : Device} (hd : d ∈ w.devices)
    (hheld : Held w.fds n (.inbound i)) (client : Nat) : (w.submitted client d.id n).Sound := by
  obtain ⟨object, hget, heq⟩ := hold_of_held hheld (.writer d.id)
  have hkeep := hold_keeps hheld (.writer d.id)
  have hs := (h.devices d hd).keeps (hkeep.mono fun x hx heq => by
    rw [heq] at hx
    cases hx) (Nat.le_refl _)
  refine World.Sound.note ?_ _
  rw [heq] at hkeep hs ⊢
  refine h.device hd (fun _ => rfl) (Nat.le_refl w.next) ?_ (h.table.hold hget _)
    (hkeep.mono fun x hx heq => ?_)
  · exact {
      id_lt := hs.id_lt
      buffer_lt := hs.buffer_lt
      buffer_ids := hs.buffer_ids
      memory := hs.memory
      placed := hs.placed
      qpairs := hs.qpairs
      bars := hs.bars
      transfers := hs.transfers
      writers := fun writer hw => by
        cases hw
        refine ⟨rfl, fun m hm => ?_⟩
        cases hm
        exact ⟨object, by rw [Handles.get?_set, if_pos rfl]⟩ }
  · rw [heq] at hx
    rcases hx with hx | ⟨id, hid, -⟩
    · cases hx
    · cases hid

theorem flashWorkerSubmit_some {f worker : FlashWorker} {d : Device} {partition : Nat}
    {inputFd : Option Nat} {connId : U64} {client : Nat}
    (h : flashWorkerSubmit f d partition inputFd connId client = some worker) :
    f.job = none ∧ worker.submitter = client ∧
      worker.job = some ⟨d.id, d.bdf, partition, inputFd, .programming⟩ := by
  unfold flashWorkerSubmit at h
  split at h
  · cases h
  · rename_i hjob
    cases h
    exact ⟨by simpa using hjob, rfl, rfl⟩

/-- What the flash worker's job changes: the worker, the flag, and who holds the input. -/
theorem employed_eq (worker : FlashWorker) (inputFd : Option Nat) : w.employed worker inputFd =
    { w with
      worker := worker
      asyncInProgress := true
      fds := (w.employed worker inputFd).fds } := by
  cases inputFd with
  | none => rfl
  | some fd =>
    show World.hold _ _ _ = { w with
      worker := worker, asyncInProgress := true, fds := (World.hold _ _ _).fds }
    rw [hold_eq]

theorem employed_keeps (hin : ∀ m, inputFd = some m → Held w.fds m (.inbound i))
    (worker : FlashWorker) : w.fds.Keeps (fun x => x.holder ≠ .inbound i)
      (w.employed worker inputFd).fds := by
  cases inputFd with
  | none => exact .refl _ _
  | some fd =>
    exact hold_keeps (w := { w with worker := worker, asyncInProgress := true }) (hin fd rfl) .worker

theorem employed_opened (hin : ∀ m, inputFd = some m → Held w.fds m (.inbound i))
    (worker : FlashWorker) {m : Nat} {x : Descriptor}
    (hx : (w.employed worker inputFd).fds.get? m = some x) :
    w.fds.get? m = some x ∧ inputFd ≠ some m ∨ inputFd = some m ∧ x.holder = .worker := by
  cases inputFd with
  | none => exact .inl ⟨hx, nofun⟩
  | some fd =>
    obtain ⟨object, -, hget⟩ := hold_get? (w := { w with worker := worker, asyncInProgress := true })
      (hin fd rfl) .worker
    rw [show (w.employed worker (some fd)).fds.get? m = _ from hget m] at hx
    split at hx
    · rename_i heq
      cases hx
      exact .inr ⟨by rw [heq], rfl⟩
    · rename_i hne
      exact .inl ⟨hx, fun heq => hne (Option.some_inj.mp heq).symm⟩

theorem employed_objects (hin : ∀ m, inputFd = some m → Held w.fds m (.inbound i))
    (worker : FlashWorker) {m : Nat} {x : Descriptor}
    (hx : (w.employed worker inputFd).fds.get? m = some x) :
    ∃ d, w.fds.get? m = some d ∧ d.object = x.object := by
  cases inputFd with
  | none => exact ⟨x, hx, rfl⟩
  | some fd =>
    obtain ⟨object, hfd, hget⟩ := hold_get? (w := { w with worker := worker, asyncInProgress := true })
      (hin fd rfl) .worker
    rw [show (w.employed worker (some fd)).fds.get? m = _ from hget m] at hx
    split at hx
    · rename_i heq
      cases hx
      rw [heq]
      exact ⟨_, hfd, rfl⟩
    · exact ⟨x, hx, rfl⟩

theorem World.Sound.employed (h : w.Sound) {worker : FlashWorker}
    {d : Device} {partition client : Nat} {connId : U64}
    (hsubmit : flashWorkerSubmit w.worker d partition inputFd connId client = some worker)
    (hin : ∀ m, inputFd = some m → Held w.fds m (.inbound i)) :
    (w.employed worker inputFd).Sound := by
  have hkeep := employed_keeps hin worker
  have hjob := (flashWorkerSubmit_some hsubmit).2.2
  have hheld : ∀ m, inputFd = some m → Held (w.employed worker inputFd).fds m .worker := by
    rintro m rfl
    exact hold_held (w := { w with worker := worker, asyncInProgress := true }) (hin m rfl) .worker
  have htable : Table (w.employed worker inputFd).fds w.next := by
    cases inputFd with
    | none => exact h.table
    | some fd =>
      exact hold_table (w := { w with worker := worker, asyncInProgress := true }) (hin fd rfl)
        .worker h.table
  rw [employed_eq] at hkeep hheld htable ⊢
  constructor
  · exact h.ids
  · exact fun x hx => (h.devices x hx).keeps (hkeep.mono fun y hy heq => by
      rw [heq] at hy
      cases hy) (Nat.le_refl _)
  · intro j hj m hm
    rw [show worker.job = some j from hj] at hjob
    cases hjob
    exact hheld m hm
  · exact htable

end Hands

end Slash.Daemon
