import Slash.Daemon.DeviceChanges

/-!
# What serving a request comes to

Fifteen handlers, four endings: a code, a code with a descriptor, a design write that is under way,
a job of the flash worker that is under way. `Served` lists them with what each may have changed
before; everything later goes by these four cases and never opens a handler again.
-/

namespace Slash.Daemon

open Lib
open Libvrtd (Ret)
open Vrtd (U64 AllocationType)

/-- The device that a request takes off the list if its calls succeed: the target of a hot-plug
removal, or of a design write that boots another shell first. -/
def Message.removes (devices : List Device) (inFd : Option Nat) (m : Message) : Option Nat :=
  match m.request with
  | .deviceHotplugOp dev op function _ =>
    devices[dev]?.bind fun d =>
      if (op = .remove ∨ op = .hotplug) ∧ function = 255 ∨ op = .remove ∧ function ≤ 7 then
        some d.id
      else none
  | .designWrite dev shell =>
    devices[dev]?.bind fun d =>
      if d.writer.isSome ∧ ¬ d.writerBusy ∧ inFd.isSome ∧ (shellBootPartition shell).isSome ∧
          shellResetRequired d.currentShell shell ∧
          ¬ shellSwitchBlockedByJtag d.currentShell shell d.jtag then some d.id
      else none
  | _ => none

/-- The one request whose answer is a descriptor that nobody in the daemon keeps. -/
def Request.handsOut : Request → Bool
  | .qdmaQpairGetFd _ _ => true
  | _ => false

def Message.scope (devices : List Device) (connId : U64) (inFd : Option Nat) (m : Message) :
    Scope where
  gone id := m.removes devices inFd = some id
  shut holder := (∃ id, m.removes devices inFd = some id ∧ holder.device? = some id) ∨
    ∃ device buffer, holder = .transfer device connId buffer
  conn c := c = connId
  hands := m.request.handsOut = true

/-- Descriptors that a handler puts into a response: of a BAR, of a buffer of the connection, or
of a queue pair. -/
def Holder.Sendable (connId : U64) : Holder → Prop
  | .bar _ | .handedOut => True
  | .transfer _ conn _ => conn = connId
  | _ => False

/-- A device that a request for `d₀` may write to: that one or, after a reset, one at its address. -/
def Target (w w' : World) (m : Message) (d : Device) : Prop :=
  d ∈ w'.devices ∧ ∃ dev shell d₀, m.request = .designWrite dev shell ∧ w.devices[dev]? = some d₀ ∧
    d.bdf = d₀.bdf

def World.submitted (w : World) (client device fd : Nat) : World :=
  ((w.hold fd (.writer device)).updDevice device fun d =>
      { d with writer := some ⟨some fd, true, 0⟩ }).note
    (.submitted client ((w.object fd).getD 0) device)

def World.employed (w : World) (worker : FlashWorker) (inputFd : Option Nat) : World :=
  inputFd.elim { w with worker := worker, asyncInProgress := true } fun fd =>
    ({ w with worker := worker, asyncInProgress := true } : World).hold fd .worker

inductive Served (w : World) (pending : List Nat) (client : Nat) (connId : U64)
    (inFd : Option Nat) (m : Message) : World × Handled → Prop where
  | replied (w' : World) (ret : Ret) : Change (m.scope w.devices connId inFd) w w' →
      Served w pending client connId inFd m (reply w' ret)
  | passed (w' : World) (fd : Nat) (holder : Holder) :
      Change (m.scope w.devices connId inFd) w w' → Held w'.fds fd holder →
      holder.Sendable connId →
      Served w pending client connId inFd m (w', { ret := .ok, fd := some fd })
  | writing (w' : World) (d : Device) (writer : DesignWriter) (fd : Nat) :
      Change (m.scope w.devices connId inFd) w w' → Target w w' m d → d.writer = some writer →
      writer.busy = false → writer.inputFd = none → inFd = some fd →
      Served w pending client connId inFd m (w'.submitted client d.id fd,
        { ret := .ok, consumed := true, designWrite := some ⟨d.id, (w'.object fd).getD 0⟩ })
  | working (d : Device) (partition : Nat) (inputFd : Option Nat) (worker : FlashWorker)
      (waits : Bool) : m.request.isCfgmemStatus = false → w.asyncInProgress = false →
      anyDesignWriteActive w pending = false → (inputFd = none ∨ inputFd = inFd) →
      flashWorkerSubmit w.worker d partition inputFd connId client = some worker →
      Served w pending client connId inFd m (w.employed worker inputFd,
        { ret := .ok, consumed := inputFd.isSome, asyncOp := waits })

section Handlers

variable {w : World} {pending : List Nat} {client : Nat} {connId : U64} {inFd : Option Nat}
  {m : Message} {k : Answers}

theorem Served.unchanged (h : w.Sound) (ret : Ret) :
    Served w pending client connId inFd m (reply w ret) :=
  .replied w ret (.refl h)

theorem Served.admitted (h : w.Sound) {bodySize : Nat} {rest : World × Handled}
    (hrest : bodySize ≤ m.size → Served w pending client connId inFd m rest) :
    Served w pending client connId inFd m (admitted w m k bodySize rest) := by
  unfold Daemon.admitted
  cases k.auth with
  | failed => exact .unchanged h _
  | denied => exact .unchanged h _
  | granted =>
    show Served w pending client connId inFd m (if m.size < bodySize then _ else rest)
    split
    · exact .unchanged h _
    · rename_i hsize
      exact hrest (Nat.le_of_not_lt hsize)

theorem mem_of_number {dev : Nat} {d : Device} (hdev : w.devices[dev]? = some d) : d ∈ w.devices :=
  List.mem_of_getElem? hdev

/-! ## BARs and queue pairs -/

theorem getBarFd_served (h : w.Sound) (dev bar : Nat) :
    Served w pending client connId inFd m (getBarFd w m k dev bar) := by
  refine .admitted h fun _ => ?_
  cases hdev : w.devices[dev]? with
  | none => exact .unchanged h _
  | some d =>
    show Served w pending client connId inFd m (if bar ≥ 6 then _ else _)
    split
    · exact .unchanged h _
    · cases hbar : (d.bars[bar]?).getD none with
      | none => exact .unchanged h _
      | some fd =>
        have hmem : some fd ∈ d.bars := by
          cases hget : d.bars[bar]? with
          | none => simp [hget] at hbar
          | some x =>
            rw [hget] at hbar
            exact hbar ▸ List.mem_of_getElem? hget
        exact .passed w fd _ (.refl h) ((h.devices d (mem_of_number hdev)).bars fd hmem) trivial

theorem Served.qpairs (h : w.Sound) {d : Device} (hd : d ∈ w.devices)
    {f : List Qpair → List Qpair} (hf : ∀ q ∈ f d.qpairs, Leftover d.qpairs q) (ret : Ret) :
    Served w pending client connId inFd m
      (reply (w.updDevice d.id fun d => { d with qpairs := f d.qpairs }) ret) :=
  .replied _ ret <| Change.mild (f := fun d => { d with qpairs := f d.qpairs }) h hd
    (fun _ => rfl) ⟨rfl, rfl, rfl, rfl, rfl, rfl, hf⟩ (Nat.le_refl _)

theorem qdmaQpairAdd_served (h : w.Sound) (dev : Nat) :
    Served w pending client connId inFd m (qdmaQpairAdd w m k dev) := by
  refine .admitted h fun _ => ?_
  cases hdev : w.devices[dev]? with
  | none => exact .unchanged h _
  | some d =>
    show Served w pending client connId inFd m (if ¬ d.qdma then _ else _)
    split
    · exact .unchanged h _
    · cases k.driver.add 0 with
      | none => exact .unchanged h _
      | some wish =>
        refine Served.qpairs h (mem_of_number hdev) (f := fun qs => _ :: qs) (fun q hq => ?_) _
        rcases List.mem_cons.mp hq with rfl | hq
        · exact .inl rfl
        · exact .inr (.inr ⟨q, hq, rfl, rfl, rfl⟩)

theorem leftover_map {qpairs : List Qpair} {f : Qpair → Qpair}
    (hf : ∀ q, (f q).qid = q.qid ∧ (f q).owner = q.owner ∧ (f q).refused = q.refused) :
    ∀ q ∈ qpairs.map f, Leftover qpairs q := by
  intro q hq
  obtain ⟨p, hp, rfl⟩ := List.mem_map.mp hq
  exact .inr (.inr ⟨p, hp, (hf p).1.symm, (hf p).2.1.symm, (hf p).2.2.symm⟩)

theorem qdmaQpairOp_served (h : w.Sound) (dev qid : Nat) (op : QueueOp) :
    Served w pending client connId inFd m (qdmaQpairOp w m k dev qid op) := by
  refine .admitted h fun _ => ?_
  cases hdev : w.devices[dev]? with
  | none => exact .unchanged h _
  | some d =>
    have hstart : ∀ (started : Bool) (q : Qpair),
        (if q.qid = qid then { q with started := started } else q).qid = q.qid ∧
        (if q.qid = qid then { q with started := started } else q).owner = q.owner ∧
        (if q.qid = qid then { q with started := started } else q).refused = q.refused := by
      intro started q
      split <;> exact ⟨rfl, rfl, rfl⟩
    show Served w pending client connId inFd m (if ¬ d.qdma then _ else _)
    split
    · exact .unchanged h _
    · cases op with
      | other value => exact .unchanged h _
      | start =>
        show Served w pending client connId inFd m (if k.driver.start qid then _ else _)
        split
        · exact Served.qpairs h (mem_of_number hdev) (leftover_map (hstart true)) _
        · exact .unchanged h _
      | stop =>
        show Served w pending client connId inFd m (if k.driver.stop qid then _ else _)
        split
        · exact Served.qpairs h (mem_of_number hdev) (leftover_map (hstart false)) _
        · exact .unchanged h _
      | del =>
        show Served w pending client connId inFd m (if k.driver.del qid then _ else _)
        split
        · refine Served.qpairs h (mem_of_number hdev) (fun q hq => ?_) _
          exact .inr (.inr ⟨q, (List.mem_filter.mp hq).1, rfl, rfl, rfl⟩)
        · exact .unchanged h _

theorem qdmaQpairGetFd_served (h : w.Sound) {dev qid : Nat}
    (hm : m.request = .qdmaQpairGetFd dev qid) :
    Served w pending client connId inFd m (qdmaQpairGetFd w m k dev) := by
  refine .admitted h fun _ => ?_
  cases hdev : w.devices[dev]? with
  | none => exact .unchanged h _
  | some d =>
    show Served w pending client connId inFd m (if ¬ d.qdma then _ else _)
    split
    · exact .unchanged h _
    · cases k.driver.getFd with
      | none => exact .unchanged h _
      | some wish =>
        obtain ⟨hchange, hheld⟩ := Change.handOut (σ := m.scope w.devices connId inFd) h
          (by rw [Message.scope, hm]; rfl) wish
        exact .passed _ _ _ hchange hheld trivial

/-! ## Buffers -/

/-- A creation that failed has changed queue pairs at most. -/
theorem Creation.error_change {σ : Scope} {w' : World} (h : w.Sound) {d : Device}
    (hd : d ∈ w.devices) {e : Errno} (hc : Creation w d connId k.driver (w', .error e)) :
    Change σ w w' := by
  obtain ⟨next, f, hnext, hf, rfl, hunmade⟩ := hc.error
  exact Change.mild h hd hf hunmade.mild hnext

/-- What a handler that opens a buffer comes to. A buffer that the list has no room for is torn down
again. -/
inductive Opened (w : World) (connId : U64) (k : Answers) : World × Handled → Prop
  | refused (ret : Ret) : Opened w connId k (reply w ret)
  | failed {d : Device} {w' : World} {e : Errno} (hd : d ∈ w.devices)
      (hc : Creation w d connId k.driver (w', .error e)) (ret : Ret) : Opened w connId k (reply w' ret)
  | created {d : Device} {w' : World} {b : Buffer} (hd : d ∈ w.devices)
      (hc : Creation w d connId k.driver (w', .ok b)) :
      Opened w connId k (if ¬ k.push then reply (cleanupBuffer w' d.id b k.driver) .internalError
        else (pushBuffer w' d.id b, { ret := .ok, fd := b.fd }))

theorem Opened.admitted {bodySize : Nat} {rest : World × Handled} (hrest : Opened w connId k rest) :
    Opened w connId k (admitted w m k bodySize rest) := by
  unfold Daemon.admitted
  cases k.auth with
  | failed | denied => exact .refused _
  | granted =>
    show Opened w connId k (if m.size < bodySize then _ else rest)
    split
    · exact .refused _
    · exact hrest

theorem bufferOpen_opened (h : w.Sound) (m : Message) (dev : Nat) (allocType : AllocationType)
    (allocDir : AllocDir) (mmChannel : Nat) (allocArg size : U64) :
    Opened w connId k (bufferOpen w connId m k dev allocType allocDir mmChannel allocArg size) := by
  refine .admitted ?_
  cases hdev : w.devices[dev]? with
  | none => exact .refused _
  | some d =>
    have hd := mem_of_number hdev
    simp only []
    iterate 4
      split
      · exact .refused _
    have hc := bufferCreate_creation w (h.devices d hd) allocType allocDir size allocArg connId
      mmChannel k.calloc k.driver
    generalize bufferCreate w d allocType allocDir size allocArg connId mmChannel k.calloc
      k.driver = result at hc
    obtain ⟨w', e | b⟩ := result
    · cases e <;> exact .failed hd hc _
    · exact .created hd hc

theorem bufferOpenRaw_opened (h : w.Sound) (m : Message) (dev : Nat) (allocDir : AllocDir)
    (mmChannel : Nat) (physAddr size : U64) :
    Opened w connId k (bufferOpenRaw w connId m k dev allocDir mmChannel physAddr size) := by
  refine .admitted ?_
  cases hdev : w.devices[dev]? with
  | none => exact .refused _
  | some d =>
    have hd := mem_of_number hdev
    simp only []
    iterate 4
      split
      · exact .refused _
    have hc := bufferCreateRaw_creation w (h.devices d hd) physAddr size allocDir connId mmChannel
      k.calloc k.driver
    generalize bufferCreateRaw w d physAddr size allocDir connId mmChannel k.calloc k.driver =
      result at hc
    obtain ⟨w', e | b⟩ := result
    · cases e <;> exact .failed hd hc _
    · exact .created hd hc

theorem Opened.served (h : w.Sound) {r : World × Handled} (hopened : Opened w connId k r) :
    Served w pending client connId inFd m r := by
  cases hopened with
  | refused ret => exact .unchanged h _
  | failed hd hc ret => exact .replied _ _ (hc.error_change h hd)
  | created hd hc =>
    split
    · obtain ⟨t, next, l, f, hnext, hf, ht, hbalanced, heq, hunmade⟩ := hc.discard
      rw [heq]
      exact .replied _ _ (Change.mild_table h hd hf hunmade.mild hnext ht hbalanced)
    · obtain ⟨hchange, d', hd', hb, hclient⟩ :=
        hc.push (σ := m.scope w.devices connId inFd) h hd rfl
      obtain ⟨n, hfd, hheld⟩ := (hchange.sound.devices d' hd').transfers _ hb
      rw [hfd]
      exact .passed _ n _ hchange hheld hclient

theorem bufferClose_served (h : w.Sound) (dev : Nat) (physAddr size : U64) :
    Served w pending client connId inFd m (bufferClose w connId m k dev physAddr size) := by
  refine .admitted h fun _ => ?_
  cases hdev : w.devices[dev]? with
  | none => exact .unchanged h _
  | some d =>
    have hd := mem_of_number hdev
    simp only []
    split
    · exact .unchanged h _
    cases hfind : (d.buffers.filter (·.addr = physAddr)).find? fun b =>
        b.size = size ∧ b.clientId = connId with
    | none =>
      simp only []
      split
      · exact .unchanged h _
      split
      · exact .unchanged h _
      · exact .unchanged h _
    | some b =>
      have hb := (List.mem_filter.mp (List.mem_of_find?_eq_some hfind)).1
      have hmatch : b.size = size ∧ b.clientId = connId := by simpa using List.find?_some hfind
      exact .replied _ _ (Change.drop h hd hb (Or.inr ⟨d.id, b.id, by rw [hmatch.2]⟩) k.driver)

/-! ## Design writes and shells -/

theorem submitDesignWrite_served {w' : World} {d : Device} {writer : DesignWriter} {fd : Nat}
    (hchange : Change (m.scope w.devices connId inFd) w w') (htarget : Target w w' m d)
    (hwriter : d.writer = some writer) (hfd : inFd = some fd) :
    Served w pending client connId inFd m (submitDesignWrite w' client d writer fd) := by
  unfold submitDesignWrite designWriterSubmit
  split
  · exact .replied _ _ hchange
  · rename_i heq
    split at heq
    · cases heq
    · rename_i hidle
      cases heq
      simp only [not_or, Bool.not_eq_true, Option.isSome_eq_false_iff, Option.isNone_iff_eq_none]
        at hidle
      exact .writing w' d writer fd hchange htarget hwriter hidle.1 hidle.2 hfd

theorem designWrite_served (h : w.Sound) {dev : Nat} {shell : ShellType}
    (hm : m.request = .designWrite dev shell) :
    Served w pending client connId inFd m (designWrite w client inFd m k dev shell) := by
  refine .admitted h fun _ => ?_
  cases hdev : w.devices[dev]? with
  | none => exact .unchanged h _
  | some d =>
    have hd := mem_of_number hdev
    simp only []
    cases hwriter : d.writer with
    | none => exact .unchanged h _
    | some writer =>
      cases hfd : inFd with
      | none => exact .unchanged h _
      | some fd =>
        cases hpart : shellBootPartition shell with
        | none => exact .unchanged h _
        | some partition =>
          subst hfd
          show Served w pending client connId (some fd) m (if writer.busy then _ else _)
          split
          · exact .unchanged h _
          rename_i hbusy
          split
          · exact .unchanged h _
          rename_i hjtag
          split
          · rename_i hreset
            have hremoves : m.removes w.devices (some fd) = some d.id := by
              rw [Message.removes, hm]
              simp only []
              rw [hdev, Option.bind_some, if_pos]
              refine ⟨by simp [hwriter], by simpa [Device.writerBusy, hwriter] using hbusy, rfl,
                by simp [hpart], hreset, hjtag⟩
            have hchange := reset_change (σ := m.scope w.devices connId (some fd)) h d partition k.reset
              hremoves fun holder hholder => .inl ⟨d.id, hremoves, hholder⟩
            generalize resetWithAmiPartition w d partition k.reset = result at hchange
            obtain ⟨w', ret⟩ := result
            cases ret with
            | ok =>
              simp only []
              cases hfind : w'.devices.find? (·.bdf = d.bdf) with
              | none => exact .replied _ _ hchange
              | some d' =>
                simp only []
                have hbdf : d'.bdf = d.bdf := by simpa using List.find?_some hfind
                cases hwriter' : d'.writer with
                | none => exact .replied _ _ hchange
                | some writer' =>
                  exact submitDesignWrite_served hchange ⟨List.mem_of_find?_eq_some hfind,
                    dev, shell, d, hm, hdev, hbdf⟩ hwriter' rfl
            | _ => exact .replied _ _ hchange
          · exact submitDesignWrite_served (.refl h) ⟨hd, dev, shell, d, hm, hdev, rfl⟩ hwriter rfl

theorem setShellState_served (h : w.Sound) (dev : Nat) (shellType : ShellType) (jtag : Nat) :
    Served w pending client connId inFd m (setShellState w m k dev shellType jtag) := by
  unfold setShellState
  split
  · exact .unchanged h _
  refine .admitted h fun _ => ?_
  cases hdev : w.devices[dev]? with
  | none => exact .unchanged h _
  | some d =>
    simp only []
    split
    · exact .unchanged h _
    split
    · exact .unchanged h _
    split
    · exact .unchanged h _
    refine .replied _ _ (Change.mild
      (f := fun d => { d with currentShell := shellType, jtag := jtag ≠ 0 }) h
      (mem_of_number hdev) (fun _ => rfl) ⟨rfl, rfl, rfl, rfl, rfl, rfl, fun q hq => ?_⟩
      (Nat.le_refl _))
    exact .inr (.inr ⟨q, hq, rfl, rfl, rfl⟩)

/-! ## Async device operations -/

theorem submitJob_spec (w : World) (pending : List Nat) (client : Nat) (connId : U64) (d : Device)
    (partition : Nat) (inputFd : Option Nat) :
    submitJob w pending client connId d partition inputFd = (w, .busy) ∨
    ∃ worker, w.asyncInProgress = false ∧ anyDesignWriteActive w pending = false ∧
      flashWorkerSubmit w.worker d partition inputFd connId client = some worker ∧
      submitJob w pending client connId d partition inputFd =
        ({ w with worker := worker, asyncInProgress := true }, .ok) := by
  unfold submitJob
  split
  · exact .inl rfl
  rename_i hasync
  split
  · exact .inl rfl
  rename_i hactive
  cases hsubmit : flashWorkerSubmit w.worker d partition inputFd connId client with
  | none => exact .inl rfl
  | some worker => exact .inr ⟨worker, by simpa using hasync, by simpa using hactive, rfl, rfl⟩

/-- A submission fails without a trace or starts a job on the descriptor that came along. -/
theorem submitCfgmemProgram_spec (w : World) (pending : List Nat) (client : Nat) (connId : U64)
    (inFd : Option Nat) (k : Answers) (body : CfgmemProgram) :
    (∃ ret, submitCfgmemProgram w pending client connId inFd k body = (w, ret) ∧ ret ≠ .ok) ∨
    ∃ d fd worker, inFd = some fd ∧ w.asyncInProgress = false ∧
      anyDesignWriteActive w pending = false ∧
      flashWorkerSubmit w.worker d body.partition (some fd) connId client = some worker ∧
      submitCfgmemProgram w pending client connId inFd k body =
        (({ w with worker := worker, asyncInProgress := true } : World).hold fd .worker, .ok) := by
  unfold submitCfgmemProgram
  cases k.auth with
  | failed => exact .inl ⟨_, rfl, nofun⟩
  | denied => exact .inl ⟨_, rfl, nofun⟩
  | granted =>
    cases w.devices[body.devNumber]? with
    | none => exact .inl ⟨_, rfl, nofun⟩
    | some d =>
      cases inFd with
      | none => exact .inl ⟨_, rfl, nofun⟩
      | some fd =>
        simp only []
        split
        · exact .inl ⟨_, rfl, nofun⟩
        split
        · exact .inl ⟨_, rfl, nofun⟩
        split
        · exact .inl ⟨_, rfl, nofun⟩
        rcases submitJob_spec w pending client connId d body.partition (some fd) with
          heq | ⟨worker, hasync, hactive, hsubmit, heq⟩
        · rw [heq]
          exact .inl ⟨_, rfl, nofun⟩
        · rw [heq]
          exact .inr ⟨d, fd, worker, rfl, hasync, hactive, hsubmit, rfl⟩

theorem cfgmemProgram_served (h : w.Sound) (hm : m.request.isCfgmemStatus = false)
    (body : CfgmemProgram) (waits : Bool) :
    Served w pending client connId inFd m
      (cfgmemProgram w pending client connId inFd m k body waits) := by
  unfold cfgmemProgram
  split
  · exact .unchanged h _
  rcases submitCfgmemProgram_spec w pending client connId inFd k body with
    ⟨ret, heq, hne⟩ | ⟨d, fd, worker, hfd, hasync, hactive, hsubmit, heq⟩
  · rw [heq]
    cases ret with
    | ok => exact absurd rfl hne
    | _ => exact .unchanged h _
  · rw [heq]
    exact .working d body.partition (some fd) worker waits hm hasync hactive (.inr hfd.symm) hsubmit

theorem cfgmemProgramStatus_served (h : w.Sound) (job : U64) :
    Served w pending client connId inFd m (cfgmemProgramStatus w connId m job) := by
  unfold cfgmemProgramStatus
  split
  · exact .unchanged h _
  split
  · exact .unchanged h _
  split
  · exact .unchanged h _
  · exact .unchanged h _

theorem rescan_served {w' : World} (hchange : Change (m.scope w.devices connId inFd) w w') :
    Served w pending client connId inFd m (rescan w' k) := by
  unfold rescan
  cases k.rescan with
  | some err => exact .replied _ _ hchange
  | none => exact .replied _ _ (hchange.trans (devicesDiscoverAndOpen_change k.found hchange.sound))

theorem removeBoard_served (h : w.Sound) {d : Device}
    (hremoves : m.removes w.devices inFd = some d.id) (thenRescan : Bool) :
    Served w pending client connId inFd m (removeBoard w k d thenRescan) := by
  have hchange := Change.remove (σ := m.scope w.devices connId inFd) h hremoves fun holder hholder =>
    .inl ⟨d.id, hremoves, hholder⟩
  unfold removeBoard
  split
  · exact .unchanged h _
  cases removeFunctions k.removal [0, 1, 2] false with
  | some failure =>
    obtain ⟨err, anyRemoved⟩ := failure
    cases anyRemoved with
    | true => exact .replied _ _ hchange
    | false => exact .unchanged h _
  | none =>
    cases thenRescan with
    | true => exact rescan_served hchange
    | false => exact .replied _ _ hchange

theorem hotplugFunction_served (h : w.Sound) {d : Device} {op : HotplugOp} {function : Nat}
    (hremoves : op = .remove → function ≤ 7 → m.removes w.devices inFd = some d.id) :
    Served w pending client connId inFd m (hotplugFunction w k d op function) := by
  unfold hotplugFunction
  split
  · exact .unchanged h _
  rename_i hfunction
  split
  · exact .unchanged h _
  split
  · rename_i hop
    have hremoves := hremoves hop (Nat.le_of_not_lt hfunction)
    cases k.removal function with
    | done => exact .replied _ _ (Change.remove h hremoves fun holder hholder =>
        .inl ⟨d.id, hremoves, hholder⟩)
    | absent => exact .unchanged h _
    | failed err => exact .unchanged h _
  · cases k.hotplug with
    | none => exact .unchanged h _
    | some err => exact .unchanged h _

theorem deviceHotplugOp_served (h : w.Sound) {dev function : Nat} {op : HotplugOp}
    {shellType : ShellType} (hm : m.request = .deviceHotplugOp dev op function shellType) :
    Served w pending client connId inFd m
      (deviceHotplugOp w pending client connId m k dev op function shellType) := by
  unfold deviceHotplugOp
  split
  · exact .unchanged h _
  split
  · exact rescan_served (.refl h)
  refine .admitted h fun _ => ?_
  cases hdev : w.devices[dev]? with
  | none => exact .unchanged h _
  | some d =>
    have hremoves : (op = .remove ∨ op = .hotplug) ∧ function = 255 ∨ op = .remove ∧ function ≤ 7 →
        m.removes w.devices inFd = some d.id := by
      intro hwhen
      rw [Message.removes, hm]
      simp only []
      rw [hdev, Option.bind_some, if_pos hwhen]
    cases op with
    | remove =>
      show Served w pending client connId inFd m (if function = 255 then _ else _)
      split
      · rename_i hall
        exact removeBoard_served h (hremoves (.inl ⟨.inl rfl, hall⟩)) false
      · exact hotplugFunction_served h fun _ hle => hremoves (.inr ⟨rfl, hle⟩)
    | hotplug =>
      show Served w pending client connId inFd m (if function = 255 then _ else _)
      split
      · rename_i hall
        exact removeBoard_served h (hremoves (.inl ⟨.inr rfl, hall⟩)) true
      · exact hotplugFunction_served h nofun
    | toggleSbr =>
      show Served w pending client connId inFd m (if function = 255 then _ else _)
      split
      · exact .unchanged h _
      · exact hotplugFunction_served h nofun
    | resetSequence =>
      simp only []
      cases shellBootPartition shellType with
      | none => exact .unchanged h _
      | some partition =>
        simp only []
        rcases submitJob_spec w pending client connId d partition none with
          heq | ⟨worker, hasync, hactive, hsubmit, heq⟩
        · rw [heq]
          exact .unchanged h _
        · rw [heq]
          exact .working d partition none worker true (by rw [hm]; rfl) hasync hactive (.inl rfl)
            hsubmit
    | rescan => exact .unchanged h _
    | other value => exact .unchanged h _

/-! ## Every request -/

theorem handleRequest_served (h : w.Sound) (pending : List Nat) (client : Nat) (connId : U64)
    (inFd : Option Nat) (m : Message) (k : Answers) :
    Served w pending client connId inFd m
      (handleRequest w pending client connId inFd m k) := by
  unfold handleRequest
  split
  case h_1 => exact .unchanged h _
  case h_2 dev bar _ => exact getBarFd_served h dev bar
  case h_3 dev _ => exact qdmaQpairAdd_served h dev
  case h_4 dev qid op _ => exact qdmaQpairOp_served h dev qid op
  case h_5 dev qid hm => exact qdmaQpairGetFd_served h hm
  case h_6 dev type dir channel arg size _ =>
    exact (bufferOpen_opened h _ dev type dir channel arg size).served h
  case h_7 dev dir channel addr size _ =>
    exact (bufferOpenRaw_opened h _ dev dir channel addr size).served h
  case h_8 dev addr size _ => exact bufferClose_served h dev addr size
  case h_9 dev shell hm => exact designWrite_served h hm
  case h_10 dev shell jtag _ => exact setShellState_served h dev shell jtag
  case h_11 body hm => exact cfgmemProgram_served h (by rw [hm]; rfl) body true
  case h_12 body hm => exact cfgmemProgram_served h (by rw [hm]; rfl) body false
  case h_13 job _ => exact cfgmemProgramStatus_served h job
  case h_14 dev op function shell hm => exact deviceHotplugOp_served h hm
  case h_15 => exact .unchanged h _

theorem handleRequest_status (h : m.request.isCfgmemStatus) (w : World) (pending : List Nat)
    (client : Nat) (connId : U64) (inFd : Option Nat) (k : Answers) :
    ∃ ret, handleRequest w pending client connId inFd m k = reply w ret := by
  cases hm : m.request with
  | cfgmemProgramStatus job =>
    simp only [handleRequest, hm, cfgmemProgramStatus]
    split
    · exact ⟨_, rfl⟩
    split
    · exact ⟨_, rfl⟩
    split
    · exact ⟨_, rfl⟩
    · exact ⟨_, rfl⟩
  | _ => simp [hm, Request.isCfgmemStatus] at h

/-- A design write whose descriptor was taken over already changes nothing. -/
theorem handleRequest_taken {dev : Nat} {shell : ShellType}
    (hm : m.request = .designWrite dev shell) (w : World) (pending : List Nat) (client : Nat)
    (connId : U64) (k : Answers) :
    ∃ ret, handleRequest w pending client connId none m k = reply w ret := by
  simp only [handleRequest, hm, designWrite, admitted]
  cases k.auth with
  | failed => exact ⟨_, rfl⟩
  | denied => exact ⟨_, rfl⟩
  | granted =>
    simp only []
    split
    · exact ⟨_, rfl⟩
    cases w.devices[dev]? with
    | none => exact ⟨_, rfl⟩
    | some d =>
      simp only []
      cases d.writer with
      | none => exact ⟨_, rfl⟩
      | some writer => exact ⟨_, rfl⟩

end Handlers

end Slash.Daemon
