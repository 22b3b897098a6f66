import Slash.Daemon.Devices

/-!
# The request handlers

The handlers of `serve.c`. Each reads the shared state, the body of the request and what its calls
answer, and returns the changed state with what `client_handle_request` needs: the code of the
response, the descriptor to attach, whether the inbound descriptor was taken over, and whether the
response has to wait. The bodies of the responses are left out, and so are the handlers that only
look things up (`Query`): their code is the environment's choice.
-/

namespace Slash.Daemon

open Lib
open Libvrtd (Ret)
open Vrtd (U64 AllocationType)

/-! ## What a handler is given and what it returns -/

inductive Auth where
  | failed
  | denied
  | granted
  deriving DecidableEq, Repr

inductive Removal where
  | done
  | absent
  | failed (err : HotplugErrno)
  deriving DecidableEq, Repr

/-- The answers to the calls of one handler. -/
structure Answers where
  auth : Auth := .granted
  /-- The code of a lookup handler. -/
  query : Ret := .ok
  driver : Driver := ⟨some, fun _ => true, fun _ => true, fun _ => true, some 10, .other⟩
  calloc : Bool := true
  /-- Room for one more element in a device's buffer array. -/
  push : Bool := true
  /-- Whether `pci_bdf_set_function` can make an address. -/
  bdf : Bool := true
  removal : Nat → Removal := fun _ => .done
  /-- `slash_hotplug_rescan`, then the other single calls; none is success. -/
  rescan : Option HotplugErrno := none
  hotplug : Option HotplugErrno := none
  found : Discovery := some []
  reset : ResetRun := .early
  /-- `AMI_BOOT_DEVICES_MAX`. -/
  bootDevices : Nat := 2

structure Handled where
  ret : Ret
  fd : Option Nat := none
  consumed : Bool := false
  designWrite : Option PendingWrite := none
  asyncOp : Bool := false
  deriving DecidableEq, Repr

/-- A request that is answered with a code and nothing else. -/
def reply (w : World) (ret : Ret) : World × Handled := (w, { ret := ret })

/-- The role check that opens most handlers, then the size of the body. -/
def admitted (w : World) (m : Message) (k : Answers) (bodySize : Nat) (rest : World × Handled) :
    World × Handled :=
  match k.auth with
  | .failed => reply w .internalError
  | .denied => reply w .authError
  | .granted => if m.size < bodySize then reply w .badRequest else rest

/-! ## BARs and queue pairs -/

/-- `client_handle_request_get_bar_fd`. -/
def getBarFd (w : World) (m : Message) (k : Answers) (devNumber barNumber : Nat) :
    World × Handled :=
  admitted w m k 5 <|
    match w.devices[devNumber]? with
    | none => reply w .noexist
    | some d =>
      if barNumber ≥ 6 then reply w .badRequest
      else
        match (d.bars[barNumber]?).getD none with
        | none => reply w .noexist
        | some fd => (w, { ret := .ok, fd := some fd })

/-- `client_handle_request_qdma_qpair_add`. -/
def qdmaQpairAdd (w : World) (m : Message) (k : Answers) (devNumber : Nat) : World × Handled :=
  admitted w m k 40 <|
    match w.devices[devNumber]? with
    | none => reply w .noexist
    | some d =>
      if ¬ d.qdma then reply w .noexist
      else
        match k.driver.add 0 with
        | none => reply w .internalError
        | some wish =>
          let added : Qpair := ⟨unused (d.qpairs.map (·.qid)) wish, 0, 0, false, none, false⟩
          reply (w.updDevice d.id fun d => { d with qpairs := added :: d.qpairs }) .ok

/-- `client_handle_request_qdma_qpair_op`; the driver knows whether it likes the call. -/
def qdmaQpairOp (w : World) (m : Message) (k : Answers) (devNumber qid : Nat) (op : QueueOp) :
    World × Handled :=
  admitted w m k 12 <|
    match w.devices[devNumber]? with
    | none => reply w .noexist
    | some d =>
      let upd (f : List Qpair → List Qpair) :=
        w.updDevice d.id fun d => { d with qpairs := f d.qpairs }
      let start (started : Bool) (q : Qpair) : Qpair :=
        if q.qid = qid then { q with started := started } else q
      if ¬ d.qdma then reply w .noexist
      else
        match op with
        | .other _ => reply w .invalidArgument
        | .start =>
          if k.driver.start qid then reply (upd (·.map (start true))) .ok
          else reply w .internalError
        | .stop =>
          if k.driver.stop qid then reply (upd (·.map (start false))) .ok
          else reply w .internalError
        | .del =>
          if k.driver.del qid then reply (upd (·.filter (·.qid ≠ qid))) .ok
          else reply w .internalError

/-- `client_handle_request_qdma_qpair_get_fd`: the descriptor stays open in the daemon. -/
def qdmaQpairGetFd (w : World) (m : Message) (k : Answers) (devNumber : Nat) : World × Handled :=
  admitted w m k 12 <|
    match w.devices[devNumber]? with
    | none => reply w .noexist
    | some d =>
      if ¬ d.qdma then reply w .noexist
      else
        match k.driver.getFd with
        | none => reply w .internalError
        | some wish =>
          let (fd, w) := w.openFd wish .handedOut
          (w, { ret := .ok, fd := some fd })

/-! ## Buffers -/

/-- `client_handle_request_buffer_open`. -/
def bufferOpen (w : World) (connId : U64) (m : Message) (k : Answers) (devNumber : Nat)
    (allocType : AllocationType) (allocDir : AllocDir) (mmChannel : Nat) (allocArg size : U64) :
    World × Handled :=
  admitted w m k 32 <|
    match w.devices[devNumber]? with
    | none => reply w .noexist
    | some d =>
      if size = 0 then reply w .invalidArgument
      else if mmChannel > 2 then reply w .invalidArgument
      else if ¬ d.qdma then reply w .noexist
      else if connId = 0 then reply w .internalError
      else
        match bufferCreate w d allocType allocDir size allocArg connId mmChannel k.calloc
          k.driver with
        | (w, .error .einval) => reply w .invalidArgument
        | (w, .error .enomem) => reply w .busy
        | (w, .error .other) => reply w .internalError
        | (w, .ok b) =>
          if ¬ k.push then reply (cleanupBuffer w d.id b k.driver) .internalError
          else (pushBuffer w d.id b, { ret := .ok, fd := b.fd })

/-- `client_handle_request_buffer_open_raw`. -/
def bufferOpenRaw (w : World) (connId : U64) (m : Message) (k : Answers) (devNumber : Nat)
    (allocDir : AllocDir) (mmChannel : Nat) (physAddr size : U64) : World × Handled :=
  admitted w m k 28 <|
    match w.devices[devNumber]? with
    | none => reply w .noexist
    | some d =>
      if size = 0 then reply w .invalidArgument
      else if mmChannel > 2 then reply w .invalidArgument
      else if ¬ d.qdma then reply w .noexist
      else if connId = 0 then reply w .internalError
      else
        match bufferCreateRaw w d physAddr size allocDir connId mmChannel k.calloc k.driver with
        | (w, .error .einval) => reply w .invalidArgument
        | (w, .error _) => reply w .internalError
        | (w, .ok b) =>
          if ¬ k.push then reply (cleanupBuffer w d.id b k.driver) .internalError
          else (pushBuffer w d.id b, { ret := .ok, fd := b.fd })

/-- `client_handle_request_buffer_close`: the caller's own buffer among those at the address. -/
def bufferClose (w : World) (connId : U64) (m : Message) (k : Answers) (devNumber : Nat)
    (physAddr size : U64) : World × Handled :=
  admitted w m k 20 <|
    match w.devices[devNumber]? with
    | none => reply w .noexist
    | some d =>
      if size = 0 then reply w .invalidArgument
      else
        let there := d.buffers.filter (·.addr = physAddr)
        match there.find? fun b => b.size = size ∧ b.clientId = connId with
        | some b => reply (dropBuffer w d.id b k.driver) .ok
        | none =>
          if there.any fun b => b.size = size then reply w .authError
          else if there.any fun b => b.size ≠ size then reply w .invalidArgument
          else reply w .noexist

/-! ## Design writes and shells -/

/-- The end of `client_handle_request_design_write`: the writer takes the descriptor. -/
def submitDesignWrite (w : World) (client : Nat) (d : Device) (writer : DesignWriter) (fd : Nat) :
    World × Handled :=
  match designWriterSubmit writer fd with
  | none => reply w (if writer.busy then .busy else .internalError)
  | some writer =>
    let object := (w.object fd).getD 0
    (((w.hold fd (.writer d.id)).updDevice d.id fun d => { d with writer := some writer }).note
      (.submitted client object d.id),
      { ret := .ok, consumed := true, designWrite := some ⟨d.id, object⟩ })

/-- `client_handle_request_design_write`. -/
def designWrite (w : World) (client : Nat) (inFd : Option Nat) (m : Message) (k : Answers)
    (devNumber : Nat) (requiredShell : ShellType) : World × Handled :=
  admitted w m k 5 <|
    match w.devices[devNumber]? with
    | none => reply w .noexist
    | some d =>
      match d.writer, inFd, shellBootPartition requiredShell with
      | none, _, _ => reply w .noexist
      | some _, none, _ => reply w .badRequest
      | some _, some _, none => reply w .invalidArgument
      | some writer, some fd, some partition =>
        if writer.busy then reply w .busy
        else if shellSwitchBlockedByJtag d.currentShell requiredShell d.jtag then
          reply w .shellLocked
        else if shellResetRequired d.currentShell requiredShell then
          match resetWithAmiPartition w d partition k.reset with
          | (w, .ok) =>
            -- the device is a new one, found by its address
            match w.devices.find? (·.bdf = d.bdf) with
            | none => reply w .noexist
            | some d =>
              match d.writer with
              | none => reply w .noexist
              | some writer => submitDesignWrite w client d writer fd
          | (w, ret) => reply w ret
        else submitDesignWrite w client d writer fd

/-- `client_handle_request_set_shell_state`: here the size is looked at before the role. -/
def setShellState (w : World) (m : Message) (k : Answers) (devNumber : Nat)
    (shellType : ShellType) (jtag : Nat) : World × Handled :=
  if m.size < 6 then reply w .badRequest
  else
    admitted w m k 6 <|
      match w.devices[devNumber]? with
      | none => reply w .noexist
      | some d =>
        if (shellBootPartition shellType).isNone then reply w .invalidArgument
        else if d.currentShell ≠ .unknown ∧ d.currentShell ≠ shellType then reply w .busy
        else if jtag = 0 ∧ d.jtag then reply w .busy
        else
          reply (w.updDevice d.id fun d =>
            { d with currentShell := shellType, jtag := jtag ≠ 0 }) .ok

/-! ## Async device operations -/

/-- `any_design_write_active`; `pending` are the devices that clients wait for. -/
def anyDesignWriteActive (w : World) (pending : List Nat) : Bool :=
  w.devices.any (·.writerBusy) || !pending.isEmpty

/-- The checks and the submission that programming and reset share. -/
def submitJob (w : World) (pending : List Nat) (client : Nat) (connId : U64) (d : Device)
    (partition : Nat) (inputFd : Option Nat) : World × Ret :=
  if w.asyncInProgress then (w, .busy)
  else if anyDesignWriteActive w pending then (w, .busy)
  else
    match flashWorkerSubmit w.worker d partition inputFd connId client with
    | none => (w, .busy)
    | some worker => ({ w with worker := worker, asyncInProgress := true }, .ok)

/-- `client_submit_cfgmem_program`. -/
def submitCfgmemProgram (w : World) (pending : List Nat) (client : Nat) (connId : U64)
    (inFd : Option Nat) (k : Answers) (body : CfgmemProgram) : World × Ret :=
  match k.auth with
  | .failed => (w, .internalError)
  | .denied => (w, .authError)
  | .granted =>
    match w.devices[body.devNumber]?, inFd with
    | none, _ => (w, .noexist)
    | some _, none => (w, .badRequest)
    | some d, some fd =>
      if body.bootDevice ≥ k.bootDevices then (w, .invalidArgument)
      else if body.partition > 15 then (w, .invalidArgument)
      else if body.reserved.any (· ≠ 0) then (w, .invalidArgument)
      else
        match submitJob w pending client connId d body.partition (some fd) with
        | (w, .ok) => (w.hold fd .worker, .ok)
        | (w, ret) => (w, ret)

/-- `client_handle_request_cfgmem_program`, answered when the job is done, and
`client_handle_request_cfgmem_program_start`, answered at once. -/
def cfgmemProgram (w : World) (pending : List Nat) (client : Nat) (connId : U64)
    (inFd : Option Nat) (m : Message) (k : Answers) (body : CfgmemProgram) (waits : Bool) :
    World × Handled :=
  if m.size < 12 then reply w .badRequest
  else
    match submitCfgmemProgram w pending client connId inFd k body with
    | (w, .ok) => (w, { ret := .ok, consumed := true, asyncOp := waits })
    | (w, ret) => reply w ret

/-- `client_handle_request_cfgmem_program_status`. -/
def cfgmemProgramStatus (w : World) (connId : U64) (m : Message) (jobId : U64) :
    World × Handled :=
  if m.size < 8 then reply w .badRequest
  else if jobId = 0 ∨ jobId ≠ w.worker.jobId then reply w .noexist
  else if connId ≠ 0 ∧ connId ≠ w.worker.ownerConnId then reply w .authError
  else reply w .ok

/-- The loop that removes the functions of a board; an error comes with whether an earlier
function is gone. -/
def removeFunctions (removal : Nat → Removal) : List Nat → Bool → Option (HotplugErrno × Bool)
  | [], _ => none
  | func :: funcs, anyRemoved =>
    match removal func with
    | .failed err => some (err, anyRemoved)
    | _ => removeFunctions removal funcs true

def rescan (w : World) (k : Answers) : World × Handled :=
  match k.rescan with
  | some err => reply w (hotplugErrnoToVrtdRet err)
  | none => reply (devicesDiscoverAndOpen w k.found).1 .ok

/-- `VRTD_DEVICE_HOTPLUG_FUNCTION_ALL`: the whole board goes. -/
def removeBoard (w : World) (k : Answers) (d : Device) (thenRescan : Bool) : World × Handled :=
  if ¬ k.bdf then reply w .internalError
  else
    match removeFunctions k.removal [0, 1, 2] false with
    | some (err, anyRemoved) =>
      reply (if anyRemoved then removeDevice w d.id else w) (hotplugErrnoToVrtdRet err)
    | none =>
      let w := removeDevice w d.id
      if thenRescan then rescan w k else reply w .ok

def hotplugFunction (w : World) (k : Answers) (d : Device) (op : HotplugOp) (function : Nat) :
    World × Handled :=
  if function > 7 then reply w .invalidArgument
  else if ¬ k.bdf then reply w .internalError
  else if op = .remove then
    match k.removal function with
    | .done => reply (removeDevice w d.id) .ok
    | .absent => reply w .noexist
    | .failed err => reply w (hotplugErrnoToVrtdRet err)
  else
    match k.hotplug with
    | none => reply w .ok
    | some err => reply w (hotplugErrnoToVrtdRet err)

/-- `client_handle_request_device_hotplug_op`. -/
def deviceHotplugOp (w : World) (pending : List Nat) (client : Nat) (connId : U64) (m : Message)
    (k : Answers) (devNumber : Nat) (op : HotplugOp) (function : Nat) (shellType : ShellType) :
    World × Handled :=
  if m.size < 7 then reply w .badRequest
  else if op = .rescan then rescan w k
  else
    admitted w m k 7 <|
      match w.devices[devNumber]? with
      | none => reply w .noexist
      | some d =>
        match op with
        | .remove =>
          if function = 255 then removeBoard w k d false else hotplugFunction w k d op function
        | .hotplug =>
          if function = 255 then removeBoard w k d true else hotplugFunction w k d op function
        | .toggleSbr =>
          if function = 255 then reply w .invalidArgument else hotplugFunction w k d op function
        | .resetSequence =>
          match shellBootPartition shellType with
          | none => reply w .invalidArgument
          | some partition =>
            match submitJob w pending client connId d partition none with
            | (w, .ok) => (w, { ret := .ok, asyncOp := true })
            | (w, ret) => reply w ret
        | _ => reply w .invalidArgument

/-! ## Dispatch -/

/-- The switch of `client_handle_request`. -/
def handleRequest (w : World) (pending : List Nat) (client : Nat) (connId : U64)
    (inFd : Option Nat) (m : Message) (k : Answers) : World × Handled :=
  match m.request with
  | .query _ => reply w k.query
  | .getBarFd dev bar => getBarFd w m k dev bar
  | .qdmaQpairAdd dev => qdmaQpairAdd w m k dev
  | .qdmaQpairOp dev qid op => qdmaQpairOp w m k dev qid op
  | .qdmaQpairGetFd dev _ => qdmaQpairGetFd w m k dev
  | .bufferOpen dev type dir channel arg size =>
    bufferOpen w connId m k dev type dir channel arg size
  | .bufferOpenRaw dev dir channel addr size => bufferOpenRaw w connId m k dev dir channel addr size
  | .bufferClose dev addr size => bufferClose w connId m k dev addr size
  | .designWrite dev shell => designWrite w client inFd m k dev shell
  | .setShellState dev shell jtag => setShellState w m k dev shell jtag
  | .cfgmemProgram body => cfgmemProgram w pending client connId inFd m k body true
  | .cfgmemProgramStart body => cfgmemProgram w pending client connId inFd m k body false
  | .cfgmemProgramStatus job => cfgmemProgramStatus w connId m job
  | .deviceHotplugOp dev op function shell =>
    deviceHotplugOp w pending client connId m k dev op function shell
  | .unknown _ => reply w .badRequest

end Slash.Daemon
