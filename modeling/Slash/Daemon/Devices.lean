import Slash.Daemon.State

/-!
# Devices, buffers and queue pairs

`buffer.c`, `device.c` and `reset.c`: how buffers are made and torn down, how devices come and go.
What the QDMA driver, the PCI bus and the firmware answer is an argument (`Driver`, `Discovery`,
`ResetRun`, `RefreshRun`), so a function is about every way its calls can go.
-/

namespace Slash.Daemon

open Lib
open Libvrtd (Ret)
open Vrtd (U64 AllocationType DeviceMemoryMap deviceMemoryMapCreate deviceMemoryMapAllocate
  deviceMemoryMapFree)

/-! ## Primitive updates -/

namespace World

def note (w : World) (n : Note) : World := { w with log := n :: w.log }

/-- The kernel opens something new at a free number. -/
def openFd (w : World) (wish : Nat) (holder : Holder) : Nat × World :=
  let n := unused w.fds.numbers wish
  (n, { w with
    fds := w.fds.set n ⟨w.next, holder⟩
    next := w.next + 1
    ledger := w.ledger.handOut w.next })

/-- A list of wishes, none for one that is not to be opened. -/
def openFds (w : World) (holder : Holder) : List (Option Nat) → List (Option Nat) × World
  | [] => ([], w)
  | none :: rest =>
    let (ns, w) := w.openFds holder rest
    (none :: ns, w)
  | some wish :: rest =>
    let (n, w) := w.openFd wish holder
    let (ns, w) := w.openFds holder rest
    (some n :: ns, w)

/-- `close`, one number after the other. -/
def closeFds (w : World) (ns : List Nat) : World :=
  { w with fds := w.fds.eraseAll ns, ledger := w.ledger.giveBack w.fds ns }

/-- Somebody else closes the descriptor from now on. -/
def hold (w : World) (n : Nat) (holder : Holder) : World :=
  match w.fds.get? n with
  | none => w
  | some d => { w with fds := w.fds.set n { d with holder := holder } }

def object (w : World) (n : Nat) : Option Nat := (w.fds.get? n).map (·.object)

def device? (w : World) (id : Nat) : Option Device := w.devices.find? (·.id = id)

def updDevice (w : World) (id : Nat) (f : Device → Device) : World :=
  { w with devices := w.devices.map fun d => if d.id = id then f d else d }

end World

/-! ## Buffers -/

/-- `errno` as far as the handlers tell values apart. -/
inductive Errno where
  | einval
  | enomem
  | other
  deriving DecidableEq, Repr

/-- What the QDMA driver answers: the queue pair id wished for the `i`-th add, none if it fails;
whether the `i`-th start works; whether stopping and deleting a queue pair works; the number
wished for the transfer descriptor; the `errno` that a failure leaves. -/
structure Driver where
  add : Nat → Option Nat
  start : Nat → Bool
  stop : Nat → Bool
  del : Nat → Bool
  getFd : Option Nat
  errno : Errno

/-- `VRTD_QDMA_DIR_H2C | VRTD_QDMA_DIR_C2H` and its parts. -/
def AllocDir.dirMask : AllocDir → Option Nat
  | .bidirectional => some 3
  | .hostToDevice => some 1
  | .deviceToHost => some 2
  | .other _ => none

/-- `buffer_plan_qpair_channels`; 0 is `SLASH_QDMA_MM_CHANNEL_AUTO`. -/
def bufferPlanQpairChannels (mmChannel : Nat) : List Nat :=
  if mmChannel = 0 then [1, 2] else [mmChannel]

/-- The loop that adds and starts one queue pair for each channel. The ids added so far are in the
buffer when it gives up. -/
def addQpairs (k : Driver) (dirMask : Nat) (owner : U64) :
    List Nat → Nat → List Qpair → List Nat → Bool × List Qpair × List Nat
  | [], _, qpairs, qids => (true, qpairs, qids)
  | channel :: channels, i, qpairs, qids =>
    match k.add i with
    | none => (false, qpairs, qids)
    | some wish =>
      let qid := unused (qpairs.map (·.qid)) wish
      let added : Qpair := ⟨qid, dirMask, channel, false, some owner, false⟩
      if k.start i then
        addQpairs k dirMask owner channels (i + 1) ({ added with started := true } :: qpairs)
          (qids ++ [qid])
      else (false, added :: qpairs, qids ++ [qid])

/-- `slash_qdma_qpair_stop` and `slash_qdma_qpair_del` on the teardown path: a queue pair that the
driver keeps is left behind. -/
def Driver.release (k : Driver) (qid : Nat) (qpairs : List Qpair) : List Qpair :=
  qpairs.filterMap fun q =>
    if q.qid = qid then
      if k.del qid then none
      else some { q with started := q.started && !k.stop qid, refused := true }
    else some q

def Device.releaseBuffer (d : Device) (b : Buffer) (k : Driver) : Device :=
  { d with
    qpairs := b.qids.foldl (fun qpairs qid => k.release qid qpairs) d.qpairs
    memoryMap :=
      if b.allocationValid then
        (deviceMemoryMapFree d.memoryMap b.allocType b.addr b.size b.clientId).2
      else d.memoryMap }

def cleanupBuffer (w : World) (device : Nat) (b : Buffer) (k : Driver) : World :=
  (w.closeFds b.fd.toList).updDevice device fun d => d.releaseBuffer b k

/-- The second half of `buffer_init` and of `buffer_create_raw`: the queue pairs, then one transfer
descriptor for all of them. -/
def attachQpairs (w : World) (d : Device) (b : Buffer) (dirMask mmChannel : Nat) (k : Driver) :
    World × Except Errno Buffer :=
  let (added, qpairs, qids) :=
    addQpairs k dirMask b.clientId (bufferPlanQpairChannels mmChannel) 0 d.qpairs []
  let w := w.updDevice d.id fun d => { d with qpairs := qpairs }
  let b := { b with qids := qids }
  match added, k.getFd with
  | true, some wish =>
    let (n, w) := w.openFd wish (.transfer d.id b.clientId b.id)
    (w, .ok { b with fd := some n })
  | _, _ => (cleanupBuffer w d.id b k, .error k.errno)

def bufferInit (w : World) (d : Device) (allocType : AllocationType) (allocDir : AllocDir)
    (size allocArg clientId : U64) (mmChannel : Nat) (k : Driver) : World × Except Errno Buffer :=
  if ¬ d.qdma ∨ size = 0 ∨ clientId = 0 then (w, .error .einval)
  else
    match allocDir.dirMask with
    | none => (w, .error .einval)
    | some dirMask =>
      let (ares, map) := deviceMemoryMapAllocate d.memoryMap allocType size allocArg clientId
      let w := w.updDevice d.id fun d => { d with memoryMap := map }
      match ares with
      | .noMemory => (w, .error .enomem)
      | .badArgument => (w, .error .einval)
      | .success out =>
        let b : Buffer := ⟨w.next, allocType, clientId, out.addr, out.size, [], none, true⟩
        attachQpairs { w with next := w.next + 1 } d b dirMask mmChannel k

/-- `buffer_create`; `calloc` may fail. -/
def bufferCreate (w : World) (d : Device) (allocType : AllocationType) (allocDir : AllocDir)
    (size allocArg clientId : U64) (mmChannel : Nat) (calloc : Bool) (k : Driver) :
    World × Except Errno Buffer :=
  if ¬ calloc then (w, .error .enomem)
  else bufferInit w d allocType allocDir size allocArg clientId mmChannel k

/-- `buffer_create_raw`: no allocation, so none to free. -/
def bufferCreateRaw (w : World) (d : Device) (physAddr size : U64) (allocDir : AllocDir)
    (clientId : U64) (mmChannel : Nat) (calloc : Bool) (k : Driver) : World × Except Errno Buffer :=
  if ¬ d.qdma ∨ size = 0 then (w, .error .einval)
  else
    match allocDir.dirMask with
    | none => (w, .error .einval)
    | some dirMask =>
      if ¬ calloc then (w, .error .enomem)
      else
        let b : Buffer := ⟨w.next, .ddr, clientId, physAddr, size, [], none, false⟩
        attachQpairs { w with next := w.next + 1 } d b dirMask mmChannel k

/-- `buffer_ptr_array_push_move` and `buffer_ptr_array_rm_by_reference`. -/
def pushBuffer (w : World) (device : Nat) (b : Buffer) : World :=
  w.updDevice device fun d => { d with buffers := d.buffers ++ [b] }

def dropBuffer (w : World) (device : Nat) (b : Buffer) (k : Driver) : World :=
  (cleanupBuffer w device b k).updDevice device fun d =>
    { d with buffers := d.buffers.filter (·.id ≠ b.id) }

/-- `cleanup_buffers_for_conn_id`: every device, every buffer of the connection on it. -/
def cleanupBuffersForConnId (w : World) (connId : U64) (k : Driver) : World :=
  if connId = 0 then w
  else
    w.devices.foldl (fun w d =>
      (d.buffers.filter (·.clientId = connId)).foldl (fun w b => dropBuffer w d.id b k) w) w

def drainDeferredBufferCleanups (w : World) (k : Driver) : World :=
  { w.deferred.foldl (fun w connId => cleanupBuffersForConnId w connId k) w with deferred := [] }

/-! ## Devices -/

/-- A path that the glob found and what opening it gives: the board, whether a QDMA node is paired
with it, the numbers wished for the usable BARs. -/
structure Opening where
  bdf : String
  qdma : Bool
  bars : List (Option Nat)
  deriving DecidableEq, Repr

structure Probe where
  path : String
  opening : Option Opening
  deriving DecidableEq, Repr

/-- The paths of the glob, none if it fails. -/
abbrev Discovery := Option (List Probe)

/-- A device just opened: no shell known, no buffer, a map without allocations, and a design writer
if there is a QDMA. -/
def Opening.device (o : Opening) (id : Nat) (path : String) (bars : List (Option Nat)) : Device where
  id := id
  path := path
  bdf := o.bdf
  qdma := o.qdma
  memoryMap := deviceMemoryMapCreate
  writer := if o.qdma then some {} else none
  bars := bars
  buffers := []
  currentShell := .unknown
  jtag := false
  qpairs := []

/-- `device_open` and the push. -/
def deviceOpen (w : World) (path : String) (o : Opening) : World :=
  let (bars, w') := { w with next := w.next + 1 }.openFds (.bar w.next) o.bars
  { w' with devices := w'.devices ++ [o.device w.next path bars] }

/-- `devices_open`: a path that is open already is skipped, a failure ends the loop. -/
def devicesOpen (w : World) : List Probe → World × Bool
  | [] => (w, true)
  | p :: probes =>
    if w.devices.any (·.path = p.path) then devicesOpen w probes
    else
      match p.opening with
      | none => (w, false)
      | some o => devicesOpen (deviceOpen w p.path o) probes

def devicesDiscoverAndOpen (w : World) : Discovery → World × Bool
  | none => (w, false)
  | some probes => devicesOpen w probes

def Device.fds (d : Device) : List Nat :=
  d.bars.reduceOption ++ d.buffers.filterMap (·.fd) ++ (d.writer.bind (·.inputFd)).toList

/-- `device_ptr_array_rm_by_reference`, that is `cleanup_device`: buffers, writer, BARs. The queue
pairs and the memory map go with the QDMA handle. -/
def removeDevice (w : World) (id : Nat) : World :=
  match w.device? id with
  | none => w
  | some d => { w.closeFds d.fds with devices := w.devices.filter (·.id ≠ id) }

/-! ## Shells and resets -/

def shellBootPartition : ShellType → Option Nat
  | .service => some 0
  | .compute => some 1
  | _ => none

def shellFromBootPartition : Nat → ShellType
  | 0 => .service
  | 1 => .compute
  | _ => .unknown

def shellResetRequired (currentShell requiredShell : ShellType) : Bool :=
  currentShell = .unknown || currentShell ≠ requiredShell

def shellSwitchBlockedByJtag (currentShell requiredShell : ShellType) (jtag : Bool) : Bool :=
  jtag && shellResetRequired currentShell requiredShell

/-- The `errno` of a hot-plug call, as far as it is told apart. -/
inductive HotplugErrno where
  | einval
  | enodev
  | ebusy
  | eperm
  | other
  deriving DecidableEq, Repr

def hotplugErrnoToVrtdRet : HotplugErrno → Ret
  | .einval => .invalidArgument
  | .enodev => .noexist
  | .ebusy => .busy
  | .eperm => .authError
  | .other => .internalError

/-- How a reset goes: it fails before the device is taken off the list (no BDF can be made), it
fails after that (AMI, the bus), or the bus comes back and devices are looked for. -/
inductive ResetRun where
  | early
  | late (err : HotplugErrno)
  | rediscovered (found : Discovery)
  deriving DecidableEq, Repr

/-- The loop that records the booted shell: the first device with the address. -/
def setBootedShell (devices : List Device) (bdf : String) (shell : ShellType) : List Device :=
  match devices with
  | [] => []
  | d :: rest =>
    if d.bdf = bdf then { d with currentShell := shell } :: rest
    else d :: setBootedShell rest bdf shell

/-- The end of `reset_with_ami_partition_progress`: rediscovery and the booted shell. -/
def rediscover (w : World) (bdf : String) (partition : Nat) (found : Discovery) : World × Ret :=
  match devicesDiscoverAndOpen w found with
  | (w, false) => (w, .internalError)
  | (w, true) =>
    ({ w with devices := setBootedShell w.devices bdf (shellFromBootPartition partition) }, .ok)

def resetWithAmiPartition (w : World) (d : Device) (partition : Nat) : ResetRun → World × Ret
  | .early => (w, .internalError)
  | .late err => (removeDevice w d.id, hotplugErrnoToVrtdRet err)
  | .rediscovered found => rediscover (removeDevice w d.id) d.bdf partition found

/-- How the refresh of PF2 goes: a hot-plug call fails, the control device cannot be opened again,
or the BARs are opened anew. -/
inductive RefreshRun where
  | early (err : HotplugErrno)
  | ctlLost
  | reopened (bars : List (Option Nat))
  deriving DecidableEq, Repr

/-- `device_refresh_pf2_after_design_write`. -/
def deviceRefreshPf2 (w : World) (d : Device) : RefreshRun → World × Ret
  | .early err => (w, hotplugErrnoToVrtdRet err)
  | .ctlLost =>
    ((w.closeFds (d.bars.reduceOption)).updDevice d.id fun d =>
      { d with bars := d.bars.map fun _ => none }, .internalError)
  | .reopened wishes =>
    let (bars, w) := (w.closeFds (d.bars.reduceOption)).openFds (.bar d.id) wishes
    (w.updDevice d.id fun d => { d with bars := bars }, .ok)

/-! ## The design writer and the flash worker -/

/-- `design_writer_submit_fd_async`. -/
def designWriterSubmit (writer : DesignWriter) (fd : Nat) : Option DesignWriter :=
  if writer.busy ∨ writer.inputFd.isSome then none
  else some ⟨some fd, true, 0⟩

/-- `flash_worker_submit_job_async`; `inputFd` is none for a reset. -/
def flashWorkerSubmit (f : FlashWorker) (d : Device) (partition : Nat) (inputFd : Option Nat)
    (connId : U64) (client : Nat) : Option FlashWorker :=
  if f.job.isSome then none
  else
    some {
      job := some ⟨d.id, d.bdf, partition, inputFd, .programming⟩
      nextJobId := if f.nextJobId + 1 = 0 then 1 else f.nextJobId + 1
      jobId := f.nextJobId
      ownerConnId := connId
      result := .internalError
      submitter := client }

/-- The end of `design_writer_thread`'s loop: the input is closed and the result published. -/
def transferDone (w : World) (device error : Nat) : World :=
  match w.device? device with
  | none => w
  | some d =>
    match d.writer with
    | some ⟨some fd, true, _⟩ =>
      let w := w.note (.transferred ((w.object fd).getD 0) error)
      (w.closeFds [fd]).updDevice device fun d => { d with writer := some ⟨none, false, error⟩ }
    | _ => w

/-- `flash_worker_thread`: the reset takes the device off the list, later looks for devices again,
and in the end, or wherever it fails, the input is closed and the result published. -/
def workerRemove (w : World) (snap : Snapshot) : World :=
  match w.worker.job with
  | some j =>
    if j.stage = .programming then
      let w := removeDevice (w.note (.removing snap j.device)) j.device
      { w with worker := { w.worker with job := some { j with stage := .removed } } }
    else w
  | none => w

def workerDiscover (w : World) (found : Discovery) : World :=
  match w.worker.job with
  | some j =>
    if j.stage = .removed then
      let (w, ret) := rediscover w j.bdf j.partition found
      { w with worker := { w.worker with job := some { j with stage := .discovered ret } } }
    else w
  | none => w

def workerFinish (w : World) (err : HotplugErrno) : World :=
  match w.worker.job with
  | some j =>
    let result :=
      match j.stage with
      | .discovered ret => ret
      | _ => hotplugErrnoToVrtdRet err
    { w.closeFds j.inputFd.toList with
      worker := { w.worker with job := none, result := result } }
  | none => w

end Slash.Daemon
