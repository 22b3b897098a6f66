import Mathlib.Data.List.ReduceOption
import Slash.Lib.Ledger
import Slash.Libvrtd.Requests
import Slash.Vrtd.Allocator

/-!
# The state of vrtd

`struct vrtd` and what hangs off it: the devices with their buffers, queue pairs and design
writers, the flash worker, and the connected clients with their request and response slots. The
kernel's descriptor table is part of the state, because the daemon keeps bare numbers.

Three things are kept that no code reads: the identity of every object (a pointer or an open file
is a number handed out once), who is to close a descriptor, and a history of what happened, with
every call that opened or closed a descriptor. Freed memory that is read anyway gives whatever the
environment chooses.
-/

namespace Slash.Daemon

open Lib
open Libvrtd (Ret)
open Vrtd

/-! ## Requests -/

/-- `enum vrtd_shell_type`; a C enum may hold any value. -/
inductive ShellType where
  | unknown
  | service
  | compute
  | other (value : Nat)
  deriving DecidableEq, Repr

inductive AllocDir where
  | bidirectional
  | hostToDevice
  | deviceToHost
  | other (value : Nat)
  deriving DecidableEq, Repr

inductive QueueOp where
  | start
  | stop
  | del
  | other (value : Nat)
  deriving DecidableEq, Repr

/-- `VRTD_DEVICE_HOTPLUG_OP_*`. -/
inductive HotplugOp where
  | rescan
  | remove
  | toggleSbr
  | hotplug
  | resetSequence
  | other (value : Nat)
  deriving DecidableEq, Repr

inductive Query where
  | getNumDevices
  | getDeviceInfo
  | getDeviceByBdf
  | getBarInfo
  | qdmaGetInfo
  | clockOp
  | getSensorInfo
  deriving DecidableEq, Repr

/-- `struct vrtd_req_cfgmem_program`. -/
structure CfgmemProgram where
  devNumber : Nat
  bootDevice : Nat
  reserved : List Nat
  partition : Nat
  deriving DecidableEq, Repr

inductive Request where
  | query (op : Query)
  | getBarFd (devNumber barNumber : Nat)
  | qdmaQpairAdd (devNumber : Nat)
  | qdmaQpairOp (devNumber qid : Nat) (op : QueueOp)
  | qdmaQpairGetFd (devNumber qid : Nat)
  | bufferOpen (devNumber : Nat) (allocType : AllocationType) (allocDir : AllocDir)
      (mmChannel : Nat) (allocArg size : U64)
  | bufferOpenRaw (devNumber : Nat) (allocDir : AllocDir) (mmChannel : Nat) (physAddr size : U64)
  | bufferClose (devNumber : Nat) (physAddr size : U64)
  | designWrite (devNumber : Nat) (requiredShell : ShellType)
  | setShellState (devNumber : Nat) (shellType : ShellType) (jtag : Nat)
  | cfgmemProgram (body : CfgmemProgram)
  | cfgmemProgramStart (body : CfgmemProgram)
  | cfgmemProgramStatus (jobId : U64)
  | deviceHotplugOp (devNumber : Nat) (op : HotplugOp) (function : Nat) (shellType : ShellType)
  | unknown (opcode : Nat)
  deriving DecidableEq, Repr

/-- The `opcode` test of `client_request_is_cfgmem_status`. -/
def Request.isCfgmemStatus : Request → Bool
  | .cfgmemProgramStatus _ => true
  | _ => false

structure Message where
  size : Nat
  seqno : Nat
  request : Request
  deriving DecidableEq, Repr

/-! ## Devices -/

/-- A queue pair of the QDMA driver. `owner` is the connection whose buffer added it, none for one
that a client added itself; `refused` records that the driver would not delete it. -/
structure Qpair where
  qid : Nat
  dirMask : Nat
  mmChannel : Nat
  started : Bool
  owner : Option U64
  refused : Bool
  deriving DecidableEq, Repr

structure Buffer where
  id : Nat
  allocType : AllocationType
  clientId : U64
  addr : U64
  size : U64
  qids : List Nat
  fd : Option Nat
  allocationValid : Bool
  deriving DecidableEq, Repr

/-- `struct design_writer`: the one slot that its thread and the event loop share. -/
structure DesignWriter where
  inputFd : Option Nat := none
  busy : Bool := false
  lastError : Nat := 0
  deriving DecidableEq, Repr

/-- `struct device`. `path` and `bdf` are what devices are told apart by; the memory map is never
null; `bars` are the descriptors of the six BAR files. -/
structure Device where
  id : Nat
  path : String
  bdf : String
  qdma : Bool
  memoryMap : DeviceMemoryMap
  writer : Option DesignWriter
  bars : List (Option Nat)
  buffers : List Buffer
  currentShell : ShellType
  jtag : Bool
  qpairs : List Qpair

def Device.writerBusy (d : Device) : Bool := d.writer.any (·.busy)

/-- How far a job of the flash worker has come with the device list. -/
inductive Stage where
  | programming
  | removed
  | discovered (ret : Ret)
  deriving DecidableEq, Repr

structure Job where
  device : Nat
  bdf : String
  partition : Nat
  inputFd : Option Nat
  stage : Stage
  deriving DecidableEq, Repr

/-- `struct flash_worker`. `submitter` is the client whose request started the current or last
job. -/
structure FlashWorker where
  job : Option Job := none
  nextJobId : U64 := 1
  jobId : U64 := 0
  ownerConnId : U64 := 0
  result : Ret := .internalError
  submitter : Nat := 0
  deriving DecidableEq, Repr

/-! ## Descriptors and the history -/

/-- Who closes a descriptor. `handedOut` ones are left open after they were sent; `stray` ones
came with a message whose ancillary data was not taken. -/
inductive Holder where
  | socket (client : Nat)
  | inbound (client : Nat)
  | bar (device : Nat)
  | transfer (device : Nat) (conn : U64) (buffer : Nat)
  | writer (device : Nat)
  | worker
  | handedOut
  | stray
  deriving DecidableEq, Repr

structure Descriptor where
  object : Nat
  holder : Holder
  deriving DecidableEq, Repr

/-- What holds when a request is dispatched, a design write is finalised or the worker removes a
device: the devices, those with a client that waits for a design write, the holders of the
descriptors in responses that were not sent yet, and the flag of an async operation. -/
structure Snapshot where
  devices : List Device
  pending : List Nat
  unsent : List Holder
  async : Bool

inductive Note where
  | connected (taken : List U64) (connId : U64)
  | dispatched (snap : Snapshot) (client : Nat) (inFd : Option Nat) (m : Message)
  | finalising (snap : Snapshot) (device : Nat)
  | removing (snap : Snapshot) (device : Nat)
  | submitted (client object device : Nat)
  | transferred (object error : Nat)
  | answered (client object error : Nat) (ret : Ret)
  | passed (client number : Nat) (found selected : Option Nat)

/-! ## The daemon -/

/-- What the handlers share. `next` is the next identity, `log` the history, newest first, and
`ledger` the calls that opened and closed descriptors. -/
structure World where
  devices : List Device
  worker : FlashWorker
  asyncInProgress : Bool
  deferred : List U64
  fds : Handles Descriptor
  next : Nat
  log : List Note
  ledger : Ledger Descriptor

/-- A response in `outb`: its header and the descriptor to attach. `object` is what the handler
selected. -/
structure Response where
  seqno : Nat
  ret : Ret
  fd : Option Nat
  object : Option Nat
  deriving DecidableEq, Repr

/-- An epoll mask without `EPOLLRDHUP`, which is always in it. -/
structure Mask where
  input : Bool
  output : Bool
  deriving DecidableEq, Repr

/-- The device of a pending design write and the file that was submitted. -/
structure PendingWrite where
  device : Nat
  object : Nat
  deriving DecidableEq, Repr

/-- `struct client`. `held` is `have_request` with `inb`, `response` is `have_response` with
`outb`; `wanted` is none while `wanted_epoll_events` is still 0. `armed` and `enabled` belong
to the event source. -/
structure Client where
  id : Nat
  fd : Nat
  connId : U64
  inFd : Option Nat := none
  held : Option Message := none
  response : Option Response := none
  newResponse : Bool := false
  pendingDesignWrite : Option PendingWrite := none
  pendingAsyncOp : Bool := false
  wanted : Option Mask := none
  armed : Mask := ⟨true, false⟩
  enabled : Bool := true
  deriving DecidableEq, Repr

/-- `struct vrtd`. -/
structure State where
  world : World
  clients : List Client
  nextConnId : U64

def snapshot (w : World) (clients : List Client) : Snapshot where
  devices := w.devices
  pending := clients.filterMap fun c => c.pendingDesignWrite.map (·.device)
  unsent := clients.filterMap fun c =>
    (c.response.bind (·.fd)).bind fun n => (w.fds.get? n).map (·.holder)
  async := w.asyncInProgress

end Slash.Daemon
