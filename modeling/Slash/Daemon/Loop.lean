import Slash.Daemon.Handlers
import Slash.Lib.Run

/-!
# The event loop

`on_client_io`, `on_event_deferred_work` and `on_event_new_connection` of vrtd, and the threads
that run beside them, as steps of one state. Which event comes next, what the sockets do and what
the kernel answers is up to the environment; sd-event disables a client's source when its callback
fails and does nothing else.
-/

namespace Slash.Daemon

open Lib
open Libvrtd (Ret headerSize msgMaxSize)
open Vrtd (U64)

/-! ## Receiving -/

/-- A control message. `ragged` is a payload that is not a whole number of descriptors. -/
inductive Cmsg where
  | rights (fds : List Nat) (ragged : Bool)
  | other
  deriving DecidableEq, Repr

/-- What `recvmsg` delivers: the flags, the length, the header and body, the ancillary data with
the numbers wished for the descriptors in it. -/
structure Incoming where
  truncated : Bool := false
  length : Nat
  message : Message
  control : List Cmsg := []
  deriving DecidableEq, Repr

inductive Recv where
  | again
  | error
  | message (i : Incoming)
  deriving DecidableEq, Repr

/-- The kernel installs the descriptors of the ancillary data. -/
def install (w : World) : List Cmsg → List Cmsg × World
  | [] => ([], w)
  | .other :: control =>
    let (control, w) := install w control
    (.other :: control, w)
  | .rights fds ragged :: control =>
    let (ns, w) := w.openFds .stray (fds.map some)
    let (control, w) := install w control
    (.rights (ns.reduceOption) ragged :: control, w)

/-- The walk over the control messages; what is refused is closed, what comes after is not looked
at any more. -/
def takeRights (w : World) (c : Client) : List Cmsg → World × Client × Bool
  | [] => (w, c, true)
  | .other :: control => takeRights w c control
  | .rights fds ragged :: control =>
    if ragged then (w.closeFds fds, c, false)
    else
      match fds, c.inFd with
      | [fd], none => takeRights (w.hold fd (.inbound c.id)) { c with inFd := some fd } control
      | _, _ => (w.closeFds fds, c, false)

/-- The framing test at the end of `client_handle_in`. -/
def Incoming.framed (i : Incoming) : Bool :=
  headerSize ≤ i.length && i.message.size + headerSize = i.length &&
    i.message.size ≤ msgMaxSize - headerSize

/-- `client_handle_in`; the last component is false for -1. -/
def clientHandleIn (w : World) (c : Client) (recv : Recv) : World × Client × Bool :=
  let w := w.closeFds c.inFd.toList
  let c := { c with inFd := none }
  match recv with
  | .again => (w, c, true)
  | .error => (w, c, false)
  | .message i =>
    let (control, w) := install w i.control
    if i.truncated then (w, c, false)
    else
      match takeRights w c control with
      | (w, c, false) => (w, c, false)
      | (w, c, true) =>
        if i.framed then (w, { c with held := some i.message }, true) else (w, c, false)

/-! ## Dispatching -/

def clientHandleRequest (w : World) (snap : Snapshot) (c : Client) (m : Message) (k : Answers) :
    World × Client :=
  let w := w.note (.dispatched snap c.id c.inFd m)
  let (w, h) := handleRequest w snap.pending c.id c.connId c.inFd m k
  let c := { c with
    inFd := if h.consumed then none else c.inFd
    pendingDesignWrite := h.designWrite <|> c.pendingDesignWrite
    pendingAsyncOp := c.pendingAsyncOp || h.asyncOp }
  if c.pendingDesignWrite.isSome ∨ c.pendingAsyncOp then (w, c)
  else
    (w.closeFds c.inFd.toList, { c with
      inFd := none
      held := none
      response := some ⟨m.seqno, h.ret, h.fd, h.fd.bind w.object⟩
      newResponse := true })

/-! ## Sending -/

inductive Send where
  | again
  | error
  | short
  | sent
  deriving DecidableEq, Repr

/-- `client_handle_out`. A descriptor that is not open fails the call. -/
def clientHandleOut (w : World) (c : Client) (send : Send) : World × Client × Bool :=
  match c.response with
  | none => (w, c, true)
  | some r =>
    let w :=
      match r.fd with
      | none => w
      | some n => w.note (.passed c.id n (w.object n) r.object)
    if r.fd.any fun n => (w.object n).isNone then (w, c, false)
    else
      match send with
      | .again => (w, c, true)
      | .error | .short => (w, c, false)
      | .sent => (w, { c with response := none }, true)

/-- `client_update_wanted_epoll_events`. -/
def clientUpdateWanted (c : Client) : Client :=
  let mask : Mask := ⟨c.held.isNone, c.response.isSome⟩
  if c.wanted = some mask then c else { c with wanted := some mask, armed := mask }

/-! ## Disconnecting -/

/-- `defer_buffer_cleanup`; `push` is whether the array can grow. -/
def deferBufferCleanup (w : World) (connId : U64) (push : Bool) : World :=
  if connId = 0 ∨ connId ∈ w.deferred ∨ ¬ push then w
  else { w with deferred := w.deferred ++ [connId] }

def cleanupClientBuffers (w : World) (c : Client) (push : Bool) (k : Driver) : World :=
  if c.connId = 0 then w
  else if w.asyncInProgress then deferBufferCleanup w c.connId push
  else cleanupBuffersForConnId w c.connId k

def cleanupClient (w : World) (c : Client) (push : Bool) (k : Driver) : World :=
  (cleanupClientBuffers w c push k).closeFds (c.inFd.toList ++ [c.fd])

/-! ## The callback of a client -/

structure Revents where
  hangup : Bool := false
  input : Bool := false
  output : Bool := false
  deriving DecidableEq, Repr

/-- The answers to the calls of one callback. -/
structure IoAnswers where
  recv : Recv := .again
  answers : Answers := {}
  send : Send := .sent
  /-- Room for one more deferred cleanup. -/
  push : Bool := true

/-- Step 1 of `on_client_io`. -/
def receiveStep (w : World) (c : Client) (r : Revents) (a : IoAnswers) : World × Client × Bool :=
  if c.held.isNone ∧ r.input then clientHandleIn w c a.recv else (w, c, true)

/-- Step 2: a request runs unless its slot for the response is taken or an async operation owns
the devices. -/
def dispatchStep (w : World) (snap : Snapshot) (c : Client) (k : Answers) : World × Client :=
  match c.held with
  | none => (w, c)
  | some m =>
    if c.response.isNone ∧ (w.asyncInProgress = false ∨ m.request.isCfgmemStatus) then
      clientHandleRequest w snap c m k
    else (w, c)

/-- Step 3. -/
def sendStep (w : World) (c : Client) (r : Revents) (send : Send) : World × Client × Bool :=
  if c.response.isSome ∧ r.output ∨ c.newResponse then
    clientHandleOut w { c with newResponse := false } send
  else (w, c, true)

inductive Outcome where
  | dropped
  | failed (c : Client)
  | kept (c : Client)
  deriving DecidableEq, Repr

/-- `on_client_io`; `clients` are for the history. -/
def onClientIo (w : World) (clients : List Client) (c : Client) (r : Revents) (a : IoAnswers) :
    World × Outcome :=
  if r.hangup then (cleanupClient w c a.push a.answers.driver, .dropped)
  else
    match receiveStep w c r a with
    | (w, c, false) => (w, .failed c)
    | (w, c, true) =>
      let (w, c) := dispatchStep w (snapshot w clients) c a.answers
      match sendStep w c r a.send with
      | (w, c, false) => (w, .failed c)
      | (w, c, true) => (w, .kept (clientUpdateWanted c))

/-! ## The timer -/

/-- What freed memory holds and how the refresh goes when a design write is finalised. -/
structure FinalAnswers where
  stale : Bool × Nat := (true, 0)
  staleRet : Ret := .internalError
  refresh : RefreshRun := .reopened []

/-- `client_finalize_pending_design_write` with the update of the mask that follows it. -/
def clientFinalizePendingDesignWrite (w : World) (snap : Snapshot) (c : Client)
    (a : FinalAnswers) : World × Client :=
  match c.pendingDesignWrite with
  | none => (w, c)
  | some p =>
    let (finished, error) :=
      match w.device? p.device with
      | none => a.stale
      | some d =>
        match d.writer with
        | none => (true, 5)
        | some writer => (!writer.busy, writer.lastError)
    if ¬ finished then (w, c)
    else
      let w := w.note (.finalising snap p.device)
      let (w, ret) :=
        if error ≠ 0 then (w, .internalError)
        else
          match w.device? p.device with
          | none => (w, a.staleRet)
          | some d => deviceRefreshPf2 w d a.refresh
      (w.note (.answered c.id p.object error ret), clientUpdateWanted { c with
        pendingDesignWrite := none
        held := none
        response := some ⟨(c.held.map (·.seqno)).getD 0, ret, none, none⟩
        newResponse := true })

/-- The loop of the timer over the clients, those before this one first. -/
def finalizeAll (w : World) (a : Nat → FinalAnswers) (before : List Client) :
    List Client → World × List Client
  | [] => (w, before)
  | c :: rest =>
    let (w, c) :=
      clientFinalizePendingDesignWrite w (snapshot w (before ++ c :: rest)) c (a c.id)
    finalizeAll w a (before ++ [c]) rest

/-- `client_deliver_async_device_op_result` with the update of the mask that follows it. -/
def clientDeliverAsyncDeviceOpResult (result : Ret) (c : Client) : Client :=
  clientUpdateWanted { c with
    pendingAsyncOp := false
    held := none
    response := some ⟨(c.held.map (·.seqno)).getD 0, result, none, none⟩
    newResponse := true }

/-- `drain_deferred_requests`: requests that waited are dispatched until one of them starts an
async operation. -/
def drainDeferredRequests (w : World) (k : Nat → Answers) (before : List Client) :
    List Client → World × List Client
  | [] => (w, before)
  | c :: rest =>
    match c.held, c.response with
    | some m, none =>
      if c.pendingDesignWrite.isSome ∨ c.pendingAsyncOp then
        drainDeferredRequests w k (before ++ [c]) rest
      else
        let (w, c) := clientHandleRequest w (snapshot w (before ++ c :: rest)) c m (k c.id)
        let c := clientUpdateWanted c
        if w.asyncInProgress then (w, before ++ c :: rest)
        else drainDeferredRequests w k (before ++ [c]) rest
    | _, _ => drainDeferredRequests w k (before ++ [c]) rest

structure TimerAnswers where
  answers : Nat → Answers := fun _ => {}
  final : Nat → FinalAnswers := fun _ => {}
  driver : Driver := ({} : Answers).driver

/-- `process_async_device_op_completion` once the worker is done: the flag is cleared, the deferred
cleanups run, and whoever waits gets the result. -/
def collectAsyncResult (w : World) (clients : List Client) (k : Driver) : World × List Client :=
  (drainDeferredBufferCleanups { w with asyncInProgress := false } k,
    clients.map fun c =>
      if c.pendingAsyncOp then clientDeliverAsyncDeviceOpResult w.worker.result c else c)

def onEventDeferredWork (s : State) (a : TimerAnswers) : State :=
  if s.world.asyncInProgress then
    if s.world.worker.job.isSome then s
    else
      let (w, clients) := collectAsyncResult s.world s.clients a.driver
      let (w, clients) := drainDeferredRequests w a.answers [] clients
      { s with world := w, clients := clients }
  else
    let (w, clients) := finalizeAll s.world a.final [] s.clients
    { s with world := w, clients := clients }

/-! ## Steps -/

inductive Event where
  | accept (fd : Nat)
  | io (client : Nat) (r : Revents) (a : IoAnswers)
  | timer (a : TimerAnswers)
  | transferDone (device error : Nat)
  | workerRemove
  | workerDiscover (found : Discovery)
  | workerFinish (err : HotplugErrno)

/-- `on_event_new_connection`, for a connection whose set-up succeeds. -/
def acceptClient (s : State) (fd : Nat) : State :=
  let connId := if s.nextConnId + 1 = 0 then 1 else s.nextConnId + 1
  let id := s.world.next
  let (n, w) := { s.world with next := s.world.next + 1 }.openFd fd (.socket id)
  let w := w.note (.connected (s.clients.map (·.connId) ++ w.deferred) connId)
  { world := w, clients := s.clients ++ [{ id := id, fd := n, connId := connId }],
    nextConnId := connId }

/-- A callback runs if its source is enabled; one that fails disables it. -/
def ioStep (s : State) (id : Nat) (r : Revents) (a : IoAnswers) : State :=
  match s.clients.find? (·.id = id) with
  | none => s
  | some c =>
    if ¬ c.enabled then s
    else
      let put (c : Client) := s.clients.map fun x => if x.id = id then c else x
      match onClientIo s.world s.clients c r a with
      | (w, .dropped) => { s with world := w, clients := s.clients.filter (·.id ≠ id) }
      | (w, .failed c) => { s with world := w, clients := put { c with enabled := false } }
      | (w, .kept c) => { s with world := w, clients := put c }

def step (s : State) : Event → State
  | .accept fd => acceptClient s fd
  | .io id r a => ioStep s id r a
  | .timer a => onEventDeferredWork s a
  | .transferDone device error => { s with world := transferDone s.world device error }
  | .workerRemove =>
    { s with world := workerRemove s.world (snapshot s.world s.clients) }
  | .workerDiscover found => { s with world := workerDiscover s.world found }
  | .workerFinish err => { s with world := workerFinish s.world err }

def boot (found : Discovery) : State where
  world := (devicesDiscoverAndOpen ⟨[], {}, false, [], [], 0, [], {}⟩ found).1
  clients := []
  nextConnId := 0

def run (found : Discovery) (events : List Event) : State := runFrom step (boot found) events

/-! ## Connections that are not taken -/

/-- Where the set-up of an accepted connection gives up: `calloc` has no memory, a call of
`create_client_event` after it fails, the list of clients cannot grow. `stale` is what the
freed record holds when it is cleaned up a second time, none if that is what `cleanup_client`
left in it. -/
inductive SetUpFailure where
  | outOfMemory
  | setUp (stale : Option Client) (push : Bool) (k : Driver)
  | unlisted (push : Bool) (k : Driver)

/-- The record of a client as `calloc` gives it: no connection, and both descriptors are 0. -/
def zeroedClient : Client := { id := 0, fd := 0, connId := 0, inFd := some 0 }

/-- `on_event_new_connection`, for a connection whose set-up fails. -/
def refuseClient (s : State) (fd : Nat) : SetUpFailure → State
  | .outOfMemory =>
    let (n, w) := s.world.openFd fd (.socket s.world.next)
    { s with world := w.closeFds [n] }
  | .setUp stale push k =>
    let (n, w) := s.world.openFd fd (.socket s.world.next)
    let w := (cleanupClient w zeroedClient push k).closeFds [n]
    { s with world := stale.elim w fun c => cleanupClient w c push k }
  | .unlisted push k =>
    let s' := acceptClient s fd
    match s'.clients.getLast? with
    | some c => { s' with world := cleanupClient s'.world c push k, clients := s.clients }
    | none => s'

/-- The events of the loop, and connections that come to nothing. -/
inductive Happening where
  | event (e : Event)
  | refused (fd : Nat) (failure : SetUpFailure)

def happen (s : State) : Happening → State
  | .event e => step s e
  | .refused fd failure => refuseClient s fd failure

end Slash.Daemon
