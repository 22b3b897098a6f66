import Mathlib.Data.List.Basic

/-!
# Requests and responses

`requests.c` of libvrtd: a call sends one request, receives one message and gives up when either
fails. The connection delivers whole messages in order and the daemon answers every request once,
in order, so the answers a client has not received yet are a queue. Sequence numbers are sent as
1 and never looked at: nothing else ties a message to a request.
-/

namespace Slash.Libvrtd

open List

/-! ## The source -/

/-- `enum vrtd_ret`; a C enum may hold any value. -/
inductive Ret where
  | ok
  | badLibCall
  | badConn
  | badRequest
  | invalidArgument
  | noexist
  | internalError
  | authError
  | busy
  | shellLocked
  | other (value : Int)
  deriving DecidableEq, Repr

structure RespHeader where
  size : Nat
  ret : Ret
  seqno : Nat
  deriving DecidableEq, Repr

/-- A message of the daemon: its length, what its first eight bytes say, the bytes after them and
the descriptors that travel with it. -/
structure Datagram where
  length : Nat
  header : RespHeader
  body : List UInt8
  fds : List Nat
  deriving DecidableEq, Repr

def headerSize : Nat := 8

def msgMaxSize : Nat := 4096

/-- One connection: how many requests it has carried, and the answers that wait in the socket,
oldest first, with the number of the request that each one answers. -/
structure Conn where
  sent : Nat := 0
  unread : List (Nat × Datagram) := []
  deriving DecidableEq, Repr

/-- What a call returns: a code of its own, or what it took from a message. -/
inductive Reply where
  | own (ret : Ret)
  | taken (request : Nat) (ret : Ret) (body : List UInt8) (fds : List Nat)
  deriving DecidableEq, Repr

/-- `vrtd_recv_response_fds`. `respFds` is the capacity of the descriptor array, `none` for a null
pointer; the control buffer has room for two. A message that does not fit is gone all the
same. -/
def recvResponseFds (c : Conn) (bufSize : Nat) (respFds : Option Nat) (recvmsg : Bool) :
    Reply × Conn :=
  if ¬ recvmsg then (.own .badConn, c)
  else
    match c.unread with
    | [] => (.own .badConn, c)
    | (request, d) :: rest =>
      let c := { c with unread := rest }
      let control := if respFds.isSome then 2 else 0
      if d.length > headerSize + bufSize then (.own .badLibCall, c)
      else if d.fds.length > control then (.own .badLibCall, c)
      else if d.length < headerSize then (.own .badConn, c)
      else if d.length ≠ headerSize + d.header.size then (.own .badConn, c)
      else (.taken request d.header.ret d.body (d.fds.take (respFds.getD 0)), c)

def recvResponse (c : Conn) (bufSize : Nat) (respFd : Bool) (recvmsg : Bool) : Reply × Conn :=
  recvResponseFds c bufSize (if respFd then some 1 else none) recvmsg

/-- The sending half, shared by the two entry points: a request goes out whole or not at all, and
the daemon answers it. -/
def sendRequest (answers : Nat → Datagram) (c : Conn) (reqSize : Nat) (sendmsg : Bool) :
    Except Ret Conn :=
  if reqSize > msgMaxSize - headerSize then .error (.other (-1))
  else if ¬ sendmsg then .error .badConn
  else .ok ⟨c.sent + 1, c.unread ++ [(c.sent, answers c.sent)]⟩

def rawRequest (answers : Nat → Datagram) (c : Conn) (reqSize bufSize : Nat) (respFd : Bool)
    (sendmsg recvmsg : Bool) : Reply × Conn :=
  match sendRequest answers c reqSize sendmsg with
  | .error ret => (.own ret, c)
  | .ok c => recvResponse c bufSize respFd recvmsg

def rawRequestFds (answers : Nat → Datagram) (c : Conn) (reqSize bufSize : Nat)
    (respFds : Option Nat) (sendmsg recvmsg : Bool) : Reply × Conn :=
  match sendRequest answers c reqSize sendmsg with
  | .error ret => (.own ret, c)
  | .ok c => recvResponseFds c bufSize respFds recvmsg

/-! ## Any calls on a connection -/

inductive Entry where
  | rawRequest (respFd : Bool)
  | rawRequestFds (respFds : Option Nat)
  deriving DecidableEq, Repr

/-- A call, and whether `sendmsg` and `recvmsg` succeed in it. -/
structure Call where
  entry : Entry
  reqSize : Nat
  bufSize : Nat
  sendmsg : Bool
  recvmsg : Bool
  deriving DecidableEq, Repr

def Conn.call (answers : Nat → Datagram) (c : Conn) (call : Call) : Reply × Conn :=
  match call.entry with
  | .rawRequest respFd =>
    Libvrtd.rawRequest answers c call.reqSize call.bufSize respFd call.sendmsg call.recvmsg
  | .rawRequestFds respFds =>
    Libvrtd.rawRequestFds answers c call.reqSize call.bufSize respFds call.sendmsg call.recvmsg

/-- The replies of the calls, each with the number its own request has if it is sent. -/
def Conn.replies (answers : Nat → Datagram) : Conn → List Call → List (Nat × Reply)
  | _, [] => []
  | c, call :: calls =>
    let (reply, c') := c.call answers call
    (c.sent, reply) :: c'.replies answers calls

/-- What a reply took from a message, it took from the answer to its own request. -/
def Own : Nat × Reply → Prop
  | (_, .own _) => True
  | (number, .taken request _ _ _) => request = number

instance (r : Nat × Reply) : Decidable (Own r) :=
  match r with
  | (_, .own _) => inferInstanceAs (Decidable True)
  | (number, .taken request _ _ _) => inferInstanceAs (Decidable (request = number))

def Call.sends (call : Call) : Prop := call.reqSize ≤ msgMaxSize - headerSize ∧ call.sendmsg

def Call.receives (call : Call) : Prop := call.sends ∧ call.recvmsg

/-- After a call that sent its request and did not receive, no call receives. -/
def InStep (calls : List Call) : Prop :=
  calls.Pairwise fun c d => c.sends → ¬ c.receives → ¬ d.receives

/-! ## One call -/

theorem recvResponseFds_cons (sent request : Nat) (d : Datagram) (rest : List (Nat × Datagram))
    (bufSize : Nat) (respFds : Option Nat) :
    ∃ reply, recvResponseFds ⟨sent, (request, d) :: rest⟩ bufSize respFds true =
        (reply, ⟨sent, rest⟩) ∧
      ((∃ ret, reply = .own ret) ∨ ∃ ret body fds, reply = .taken request ret body fds) := by
  simp only [recvResponseFds, not_true_eq_false, if_false]
  split_ifs
  all_goals first
    | exact ⟨_, rfl, .inl ⟨_, rfl⟩⟩
    | exact ⟨_, rfl, .inr ⟨_, _, _, rfl⟩⟩

/-- The call after its arguments are read: it sends nothing, or sends and does not receive, or
sends and takes the oldest answer off the queue. -/
theorem call_cases (answers : Nat → Datagram) (c : Conn) (call : Call) :
    (¬ call.sends ∧ ∃ ret, c.call answers call = (.own ret, c)) ∨
    (call.sends ∧ ¬ call.receives ∧ c.call answers call =
      (.own .badConn, ⟨c.sent + 1, c.unread ++ [(c.sent, answers c.sent)]⟩)) ∨
    (call.receives ∧ ∃ bufSize respFds, c.call answers call =
      recvResponseFds ⟨c.sent + 1, c.unread ++ [(c.sent, answers c.sent)]⟩ bufSize respFds
        true) := by
  obtain ⟨entry, reqSize, bufSize, sendmsg, recvmsg⟩ := call
  have hsend : (∃ ret, sendRequest answers c reqSize sendmsg = .error ret ∧
        ¬ (reqSize ≤ msgMaxSize - headerSize ∧ sendmsg = true)) ∨
      (sendRequest answers c reqSize sendmsg =
        .ok ⟨c.sent + 1, c.unread ++ [(c.sent, answers c.sent)]⟩ ∧
        reqSize ≤ msgMaxSize - headerSize ∧ sendmsg = true) := by
    unfold sendRequest
    by_cases hsize : reqSize > msgMaxSize - headerSize
    · exact .inl ⟨_, if_pos hsize, fun h => by omega⟩
    · rw [if_neg hsize]
      cases sendmsg with
      | false => exact .inl ⟨_, rfl, fun h => by simp at h⟩
      | true => exact .inr ⟨rfl, by omega, rfl⟩
  rcases hsend with ⟨ret, herr, hno⟩ | ⟨hok, hyes⟩
  · refine .inl ⟨hno, ret, ?_⟩
    cases entry <;> simp only [Conn.call, rawRequest, rawRequestFds, herr]
  · refine .inr ?_
    cases recvmsg with
    | false =>
      have hno : ¬ (Call.mk entry reqSize bufSize sendmsg false).receives := fun h => by
        cases h.2
      refine .inl ⟨hyes, hno, ?_⟩
      cases entry <;> simp [Conn.call, rawRequest, rawRequestFds, hok, recvResponse,
        recvResponseFds]
    | true =>
      refine .inr ⟨⟨hyes, rfl⟩, ?_⟩
      cases entry with
      | rawRequest respFd =>
        refine ⟨bufSize, if respFd then some 1 else none, ?_⟩
        simp only [Conn.call, rawRequest, hok, recvResponse]
      | rawRequestFds respFds =>
        refine ⟨bufSize, respFds, ?_⟩
        simp only [Conn.call, rawRequestFds, hok]

/-! ## Calls in step -/

theorem replies_cons {answers : Nat → Datagram} {c c' : Conn} {call : Call} {reply : Reply}
    (h : c.call answers call = (reply, c')) (calls : List Call) :
    c.replies answers (call :: calls) = (c.sent, reply) :: c'.replies answers calls := by
  simp only [Conn.replies, h]

theorem own_of_no_receive (answers : Nat → Datagram) (calls : List Call) : ∀ c : Conn,
    (∀ d ∈ calls, ¬ d.receives) → ∀ r ∈ c.replies answers calls, Own r := by
  induction calls with
  | nil => exact fun c _ r hr => absurd hr not_mem_nil
  | cons call calls ih =>
    intro c hno r hr
    have htail : ∀ d ∈ calls, ¬ d.receives := fun d hd => hno d (mem_cons_of_mem _ hd)
    rcases call_cases answers c call with ⟨-, ret, heq⟩ | ⟨-, -, heq⟩ | ⟨hrecv, -⟩
    · rw [replies_cons heq] at hr
      rcases mem_cons.mp hr with rfl | hr
      · trivial
      · exact ih _ htail r hr
    · rw [replies_cons heq] at hr
      rcases mem_cons.mp hr with rfl | hr
      · trivial
      · exact ih _ htail r hr
    · exact absurd hrecv (hno call mem_cons_self)

/-- While no answer is left over, every call that receives takes its own. -/
theorem own_of_inStep (answers : Nat → Datagram) (calls : List Call) : ∀ sent : Nat,
    InStep calls → ∀ r ∈ Conn.replies answers ⟨sent, []⟩ calls, Own r := by
  induction calls with
  | nil => exact fun _ _ r hr => absurd hr not_mem_nil
  | cons call calls ih =>
    intro sent hstep r hr
    obtain ⟨hhead, htail⟩ := pairwise_cons.mp hstep
    rcases call_cases answers ⟨sent, []⟩ call with
      ⟨-, ret, heq⟩ | ⟨hsends, hno, heq⟩ | ⟨-, bufSize, respFds, heq⟩
    · rw [replies_cons heq] at hr
      rcases mem_cons.mp hr with rfl | hr
      · trivial
      · exact ih sent htail r hr
    · rw [replies_cons heq] at hr
      rcases mem_cons.mp hr with rfl | hr
      · trivial
      · exact own_of_no_receive answers calls _ (fun d hd => hhead d hd hsends hno) r hr
    · obtain ⟨reply, hrecv, hreply⟩ :=
        recvResponseFds_cons (sent + 1) sent (answers sent) [] bufSize respFds
      rw [replies_cons (heq.trans hrecv)] at hr
      rcases mem_cons.mp hr with rfl | hr
      · rcases hreply with ⟨ret, rfl⟩ | ⟨ret, body, fds, rfl⟩
        · trivial
        · rfl
      · exact ih (sent + 1) htail r hr

/-! ## Calls out of step -/

def emptyAnswer : Datagram := ⟨headerSize, ⟨0, .ok, 1⟩, [], []⟩

theorem recvResponseFds_empty (sent request : Nat) (rest : List (Nat × Datagram)) (bufSize : Nat)
    (respFds : Option Nat) :
    recvResponseFds ⟨sent, (request, emptyAnswer) :: rest⟩ bufSize respFds true =
      (.taken request .ok [] [], ⟨sent, rest⟩) := by
  simp [recvResponseFds, emptyAnswer]

/-- Once an answer is left over, the next call that receives takes it for its own. -/
theorem not_own_of_leftover (calls : List Call) : ∀ (sent request : Nat)
    (rest : List (Nat × Datagram)), request < sent → (∃ d ∈ calls, d.receives) →
    ∃ r ∈ Conn.replies (fun _ => emptyAnswer) ⟨sent, (request, emptyAnswer) :: rest⟩ calls,
      ¬ Own r := by
  induction calls with
  | nil => exact fun _ _ _ _ ⟨d, hd, _⟩ => absurd hd not_mem_nil
  | cons call calls ih =>
    intro sent request rest hlt hrecv
    have htail : ¬ call.receives → ∃ d ∈ calls, d.receives := by
      obtain ⟨d, hd, hdr⟩ := hrecv
      intro hno
      rcases mem_cons.mp hd with rfl | hd
      · exact absurd hdr hno
      · exact ⟨d, hd, hdr⟩
    rcases call_cases (fun _ => emptyAnswer) ⟨sent, (request, emptyAnswer) :: rest⟩ call with
      ⟨hno, ret, heq⟩ | ⟨-, hno, heq⟩ | ⟨-, bufSize, respFds, heq⟩
    · obtain ⟨r, hr, hbad⟩ := ih sent request rest hlt (htail fun h => hno h.1)
      exact ⟨r, by rw [replies_cons heq]; exact mem_cons_of_mem _ hr, hbad⟩
    · obtain ⟨r, hr, hbad⟩ := ih (sent + 1) request _ (by omega) (htail hno)
      exact ⟨r, by rw [replies_cons heq]; exact mem_cons_of_mem _ hr, hbad⟩
    · rw [cons_append, recvResponseFds_empty] at heq
      refine ⟨_, by rw [replies_cons heq]; exact mem_cons_self, fun hown => ?_⟩
      exact absurd (hown : request = sent) (Nat.ne_of_lt hlt)

theorem not_own_of_not_inStep (calls : List Call) : ∀ sent : Nat, ¬ InStep calls →
    ∃ r ∈ Conn.replies (fun _ => emptyAnswer) ⟨sent, []⟩ calls, ¬ Own r := by
  induction calls with
  | nil => exact fun _ h => absurd List.Pairwise.nil h
  | cons call calls ih =>
    intro sent hstep
    rcases call_cases (fun _ => emptyAnswer) ⟨sent, []⟩ call with
      ⟨hno, ret, heq⟩ | ⟨-, -, heq⟩ | ⟨hyes, bufSize, respFds, heq⟩
    · have htail : ¬ InStep calls := fun h =>
        hstep (pairwise_cons.mpr ⟨fun d _ hs => absurd hs hno, h⟩)
      obtain ⟨r, hr, hbad⟩ := ih sent htail
      exact ⟨r, by rw [replies_cons heq]; exact mem_cons_of_mem _ hr, hbad⟩
    · -- whatever breaks the step, some later call receives
      have hrecv : ∃ d ∈ calls, d.receives := by
        by_contra hnone
        have hall : ∀ d ∈ calls, ¬ d.receives := fun d hd h => hnone ⟨d, hd, h⟩
        refine hstep (pairwise_cons.mpr ⟨fun d hd _ _ => hall d hd, ?_⟩)
        exact pairwise_of_forall_mem_list fun _ _ d hd _ _ => hall d hd
      obtain ⟨r, hr, hbad⟩ := not_own_of_leftover calls (sent + 1) sent [] (by omega) hrecv
      exact ⟨r, by rw [replies_cons heq]; exact mem_cons_of_mem _ hr, hbad⟩
    · have htail : ¬ InStep calls := fun h =>
        hstep (pairwise_cons.mpr ⟨fun d _ _ hn => absurd hyes hn, h⟩)
      rw [nil_append, recvResponseFds_empty] at heq
      obtain ⟨r, hr, hbad⟩ := ih (sent + 1) htail
      exact ⟨r, by rw [replies_cons heq]; exact mem_cons_of_mem _ hr, hbad⟩

/-- Whatever the daemon answers, every call returns what belongs to its own request, exactly when
no call receives after one that sent its request and failed to receive. -/
theorem responses_in_step (calls : List Call) :
    (∀ answers, ∀ r ∈ Conn.replies answers {} calls, Own r) ↔ InStep calls := by
  constructor
  · intro h
    by_contra hstep
    obtain ⟨r, hr, hbad⟩ := not_own_of_not_inStep calls 0 hstep
    exact hbad (h _ r hr)
  · exact fun h answers => own_of_inStep answers calls 0 h

/-- `recvmsg` of the first call is interrupted by a signal; the second call, for another device,
gets the first one's answer. -/
theorem interrupted_receive_shifts : ¬ ∀ r ∈ Conn.replies
    (fun n => ⟨headerSize, ⟨0, if n = 0 then .ok else .noexist, 1⟩, [], []⟩) {}
    [⟨.rawRequest false, 4, 0, true, false⟩, ⟨.rawRequest false, 4, 0, true, true⟩], Own r := by
  decide

end Slash.Libvrtd
