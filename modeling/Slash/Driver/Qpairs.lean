import Mathlib.Data.List.Nodup
import Slash.Lib.Run

/-!
# Queue pairs under failing calls (`driver/slash_qdma.c`)

A queue pair is an entry of the device's table (`qpairs`, an xarray) together with one libqdma
queue per direction. `QPAIR_ADD` takes the lowest free id, adds the queues one after another and
rolls back what it added when one of them fails; `START`, `STOP` and `DEL` walk over the pair's
directions. Both take the device lock, so a run is a sequence of requests.

Every call of libqdma and every copy to or from the caller may fail. What they answer is part of
the request here (`Answers`, `Copies`), so quantifying over requests is quantifying over every
pattern of failures. libqdma itself is the queues that exist: it knows one by its index and
type, refuses to add one that is there, and a call that fails leaves its queue as it was.

Three things go wrong. The rollback swallows the error of a removal and gives the id back while
the queue is still there; a failing copy back to the caller turns an add that was done into an
error; and a delete that removes one direction and not another keeps both in the entry. A run
without them keeps table and queues in step (`InStep`).
-/

namespace Slash.Driver

open List Function

/-! ## 1. The device -/

/-- The errors the two ioctls return by themselves, and those handed on from libqdma. -/
inductive Errno where
  | efault | einval | enodev | enoent | enomem | ebusy | ebadf
  | libqdma (code : Nat)
  deriving DecidableEq, Repr

/-- `enum queue_type_t`, in the order the loops visit. -/
inductive QType where
  | h2c | c2h | cmpt
  deriving DecidableEq, Repr

def QType.all : List QType := [.h2c, .c2h, .cmpt]

/-- `slash_qdma_qtype_to_dir` -/
def QType.toDir : QType → Nat
  | .h2c => 1
  | .c2h => 2
  | .cmpt => 4

/-- A queue that exists has been added (`Q_STATE_ENABLED`) or started (`Q_STATE_ONLINE`). -/
inductive QState where
  | enabled | online
  deriving DecidableEq, Repr

structure Handle where
  qidx : Nat
  qtype : QType
  deriving DecidableEq, Repr

/-- The queues libqdma has; one that is absent reads as `Q_STATE_DISABLED`. -/
abbrev Queues := Handle → Option QState

/-- `struct slash_qdma_qpair_entry`: `dir_mask` and the handles, `none` for
`QDMA_QUEUE_IDX_INVALID`. -/
structure Entry where
  dirs : QType → Bool
  qhndl : QType → Option Handle

def Entry.empty : Entry := ⟨fun _ => false, fun _ => none⟩

structure Dev where
  hwShutdown : Bool
  haveQdmaHandle : Bool
  qpairs : Nat → Option Entry
  queues : Queues

/-- What libqdma answers within one request: each call is made at most once per direction. A
`query` that fails also stands for an unexpected state, which is reported as `EINVAL`. -/
structure Answers where
  add : QType → Option Errno
  config : QType → Option Errno
  query : QType → Option Errno
  stop : QType → Option Errno
  remove : QType → Option Errno
  start : QType → Option Errno

/-- Which of the copies between kernel and caller succeed. -/
structure Copies where
  sizeIn : Bool
  structIn : Bool
  structOut : Bool
  clearOut : Bool
  deriving DecidableEq, Repr

/-! ## 2. Calls of libqdma -/

/-- A call that answers `answer` and moves an existing queue to `state` when it succeeds. -/
def queueMove (answer : Option Errno) (state : QState) (q : Queues) (h : Handle) :
    Queues × Option Errno :=
  match q h with
  | none => (q, some .einval)
  | some _ =>
    match answer with
    | some e => (q, some e)
    | none => (update q h (some state), none)

/-- `qdma_queue_remove` -/
def queueRemove (a : Answers) (q : Queues) (h : Handle) : Queues × Option Errno :=
  match a.remove h.qtype with
  | some e => (q, some e)
  | none => (update q h none, none)

def queueRemoveSafe (a : Answers) (q : Queues) (h : Handle) : Queues × Option Errno :=
  match a.query h.qtype with
  | some e => (q, some e)
  | none =>
    match q h with
    | none => (q, none)
    | some .enabled => queueRemove a q h
    | some .online =>
      match a.stop h.qtype with
      | some e => (q, some e)
      | none => queueRemove a (update q h (some .enabled)) h

/-! ## 3. `QPAIR_ADD` -/

/-- `slash_qdma_ioctl_qpair_add_q`: the queue is recorded in the entry only once it has been
configured. -/
def qpairAddQ (a : Answers) (qid : Nat) (q : Queues) (entry : Entry) (t : QType) :
    Queues × Entry × Option Errno :=
  let h : Handle := ⟨qid, t⟩
  match q h, a.add t with
  | some _, _ => (q, entry, some .einval)
  | none, some e => (q, entry, some e)
  | none, none =>
    let added := update q h (some QState.enabled)
    match a.config t with
    | some e => ((queueRemoveSafe a added h).1, entry, some e)
    | none =>
      (added, ⟨update entry.dirs t true, update entry.qhndl t (some h)⟩, none)

/-- `slash_qdma_ioctl_qpair_rm_q`: the error of the removal goes to the log only. -/
def qpairRmQ (a : Answers) (w : Queues × Entry) (t : QType) : Queues × Entry :=
  let cleared : Entry := ⟨update w.2.dirs t false, update w.2.qhndl t none⟩
  match w.2.qhndl t with
  | none => (w.1, cleared)
  | some h =>
    match queueRemoveSafe a w.1 h with
    | (q, some _) => (q, w.2)
    | (q, none) => (q, cleared)

/-- The loop over the requested directions, with the `added` array as the list of those done. -/
def qpairAddQs (a : Answers) (qid : Nat) (q : Queues) (entry : Entry) (added : List QType) :
    List QType → Queues × Entry × List QType × Option Errno
  | [] => (q, entry, added, none)
  | t :: ts =>
    match qpairAddQ a qid q entry t with
    | (q, entry, some e) => (q, entry, added, some e)
    | (q, entry, none) => qpairAddQs a qid q entry (added ++ [t]) ts

/-- The request as it stands after the copy in, with what its calls will answer. -/
structure AddRequest where
  size : Nat
  mode : Nat
  dirMask : Nat
  mmChannel : Nat
  h2cRingSz : Nat
  c2hRingSz : Nat
  cmptRingSz : Nat
  apertureSize : Nat
  copies : Copies
  allocFails : Bool
  insertFails : Bool
  answers : Answers

def AddRequest.dirs (r : AddRequest) : List QType :=
  QType.all.filter fun t => r.dirMask &&& t.toDir != 0

/-- `SLASH_QDMA_QPAIR_ADD_MIN_SIZE` and `sizeof (struct slash_qdma_qpair_add)`. -/
def addMinSize : Nat := 28

def addSize : Nat := 36

/-- The checks of `slash_qdma_ioctl_qpair_add_w` before the lock, in order. -/
def AddRequest.check (r : AddRequest) : Option Errno :=
  if !r.copies.sizeIn then some .efault
  else if r.size < addMinSize then some .einval
  else if !r.copies.structIn then some .efault
  else if r.dirMask &&& 7 = 0 ∨ r.dirMask &&& 7 ≠ r.dirMask then some .einval
  else if r.mode ≠ 0 ∧ r.mode ≠ 1 then some .einval
  else if 16 ≤ r.h2cRingSz ∨ 16 ≤ r.c2hRingSz ∨ 16 ≤ r.cmptRingSz then some .einval
  else if 2 < r.mmChannel then some .einval
  else if r.apertureSize ≠ 0 ∧ r.apertureSize &&& (r.apertureSize - 1) ≠ 0 then some .einval
  else none

def maxQpairs : Nat := 256

def Dev.freeId (d : Dev) : Option Nat :=
  (List.range maxQpairs).find? fun id => (d.qpairs id).isNone

/-- `slash_qdma_ioctl_qpair_add` -/
def qpairAdd (d : Dev) (r : AddRequest) : Dev × Except Errno Nat :=
  if r.allocFails then (d, .error .enomem)
  else if r.insertFails then (d, .error .enomem)
  else
    match d.freeId with
    | none => (d, .error .ebusy)
    | some qid =>
      match qpairAddQs r.answers qid d.queues .empty [] r.dirs with
      | (q, entry, _, none) =>
        ({ d with qpairs := update d.qpairs qid (some entry), queues := q }, .ok qid)
      | (q, entry, added, some e) =>
        -- the id is given back whether or not the removals succeeded
        ({ d with queues := (added.foldl (qpairRmQ r.answers) (q, entry)).1 }, .error e)

/-- `slash_qdma_ioctl_qpair_add_w` -/
def qpairAddW (d : Dev) (r : AddRequest) : Dev × Except Errno Nat :=
  match r.check with
  | some e => (d, .error e)
  | none =>
    if d.hwShutdown || !d.haveQdmaHandle then (d, .error .enodev)
    else
      match qpairAdd d r with
      | (d, .error e) => (d, .error e)
      | (d, .ok qid) =>
        -- the lock is released and the pair is live: a failing copy back undoes nothing
        if !r.copies.structOut then (d, .error .efault)
        else if addSize < r.size ∧ !r.copies.clearOut then (d, .error .efault)
        else (d, .ok qid)

/-! ## 4. `START`, `STOP` and `DEL` -/

inductive Op where
  | start | stop | del
  | unknown
  deriving DecidableEq, Repr

structure OpRequest where
  size : Nat
  qid : Nat
  op : Op
  copies : Copies
  answers : Answers

/-- `slash_qdma_ioctl_qpair_op_apply`: `fn` on each direction the entry has, the first error
kept. The entry itself is not changed. -/
def qpairOpApply (fn : Queues → Handle → Queues × Option Errno) (stopOnErr : Bool)
    (entry : Entry) : Queues → Option Errno → List QType → Queues × Option Errno
  | q, first, [] => (q, first)
  | q, first, t :: ts =>
    match (if entry.dirs t then entry.qhndl t else none) with
    | none => qpairOpApply fn stopOnErr entry q first ts
    | some h =>
      match fn q h with
      | (q, none) => qpairOpApply fn stopOnErr entry q first ts
      | (q, some e) =>
        if stopOnErr then (q, some e)
        else qpairOpApply fn stopOnErr entry q (first <|> some e) ts

def queueStart (a : Answers) (q : Queues) (h : Handle) : Queues × Option Errno :=
  queueMove (a.start h.qtype) .online q h

def queueStop (a : Answers) (q : Queues) (h : Handle) : Queues × Option Errno :=
  queueMove (a.stop h.qtype) .enabled q h

/-- `slash_qdma_ioctl_qpair_op` -/
def qpairOp (d : Dev) (r : OpRequest) : Dev × Option Errno :=
  match d.qpairs r.qid with
  | none => (d, some .enoent)
  | some entry =>
    match r.op with
    | .start =>
      let (q, err) := qpairOpApply (queueStart r.answers) true entry d.queues none QType.all
      ({ d with queues := q }, err)
    | .stop =>
      let (q, err) := qpairOpApply (queueStop r.answers) true entry d.queues none QType.all
      ({ d with queues := q }, err)
    | .del =>
      match qpairOpApply (queueRemoveSafe r.answers) false entry d.queues none QType.all with
      | (q, none) => ({ d with qpairs := update d.qpairs r.qid none, queues := q }, none)
      | (q, some e) => ({ d with queues := q }, some e)
    | .unknown => (d, some .einval)

/-- `SLASH_QDMA_QPAIR_OP_MIN_SIZE`, which is the whole of `struct slash_qdma_qpair_op`. -/
def opSize : Nat := 12

/-- `slash_qdma_ioctl_qpair_op_w` -/
def qpairOpW (d : Dev) (r : OpRequest) : Dev × Option Errno :=
  if !r.copies.sizeIn then (d, some .efault)
  else if r.size < opSize then (d, some .einval)
  else if !r.copies.structIn then (d, some .efault)
  else if r.op = .unknown then (d, some .einval)
  else if d.hwShutdown || !d.haveQdmaHandle then (d, some .enodev)
  else
    match qpairOp d r with
    | (d, some e) => (d, some e)
    | (d, none) =>
      if !r.copies.structOut then (d, some .efault)
      else if opSize < r.size ∧ !r.copies.clearOut then (d, some .efault)
      else (d, none)

inductive Request where
  | add (r : AddRequest)
  | op (r : OpRequest)

def step (d : Dev) : Request → Dev
  | .add r => (qpairAddW d r).1
  | .op r => (qpairOpW d r).1

/-- A device whose driver has opened libqdma and that has no queue pair. -/
def Dev.idle : Dev := ⟨false, true, fun _ => none, fun _ => none⟩

/-! ## 5. What is asked, and when it is kept -/

/-- The same ids are taken and the same queues exist. -/
def SameSets (d d' : Dev) : Prop :=
  (∀ id, (d'.qpairs id).isSome = (d.qpairs id).isSome) ∧
    ∀ h, (d'.queues h).isSome = (d.queues h).isSome

/-- What a request taken in `d` has to keep. An add that returns an error leaves both sets as
they were, and the id it is given belongs to no queue; after a failing delete the entry's
directions, and the handles a later delete acts on, are those of the queues still there. -/
def Lifecycle (d : Dev) : Request → Prop
  | .add r =>
    (∀ e, (qpairAddW d r).2 = .error e → SameSets d (qpairAddW d r).1) ∧
      ∀ id, d.freeId = some id → ∀ t, d.queues ⟨id, t⟩ = none
  | .op r =>
    r.op = .del → ∀ e, (qpairOpW d r).2 = some e →
      ∀ entry, (qpairOpW d r).1.qpairs r.qid = some entry → ∀ t,
        entry.dirs t = ((qpairOpW d r).1.queues ⟨r.qid, t⟩).isSome ∧
          (entry.dirs t = true → entry.qhndl t = some ⟨r.qid, t⟩)

/-- The calls that take an existing queue away all succeed. -/
def Removes (a : Answers) (q : Queues) (h : Handle) : Prop :=
  a.query h.qtype = none ∧ (q h = some .online → a.stop h.qtype = none) ∧
    a.remove h.qtype = none

/-- The copies back of an add succeed, and within one add libqdma does not fail both to set a
direction up and to take one down; a delete takes down all directions of the pair or none. -/
def Clean (d : Dev) : Request → Prop
  | .add r =>
    (r.copies.structOut = true ∧ (addSize < r.size → r.copies.clearOut = true)) ∧
      ((∀ t ∈ r.dirs, r.answers.add t = none ∧ r.answers.config t = none) ∨
        ∀ t ∈ r.dirs, r.answers.query t = none ∧ r.answers.remove t = none)
  | .op r =>
    r.op = .del → ∀ entry, d.qpairs r.qid = some entry →
      (∀ t, entry.dirs t = true → Removes r.answers d.queues ⟨r.qid, t⟩) ∨
        ∀ t, entry.dirs t = true → ¬ Removes r.answers d.queues ⟨r.qid, t⟩

/-- Table and queues in step: a queue exists exactly for each direction of each entry, under the
handle the entry holds. -/
structure InStep (d : Dev) : Prop where
  handle : ∀ id entry, d.qpairs id = some entry → ∀ t, entry.dirs t = true →
    entry.qhndl t = some ⟨id, t⟩
  queue : ∀ id t, (d.queues ⟨id, t⟩).isSome = true ↔
    ∃ entry, d.qpairs id = some entry ∧ entry.dirs t = true

theorem InStep.idle : InStep .idle where
  handle id entry h := by simp [Dev.idle] at h
  queue id t := by simp [Dev.idle]

variable {d : Dev}

theorem InStep.dirs_eq (hd : InStep d) {id : Nat} {entry : Entry} (he : d.qpairs id = some entry)
    (t : QType) :
    entry.dirs t = (d.queues ⟨id, t⟩).isSome := by
  rw [Bool.eq_iff_iff, hd.queue]
  simp [he]

theorem InStep.free (hd : InStep d) {id : Nat} (h : d.freeId = some id) (t : QType) :
    d.queues ⟨id, t⟩ = none := by
  have hnone : d.qpairs id = none := by simpa using List.find?_some h
  have := hd.queue id t
  simpa [hnone] using this

theorem InStep.queues (hd : InStep d) {q : Queues} (hq : ∀ h, (q h).isSome = (d.queues h).isSome) :
    InStep { d with queues := q } where
  handle := hd.handle
  queue id t := by rw [hq]; exact hd.queue id t

/-! ## 6. One direction of a pair -/

theorem queueRemoveSafe_frame (a : Answers) (q : Queues) {h h' : Handle} (hne : h' ≠ h) :
    (queueRemoveSafe a q h).1 h' = q h' := by
  unfold queueRemoveSafe queueRemove
  repeat' split
  all_goals simp [hne]

/-- What a removal does to its own queue depends on that queue alone. -/
theorem queueRemoveSafe_congr (a : Answers) {q q' : Queues} {h : Handle} (heq : q' h = q h) :
    (queueRemoveSafe a q' h).1 h = (queueRemoveSafe a q h).1 h ∧
      (queueRemoveSafe a q' h).2 = (queueRemoveSafe a q h).2 := by
  unfold queueRemoveSafe queueRemove
  rw [heq]
  repeat' split
  all_goals simp_all

theorem queueRemoveSafe_removes {a : Answers} {q : Queues} {h : Handle} (hr : Removes a q h)
    (hq : (q h).isSome = true) : queueRemoveSafe a q h = (update q h none, none) := by
  obtain ⟨hquery, hstop, hremove⟩ := hr
  cases hs : q h with
  | none => simp [hs] at hq
  | some state =>
    cases state with
    | enabled => simp [queueRemoveSafe, queueRemove, hquery, hs, hremove]
    | online => simp [queueRemoveSafe, queueRemove, hquery, hs, hstop hs, hremove]

theorem queueRemoveSafe_fails {a : Answers} {q : Queues} {h : Handle} (hr : ¬ Removes a q h)
    (hq : (q h).isSome = true) :
    (queueRemoveSafe a q h).2 ≠ none ∧ ((queueRemoveSafe a q h).1 h).isSome = true := by
  unfold Removes at hr
  unfold queueRemoveSafe queueRemove
  repeat' split
  all_goals simp_all

/-! ## 7. Delete, start and stop -/

/-- The walk of a delete over the directions `ts`: each queue is treated on its own, and the
walk reports an error exactly when one of the removals did. -/
theorem qpairOpApply_removeSafe (a : Answers) (entry : Entry) (id : Nat)
    (hh : ∀ t, entry.dirs t = true → entry.qhndl t = some ⟨id, t⟩) :
    ∀ (ts : List QType), ts.Nodup → ∀ (q : Queues) (first : Option Errno),
      (∀ h, (qpairOpApply (queueRemoveSafe a) false entry q first ts).1 h =
        if h.qidx = id ∧ h.qtype ∈ ts ∧ entry.dirs h.qtype = true then
          (queueRemoveSafe a q h).1 h else q h) ∧
      ((qpairOpApply (queueRemoveSafe a) false entry q first ts).2 = none ↔
        first = none ∧ ∀ t ∈ ts, entry.dirs t = true →
          (queueRemoveSafe a q ⟨id, t⟩).2 = none) := by
  intro ts
  induction ts with
  | nil => intro _ q first; simp [qpairOpApply]
  | cons t ts ih =>
    intro hnd q first
    obtain ⟨ht, hnd⟩ := nodup_cons.mp hnd
    cases hdir : entry.dirs t with
    | false =>
      obtain ⟨hq, he⟩ := ih hnd q first
      simp only [qpairOpApply, hdir, Bool.false_eq_true, if_false]
      refine ⟨fun h => ?_, ?_⟩
      · rw [hq h]
        by_cases hht : h.qtype = t
        · simp [hht, hdir]
        · simp [hht]
      · rw [he]
        simp [hdir]
    | true =>
      -- the first removal changes the queue of `t` alone, which the rest of the walk never sees
      generalize hcall : queueRemoveSafe a q ⟨id, t⟩ = out
      obtain ⟨q₁, err⟩ := out
      have hframe : ∀ h : Handle, h ≠ ⟨id, t⟩ → q₁ h = q h := by
        intro h hne
        have := queueRemoveSafe_frame a q hne
        rwa [hcall] at this
      have hrest : ∀ (first : Option Errno),
          (∀ h, (qpairOpApply (queueRemoveSafe a) false entry q₁ first ts).1 h =
            if h.qidx = id ∧ h.qtype ∈ t :: ts ∧ entry.dirs h.qtype = true then
              (queueRemoveSafe a q h).1 h else q h) ∧
          ((qpairOpApply (queueRemoveSafe a) false entry q₁ first ts).2 = none ↔
            first = none ∧ ∀ t ∈ ts, entry.dirs t = true →
              (queueRemoveSafe a q ⟨id, t⟩).2 = none) := by
        intro first
        obtain ⟨hq, he⟩ := ih hnd q₁ first
        refine ⟨fun h => ?_, ?_⟩
        · rw [hq h]
          by_cases heq : h = ⟨id, t⟩
          · subst heq
            simp [ht, hdir, hcall]
          · have hmem : h.qidx = id → (h.qtype ∈ t :: ts ↔ h.qtype ∈ ts) := by
              intro hid
              have hne : h.qtype ≠ t := by
                intro htt
                exact heq (by cases h; simp_all)
              simp [hne]
            rw [(queueRemoveSafe_congr a (hframe h heq)).1, hframe h heq]
            by_cases hid : h.qidx = id
            · simp only [hmem hid]
            · simp [hid]
        · rw [he]
          refine and_congr_right fun _ => forall₂_congr fun t' ht' => ?_
          have hne : (⟨id, t'⟩ : Handle) ≠ ⟨id, t⟩ := by
            intro heq
            cases heq
            exact ht ht'
          rw [(queueRemoveSafe_congr a (hframe _ hne)).2]
      simp only [qpairOpApply, hdir, if_true, hh t hdir, hcall]
      cases err with
      | none =>
        obtain ⟨hq, he⟩ := hrest first
        refine ⟨hq, ?_⟩
        simp [he, hdir, hcall]
      | some e =>
        obtain ⟨hq, he⟩ := hrest (first <|> some e)
        refine ⟨hq, he.trans ?_⟩
        cases first <;> simp [hdir, hcall]

theorem qpairOpApply_isSome {fn : Queues → Handle → Queues × Option Errno} {stopOnErr : Bool}
    {entry : Entry} (hfn : ∀ q h h', ((fn q h).1 h').isSome = (q h').isSome) :
    ∀ (ts : List QType) (q : Queues) (first : Option Errno) (h : Handle),
      ((qpairOpApply fn stopOnErr entry q first ts).1 h).isSome = (q h).isSome := by
  intro ts
  induction ts with
  | nil => intro q first h; rfl
  | cons t ts ih =>
    intro q first h
    unfold qpairOpApply
    split
    · exact ih q first h
    · rename_i handle _
      have hkeep := hfn q handle h
      split
      · rename_i q₁ hcall
        rw [hcall] at hkeep
        rw [ih, hkeep]
      · rename_i q₁ e hcall
        rw [hcall] at hkeep
        split
        · exact hkeep
        · rw [ih, hkeep]

theorem queueMove_isSome (answer : Option Errno) (state : QState) (q : Queues) (h h' : Handle) :
    ((queueMove answer state q h).1 h').isSome = (q h').isSome := by
  unfold queueMove
  repeat' split
  all_goals by_cases heq : h' = h <;> simp_all

theorem QType.nodup_all : QType.all.Nodup := by decide

theorem QType.mem_all (t : QType) : t ∈ QType.all := by cases t <;> decide

/-- A delete that takes every direction down, or none, keeps table and queues in step. -/
theorem InStep.del (hd : InStep d) {r : OpRequest} {entry : Entry} (hop : r.op = .del)
    (he : d.qpairs r.qid = some entry)
    (hclean : (∀ t, entry.dirs t = true → Removes r.answers d.queues ⟨r.qid, t⟩) ∨
      ∀ t, entry.dirs t = true → ¬ Removes r.answers d.queues ⟨r.qid, t⟩) :
    InStep (qpairOp d r).1 := by
  obtain ⟨hq, herr⟩ := qpairOpApply_removeSafe r.answers entry r.qid (hd.handle _ _ he)
    QType.all QType.nodup_all d.queues none
  have hex : ∀ t, entry.dirs t = true → (d.queues ⟨r.qid, t⟩).isSome = true := by
    intro t ht
    rw [← hd.dirs_eq he, ht]
  simp only [qpairOp, he, hop]
  generalize qpairOpApply (queueRemoveSafe r.answers) false entry d.queues none QType.all = out
    at hq herr ⊢
  obtain ⟨q, err⟩ := out
  simp only [QType.mem_all, true_and] at hq herr
  cases err with
  | none =>
    have hall := (herr.mp rfl)
    have hgone : ∀ t, entry.dirs t = true → q ⟨r.qid, t⟩ = none := by
      intro t ht
      rcases hclean with hyes | hno
      · rw [hq, if_pos ⟨rfl, ht⟩, queueRemoveSafe_removes (hyes t ht) (hex t ht)]
        simp
      · exact absurd (hall t trivial ht) (queueRemoveSafe_fails (hno t ht) (hex t ht)).1
    refine ⟨?_, ?_⟩
    · intro id entry' hid t ht
      by_cases heq : id = r.qid
      · simp [heq] at hid
      · exact hd.handle id entry' (by simpa [heq] using hid) t ht
    · intro id t
      by_cases heq : id = r.qid
      · subst heq
        cases hdir : entry.dirs t with
        | true => simp [hgone t hdir]
        | false =>
          have hsame := hd.dirs_eq he t
          rw [hdir] at hsame
          simp [hq, hdir, ← hsame]
      · simp only [hq, heq, false_and, if_false, update_of_ne (Ne.intro heq)]
        exact hd.queue id t
  | some e =>
    refine hd.queues fun h => ?_
    rw [hq]
    split
    · rename_i hc
      obtain ⟨hid, ht⟩ := hc
      obtain ⟨qidx, t'⟩ := h
      subst hid
      rcases hclean with hyes | hno
      · exfalso
        have : (some e : Option Errno) = none := by
          refine herr.mpr fun t _ ht => ?_
          rw [queueRemoveSafe_removes (hyes t ht) (hex t ht)]
        cases this
      · rw [(queueRemoveSafe_fails (hno t' ht) (hex t' ht)).2, hex t' ht]
    · rfl

theorem InStep.op (hd : InStep d) {r : OpRequest} (hc : Clean d (.op r)) :
    InStep (qpairOp d r).1 := by
  cases he : d.qpairs r.qid with
  | none => simpa [qpairOp, he] using hd
  | some entry =>
    cases hop : r.op with
    | del => exact hd.del hop he (hc hop entry he)
    | unknown => simpa [qpairOp, he, hop] using hd
    | start =>
      simp only [qpairOp, he, hop]
      exact hd.queues (qpairOpApply_isSome (fun q h h' => queueMove_isSome _ _ q h h') _ _ _)
    | stop =>
      simp only [qpairOp, he, hop]
      exact hd.queues (qpairOpApply_isSome (fun q h h' => queueMove_isSome _ _ q h h') _ _ _)

theorem qpairOpW_dev (d : Dev) (r : OpRequest) :
    (qpairOpW d r).1 = d ∨ (qpairOpW d r).1 = (qpairOp d r).1 := by
  unfold qpairOpW
  generalize qpairOp d r = out
  obtain ⟨d', err⟩ := out
  repeat' split
  all_goals simp_all

/-! ## 8. Add and its rollback -/

section Adding

variable (a : Answers) (base : Queues) (qid : Nat)

def queuesWith (ts : List QType) : Queues :=
  fun h => if h.qidx = qid ∧ h.qtype ∈ ts then some .enabled else base h

def entryOf (ts : List QType) : Entry :=
  ⟨fun t => decide (t ∈ ts), fun t => if t ∈ ts then some ⟨qid, t⟩ else none⟩

/-- Writing the queue of direction `t` leads from the directions `ts` to `ts'` when they differ
in `t` alone. -/
theorem update_queuesWith {t : QType} {ts ts' : List QType} {v : Option QState}
    (hmem : ∀ u, u ≠ t → (u ∈ ts ↔ u ∈ ts')) (hv : queuesWith base qid ts' ⟨qid, t⟩ = v) :
    update (queuesWith base qid ts) ⟨qid, t⟩ v = queuesWith base qid ts' := by
  funext h
  by_cases heq : h = ⟨qid, t⟩
  · rw [heq, update_self, hv]
  · rw [update_of_ne heq]
    obtain ⟨i, u⟩ := h
    by_cases hi : i = qid
    · have hne : u ≠ t := by
        rintro rfl
        exact heq (by rw [hi])
      simp [queuesWith, hi, hmem u hne]
    · simp [queuesWith, hi]

theorem queuesWith_add (t : QType) (ts : List QType) :
    update (queuesWith base qid ts) ⟨qid, t⟩ (some .enabled) =
      queuesWith base qid (ts ++ [t]) := by
  apply update_queuesWith
  · intro u hu
    simp [hu]
  · simp [queuesWith]

theorem entryOf_add (t : QType) (ts : List QType) :
    (⟨update (entryOf qid ts).dirs t true,
      update (entryOf qid ts).qhndl t (some ⟨qid, t⟩)⟩ : Entry) =
      entryOf qid (ts ++ [t]) := by
  simp only [entryOf, Entry.mk.injEq]
  constructor <;> funext u <;> by_cases hu : u = t <;> simp [hu]

variable {base qid}

theorem queuesWith_remove (hfree : ∀ t, base ⟨qid, t⟩ = none) {t : QType} {ts ts' : List QType}
    (ht : t ∉ ts) (ht' : t ∈ ts') (hmem : ∀ u, u ≠ t → (u ∈ ts' ↔ u ∈ ts))
    (hr : a.query t = none ∧ a.remove t = none) :
    queueRemoveSafe a (queuesWith base qid ts') ⟨qid, t⟩ = (queuesWith base qid ts, none) := by
  have hon : queuesWith base qid ts' ⟨qid, t⟩ = some .enabled := by simp [queuesWith, ht']
  rw [queueRemoveSafe_removes ⟨hr.1, by simp [hon], hr.2⟩ (by simp [hon]),
    update_queuesWith base qid hmem (by simp [queuesWith, ht, hfree])]

/-- The rollback takes every queue added before the failure away again. -/
theorem foldl_qpairRmQ (hfree : ∀ t, base ⟨qid, t⟩ = none) :
    ∀ (ts : List QType), ts.Nodup → (∀ t ∈ ts, a.query t = none ∧ a.remove t = none) →
      ∀ entry : Entry, (∀ t ∈ ts, entry.qhndl t = some ⟨qid, t⟩) →
        (ts.foldl (qpairRmQ a) (queuesWith base qid ts, entry)).1 = base := by
  intro ts
  induction ts with
  | nil => intro _ _ entry _; funext h; simp [queuesWith]
  | cons t ts ih =>
    intro hnd hr entry hh
    obtain ⟨ht, hnd⟩ := nodup_cons.mp hnd
    have hcall := queuesWith_remove a hfree ht (show t ∈ t :: ts from mem_cons_self)
      (fun u hu => by simp [hu]) (hr t mem_cons_self)
    simp only [foldl_cons, qpairRmQ, hh t mem_cons_self, hcall]
    refine ih hnd (fun u hu => hr u (mem_cons_of_mem t hu)) _ fun u hu => ?_
    have hne : u ≠ t := by
      rintro rfl
      exact ht hu
    simp [hne, hh u (mem_cons_of_mem t hu)]

/-- The loop over the directions adds and records all of `ts`, or stops at one that fails; then
the queues are those recorded, provided the removal in `qpairAddQ` did its work. -/
theorem qpairAddQs_cases (hfree : ∀ t, base ⟨qid, t⟩ = none) :
    ∀ (ts done : List QType), (done ++ ts).Nodup →
      qpairAddQs a qid (queuesWith base qid done) (entryOf qid done) done ts =
          (queuesWith base qid (done ++ ts), entryOf qid (done ++ ts), done ++ ts, none) ∨
        ∃ q added e, qpairAddQs a qid (queuesWith base qid done) (entryOf qid done) done ts =
            (q, entryOf qid added, added, some e) ∧ added.Nodup ∧ added ⊆ done ++ ts ∧
          (∃ t ∈ ts, a.add t ≠ none ∨ a.config t ≠ none) ∧
          ((∀ t ∈ ts, a.query t = none ∧ a.remove t = none) → q = queuesWith base qid added) := by
  intro ts
  induction ts with
  | nil => intro done _; exact .inl (by simp [qpairAddQs])
  | cons t ts ih =>
    intro done hnd
    have hsplit : done ++ t :: ts = (done ++ [t]) ++ ts := by simp
    have ht : t ∉ done := fun hm => (nodup_append.mp hnd).2.2 t hm t mem_cons_self rfl
    have hnone : queuesWith base qid done ⟨qid, t⟩ = none := by simp [queuesWith, ht, hfree]
    have hdone : done.Nodup := (nodup_append.mp hnd).1
    have hsub : done ⊆ done ++ t :: ts := subset_append_left _ _
    cases hadd : a.add t with
    | some e =>
      refine .inr ⟨queuesWith base qid done, done, e, ?_, hdone, hsub, ?_, fun _ => rfl⟩
      · simp [qpairAddQs, qpairAddQ, hnone, hadd]
      · exact ⟨t, mem_cons_self, .inl (by simp [hadd])⟩
    | none =>
      cases hcfg : a.config t with
      | some e =>
        refine .inr ⟨(queueRemoveSafe a (update (queuesWith base qid done) ⟨qid, t⟩
          (some .enabled)) ⟨qid, t⟩).1, done, e, ?_, hdone, hsub, ?_, ?_⟩
        · simp only [qpairAddQs, qpairAddQ, hnone, hadd, hcfg]
        · exact ⟨t, mem_cons_self, .inr (by simp [hcfg])⟩
        · intro hr
          rw [queuesWith_add, queuesWith_remove a hfree ht (by simp) (fun u hu => by simp [hu])
            (hr t mem_cons_self)]
      | none =>
        have hstep : qpairAddQs a qid (queuesWith base qid done) (entryOf qid done) done (t :: ts) =
            qpairAddQs a qid (queuesWith base qid (done ++ [t])) (entryOf qid (done ++ [t]))
              (done ++ [t]) ts := by
          simp only [qpairAddQs, qpairAddQ, hnone, hadd, hcfg, queuesWith_add, entryOf_add]
        rw [hstep, hsplit]
        rcases ih (done ++ [t]) (hsplit ▸ hnd) with hok | ⟨q, added, e, heq, hn, hs, hf, hq⟩
        · exact .inl hok
        · obtain ⟨u, hu, hfail⟩ := hf
          exact .inr ⟨q, added, e, heq, hn, hs, ⟨u, mem_cons_of_mem t hu, hfail⟩,
            fun hr => hq fun v hv => hr v (mem_cons_of_mem t hv)⟩

end Adding

theorem AddRequest.nodup_dirs (r : AddRequest) : r.dirs.Nodup :=
  QType.nodup_all.filter _

/-- An add that meets no double failure is undone completely or done completely. -/
theorem qpairAdd_cases (hd : InStep d) {r : AddRequest}
    (hc : (∀ t ∈ r.dirs, r.answers.add t = none ∧ r.answers.config t = none) ∨
      ∀ t ∈ r.dirs, r.answers.query t = none ∧ r.answers.remove t = none) :
    (∃ e, qpairAdd d r = (d, .error e)) ∨
      ∃ qid, d.freeId = some qid ∧
        qpairAdd d r = ({ d with
          qpairs := update d.qpairs qid (some (entryOf qid r.dirs))
          queues := queuesWith d.queues qid r.dirs }, .ok qid) := by
  unfold qpairAdd
  split
  · exact .inl ⟨_, rfl⟩
  split
  · exact .inl ⟨_, rfl⟩
  cases hid : d.freeId with
  | none => exact .inl ⟨_, rfl⟩
  | some qid =>
    have hfree := hd.free hid
    have hstart : queuesWith d.queues qid [] = d.queues := by funext h; simp [queuesWith]
    have hempty : entryOf qid [] = Entry.empty := by simp [entryOf, Entry.empty]
    have hrun := qpairAddQs_cases r.answers hfree r.dirs [] r.nodup_dirs
    rw [hstart, hempty] at hrun
    rcases hrun with hok | ⟨q, added, e, heq, hnd, hsub, ⟨t, ht, hfail⟩, hq⟩
    · refine .inr ⟨qid, rfl, ?_⟩
      simp [hok]
    · have hr : ∀ t ∈ r.dirs, r.answers.query t = none ∧ r.answers.remove t = none := by
        rcases hc with hnofail | hr
        · have := hnofail t ht
          simp [this] at hfail
        · exact hr
      refine .inl ⟨e, ?_⟩
      have hback := foldl_qpairRmQ r.answers hfree added hnd (fun t ht => hr t (hsub ht))
        (entryOf qid added) (fun t ht => by simp [entryOf, ht])
      simp only [heq, hq hr, hback]

theorem InStep.added (hd : InStep d) {qid : Nat} (hid : d.freeId = some qid) (ts : List QType) :
    InStep { d with
      qpairs := update d.qpairs qid (some (entryOf qid ts))
      queues := queuesWith d.queues qid ts } where
  handle id entry he t ht := by
    by_cases heq : id = qid
    · subst heq
      simp only [update_self, Option.some.injEq] at he
      subst he
      simpa [entryOf] using ht
    · exact hd.handle id entry (by simpa [heq] using he) t ht
  queue id t := by
    by_cases heq : id = qid
    · subst heq
      by_cases ht : t ∈ ts <;> simp [queuesWith, entryOf, ht, hd.free hid]
    · simpa [queuesWith, heq] using hd.queue id t

/-! ## 9. Runs -/

/-- One clean request keeps table and queues in step and does what is asked. -/
theorem InStep.step (hd : InStep d) {r : Request} (hc : Clean d r) :
    Lifecycle d r ∧ InStep (step d r) := by
  cases r with
  | op r =>
    have hkeep : InStep (qpairOpW d r).1 := by
      rcases qpairOpW_dev d r with h | h
      · rw [h]; exact hd
      · rw [h]; exact hd.op hc
    refine ⟨?_, hkeep⟩
    intro _ e _ entry he t
    exact ⟨hkeep.dirs_eq he t, hkeep.handle _ _ he t⟩
  | add r =>
    obtain ⟨hcopies, hcalls⟩ := hc
    have hsame : SameSets d d := ⟨fun _ => rfl, fun _ => rfl⟩
    suffices h : (∀ e, (qpairAddW d r).2 = .error e → SameSets d (qpairAddW d r).1) ∧
        InStep (qpairAddW d r).1 from
      ⟨⟨h.1, fun id hid t => hd.free hid t⟩, h.2⟩
    unfold qpairAddW
    split
    · exact ⟨fun _ _ => hsame, hd⟩
    split
    · exact ⟨fun _ _ => hsame, hd⟩
    rcases qpairAdd_cases hd hcalls with ⟨e, heq⟩ | ⟨qid, hid, heq⟩
    · simp only [heq]
      exact ⟨fun _ _ => hsame, hd⟩
    · -- the copies back succeed, so the add that was done is reported as done
      have hclear : ¬ (addSize < r.size ∧ (!r.copies.clearOut) = true) := by
        rintro ⟨hlt, hno⟩
        simp [hcopies.2 hlt] at hno
      simp only [heq, hcopies.1, Bool.not_true, Bool.false_eq_true, if_false, hclear]
      exact ⟨fun e he => (by cases he), hd.added hid r.dirs⟩

/-- Every run of clean requests: each of them does what is asked. -/
theorem lifecycle_of_clean (rs : List Request) (hc : Lib.Along step Clean .idle rs) :
    Lib.Along step Lifecycle .idle rs := by
  have hrun : ∀ (rs : List Request) (d : Dev), InStep d → Lib.Along step Clean d rs →
      Lib.Along step Lifecycle d rs := by
    intro rs
    induction rs with
    | nil => intro d _ _; trivial
    | cons r rs ih =>
      intro d hd hc
      obtain ⟨hlife, hnext⟩ := hd.step hc.1
      exact ⟨hlife, ih _ hnext hc.2⟩
  exact hrun rs .idle .idle hc

/-! The three faults, each in a run of at most two requests. -/

/-- Calls that all succeed, apart from those given. -/
def allGood : Answers where
  add _ := none
  config _ := none
  query _ := none
  stop _ := none
  remove _ := none
  start _ := none

def copiesGood : Copies := ⟨true, true, true, true⟩

/-- A memory-mapped pair with the directions of `mask`. -/
def plainAdd (mask : Nat) (copies : Copies) (answers : Answers) : Request :=
  .add ⟨36, 0, mask, 0, 0, 0, 0, 0, copies, false, false, answers⟩

def plainDel (qid : Nat) (answers : Answers) : Request :=
  .op ⟨12, qid, .del, copiesGood, answers⟩

theorem lifecycle_of_clean_pair :
    Lib.Along step Clean .idle [plainAdd 3 copiesGood allGood, plainDel 0 allGood] ∧
      Lib.Along step Lifecycle .idle [plainAdd 3 copiesGood allGood, plainDel 0 allGood] := by
  have hc : Lib.Along step Clean .idle
      [plainAdd 3 copiesGood allGood, plainDel 0 allGood] := by
    refine ⟨⟨⟨rfl, fun _ => rfl⟩, .inl fun t _ => ⟨rfl, rfl⟩⟩, ?_, trivial⟩
    intro _ entry _
    exact .inl fun t _ => ⟨rfl, fun _ => rfl, rfl⟩
  exact ⟨hc, lifecycle_of_clean _ hc⟩

/-- The copy back of an add fails: the error comes with the pair left in the table. -/
def unreported : List Request := [plainAdd 1 ⟨true, true, false, true⟩ allGood]

/-- The second queue cannot be added and the first not be removed: the id is free while the
queue is there, and the next add takes it. -/
def leaked : List Request :=
  [plainAdd 3 copiesGood { allGood with
      add := fun t => if t = .c2h then some (.libqdma 5) else none
      remove := fun _ => some (.libqdma 5) },
    plainAdd 2 copiesGood allGood]

/-- One direction of two is removed: the entry keeps both. -/
def halfDeleted : List Request :=
  [plainAdd 3 copiesGood allGood,
    plainDel 0 { allGood with
      remove := fun t => if t = .c2h then some (.libqdma 5) else none }]

theorem lifecycle_broken :
    ¬ Lib.Along step Lifecycle .idle unreported ∧ ¬ Lib.Along step Lifecycle .idle leaked ∧
      ¬ Lib.Along step Lifecycle (step .idle (leaked.head (by decide))) leaked.tail ∧
      ¬ Lib.Along step Lifecycle .idle halfDeleted := by
  refine ⟨?_, ?_, ?_, ?_⟩
  · intro h
    exact absurd ((h.1.1 .efault rfl).1 0) (by decide)
  · intro h
    exact absurd ((h.1.1 (.libqdma 5) rfl).2 ⟨0, .h2c⟩) (by decide)
  · intro h
    exact absurd (h.1.2 0 (by decide) .h2c) (by decide)
  · intro h
    exact absurd (h.2.1 rfl (.libqdma 5) rfl _ rfl .h2c).1 (by decide)

end Slash.Driver
