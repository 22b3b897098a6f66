import Slash.Driver.Scatter
import Slash.Lib.Tally

/-!
# Transfer batches, blocking and through io_uring

Once every sub-transfer is prepared, the submitting thread hands them to libqdma one by one, and
libqdma reports each that it took through a callback on a thread of its own. The two paths
differ in how the end is found. `slash_qdma_qpair_transfer` submits the last one synchronously
and waits for the others; `slash_qdma_qpair_uring_cmd` counts down `outstanding`, and whoever
takes it to zero hands the batch to task work, which posts the result and frees the context.

A step here is one access to what the threads share, so a report is several of them (`Stage`).
`Batch.stale` is raised by any step that uses the context after it was freed.
-/

namespace Slash.Driver

open List

/-! ## 1. The machine -/

inductive Path where
  | blocking | uring
  deriving DecidableEq, Repr

/-- How far a sub-transfer is: `queued` with libqdma, then its report: the fields of its request
written, its bytes added to the total, its error offered as the first, and counted down. The
one that takes the count to zero is still `posting`. -/
inductive Stage where
  | waiting | queued | recorded | added | flagged | posting | settled
  deriving DecidableEq, Repr

structure Sub where
  stage : Stage
  bytes : Nat
  err : Option Errno
  deriving DecidableEq, Repr

structure Batch where
  count : Nat
  subs : Nat → Sub
  next : Nat
  outstanding : Nat
  total : Nat
  firstErr : Option Errno
  posted : Nat
  bufs : List (Option Nat)
  store : Store
  results : List (Except Errno Nat)
  freed : Bool
  stale : Bool

inductive Event where
  /-- The submitting thread's next call of `qdma_request_submit`; `bytes` matters only to the
  synchronous one. -/
  | submit (bytes : Nat) (err : Option Errno)
  /-- libqdma reports a request it took. -/
  | callback (i bytes : Nat) (err : Option Errno)
  /-- The next access of the report on sub-transfer `i`. -/
  | advance (i : Nat)
  /-- The end: task work on the io_uring path, the return of the ioctl on the other. -/
  | finish

def Batch.AllSettled (b : Batch) : Prop := ∀ i < b.count, (b.subs i).stage = .settled

instance (b : Batch) : Decidable b.AllSettled := inferInstanceAs (Decidable (∀ i < b.count, _))

/-- Which steps the threads can take. The loop may run ahead of its own report on a request that
was not taken, which only adds interleavings. -/
def Enabled (path : Path) (b : Batch) : Event → Prop
  | .submit _ _ => b.next < b.count
  | .callback i _ _ => (b.subs i).stage = .queued
  | .advance i => (b.subs i).stage ≠ .waiting ∧ (b.subs i).stage ≠ .queued ∧
      (b.subs i).stage ≠ .settled
  | .finish =>
    match path with
    | .uring => 0 < b.posted
    | .blocking => b.next = b.count ∧ b.AllSettled ∧ b.results = []

instance (path : Path) (b : Batch) (e : Event) : Decidable (Enabled path b e) := by
  cases e <;> cases path <;> unfold Enabled <;> infer_instance

@[simp] def Batch.move (b : Batch) (i : Nat) (s : Sub) : Batch :=
  { b with subs := Function.update b.subs i s, stale := b.stale || b.freed }

/-- What the last loop of the blocking path adds up: the first error by index, else the sum. -/
def Batch.gather (b : Batch) : Except Errno Nat :=
  match (List.range b.count).findSome? fun i => (b.subs i).err with
  | some e => .error e
  | none => .ok (Lib.tally (fun i => (b.subs i).bytes) b.count)

/-- `slash_qdma_uring_cmd_complete`: the error, if there is one, else the total. -/
def Batch.counted (b : Batch) : Except Errno Nat :=
  match b.firstErr with
  | some e => .error e
  | none => .ok b.total

/-- `slash_qdma_xfer_finish` on each, the result given, the context freed. -/
def Batch.close (b : Batch) (result : Except Errno Nat) : Batch :=
  { b with
    store := b.bufs.foldl xferCleanup b.store
    bufs := b.bufs.map fun _ => none
    results := b.results ++ [result]
    stale := b.stale || b.freed
    freed := true }

/-- One step of a report on the io_uring path (`slash_qdma_uring_xfer_done` and the failing
submission). -/
def Batch.report (b : Batch) (i : Nat) (s : Sub) : Batch :=
  match s.stage with
  | .recorded => { b.move i { s with stage := .added } with total := b.total + s.bytes }
  | .added => { b.move i { s with stage := .flagged } with firstErr := b.firstErr <|> s.err }
  | .flagged =>
    { b.move i { s with stage := if b.outstanding = 1 then .posting else .settled } with
      outstanding := b.outstanding - 1 }
  | .posting => { b.move i { s with stage := .settled } with posted := b.posted + 1 }
  | _ => b

def effect (path : Path) (b : Batch) : Event → Batch
  | .submit bytes err =>
    let sub : Sub :=
      match path, err with
      | .uring, none => ⟨.queued, 0, none⟩
      | .uring, some e => ⟨.recorded, 0, some e⟩
      | .blocking, some e => ⟨.settled, 0, some e⟩
      | .blocking, none =>
        if b.next + 1 = b.count then ⟨.settled, bytes, none⟩ else ⟨.queued, 0, none⟩
    { b.move b.next sub with next := b.next + 1 }
  | .callback i bytes err => b.move i ⟨.recorded, bytes, err⟩
  | .advance i =>
    match path with
    | .uring => b.report i (b.subs i)
    | .blocking => b.move i { b.subs i with stage := .settled }
  | .finish =>
    match path with
    | .uring => { b.close b.counted with posted := b.posted - 1 }
    | .blocking => b.close b.gather

def batchStep (path : Path) (b : Batch) (e : Event) : Batch :=
  if Enabled path b e then effect path b e else b

def Batch.start (s : Store) (xrs : List Xfer) : Batch :=
  ⟨xrs.length, fun _ => ⟨.waiting, 0, none⟩, 0, xrs.length, 0, none, 0, bufsOf xrs, s, [], false,
    false⟩

/-! ## 2. What is asked of every state -/

/-- The sum of the bytes when nothing failed, else the error of one that failed. -/
def Batch.ResultOk (b : Batch) (r : Except Errno Nat) : Prop :=
  (r = .ok (Lib.tally (fun i => (b.subs i).bytes) b.count) ∧ ∀ i < b.count, (b.subs i).err = none) ∨
    ∃ i < b.count, ∃ e, (b.subs i).err = some e ∧ r = .error e

/-- `s` is the buffers before the batch: they hold one reference more for each sub-transfer
until the batch has ended, which is after all have settled, and are as before from then on.
A batch in which nobody can take a step has ended. -/
structure Sound (path : Path) (s : Store) (xrs : List Xfer) (b : Batch) : Prop where
  fresh : b.stale = false
  once : b.results.length ≤ 1
  running : b.results = [] → b.bufs = bufsOf xrs ∧ b.store = takeAll s xrs
  ended : b.results ≠ [] → b.AllSettled ∧ b.store = s
  result : ∀ r ∈ b.results, b.ResultOk r
  ends : (∀ e, ¬ Enabled path b e) → b.results.length = 1

/-! ## 3. What both paths keep -/

section

variable {s : Store} {xrs : List Xfer} {b b' : Batch} {i : Nat}

structure Basic (s : Store) (xrs : List Xfer) (b : Batch) : Prop where
  count_pos : 0 < b.count
  next_le : b.next ≤ b.count
  waiting : ∀ i, (b.subs i).stage = .waiting ↔ b.next ≤ i
  fresh : b.stale = false
  running : b.results = [] → b.freed = false ∧ b.bufs = bufsOf xrs ∧ b.store = takeAll s xrs
  ended : b.results ≠ [] → b.results.length = 1 ∧ b.AllSettled ∧ b.store = s
  result : ∀ r ∈ b.results, b.ResultOk r

theorem Basic.start (h : 0 < xrs.length) : Basic s xrs (.start (takeAll s xrs) xrs) where
  count_pos := h
  next_le := Nat.zero_le _
  waiting i := by simp [Batch.start]
  fresh := rfl
  running _ := ⟨rfl, rfl, rfl⟩
  ended h := absurd rfl h
  result r h := by simp [Batch.start] at h

theorem Basic.alive (h : Basic s xrs b) (hw : (b.subs i).stage ≠ .waiting)
    (hs : (b.subs i).stage ≠ .settled) : i < b.next ∧ i < b.count ∧ b.results = [] := by
  have hi : i < b.next := by
    have := mt (h.waiting i).mpr hw
    omega
  have hc : i < b.count := Nat.lt_of_lt_of_le hi h.next_le
  refine ⟨hi, hc, ?_⟩
  by_contra hres
  exact hs ((h.ended hres).2.1 i hc)

theorem Basic.submitting (h : Basic s xrs b) (hn : b.next < b.count) : b.results = [] := by
  by_contra hne
  have hset := (h.ended hne).2.1 b.next hn
  rw [(h.waiting b.next).mpr (Nat.le_refl _)] at hset
  cases hset

/-- `b'` is `b` with sub-transfer `i` moved to `a`, up to the counters. -/
structure Moved (b b' : Batch) (i : Nat) (a : Sub) : Prop where
  count : b'.count = b.count
  subs : b'.subs = Function.update b.subs i a
  stale : b'.stale = (b.stale || b.freed)
  rest : b'.freed = b.freed ∧ b'.bufs = b.bufs ∧ b'.store = b.store ∧ b'.results = b.results

/-- Moving a sub-transfer of a batch under way uses a context that is still there. -/
theorem Basic.move (h : Basic s xrs b) {a : Sub} (hm : Moved b b' i a) (ha : a.stage ≠ .waiting)
    (hres : b.results = [])
    (hnext : b'.next = b.next ∧ i < b.next ∨ b'.next = b.next + 1 ∧ i = b.next ∧ i < b.count) :
    Basic s xrs b' := by
  obtain ⟨hfreed, hbufs, hstore, hresults⟩ := hm.rest
  obtain ⟨hf, hb, hs⟩ := h.running hres
  refine ⟨hm.count ▸ h.count_pos, ?_, ?_, ?_, ?_, ?_, ?_⟩
  · have := h.next_le
    rw [hm.count]
    omega
  · intro j
    rw [hm.subs]
    by_cases hj : j = i
    · subst hj
      simp only [Function.update_self, ha, false_iff]
      omega
    · rw [Function.update_of_ne hj, h.waiting]
      omega
  · simp [hm.stale, h.fresh, hf]
  · intro _
    exact ⟨hfreed.trans hf, hbufs.trans hb, hstore.trans hs⟩
  · intro hne
    exact absurd (hresults.trans hres) hne
  · intro r hr
    rw [hresults, hres] at hr
    cases hr

/-- Ending a batch that has settled gives one result and drops every reference. -/
theorem Basic.close (h : Basic s xrs b) (hres : b.results = []) (hall : b.AllSettled)
    {r : Except Errno Nat} (hr : b.ResultOk r) : Basic s xrs (b.close r) := by
  obtain ⟨hf, hb, hs⟩ := h.running hres
  refine ⟨h.count_pos, h.next_le, h.waiting, ?_, ?_, ?_, ?_⟩
  · simp [Batch.close, h.fresh, hf]
  · intro hnil
    simp [Batch.close] at hnil
  · intro _
    refine ⟨by simp [Batch.close, hres], hall, ?_⟩
    show b.bufs.foldl xferCleanup b.store = s
    rw [hb, hs, foldl_xferCleanup_takeAll (List.Perm.refl _)]
  · intro r' hr'
    simp only [Batch.close, hres, nil_append, mem_singleton] at hr'
    rw [hr']
    exact hr

/-! ## 4. The blocking path -/

theorem Batch.gather_ok (b : Batch) : b.ResultOk b.gather := by
  unfold Batch.gather
  split
  · rename_i e he
    obtain ⟨i, hi, herr⟩ := exists_of_findSome?_eq_some he
    exact .inr ⟨i, mem_range.mp hi, e, herr, rfl⟩
  · rename_i hnone
    refine .inl ⟨rfl, fun i hi => ?_⟩
    exact List.findSome?_eq_none_iff.mp hnone i (mem_range.mpr hi)

theorem Basic.blocking (h : Basic s xrs b) (e : Event) :
    Basic s xrs (batchStep .blocking b e) := by
  unfold batchStep
  split
  case isFalse => exact h
  case isTrue hen =>
  cases e with
  | submit bytes err =>
    refine h.move ⟨rfl, rfl, rfl, rfl, rfl, rfl, rfl⟩ ?_ (h.submitting hen) (.inr ⟨rfl, rfl, hen⟩)
    cases err
    · dsimp only
      split <;> simp
    · simp
  | callback i bytes err =>
    have hq : (b.subs i).stage = .queued := hen
    obtain ⟨hi, _, hres⟩ := h.alive (i := i) (by simp [hq]) (by simp [hq])
    exact h.move ⟨rfl, rfl, rfl, rfl, rfl, rfl, rfl⟩ (by simp) hres (.inl ⟨rfl, hi⟩)
  | advance i =>
    obtain ⟨hi, _, hres⟩ := h.alive hen.1 hen.2.2
    exact h.move ⟨rfl, rfl, rfl, rfl, rfl, rfl, rfl⟩ (by simp) hres (.inl ⟨rfl, hi⟩)
  | finish => exact h.close hen.2.2 hen.2.1 b.gather_ok

/-! ## 5. The io_uring path -/

@[simp] def Sub.opens (a : Sub) : Nat :=
  match a.stage with
  | .posting | .settled => 0
  | _ => 1

@[simp] def Sub.posts (a : Sub) : Nat :=
  match a.stage with
  | .posting => 1
  | _ => 0

@[simp] def Sub.adds (a : Sub) : Nat :=
  match a.stage with
  | .waiting | .queued | .recorded => 0
  | _ => a.bytes

@[simp] def Sub.offered (a : Sub) : Bool :=
  match a.stage with
  | .flagged | .posting | .settled => true
  | _ => false

/-- The counters are the tallies of the sub-transfers, and the batch is handed over once the
last of them is counted down: it is in one place from then on. -/
structure Counted (b : Batch) : Prop where
  outstanding : b.outstanding = Lib.tally (fun i => (b.subs i).opens) b.count
  total : b.total = Lib.tally (fun i => (b.subs i).adds) b.count
  handover : Lib.tally (fun i => (b.subs i).posts) b.count + b.posted + b.results.length =
    1 - b.outstanding
  noErr : b.firstErr = none → ∀ i < b.count, (b.subs i).offered = true → (b.subs i).err = none
  anErr : ∀ e, b.firstErr = some e →
    ∃ i < b.count, (b.subs i).offered = true ∧ (b.subs i).err = some e

theorem Counted.start (h : 0 < xrs.length) : Counted (.start s xrs) where
  outstanding := by simp [Batch.start, Sub.opens, Lib.tally_const]
  total := by simp [Batch.start, Sub.adds, Lib.tally_const]
  handover := by simp [Batch.start, Sub.posts, Lib.tally_const]; omega
  noErr _ i _ ho := by simp [Batch.start, Sub.offered] at ho
  anErr e he := by simp [Batch.start] at he

theorem none_of_orElse {e f : Option Errno} (h : (e <|> f) = none) : e = none ∧ f = none := by
  cases e <;> simp_all

/-- Each counter moves by what its weight at `i` moves, and the first error is kept or offered. -/
structure Recounted (b b' : Batch) (i : Nat) (a : Sub) : Prop where
  out : b'.outstanding + (b.subs i).opens = b.outstanding + a.opens
  total : b'.total + (b.subs i).adds = b.total + a.adds
  post : a.posts + b'.posted + (1 - b.outstanding) =
    (b.subs i).posts + b.posted + (1 - b'.outstanding)
  keep : (b.subs i).offered = true → a.offered = true ∧ a.err = (b.subs i).err
  first : b'.firstErr = b.firstErr ∧ a.offered = (b.subs i).offered ∨
    b'.firstErr = (b.firstErr <|> a.err) ∧ a.offered = true

theorem Counted.move (hc : Counted b) {a : Sub} (hm : Moved b b' i a) (hi : i < b.count)
    (hr : Recounted b b' i a) : Counted b' := by
  have ht : ∀ w : Sub → Nat, Lib.tally (fun j => w (b'.subs j)) b'.count + w (b.subs i) =
      Lib.tally (fun j => w (b.subs j)) b.count + w a := by
    intro w
    rw [hm.count, hm.subs]
    exact Lib.tally_update w b.subs a hi
  obtain ⟨hout, htot, hpost, hkeep, hfirst⟩ := hr
  refine ⟨?_, ?_, ?_, ?_, ?_⟩
  · have := ht Sub.opens
    have := hc.outstanding
    omega
  · have := ht Sub.adds
    have := hc.total
    omega
  · have := ht Sub.posts
    have := hc.handover
    rw [hm.rest.2.2.2]
    omega
  · intro hnone j hj ho
    rw [hm.count] at hj
    rw [hm.subs] at ho ⊢
    have hb : b.firstErr = none := by
      rcases hfirst with ⟨heq, _⟩ | ⟨heq, _⟩
      · exact heq ▸ hnone
      · rw [heq] at hnone
        exact (none_of_orElse hnone).1
    by_cases hji : j = i
    · subst hji
      rw [Function.update_self] at ho ⊢
      rcases hfirst with ⟨_, hsame⟩ | ⟨heq, _⟩
      · rw [hsame] at ho
        rw [(hkeep ho).2, hc.noErr hb j hj ho]
      · rw [heq] at hnone
        exact (none_of_orElse hnone).2
    · rw [Function.update_of_ne hji] at ho ⊢
      exact hc.noErr hb j hj ho
  · intro e he
    rw [hm.count, hm.subs]
    by_cases hb : b.firstErr = some e
    · obtain ⟨j, hj, ho, herr⟩ := hc.anErr e hb
      refine ⟨j, hj, ?_⟩
      by_cases hji : j = i
      · subst hji
        rw [Function.update_self]
        exact ⟨(hkeep ho).1, (hkeep ho).2.trans herr⟩
      · rw [Function.update_of_ne hji]
        exact ⟨ho, herr⟩
    · rcases hfirst with ⟨heq, _⟩ | ⟨heq, ho⟩
      · exact absurd (heq ▸ he) hb
      · refine ⟨i, hi, ?_⟩
        rw [Function.update_self]
        refine ⟨ho, ?_⟩
        rw [heq] at he
        cases hf : b.firstErr with
        | none => simpa [hf] using he
        | some e' => exact absurd (by simpa [hf] using he) hb

/-- A step of a report keeps everything when its counters fit. -/
theorem Counted.moves (hc : Counted b) (h : Basic s xrs b) {a : Sub} (hm : Moved b b' i a)
    (hnext : b'.next = b.next) (hw : (b.subs i).stage ≠ .waiting)
    (hs : (b.subs i).stage ≠ .settled) (ha : a.stage ≠ .waiting) (hr : Recounted b b' i a) :
    Basic s xrs b' ∧ Counted b' := by
  obtain ⟨hi, hn, hres⟩ := h.alive hw hs
  exact ⟨h.move hm ha hres (.inl ⟨hnext, hi⟩), hc.move hm hn hr⟩

/-- Task work that is due finds every sub-transfer settled and no result given. -/
theorem Counted.due (hc : Counted b) (hp : 0 < b.posted) :
    b.results = [] ∧ b.AllSettled ∧ b.outstanding = 0 := by
  have hh := hc.handover
  have hzero : b.outstanding = 0 := by omega
  refine ⟨eq_nil_of_length_eq_zero (by omega), fun i hi => ?_, hzero⟩
  have hopen := Lib.le_tally (fun i => (b.subs i).opens) hi
  have hpost : (b.subs i).posts ≤ _ := Lib.le_tally (fun i => (b.subs i).posts) hi
  rw [← hc.outstanding, hzero] at hopen
  cases hst : (b.subs i).stage with
  | settled => rfl
  | posting =>
    have : (b.subs i).posts = 1 := by simp [Sub.posts, hst]
    omega
  | _ => simp [Sub.opens, hst] at hopen

theorem Counted.result (hc : Counted b) (hall : b.AllSettled) : b.ResultOk b.counted := by
  unfold Batch.counted
  cases hf : b.firstErr with
  | some e =>
    obtain ⟨i, hi, _, herr⟩ := hc.anErr e hf
    exact .inr ⟨i, hi, e, herr, rfl⟩
  | none =>
    refine .inl ⟨?_, fun i hi => hc.noErr hf i hi (by simp [Sub.offered, hall i hi])⟩
    have hsum : Lib.tally (fun i => (b.subs i).adds) b.count =
        Lib.tally (fun i => (b.subs i).bytes) b.count :=
      Lib.tally_congr fun i hi => by simp only [Sub.adds, hall i hi]
    simp only [hc.total, hsum]

theorem Counted.uring (h : Basic s xrs b) (hc : Counted b) (e : Event) :
    Basic s xrs (batchStep .uring b e) ∧ Counted (batchStep .uring b e) := by
  unfold batchStep
  split
  case isFalse => exact ⟨h, hc⟩
  case isTrue hen =>
  cases e with
  | submit bytes err =>
    have hw : (b.subs b.next).stage = .waiting := (h.waiting _).mpr (Nat.le_refl _)
    have hm : ∀ a : Sub, Moved b { b.move b.next a with next := b.next + 1 } b.next a :=
      fun a => ⟨rfl, rfl, rfl, rfl, rfl, rfl, rfl⟩
    cases err <;>
    · refine ⟨h.move (hm _) (by simp) (h.submitting hen) (.inr ⟨rfl, rfl, hen⟩),
        hc.move (hm _) hen ?_⟩
      constructor <;> simp [hw, effect]
  | callback i bytes err =>
    have hq : (b.subs i).stage = .queued := hen
    refine hc.moves h (i := i) ⟨rfl, rfl, rfl, rfl, rfl, rfl, rfl⟩ rfl (by simp [hq])
      (by simp [hq]) (by simp) ?_
    constructor <;> simp [hq, effect]
  | advance i =>
    have hn := (h.alive hen.1 hen.2.2).2.1
    have hopen := Lib.le_tally (fun i => (b.subs i).opens) hn
    rw [← hc.outstanding] at hopen
    simp only [effect, Batch.report]
    split
    · rename_i hst
      refine hc.moves h (i := i) ⟨rfl, rfl, rfl, rfl, rfl, rfl, rfl⟩ rfl hen.1 hen.2.2 (by simp) ?_
      constructor <;> simp [hst]
    · rename_i hst
      refine hc.moves h (i := i) ⟨rfl, rfl, rfl, rfl, rfl, rfl, rfl⟩ rfl hen.1 hen.2.2 (by simp) ?_
      constructor <;> simp [hst]
    · rename_i hst
      simp only [Sub.opens, hst] at hopen
      by_cases hone : b.outstanding = 1
      · rw [if_pos hone]
        refine hc.moves h (i := i) ⟨rfl, rfl, rfl, rfl, rfl, rfl, rfl⟩ rfl hen.1 hen.2.2 (by simp) ?_
        constructor <;> simp [hst, hone, Nat.add_comm]
      · rw [if_neg hone]
        refine hc.moves h (i := i) ⟨rfl, rfl, rfl, rfl, rfl, rfl, rfl⟩ rfl hen.1 hen.2.2 (by simp) ?_
        constructor <;> simp [hst] <;> omega
    · rename_i hst
      refine hc.moves h (i := i) ⟨rfl, rfl, rfl, rfl, rfl, rfl, rfl⟩ rfl hen.1 hen.2.2 (by simp) ?_
      constructor <;> simp [hst, Nat.add_comm]
    · exact ⟨h, hc⟩
  | finish =>
    obtain ⟨hres, hall, _⟩ := hc.due hen
    have hclose := h.close hres hall (hc.result hall)
    refine ⟨⟨hclose.1, hclose.2, hclose.3, hclose.4, hclose.5, hclose.6, hclose.7⟩,
      ⟨hc.outstanding, hc.total, ?_, hc.noErr, hc.anErr⟩⟩
    have hh := hc.handover
    have hpos : 0 < b.posted := hen
    rw [hres] at hh
    simp only [effect, Batch.close, hres] at hh ⊢
    simp only [length_nil, nil_append, length_singleton] at hh ⊢
    omega

/-! ## 6. Runs -/

theorem Basic.sound (h : Basic s xrs b) {path : Path} (hc : path = .uring → Counted b) :
    Sound path s xrs b where
  fresh := h.fresh
  once := by
    by_cases hres : b.results = []
    · simp [hres]
    · exact Nat.le_of_eq (h.ended hres).1
  running hres := (h.running hres).2
  ended hres := (h.ended hres).2
  result := h.result
  ends hquiet := by
    by_contra hne
    have hres : b.results = [] := by
      by_contra hres
      exact hne (h.ended hres).1
    have hnext : b.next = b.count :=
      Nat.le_antisymm h.next_le (Nat.le_of_not_lt (hquiet (.submit 0 none)))
    have hall : b.AllSettled := by
      intro i hi
      by_contra hset
      have hw : (b.subs i).stage ≠ .waiting := by
        rw [Ne, h.waiting]
        omega
      exact hquiet (.advance i) ⟨hw, hquiet (.callback i 0 none), hset⟩
    cases path with
    | blocking => exact hquiet .finish ⟨hnext, hall, hres⟩
    | uring =>
      -- all are counted down and nobody is posting, so the batch is handed over or has ended
      have hout := (hc rfl).outstanding
      have hh := (hc rfl).handover
      rw [Lib.tally_congr (g := fun _ => 0) fun i hi => by simp only [Sub.opens, hall i hi],
        Lib.tally_const] at hout
      rw [Lib.tally_congr (g := fun _ => 0) fun i hi => by simp only [Sub.posts, hall i hi],
        Lib.tally_const, hres, length_nil] at hh
      exact hquiet .finish (show 0 < b.posted by omega)

theorem Sound.run (path : Path) (h : 0 < xrs.length) (es : List Event) :
    Sound path s xrs (Lib.runFrom (batchStep path) (.start (takeAll s xrs) xrs) es) := by
  cases path with
  | blocking =>
    refine Basic.sound ?_ (fun hp => by cases hp)
    exact Lib.runFrom_invariant (I := Basic s xrs) (fun b e hb => hb.blocking e) es (.start h)
  | uring =>
    have hrun := Lib.runFrom_invariant (I := fun b => Basic s xrs b ∧ Counted b)
      (fun b e hb => Counted.uring hb.1 hb.2 e) es ⟨Basic.start (s := s) h, Counted.start h⟩
    exact Basic.sound hrun.1 fun _ => hrun.2

end

end Slash.Driver
