import Slash.Lib.Outcome
import Slash.Lib.Splice
import Slash.Lib.Update

/-!
# Reading a design image

`read_entire_file` of the design writer: the bytes of a descriptor are read into a buffer that
grows by a fixed step whenever it is full, up to a limit. The heap is part of the state, so that
a write outside a buffer, a free of a pointer that holds no buffer and a buffer that is never
freed can all be told.

What the kernel answers is given by lists: how the coming reads end and whether the coming
allocations succeed. Once a list is used up reads are not cut short and allocations succeed.
-/

namespace Slash.Vrtd

open Lib List

abbrev Byte := BitVec 8

def readEntireFileAllocationStep : Nat := 2 * 1024 * 1024

def designWriterMaxBytes : Nat := 1024 * 1024 * 1024

/-! ## The heap and the descriptor -/

/-- An allocated buffer. A cell that was never written holds nothing. -/
structure HeapBuffer where
  size : Nat
  cells : Nat → Option Byte

/-- How a `read` ends. -/
inductive ReadAnswer where
  /-- It delivers at most this many bytes and one more. -/
  | short (most : Nat)
  | eintr
  /-- `-1` with another `errno`. -/
  | failed
  deriving DecidableEq, Repr

/-- The local `buf`. -/
inductive Pointer where
  | uninitialised
  | null
  | to (block : Nat)
  deriving DecidableEq, Repr

structure Reader where
  blocks : Nat → Option HeapBuffer
  next : Nat
  /-- The bytes behind the file offset of the descriptor. -/
  unread : List Byte
  reads : List ReadAnswer := []
  allocations : List Bool := []
  buf : Pointer := .uninitialised
  size : Nat := 0
  capacity : Nat := readEntireFileAllocationStep

inductive ReadFault where
  /-- The errors that the function reports with `-1`. -/
  | noMemory
  | readFailed
  | tooLarge
  /-- Undefined behaviour. -/
  | overrun
  | wildPointer
  deriving DecidableEq, Repr

abbrev ReadM := EStateM ReadFault Reader

/-- The fault is an error return. -/
def ReadFault.reported : ReadFault → Bool
  | .noMemory | .readFailed | .tooLarge => true
  | .overrun | .wildPointer => false

/-- A buffer `b` enters the heap. -/
def Reader.withBlock (s : Reader) (b : Nat) (buffer : Option HeapBuffer) : Reader :=
  { s with blocks := upd s.blocks b buffer }

/-- A buffer of this size, at the next block. -/
def Reader.allocated (s : Reader) (bytes : Nat) : Reader :=
  { s with
    blocks := upd s.blocks s.next (some ⟨bytes, fun _ => none⟩)
    next := s.next + 1
    allocations := s.allocations.tail }

def posixMemalign (bytes : Nat) : ReadM Nat := fun s =>
  if s.allocations.head? = some false then
    .error .noMemory { s with allocations := s.allocations.tail }
  else .ok s.next (s.allocated bytes)

def free : Pointer → ReadM Unit
  | .null => pure ()
  | .uninitialised => throw .wildPointer
  | .to b => fun s =>
    if (s.blocks b).isSome then .ok () (s.withBlock b none) else .error .wildPointer s

/-- Put `bytes` into a buffer from `offset` on. -/
def store (p : Pointer) (offset : Nat) (bytes : List Byte) : ReadM Unit := fun s =>
  match p with
  | .to b =>
    match s.blocks b with
    | some buffer =>
      if offset + bytes.length ≤ buffer.size then
        .ok () (s.withBlock b
          (some { buffer with cells := splice buffer.cells offset (bytes.map some) }))
      else .error .overrun s
    | none => .error .wildPointer s
  | _ => .error .wildPointer s

/-- `memcpy` from the start of one buffer to the start of another. -/
def memcpy (dst : Nat) (src : Pointer) (n : Nat) : ReadM Unit := fun s =>
  match src with
  | .to b =>
    match s.blocks dst, s.blocks b with
    | some target, some source =>
      if n ≤ target.size ∧ n ≤ source.size then
        .ok () (s.withBlock dst
          (some { target with
            cells := fun i => if i < n then source.cells i else target.cells i }))
      else .error .overrun s
    | _, _ => .error .wildPointer s
  | _ => .error .wildPointer s

/-! ## The functions -/

def reallocAllignedMemory (oldSize newSize : Nat) : ReadM Unit := do
  let newBuf ← posixMemalign newSize
  let s ← get
  memcpy newBuf s.buf oldSize
  free s.buf
  modify fun s => { s with buf := .to newBuf }

/-- The number of bytes that a read of at most `count` bytes delivers. -/
def delivered (answer : Option ReadAnswer) (count available : Nat) : Nat :=
  match answer with
  | some (.short most) => min (most + 1) (min count available)
  | _ => min count available

/-- The kernel puts the next `n` bytes where the pointer says. -/
def deliver (offset n : Nat) : ReadM (Option Nat) := do
  let s ← get
  store s.buf offset (s.unread.take n)
  modify fun s => { s with unread := s.unread.drop n, reads := s.reads.tail }
  pure (some n)

/-- The system call. `none` is `EINTR`. -/
def readFd (offset count : Nat) : ReadM (Option Nat) := fun s =>
  match s.reads.head? with
  | some .eintr => .ok none { s with reads := s.reads.tail }
  | some .failed => .error .readFailed { s with reads := s.reads.tail }
  | answer => deliver offset (delivered answer count s.unread.length) s

/-- One step more, with what is there so far. -/
def grow : ReadM Unit := do
  modify fun s => { s with capacity := s.capacity + readEntireFileAllocationStep }
  let s ← get
  reallocAllignedMemory s.size s.capacity

def growIfFull : ReadM Unit := fun s =>
  if s.size = s.capacity then grow s else .ok () s

def enforceLimit : ReadM Unit := fun s =>
  if s.capacity > designWriterMaxBytes then .error .tooLarge s else .ok () s

def checkRoom : ReadM Unit := do
  growIfFull
  enforceLimit

/-- What the loop does with the answer of `read`; whether it has come to the end of the file. -/
def afterRead : Option Nat → ReadM Bool
  | none => pure false
  | some 0 => pure true
  | some (n + 1) => do
    modify fun s => { s with size := s.size + (n + 1) }
    checkRoom
    pure false

/-- One round of the loop. -/
def readRound : ReadM Bool := do
  let s ← get
  let n ← readFd s.size (s.capacity - s.size)
  afterRead n

/-- The loop, for at most `fuel` rounds. `none` is a loop still running. -/
def readLoop : Nat → ReadM (Option Unit)
  | 0 => pure none
  | fuel + 1 => do
    let eof ← readRound
    if eof then pure (some ()) else readLoop fuel

/-- The body of the function, without the cleanup. -/
def readBody (fuel : Nat) : ReadM (Option Unit) := do
  let buf ← posixMemalign readEntireFileAllocationStep
  modify fun s => { s with buf := .to buf }
  readLoop fuel

/-- `_cleanup_(cleanup_free)`: an error return frees what `buf` points to; on success the buffer is
the caller's. -/
def readEntireFile (fuel : Nat) : ReadM (Option (Pointer × Nat)) := fun s =>
  match readBody fuel s with
  | .ok none t => .ok none t
  | .ok (some _) t => .ok (some (t.buf, t.size)) { t with buf := .null }
  | .error e t =>
    match free t.buf t with
    | .ok _ u => .error e u
    | .error e' u => .error e' u

/-! ## The heap during the loop -/

theorem step_pos : 0 < readEntireFileAllocationStep := by decide

theorem step_dvd_max : readEntireFileAllocationStep ∣ designWriterMaxBytes := ⟨512, rfl⟩

theorem capacity_at_limit {capacity : Nat} (hsteps : readEntireFileAllocationStep ∣ capacity)
    (hlimit : capacity ≤ designWriterMaxBytes)
    (hover : designWriterMaxBytes < capacity + readEntireFileAllocationStep) :
    capacity = designWriterMaxBytes := by
  have hzero : designWriterMaxBytes - capacity = 0 :=
    Nat.eq_zero_of_dvd_of_lt (Nat.dvd_sub step_dvd_max hsteps) (by omega)
  omega

/-- The heap is what it was before the call, and the buffer. -/
structure Holds (base : Nat → Option HeapBuffer) (s : Reader) (b size : Nat)
    (cells : Nat → Option Byte) : Prop where
  buf : s.buf = .to b
  heap : s.blocks = upd base b (some ⟨size, cells⟩)
  unused : base b = none
  below : b < s.next
  fresh : ∀ i, s.next ≤ i → base i = none

/-- The buffer, whatever it holds. -/
def Owned (base : Nat → Option HeapBuffer) (s : Reader) : Prop :=
  ∃ b size cells, Holds base s b size cells

/-- What is left of the answers. -/
def Later (s t : Reader) : Prop :=
  t.reads <:+ s.reads ∧ t.allocations <:+ s.allocations

section
variable {base : Nat → Option HeapBuffer} {s t : Reader} {b size : Nat}
  {cells : Nat → Option Byte}

theorem Later.refl (s : Reader) : Later s s := ⟨suffix_refl _, suffix_refl _⟩

theorem Later.trans {u : Reader} (h : Later s t) (h' : Later t u) : Later s u :=
  ⟨h'.1.trans h.1, h'.2.trans h.2⟩

theorem Holds.block (h : Holds base s b size cells) : s.blocks b = some ⟨size, cells⟩ := by
  rw [h.heap, upd_same]

theorem Holds.congr (h : Holds base s b size cells) (hbuf : t.buf = s.buf)
    (hheap : t.blocks = s.blocks) (hnext : t.next = s.next) : Holds base t b size cells where
  buf := hbuf.trans h.buf
  heap := hheap.trans h.heap
  unused := h.unused
  below := hnext ▸ h.below
  fresh := hnext ▸ h.fresh

theorem upd_upd (f : Nat → Option HeapBuffer) (i : Nat) (v w : Option HeapBuffer) :
    upd (upd f i v) i w = upd f i w := by
  funext j
  simp only [upd_apply]
  split <;> rfl

theorem upd_none {f : Nat → Option HeapBuffer} {i : Nat} (h : f i = none) : upd f i none = f := by
  funext j
  rw [upd_apply]
  split
  · rename_i hj
    rw [hj, h]
  · rfl

theorem free_ok {buffer : HeapBuffer} (h : s.blocks b = some buffer) :
    free (.to b) s = .ok () (s.withBlock b none) := by
  refine if_pos ?_
  rw [h]
  rfl

theorem memcpy_ok {dst n : Nat} {target source : HeapBuffer} (hdst : s.blocks dst = some target)
    (hsrc : s.blocks b = some source) (hn : n ≤ target.size ∧ n ≤ source.size) :
    memcpy dst (.to b) n s = .ok () (s.withBlock dst
      (some ⟨target.size, fun i => if i < n then source.cells i else target.cells i⟩)) := by
  simp only [memcpy, hdst, hsrc, if_pos hn]

/-- Freeing the buffer leaves the heap as it was before the call. -/
theorem Owned.freed (h : Owned base s) : ∃ t, free s.buf s = .ok () t ∧ t.blocks = base := by
  obtain ⟨b, size, cells, h⟩ := h
  refine ⟨s.withBlock b none, h.buf ▸ free_ok h.block, ?_⟩
  rw [Reader.withBlock, h.heap, upd_upd, upd_none h.unused]

theorem store_ok (h : Holds base s b size cells) {offset : Nat} {bytes : List Byte}
    (hroom : offset + bytes.length ≤ size) :
    ∃ t, store s.buf offset bytes s = .ok () t ∧
      t = s.withBlock b (some ⟨size, splice cells offset (bytes.map some)⟩) ∧
      Holds base t b size (splice cells offset (bytes.map some)) := by
  refine ⟨_, ?_, rfl, h.buf, ?_, h.unused, h.below, h.fresh⟩
  · simp only [store, h.buf, h.block, if_pos hroom]
  · rw [Reader.withBlock, h.heap, upd_upd]

theorem deliver_ok (h : Holds base s b size cells) {offset n : Nat}
    (hroom : offset + n ≤ size) (hn : n ≤ s.unread.length) :
    ∃ t, deliver offset n s = .ok (some n) t ∧
      Holds base t b size (splice cells offset ((s.unread.take n).map some)) ∧
      t.unread = s.unread.drop n ∧ t.reads = s.reads.tail ∧ t.allocations = s.allocations ∧
      t.size = s.size ∧ t.capacity = s.capacity := by
  have hlength : offset + (s.unread.take n).length ≤ size := by
    rw [length_take, Nat.min_eq_left hn]
    exact hroom
  obtain ⟨t, hstore, rfl, ht⟩ := store_ok h hlength
  refine ⟨_, ?_, ht.congr (t := { s.withBlock b _ with
    unread := s.unread.drop n, reads := s.reads.tail }) rfl rfl rfl, rfl, rfl, rfl, rfl, rfl⟩
  unfold deliver
  rw [run_get_bind, run_bind_of_ok hstore]
  rfl

theorem moved_heap {next : Nat} (hne : b ≠ next) (hunused : base b = none)
    (old new copied : HeapBuffer) :
    upd (upd (upd (upd base b (some old)) next (some new)) next (some copied)) b none =
      upd base next (some copied) := by
  funext i
  simp only [upd_apply]
  by_cases hb : i = b
  · rw [if_pos hb, if_neg (hb ▸ hne), hb, hunused]
  · rw [if_neg hb]
    by_cases hn : i = next
    · rw [if_pos hn, if_pos hn]
    · rw [if_neg hn, if_neg hn, if_neg hn, if_neg hb]

/-- A new buffer with what is in the old one, which is gone. -/
theorem realloc_cases (h : Holds base s b size cells) {oldSize newSize : Nat}
    (hold : oldSize ≤ size) (hnew : oldSize ≤ newSize) :
    (false ∈ s.allocations ∧ ∃ t, reallocAllignedMemory oldSize newSize s = .error .noMemory t ∧
      Holds base t b size cells) ∨
    ∃ t b' cells', reallocAllignedMemory oldSize newSize s = .ok () t ∧
      Holds base t b' newSize cells' ∧ (∀ i < oldSize, cells' i = cells i) ∧
      t.unread = s.unread ∧ t.reads = s.reads ∧ t.allocations = s.allocations.tail ∧
      t.size = s.size ∧ t.capacity = s.capacity := by
  by_cases hfail : s.allocations.head? = some false
  · refine .inl ⟨mem_of_head? hfail, { s with allocations := s.allocations.tail }, ?_,
      h.congr rfl rfl rfl⟩
    unfold reallocAllignedMemory
    exact run_bind_of_error (if_pos hfail)
  · have hne : b ≠ s.next := Nat.ne_of_lt h.below
    have halloc : posixMemalign newSize s = .ok s.next (s.allocated newSize) := if_neg hfail
    have hsrc : (s.allocated newSize).blocks b = some ⟨size, cells⟩ :=
      (upd_ne _ _ hne).trans h.block
    have hdst : (s.allocated newSize).blocks s.next = some ⟨newSize, fun _ => none⟩ :=
      upd_same _ _ _
    have hcopy := memcpy_ok hdst hsrc ⟨hnew, hold⟩
    generalize hcopied : (s.allocated newSize).withBlock s.next _ = t at hcopy
    have hblocks : t.blocks = upd (s.allocated newSize).blocks s.next
        (some ⟨newSize, fun i => if i < oldSize then cells i else none⟩) := by
      rw [← hcopied]
      rfl
    have hold' : t.blocks b = some ⟨size, cells⟩ := by
      rw [hblocks, upd_ne _ _ hne, hsrc]
    have hfree := free_ok hold'
    have hend : reallocAllignedMemory oldSize newSize s =
        .ok () { t.withBlock b none with buf := .to s.next } := by
      unfold reallocAllignedMemory
      rw [run_bind_of_ok halloc, run_get_bind, show (s.allocated newSize).buf = .to b from h.buf,
        run_bind_of_ok hcopy, run_bind_of_ok hfree]
      rfl
    refine .inr ⟨_, s.next, fun i => if i < oldSize then cells i else none, hend,
      ⟨rfl, ?_, h.fresh _ (Nat.le_refl _), ?_, ?_⟩, fun i hi => if_pos hi, ?_⟩
    · rw [← moved_heap hne h.unused ⟨size, cells⟩ ⟨newSize, fun _ => none⟩, ← h.heap]
      exact congrArg (fun f => upd f b none) hblocks
    all_goals subst hcopied
    · exact Nat.lt_succ_of_le (Nat.le_refl _)
    · exact fun i hi => h.fresh i (Nat.le_of_succ_le hi)
    · exact ⟨rfl, rfl, rfl, rfl, rfl⟩

end

/-! ## The loop -/

/-- The buffer begins with what was read of the file. -/
structure Received (file : List Byte) (base : Nat → Option HeapBuffer) (s : Reader) : Prop where
  holds : ∃ b cells, Holds base s b s.capacity cells ∧ ∀ i < s.size, cells i = file[i]?
  split : s.unread = file.drop s.size
  inFile : s.size ≤ file.length
  fits : s.size ≤ s.capacity
  steps : readEntireFileAllocationStep ∣ s.capacity
  limit : s.capacity ≤ designWriterMaxBytes

/-- Between two rounds there is room for another byte. -/
structure Reading (file : List Byte) (base : Nat → Option HeapBuffer) (s : Reader) : Prop
    extends Received file base s where
  room : s.size < s.capacity

/-- An error return: the buffer is there to be freed, and the cause is what it says. -/
def Stopped (file : List Byte) (base : Nat → Option HeapBuffer) (s : Reader) (e : ReadFault)
    (t : Reader) : Prop :=
  Owned base t ∧ (e = .tooLarge ∧ designWriterMaxBytes ≤ file.length ∨
    e = .readFailed ∧ .failed ∈ s.reads ∨ e = .noMemory ∧ false ∈ s.allocations)

section
variable {file : List Byte} {base : Nat → Option HeapBuffer} {s t u : Reader} {e : ReadFault}

theorem Stopped.of_later (h : Stopped file base t e u) (hlater : Later s t) :
    Stopped file base s e u := by
  obtain ⟨howned, hwhy⟩ := h
  refine ⟨howned, ?_⟩
  rcases hwhy with hlarge | ⟨he, hmem⟩ | ⟨he, hmem⟩
  · exact .inl hlarge
  · exact .inr (.inl ⟨he, hlater.1.subset hmem⟩)
  · exact .inr (.inr ⟨he, hlater.2.subset hmem⟩)

theorem delivered_le (answer : Option ReadAnswer) (count available : Nat) :
    delivered answer count available ≤ count ∧ delivered answer count available ≤ available := by
  unfold delivered
  split <;> omega

theorem delivered_pos (answer : Option ReadAnswer) {count available : Nat} (hc : 0 < count)
    (ha : 0 < available) : 0 < delivered answer count available := by
  unfold delivered
  split <;> omega

theorem readFd_cases (offset count : Nat) (s : Reader) :
    (s.reads.head? = some .eintr ∧
      readFd offset count s = .ok none { s with reads := s.reads.tail }) ∨
    (.failed ∈ s.reads ∧
      readFd offset count s = .error .readFailed { s with reads := s.reads.tail }) ∨
    ∃ answer, readFd offset count s =
      deliver offset (delivered answer count s.unread.length) s := by
  cases hhead : s.reads.head? with
  | none => exact .inr (.inr ⟨none, by simp only [readFd, hhead]⟩)
  | some answer =>
    cases answer with
    | short most => exact .inr (.inr ⟨some (.short most), by simp only [readFd, hhead]⟩)
    | eintr => exact .inl ⟨rfl, by simp only [readFd, hhead]⟩
    | failed => exact .inr (.inl ⟨mem_of_head? hhead, by simp only [readFd, hhead]⟩)

theorem cells_after {cells : Nat → Option Byte} {size n : Nat} (hsize : size ≤ file.length)
    (hcells : ∀ i < size, cells i = file[i]?) {i : Nat} (hi : i < size + n)
    (hn : n ≤ (file.drop size).length) :
    splice cells size (((file.drop size).take n).map some) i = file[i]? := by
  rcases Nat.lt_or_ge i size with hlt | hge
  · rw [splice_below _ _ hlt, hcells i hlt]
  · obtain ⟨k, rfl⟩ := Nat.exists_eq_add_of_le hge
    have hk : k < n := by omega
    have hlength : k < (((file.drop size).take n).map some).length := by
      rw [length_map, length_take]
      omega
    have hin : size + k < file.length := by
      rw [length_drop] at hn
      omega
    rw [splice_inside _ _ hlength, List.getElem?_eq_getElem hin]
    simp only [getElem_map, getElem_take, getElem_drop]

theorem Received.congr (h : Received file base s) (hbuf : t.buf = s.buf)
    (hheap : t.blocks = s.blocks) (hnext : t.next = s.next) (hunread : t.unread = s.unread)
    (hsize : t.size = s.size) (hcap : t.capacity = s.capacity) : Received file base t where
  holds := by
    obtain ⟨b, cells, hholds, hcells⟩ := h.holds
    exact ⟨b, cells, hcap ▸ hholds.congr hbuf hheap hnext, hsize ▸ hcells⟩
  split := by rw [hunread, hsize, h.split]
  inFile := hsize ▸ h.inFile
  fits := by rw [hsize, hcap]; exact h.fits
  steps := hcap ▸ h.steps
  limit := hcap ▸ h.limit

theorem grow_cases (h : Received file base s) (hfull : s.size = s.capacity) :
    (false ∈ s.allocations ∧ ∃ t, grow s = .error .noMemory t ∧ Owned base t) ∨
    ∃ t b cells, grow s = .ok () t ∧ Holds base t b t.capacity cells ∧
      (∀ i < s.size, cells i = file[i]?) ∧ t.size = s.size ∧
      t.capacity = s.capacity + readEntireFileAllocationStep ∧
      t.unread = s.unread ∧ t.reads = s.reads ∧ t.allocations = s.allocations.tail := by
  obtain ⟨b, cells, hholds, hcells⟩ := h.holds
  have hholds' : Holds base { s with capacity := s.capacity + readEntireFileAllocationStep }
      b s.capacity cells := hholds.congr rfl rfl rfl
  have hstep : grow s = reallocAllignedMemory s.size
      (s.capacity + readEntireFileAllocationStep)
      { s with capacity := s.capacity + readEntireFileAllocationStep } := rfl
  have hnew : s.size ≤ s.capacity + readEntireFileAllocationStep := by omega
  rcases realloc_cases hholds' h.fits hnew with
    ⟨hmem, t, hfail, ht⟩ | ⟨t, b', cells', hok, ht, hsame, hun, hre, hal, hsz, hcap⟩
  · exact .inl ⟨hmem, t, hstep.trans hfail, b, _, cells, ht⟩
  · refine .inr ⟨t, b', cells', hstep.trans hok, ?_, fun i hi => ?_, hsz, hcap, hun, hre, hal⟩
    · rw [hcap]
      exact ht
    · rw [hsame i hi, hcells i hi]

/-- Growing, if the buffer is full, and the check of the limit. -/
theorem checkRoom_cases (h : Received file base s) :
    (∃ t, checkRoom s = .ok () t ∧ Reading file base t ∧ t.unread = s.unread ∧ Later s t) ∨
    ∃ e t, checkRoom s = .error e t ∧ Stopped file base s e t := by
  have hinFile := h.inFile
  unfold checkRoom
  by_cases hfull : s.size = s.capacity
  · have hgrow : growIfFull s = grow s := if_pos hfull
    rcases grow_cases h hfull with
      ⟨hmem, t, hfail, ht⟩ | ⟨t, b, cells, hok, ht, hcells, hsize, hcap, hunread, hreads, hallocs⟩
    · exact .inr ⟨.noMemory, t, run_bind_of_error (hgrow.trans hfail), ht, .inr (.inr ⟨rfl, hmem⟩)⟩
    · rw [run_bind_of_ok (hgrow.trans hok)]
      by_cases hover : t.capacity > designWriterMaxBytes
      · -- the buffer had the largest size and was full
        refine .inr ⟨.tooLarge, t, if_pos hover, ⟨b, _, cells, ht⟩, .inl ⟨rfl, ?_⟩⟩
        have hmax := capacity_at_limit h.steps h.limit (hcap ▸ hover)
        omega
      · refine .inl ⟨t, if_neg hover, ⟨⟨⟨b, cells, ht, hsize ▸ hcells⟩, ?_, hsize ▸ hinFile, ?_, ?_,
          Nat.not_lt.mp hover⟩, ?_⟩, hunread, hreads ▸ suffix_refl _,
          hallocs ▸ tail_suffix _⟩
        · rw [hunread, hsize, h.split]
        · omega
        · rw [hcap]
          exact Nat.dvd_add h.steps (Nat.dvd_refl _)
        · have hpos := step_pos
          omega
  · have hstay : growIfFull s = .ok () s := if_neg hfull
    rw [run_bind_of_ok hstay]
    exact .inl ⟨s, if_neg (Nat.not_lt.mpr h.limit), ⟨h, Nat.lt_of_le_of_ne h.fits hfull⟩, rfl,
      Later.refl s⟩

/-- What a read delivers is received. -/
theorem deliver_received (h : Reading file base s) {n : Nat} (hn : n ≤ s.capacity - s.size)
    (havailable : n ≤ s.unread.length) :
    ∃ t, deliver s.size n s = .ok (some n) t ∧
      Received file base { t with size := t.size + n } ∧
      t.unread = s.unread.drop n ∧ t.reads = s.reads.tail ∧ t.allocations = s.allocations ∧
      t.size = s.size ∧ t.capacity = s.capacity := by
  obtain ⟨b, cells, hholds, hcells⟩ := h.holds
  have hroom := h.room
  have hinFile := h.inFile
  obtain ⟨t, hdeliver, ht, hunread, hreads, hallocs, hsize, hcap⟩ :=
    deliver_ok hholds (show s.size + n ≤ s.capacity by omega) havailable
  rw [h.split, ← hcap] at ht
  rw [h.split] at havailable
  refine ⟨t, hdeliver, ⟨⟨b, _, ht.congr rfl rfl rfl, fun i hi => ?_⟩, ?_, ?_, ?_, ?_, ?_⟩,
    hunread, hreads, hallocs, hsize, hcap⟩
  · exact cells_after hinFile hcells (hsize ▸ hi) havailable
  · show t.unread = file.drop (t.size + n)
    rw [hunread, hsize, h.split, drop_drop]
  · show t.size + n ≤ file.length
    rw [length_drop] at havailable
    omega
  · show t.size + n ≤ t.capacity
    omega
  · exact hcap ▸ h.steps
  · exact hcap ▸ h.limit

/-- One round: the end of the file, progress, or an error. -/
theorem readRound_cases (h : Reading file base s) :
    (∃ t, readRound s = .ok true t ∧ Reading file base t ∧ t.unread = []) ∨
    (∃ t, readRound s = .ok false t ∧ Reading file base t ∧ Later s t ∧
      t.unread.length + t.reads.length < s.unread.length + s.reads.length) ∨
    ∃ e t, readRound s = .error e t ∧ Stopped file base s e t := by
  have hroom := h.room
  have hround : readRound s = (readFd s.size (s.capacity - s.size) >>= afterRead) s := rfl
  have htail : Received file base { s with reads := s.reads.tail } :=
    h.toReceived.congr rfl rfl rfl rfl rfl rfl
  rcases readFd_cases s.size (s.capacity - s.size) s with
    ⟨heintr, hread⟩ | ⟨hmem, hread⟩ | ⟨answer, hread⟩
  · -- interrupted: nothing changed but the answers that are left
    refine .inr (.inl ⟨{ s with reads := s.reads.tail }, ?_, ⟨htail, hroom⟩,
      ⟨tail_suffix _, suffix_refl _⟩, ?_⟩)
    · rw [hround, run_bind_of_ok hread]
      rfl
    · obtain ⟨answers, hcons⟩ := List.head?_eq_some_iff.mp heintr
      simp only [hcons, tail_cons, length_cons]
      omega
  · obtain ⟨b, cells, hholds, -⟩ := htail.holds
    refine .inr (.inr ⟨.readFailed, { s with reads := s.reads.tail }, ?_,
      ⟨b, _, cells, hholds⟩, .inr (.inl ⟨rfl, hmem⟩)⟩)
    rw [hround, run_bind_of_error hread]
  · obtain ⟨hcount, havailable⟩ := delivered_le answer (s.capacity - s.size) s.unread.length
    generalize hn : delivered answer (s.capacity - s.size) s.unread.length = n at *
    obtain ⟨t, hdeliver, ht, hunread, hreads, hallocs, hsize, hcap⟩ :=
      deliver_received h hcount havailable
    rw [hround, run_bind_of_ok (hread.trans hdeliver)]
    have hlater : Later s t := ⟨hreads ▸ tail_suffix _, hallocs ▸ suffix_refl _⟩
    cases n with
    | zero =>
      -- the end of the file, since there is room for another byte
      have hempty : s.unread = [] := by
        by_contra hne
        have hpos := delivered_pos answer (Nat.sub_pos_of_lt hroom)
          (length_pos_iff.mpr hne)
        omega
      refine .inl ⟨t, rfl, ⟨ht.congr rfl rfl rfl rfl rfl rfl, by omega⟩, ?_⟩
      rw [hunread, hempty]
      rfl
    | succ m =>
      have hstep : afterRead (some (m + 1)) t =
          (checkRoom >>= fun _ => pure false) { t with size := t.size + (m + 1) } := rfl
      rw [hstep]
      rcases checkRoom_cases ht with ⟨u, hok, hu, hun, hlater'⟩ | ⟨e, u, hfail, hstop⟩
      · refine .inr (.inl ⟨u, run_bind_of_ok hok, hu, hlater.trans hlater', ?_⟩)
        have hreadsLe := hlater'.1.length_le
        replace hreadsLe : u.reads.length ≤ t.reads.length := hreadsLe
        replace hun : u.unread = t.unread := hun
        rw [hreads, length_tail] at hreadsLe
        rw [hun, hunread, length_drop]
        omega
      · exact .inr (.inr ⟨e, u, run_bind_of_error hfail, hstop.of_later hlater⟩)

theorem readLoop_cases (fuel : Nat) : ∀ {s : Reader}, Reading file base s →
    s.unread.length + s.reads.length < fuel →
    (∃ t, readLoop fuel s = .ok (some ()) t ∧ Reading file base t ∧ t.unread = []) ∨
    ∃ e t, readLoop fuel s = .error e t ∧ Stopped file base s e t := by
  induction fuel with
  | zero => exact fun _ hfuel => absurd hfuel (Nat.not_lt_zero _)
  | succ fuel ih =>
    intro s h hfuel
    unfold readLoop
    rcases readRound_cases h with ⟨t, hround, ht, heof⟩ | ⟨t, hround, ht, hlater, hless⟩ |
      ⟨e, t, hround, hstop⟩
    · rw [run_bind_of_ok hround]
      exact .inl ⟨t, rfl, ht, heof⟩
    · rw [run_bind_of_ok hround]
      rcases ih ht (by omega) with ⟨u, hloop, hu, heof⟩ | ⟨e, u, hloop, hstop⟩
      · exact .inl ⟨u, hloop, hu, heof⟩
      · exact .inr ⟨e, u, hloop, hstop.of_later hlater⟩
    · exact .inr ⟨e, t, run_bind_of_error hround, hstop⟩

end

/-! ## The whole function -/

/-- The heap of the process before the call. -/
structure ProcessHeap where
  blocks : Nat → Option HeapBuffer
  next : Nat
  fresh : ∀ i, next ≤ i → blocks i = none

/-- The state in which the function is entered. -/
def ProcessHeap.enter (heap : ProcessHeap) (file : List Byte) (reads : List ReadAnswer)
    (allocations : List Bool) : Reader where
  blocks := heap.blocks
  next := heap.next
  unread := file
  reads := reads
  allocations := allocations

abbrev ReadResult := EStateM.Result ReadFault Reader (Option (Pointer × Nat))

/-- The caller gets a new buffer with the bytes of the file, and its length. -/
def Whole (heap : ProcessHeap) (file : List Byte) (r : ReadResult) : Prop :=
  ∃ b t buffer, r = .ok (some (.to b, file.length)) t ∧ heap.blocks b = none ∧
    t.blocks = upd heap.blocks b (some buffer) ∧ file.length ≤ buffer.size ∧
    ∀ i < file.length, buffer.cells i = file[i]?

/-- An error return that leaves the heap as it was. -/
def Refused (heap : ProcessHeap) (r : ReadResult) : Prop :=
  ∃ e t, r = .error e t ∧ e.reported = true ∧ t.blocks = heap.blocks

section
variable {heap : ProcessHeap} {file : List Byte} {reads : List ReadAnswer}
  {allocations : List Bool} {fuel : Nat}

theorem enter_reading (heap : ProcessHeap) (file : List Byte) (reads : List ReadAnswer)
    (fuel : Nat) (halloc : allocations.head? ≠ some false) :
    ∃ s, readBody fuel (heap.enter file reads allocations) = readLoop fuel s ∧
      Reading file heap.blocks s ∧ s.unread = file ∧ s.reads = reads ∧
      s.allocations <:+ allocations := by
  refine ⟨{ (heap.enter file reads allocations).allocated readEntireFileAllocationStep with
    buf := .to heap.next }, ?_, ⟨⟨⟨heap.next, fun _ => none, ⟨rfl, rfl, heap.fresh _ (Nat.le_refl _),
    Nat.lt_succ_self _, fun i hi => heap.fresh i (Nat.le_of_succ_le hi)⟩, fun i hi => ?_⟩, rfl,
    Nat.zero_le _, Nat.zero_le _, Nat.dvd_refl _, ?_⟩, step_pos⟩, rfl, rfl, tail_suffix _⟩
  · unfold readBody
    have hok : posixMemalign readEntireFileAllocationStep (heap.enter file reads allocations) =
        .ok heap.next ((heap.enter file reads allocations).allocated
          readEntireFileAllocationStep) := if_neg halloc
    rw [run_bind_of_ok hok]
    rfl
  · exact absurd hi (Nat.not_lt_zero i)
  · exact Nat.le_of_dvd (by decide) step_dvd_max

/-- How the function ends once it has its first buffer. -/
theorem readEntireFile_cases (heap : ProcessHeap) (halloc : allocations.head? ≠ some false)
    (hfuel : file.length + reads.length < fuel) :
    (file.length < designWriterMaxBytes ∧
      Whole heap file (readEntireFile fuel (heap.enter file reads allocations))) ∨
    (Refused heap (readEntireFile fuel (heap.enter file reads allocations)) ∧
      (designWriterMaxBytes ≤ file.length ∨ .failed ∈ reads ∨ false ∈ allocations)) := by
  obtain ⟨s, hbody, hs, hunread, hreads, hallocs⟩ :=
    enter_reading heap file reads fuel halloc
  have hfuel' : s.unread.length + s.reads.length < fuel := by
    rw [hunread, hreads]
    exact hfuel
  rcases readLoop_cases fuel hs hfuel' with ⟨t, hloop, ht, heof⟩ | ⟨e, t, hloop, howned, hwhy⟩
  · obtain ⟨b, cells, hholds, hcells⟩ := ht.holds
    have hsize : t.size = file.length := by
      have hdrop := ht.split
      rw [heof] at hdrop
      exact Nat.le_antisymm ht.inFile (drop_eq_nil_iff.mp hdrop.symm)
    have hroom := ht.room
    have hlimit := ht.limit
    refine .inl ⟨by omega, b, { t with buf := .null }, ⟨t.capacity, cells⟩, ?_, hholds.unused,
      hholds.heap, ?_, fun i hi => hcells i (hsize ▸ hi)⟩
    · simp only [readEntireFile, hbody, hloop, hholds.buf, hsize]
    · show file.length ≤ t.capacity
      omega
  · obtain ⟨u, hfree, hu⟩ := howned.freed
    have hresult : readEntireFile fuel (heap.enter file reads allocations) = .error e u := by
      simp only [readEntireFile, hbody, hloop, hfree]
    rw [hresult]
    rcases hwhy with ⟨rfl, hlarge⟩ | ⟨rfl, hmem⟩ | ⟨rfl, hmem⟩
    · exact .inr ⟨⟨_, u, rfl, rfl, hu⟩, .inl hlarge⟩
    · exact .inr ⟨⟨_, u, rfl, rfl, hu⟩, .inr (.inl (hreads ▸ hmem))⟩
    · exact .inr ⟨⟨_, u, rfl, rfl, hu⟩, .inr (.inr (hallocs.subset hmem))⟩

theorem Refused.not_whole {r : ReadResult} (h : Refused heap r) (file : List Byte) :
    ¬ Whole heap file r := by
  rintro ⟨b, t, buffer, hok, -⟩
  obtain ⟨e, u, herror, -⟩ := h
  rw [herror] at hok
  cases hok

end

/-- The function reads the files of at most 1 GiB, and refuses the others. -/
def ReadsImages (heap : ProcessHeap) (file : List Byte) (r : ReadResult) : Prop :=
  (Whole heap file r ↔ file.length ≤ designWriterMaxBytes) ∧ (¬ Whole heap file r → Refused heap r)

/-- However the reads are cut short or interrupted, all files are read or refused as they should
but those of exactly 1 GiB. -/
theorem readEntireFile_images (heap : ProcessHeap) (file : List Byte) (reads : List ReadAnswer)
    (allocations : List Bool) (fuel : Nat) (hreads : .failed ∉ reads)
    (hallocs : false ∉ allocations) (hfuel : file.length + reads.length < fuel) :
    ReadsImages heap file (readEntireFile fuel (heap.enter file reads allocations)) ↔
      file.length ≠ designWriterMaxBytes := by
  have hhead : allocations.head? ≠ some false := fun h => hallocs (mem_of_head? h)
  rcases readEntireFile_cases heap hhead hfuel with ⟨hless, hwhole⟩ | ⟨hrefused, hwhy⟩
  · constructor
    · exact fun _ => Nat.ne_of_lt hless
    · exact fun _ => ⟨⟨fun _ => Nat.le_of_lt hless, fun _ => hwhole⟩, fun hnot => absurd hwhole hnot⟩
  · have hlarge : designWriterMaxBytes ≤ file.length := by
      rcases hwhy with hlarge | hmem | hmem
      · exact hlarge
      · exact absurd hmem hreads
      · exact absurd hmem hallocs
    have hnot := hrefused.not_whole file
    constructor
    · rintro ⟨hiff, -⟩ heq
      exact hnot (hiff.mpr (Nat.le_of_eq heq))
    · intro hne
      exact ⟨⟨fun hwhole => absurd hwhole hnot, fun hle => absurd (Nat.le_antisymm hle hlarge) hne⟩,
        fun _ => hrefused⟩

def emptyHeap : ProcessHeap where
  blocks := fun _ => none
  next := 0
  fresh := fun _ _ => rfl

/-- Three bytes in two reads, with an interruption. -/
theorem readEntireFile_three_bytes :
    ReadsImages emptyHeap [1, 2, 3] (readEntireFile 8
      (emptyHeap.enter [1, 2, 3] [.short 0, .eintr, .short 4] [])) :=
  (readEntireFile_images emptyHeap [1, 2, 3] [.short 0, .eintr, .short 4] [] 8 (by decide)
    (by decide) (by decide)).mpr (by decide)

/-- A file of exactly 1 GiB is refused. -/
theorem readEntireFile_full_gibibyte :
    ¬ ReadsImages emptyHeap (List.replicate designWriterMaxBytes 0)
      (readEntireFile (designWriterMaxBytes + 1)
        (emptyHeap.enter (List.replicate designWriterMaxBytes 0) [] [])) := by
  have hlength : (List.replicate designWriterMaxBytes (0 : Byte)).length = designWriterMaxBytes :=
    length_replicate
  rintro ⟨hiff, -⟩
  have hfuel : (List.replicate designWriterMaxBytes (0 : Byte)).length +
      ([] : List ReadAnswer).length < designWriterMaxBytes + 1 := by
    rw [hlength]
    exact Nat.lt_succ_self _
  rcases readEntireFile_cases emptyHeap (fun h : [].head? = some false => by cases h) hfuel with
    ⟨hless, -⟩ | ⟨hrefused, -⟩
  · omega
  · exact hrefused.not_whole _ (hiff.mpr (Nat.le_of_eq hlength))

end Slash.Vrtd
