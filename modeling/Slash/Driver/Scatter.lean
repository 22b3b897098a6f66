import Mathlib.Data.List.Perm.Basic
import Slash.Driver.Qpairs

/-!
# Buffers and their scatter lists (`slash_qdma_xfer_prep`)

A registered buffer keeps one scatter entry per page. A sub-transfer of whole pages points into
that list; one that ends inside a page gets a copy of its own whose last entry is cut short, so
that the cached list can be used again. Preparing a sub-transfer takes a reference to the
buffer, and each refusal after that point drops it again.

`Prepared` is what a sub-transfer that was let through looks like, and `prepare_cases` is what
both transfer paths rest on.
-/

namespace Slash.Driver

open List

/-! ## 1. Buffers -/

/-- The first `len` bytes of a page. -/
structure Sg where
  page : Nat
  len : Nat
  deriving DecidableEq, Repr

/-- `struct slash_qdma_buf` as `slash_qdma_buf_alloc` leaves it. -/
structure Buf where
  granule : Nat
  length : Nat
  pagesNr : Nat
  sgl : List Sg
  refs : Nat
  granule_pos : 0 < granule
  length_eq : length = pagesNr * granule
  sgl_eq : sgl = (List.range' 0 pagesNr).map fun i => ⟨i, granule⟩

abbrev Store := Nat → Buf

/-- `slash_qdma_buf_get` -/
def Store.get (s : Store) (b : Nat) : Store :=
  Function.update s b { s b with refs := (s b).refs + 1 }

/-- `slash_qdma_buf_put` -/
def Store.put (s : Store) (b : Nat) : Store :=
  Function.update s b { s b with refs := (s b).refs - 1 }

@[simp] theorem Store.put_get (s : Store) (b : Nat) : (s.get b).put b = s := by
  funext c
  by_cases h : c = b
  · subst h; simp [Store.put, Store.get]
  · simp [Store.put, Store.get, h]

def Sg.bytes (g : Nat) (e : Sg) : List Nat := List.range' (e.page * g) e.len

theorem flatMap_pages (g : Nat) : ∀ start n,
    ((List.range' start n).map fun i => (⟨i, g⟩ : Sg)).flatMap (Sg.bytes g) =
      List.range' (start * g) (n * g) := by
  intro start n
  induction n generalizing start with
  | zero => simp
  | succ n ih =>
    rw [range'_succ, map_cons, flatMap_cons, ih, Sg.bytes, Nat.succ_mul,
      Nat.succ_mul, Nat.add_comm (n * g)]
    exact range'_append_1

theorem pages_eq {g : Nat} (hg : 0 < g) (len : Nat) :
    (len + g - 1) / g = len / g + if len % g = 0 then 0 else 1 := by
  have hlen := Nat.div_add_mod' len g
  have hlt := Nat.mod_lt len hg
  split
  · apply Nat.div_eq_of_lt_le <;> rw [Nat.add_zero]
    · omega
    · rw [Nat.succ_mul]; omega
  · apply Nat.div_eq_of_lt_le
    · rw [Nat.succ_mul]; omega
    · rw [Nat.succ_mul, Nat.succ_mul]; omega

/-! ## 2. One sub-transfer -/

inductive Direction where
  | queue (t : QType)
  | unknown
  deriving DecidableEq, Repr

/-- `SLASH_QDMA_XFER_H2C` and `SLASH_QDMA_XFER_C2H`. -/
def Direction.ofNat : Nat → Direction
  | 0 => .queue .h2c
  | 1 => .queue .c2h
  | _ => .unknown

/-- `struct slash_qdma_subxfer`, with whether the list it may need can be allocated. -/
structure Subxfer where
  qpairIndex : Nat
  direction : Nat
  bufFd : Nat
  bufOffset : Nat
  devAddr : Nat
  length : Nat
  noMem : Bool
  deriving DecidableEq, Repr

/-- What `buf_fd` resolves to: a `foreign` file is no buffer, or one of another device. -/
inductive File where
  | closed
  | foreign
  | buffer (b : Nat)
  deriving DecidableEq, Repr

structure Xfer where
  buf : Nat
  qhndl : Handle
  sgl : List Sg
  sgcnt : Nat
  write : Bool
  epAddr : Nat
  count : Nat

/-- The context of a queue-pair descriptor and of the process using it. -/
structure Ctx where
  dev : Dev
  entries : List Entry
  files : Nat → File

def uintMax : Nat := 4294967295

def xferPrep (c : Ctx) (entry : Entry) (x : Subxfer) (s : Store) : Store × Except Errno Xfer :=
  match Direction.ofNat x.direction with
  | .unknown => (s, .error .einval)
  | .queue t =>
    if x.length = 0 ∨ uintMax < x.length then (s, .error .einval)
    else
      match c.files x.bufFd with
      | .closed => (s, .error .ebadf)
      | .foreign => (s, .error .einval)
      | .buffer b =>
        let s' := s.get b
        let buf := s' b
        let start := x.bufOffset / buf.granule
        let n := (x.length + buf.granule - 1) / buf.granule
        if buf.granule = 0 ∨ x.bufOffset % buf.granule ≠ 0 then (s'.put b, .error .einval)
        else if buf.length < x.bufOffset ∨ buf.length - x.bufOffset < x.length then
          (s'.put b, .error .einval)
        else if buf.pagesNr < start + n then (s'.put b, .error .einval)
        else if c.dev.hwShutdown || !c.dev.haveQdmaHandle then (s'.put b, .error .enodev)
        else
          match (if entry.dirs t then entry.qhndl t else none) with
          | none => (s'.put b, .error .enodev)
          | some h =>
            let slice := (buf.sgl.drop start).take n
            let tail := x.length % buf.granule
            if tail ≠ 0 ∧ x.noMem then (s'.put b, .error .enomem)
            else
              -- only the copy has its last entry cut short
              (s', .ok ⟨b, h, if tail = 0 then slice else
                slice.modify (n - 1) fun e => { e with len := tail },
                n, decide (t = .h2c), x.devAddr, x.length⟩)

/-- What is submitted for `x`: exactly the bytes asked for, in order. -/
structure Prepared (s : Store) (x : Subxfer) (xr : Xfer) : Prop where
  covers : xr.sgl.flatMap (Sg.bytes (s xr.buf).granule) = List.range' x.bufOffset x.length
  sgcnt : xr.sgcnt = xr.sgl.length
  count : xr.count = x.length

theorem slice_eq (buf : Buf) {start n : Nat} (h : start + n ≤ buf.pagesNr) :
    (buf.sgl.drop start).take n = (List.range' start n).map fun i => ⟨i, buf.granule⟩ := by
  rw [buf.sgl_eq]
  apply ext_getElem
  · simp; omega
  · intro i _ _
    simp

/-- The list `xferPrep` builds covers the bytes from the aligned offset on. -/
theorem slice_covers (buf : Buf) {off len : Nat} (hoff : off % buf.granule = 0)
    (hpages : off / buf.granule + (len + buf.granule - 1) / buf.granule ≤ buf.pagesNr) :
    let n := (len + buf.granule - 1) / buf.granule
    let slice := (buf.sgl.drop (off / buf.granule)).take n
    let tail := len % buf.granule
    (if tail = 0 then slice else slice.modify (n - 1) fun e => { e with len := tail }).flatMap
      (Sg.bytes buf.granule) = List.range' off len := by
  intro n slice tail
  have hg := buf.granule_pos
  have hstart : off / buf.granule * buf.granule = off :=
    Nat.div_mul_cancel (Nat.dvd_of_mod_eq_zero hoff)
  have hlen := Nat.div_add_mod' len buf.granule
  have hslice : slice = (List.range' (off / buf.granule) n).map fun i => ⟨i, buf.granule⟩ :=
    slice_eq buf hpages
  have hn : n = len / buf.granule + if tail = 0 then 0 else 1 := pages_eq hg len
  by_cases htail : tail = 0
  · rw [if_pos htail] at hn ⊢
    rw [hslice, flatMap_pages, hstart, hn, Nat.add_zero]
    rw [show len / buf.granule * buf.granule = len by omega]
  · rw [if_neg htail] at hn ⊢
    -- all pages but the last are whole, and the last is cut to `tail`
    have hcut : (slice.modify (n - 1) fun e => { e with len := tail }) =
        ((List.range' (off / buf.granule) (len / buf.granule)).map fun i => ⟨i, buf.granule⟩) ++
          [⟨off / buf.granule + len / buf.granule, tail⟩] := by
      rw [hslice, hn, range'_1_concat, map_append, Nat.add_sub_cancel,
        modify_eq_take_drop, take_left' (by simp), drop_left' (by simp)]
      simp
    rw [hcut, flatMap_append, flatMap_pages, hstart, flatMap_singleton,
      Sg.bytes, Nat.add_mul, hstart]
    rw [range'_append_1]
    congr 1

/-- A sub-transfer is let through with one reference taken, or refused with none kept. -/
theorem xferPrep_cases (c : Ctx) (entry : Entry) (x : Subxfer) (s : Store) :
    (∃ e, xferPrep c entry x s = (s, .error e)) ∨
      ∃ xr, xferPrep c entry x s = (s.get xr.buf, .ok xr) ∧ Prepared s x xr := by
  have hbuf : ∀ b, (s.get b b).sgl = (s b).sgl ∧ (s.get b b).granule = (s b).granule ∧
      (s.get b b).pagesNr = (s b).pagesNr ∧ (s.get b b).length = (s b).length := by
    intro b
    simp [Store.get]
  unfold xferPrep
  split
  · exact .inl ⟨_, rfl⟩
  split
  · exact .inl ⟨_, rfl⟩
  split
  · exact .inl ⟨_, rfl⟩
  · exact .inl ⟨_, rfl⟩
  rename_i b _
  simp only [Store.put_get, hbuf]
  split
  · exact .inl ⟨_, rfl⟩
  rename_i halign
  split
  · exact .inl ⟨_, rfl⟩
  split
  · exact .inl ⟨_, rfl⟩
  rename_i hpages
  split
  · exact .inl ⟨_, rfl⟩
  split
  · exact .inl ⟨_, rfl⟩
  split
  · exact .inl ⟨_, rfl⟩
  refine .inr ⟨⟨b, _, _, _, _, _, _⟩, rfl, ?_⟩
  have hoff : x.bufOffset % (s b).granule = 0 := by
    by_contra h
    exact halign (.inr h)
  refine ⟨slice_covers (s b) hoff (Nat.le_of_not_lt hpages), ?_, rfl⟩
  have hlen := congrArg List.length (slice_eq (s b) (Nat.le_of_not_lt hpages))
  rw [length_map, length_range'] at hlen
  split
  · exact hlen.symm
  · rw [length_modify, hlen]

/-! ## 3. A batch -/

/-- `slash_qdma_xfer_cleanup`, for the value of `xr->buf`. -/
def xferCleanup (s : Store) : Option Nat → Store
  | none => s
  | some b => s.put b

def bufsOf (xrs : List Xfer) : List (Option Nat) := xrs.map fun xr => some xr.buf

def takeAll (s : Store) (xrs : List Xfer) : Store := xrs.foldl (fun s xr => s.get xr.buf) s

def prepOne (c : Ctx) (x : Subxfer) (s : Store) : Store × Except Errno Xfer :=
  match c.entries[x.qpairIndex]? with
  | none => (s, .error .einval)
  | some entry => xferPrep c entry x s

/-- The loop that prepares every sub-transfer before any is submitted, the same on both paths. -/
def prepLoop (c : Ctx) (s : Store) (done : List Xfer) :
    List Subxfer → Store × Except Errno (List Xfer)
  | [] => (s, .ok done)
  | x :: xs =>
    match prepOne c x s with
    | (s, .error e) => ((bufsOf done).reverse.foldl xferCleanup s, .error e)
    | (s, .ok xr) => prepLoop c s (done ++ [xr]) xs

def fdMaxQpairs : Nat := 2

/-- Both paths up to the first submission, from the check of the count on. -/
def prepare (c : Ctx) (noCtx : Bool) (xs : List Subxfer) (s : Store) :
    Store × Except Errno (List Xfer) :=
  if c.entries = [] then (s, .error .enodev)
  else if xs.length = 0 ∨ fdMaxQpairs < xs.length then (s, .error .einval)
  else if noCtx then (s, .error .enomem)
  else prepLoop c s [] xs

theorem takeAll_apply (xrs : List Xfer) : ∀ (s : Store) (b : Nat),
    takeAll s xrs b = { s b with refs := (s b).refs + xrs.countP (·.buf == b) } := by
  induction xrs with
  | nil => intro s b; rfl
  | cons xr xrs ih =>
    intro s b
    rw [takeAll, foldl_cons, ← takeAll, ih, countP_cons]
    by_cases h : xr.buf = b
    · subst h; simp [Store.get]; omega
    · simp [Store.get, h, Ne.symm h]

theorem foldl_xferCleanup_apply (bufs : List (Option Nat)) : ∀ (s : Store) (b : Nat),
    bufs.foldl xferCleanup s b =
      { s b with refs := (s b).refs - bufs.countP (· == some b) } := by
  induction bufs with
  | nil => intro s b; rfl
  | cons o bufs ih =>
    intro s b
    rw [foldl_cons, ih, countP_cons]
    cases o with
    | none => simp [xferCleanup]
    | some b' =>
      by_cases h : b' = b
      · subst h; simp [xferCleanup, Store.put]; omega
      · simp [xferCleanup, Store.put, h, Ne.symm h]

/-- Dropping what was taken, in any order, leaves the buffers as they were. -/
theorem foldl_xferCleanup_takeAll {bufs : List (Option Nat)} {xrs : List Xfer}
    (h : bufs.Perm (bufsOf xrs)) (s : Store) :
    bufs.foldl xferCleanup (takeAll s xrs) = s := by
  funext b
  have hcount : bufs.countP (· == some b) = xrs.countP (·.buf == b) := by
    rw [h.countP_eq, bufsOf, countP_map]
    rfl
  rw [foldl_xferCleanup_apply, takeAll_apply, hcount]
  simp

theorem takeAll_snoc (s : Store) (xrs : List Xfer) (xr : Xfer) :
    takeAll s (xrs ++ [xr]) = (takeAll s xrs).get xr.buf := by
  simp [takeAll]

/-- A batch is refused with every reference dropped, or goes on with one held for each of its
sub-transfers. -/
theorem prepLoop_cases (c : Ctx) (s₀ : Store) :
    ∀ (xs : List Subxfer) (done : List Xfer),
      (∃ e, prepLoop c (takeAll s₀ done) done xs = (s₀, .error e)) ∨
        ∃ xrs, prepLoop c (takeAll s₀ done) done xs =
            (takeAll s₀ (done ++ xrs), .ok (done ++ xrs)) ∧ List.Forall₂ (Prepared s₀) xs xrs := by
  intro xs
  induction xs with
  | nil => intro done; exact .inr ⟨[], by simp [prepLoop], .nil⟩
  | cons x xs ih =>
    intro done
    have hundo := foldl_xferCleanup_takeAll (reverse_perm (bufsOf done)) s₀
    unfold prepLoop
    cases hentry : c.entries[x.qpairIndex]? with
    | none =>
      refine .inl ⟨.einval, ?_⟩
      simp only [prepOne, hentry, hundo]
    | some entry =>
      simp only [prepOne, hentry]
      rcases xferPrep_cases c entry x (takeAll s₀ done) with ⟨e, he⟩ | ⟨xr, hok, hprep⟩
      · exact .inl ⟨e, by simp only [he, hundo]⟩
      · have hprep₀ : Prepared s₀ x xr := by
          obtain ⟨hcov, hsg, hcount⟩ := hprep
          rw [takeAll_apply] at hcov
          exact ⟨hcov, hsg, hcount⟩
        simp only [hok, ← takeAll_snoc]
        rcases ih (done ++ [xr]) with ⟨e, he⟩ | ⟨xrs, heq, hall⟩
        · exact .inl ⟨e, he⟩
        · exact .inr ⟨xr :: xrs, by simpa using heq, .cons hprep₀ hall⟩

theorem prepare_cases (c : Ctx) (noCtx : Bool) (xs : List Subxfer) (s : Store) :
    (∃ e, prepare c noCtx xs s = (s, .error e)) ∨
      ∃ xrs, prepare c noCtx xs s = (takeAll s xrs, .ok xrs) ∧
        List.Forall₂ (Prepared s) xs xrs ∧ 0 < xs.length := by
  unfold prepare
  split
  · exact .inl ⟨_, rfl⟩
  split
  · exact .inl ⟨_, rfl⟩
  rename_i hlen
  split
  · exact .inl ⟨_, rfl⟩
  rcases prepLoop_cases c s xs [] with h | ⟨xrs, heq, hall⟩
  · exact .inl h
  · exact .inr ⟨xrs, heq, hall, by omega⟩

end Slash.Driver
